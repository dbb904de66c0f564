import AdaptiveExecutor.Executor.Flight

/-!
# When a worker cannot be started

The start of a worker may raise inside the loop over the decisions, and the queue only changes after the loop.

* `acquireWorker_raises` : when no worker can be had for a decision and one cannot be started;
* `Handling.acted` : the decisions acted on are the first ones of the plan;
* `Consistent`, `maybeDispatch_consistent` : what the exception leaves behind;
* `spawn_failure_consistent` : the queue stays consistent only when the first decision of the plan meets the failure.
-/

namespace AdaptiveExecutor
open Ledger (Tidy)

namespace Executor
variable {α : Type} {env : Env} {e e' e'' : Executor α} {accepted held : List WorkId} {gpuId : Option GpuId}

/-! ## A worker for a decision -/

def NoneIdleOn (e : Executor α) (gpuId : Option GpuId) : Prop :=
  ∀ w ∈ e.workers, (e.slots w).pinnedGpuId = gpuId → e.idle w = false

/-- A worker has to be started, and that raises: nobody is idle on the GPU, there is room in the pool or an idle worker
to evict, and the start fails. -/
def SpawnFails (env : Env) (e : Executor α) (gpuId : Option GpuId) : Prop :=
  e.NoneIdleOn gpuId ∧ (e.cfg.maxWorkers ≤ e.workers.length → ∃ w ∈ e.workers, e.idle w = true) ∧
    env.spawnPid e.nextWorkerId = none

theorem find_pinned_none : (e.workers.find? fun w => decide ((e.slots w).pinnedGpuId = gpuId) && e.idle w) = none ↔
    e.NoneIdleOn gpuId := by
  rw [List.find?_eq_none, NoneIdleOn]
  apply forall₂_congr
  intro w _
  simp

theorem spawnWorker_error {e₁ : Executor α} (h : e.spawnWorker env gpuId = .error e₁) :
    env.spawnPid e.nextWorkerId = none ∧ e₁ = { e with nextWorkerId := e.nextWorkerId + 1 } := by
  unfold spawnWorker at h
  dsimp only at h
  split at h
  · rename_i hpid
    exact ⟨hpid, (Except.error.inj h).symm⟩
  · cases h

/-- **What an exception leaves** of the state: perhaps a worker has been evicted. -/
theorem acquireWorker_error (h : e.acquireWorker env gpuId = .error e') : e.SpawnFails env gpuId ∧
    ∃ slots workers retiring next, e' =
      { e with slots := slots, workers := workers, retiring := retiring, nextWorkerId := next } := by
  unfold acquireWorker at h
  split at h
  · cases h
  rename_i hnone
  rw [find_pinned_none] at hnone
  split_ifs at h with hfull
  · split at h
    · cases h
    · rename_i victim hvictim
      cases hv : (e.retireWorker victim).spawnWorker env gpuId with
      | ok => rw [hv] at h; cases h
      | error e₁ =>
        rw [hv] at h
        obtain rfl := Except.error.inj h
        obtain ⟨hpid, rfl⟩ := spawnWorker_error hv
        exact ⟨⟨hnone, fun _ => ⟨victim, List.mem_of_find?_eq_some hvictim, List.find?_some hvictim⟩, hpid⟩, _, _, _, _, rfl⟩
  · cases hv : e.spawnWorker env gpuId with
    | ok => rw [hv] at h; cases h
    | error e₁ =>
      rw [hv] at h
      obtain rfl := Except.error.inj h
      obtain ⟨hpid, rfl⟩ := spawnWorker_error hv
      exact ⟨⟨hnone, fun hle => absurd hle hfull, hpid⟩, _, _, _, _, rfl⟩

theorem acquireWorker_raises : (∃ e', e.acquireWorker env gpuId = .error e') ↔ e.SpawnFails env gpuId := by
  constructor
  · rintro ⟨e', h⟩
    exact (acquireWorker_error h).1
  · rintro ⟨hnone, hidle, hpid⟩
    have hspawn (e₀ : Executor α) (hnext : e₀.nextWorkerId = e.nextWorkerId) :
        ∃ e', e₀.spawnWorker env gpuId = .error e' := by
      unfold spawnWorker
      dsimp only
      rw [hnext, hpid]
      exact ⟨_, rfl⟩
    unfold acquireWorker
    rw [find_pinned_none.mpr hnone]
    dsimp only
    split_ifs with hfull
    · split
      · rename_i hfind
        obtain ⟨w, hw, hidle⟩ := hidle hfull
        exact absurd hidle (List.find?_eq_none.mp hfind w hw)
      · rename_i victim _
        obtain ⟨e', he⟩ := hspawn (e.retireWorker victim) rfl
        rw [he]
        exact ⟨e', rfl⟩
    · obtain ⟨e', he⟩ := hspawn e rfl
      rw [he]
      exact ⟨e', rfl⟩

/-- **When there is no worker for a decision**, then there is none for any. -/
theorem acquireWorker_none (h : e.acquireWorker env gpuId = .ok (e', none)) :
    e' = e ∧ ∀ gpuId', e.acquireWorker env gpuId' = .ok (e, none) := by
  unfold acquireWorker at h
  split at h
  · cases h
  split_ifs at h with hfull
  · split at h
    · rename_i hnone
      refine ⟨(Prod.mk.inj (Except.ok.inj h)).1.symm, fun gpuId' => ?_⟩
      have hpinned : e.NoneIdleOn gpuId' := fun w hw _ => by
        simpa using List.find?_eq_none.mp hnone w hw
      unfold acquireWorker
      rw [find_pinned_none.mpr hpinned]
      dsimp only
      rw [if_pos hfull, hnone]
    · rename_i victim _
      cases hv : (e.retireWorker victim).spawnWorker env gpuId with
      | error => rw [hv] at h; cases h
      | ok => rw [hv] at h; cases h
  · cases hv : e.spawnWorker env gpuId with
    | error => rw [hv] at h; cases h
    | ok => rw [hv] at h; cases h

/-! ## The decisions acted on -/

theorem Handling.left {hs : List (DispatchDecision × Fate)} (h : Handling env e hs e')
    (hnone : ∀ gpuId, e.acquireWorker env gpuId = .ok (e, none)) : e' = e ∧ ∀ d ∈ hs, d.2 = .left := by
  induction h with
  | nil => exact ⟨rfl, fun _ hd => by cases hd⟩
  | @cons e e₁ e' d fate ds h hrest ih =>
    cases h with
    | left hacquire =>
      obtain ⟨rfl, -⟩ := acquireWorker_none hacquire
      obtain ⟨heq, hleft⟩ := ih hnone
      exact ⟨heq, List.forall_mem_cons.mpr ⟨rfl, hleft⟩⟩
    | dropped hacquire =>
      rw [hnone] at hacquire
      cases hacquire
    | shipped hacquire =>
      rw [hnone] at hacquire
      cases hacquire

/-- **The decisions acted on are the first ones of the plan**: once there is no worker for one, there is none for the
decisions that follow. -/
theorem Handling.acted {hs : List (DispatchDecision × Fate)} (h : Handling env e hs e') :
    ∃ acted left, hs = acted ++ left ∧ (∀ d ∈ acted, d.2.leaves = true) ∧ (∀ d ∈ left, d.2 = .left) ∧
      (left ≠ [] → ∀ gpuId, e'.acquireWorker env gpuId = .ok (e', none)) := by
  induction h with
  | nil => exact ⟨[], [], rfl, fun _ hd => (by cases hd), fun _ hd => (by cases hd), fun h => absurd rfl h⟩
  | @cons e e₁ e' d fate ds h hrest ih =>
    cases hfate : fate.leaves with
    | false =>
      cases h with
      | left hacquire =>
        obtain ⟨rfl, hnone⟩ := acquireWorker_none hacquire
        obtain ⟨rfl, hleft⟩ := hrest.left hnone
        exact ⟨[], _, rfl, fun _ hd => (by cases hd), List.forall_mem_cons.mpr ⟨rfl, hleft⟩, fun _ => hnone⟩
      | dropped | shipped => cases hfate
    | true =>
      obtain ⟨acted, left, rfl, hacted, hleft, hnone⟩ := ih
      exact ⟨(d, fate) :: acted, left, rfl, List.forall_mem_cons.mpr ⟨hfate, hacted⟩, hleft, hnone⟩

theorem Handled.apart {d : DispatchDecision} {fate : Fate} (h : Handled env e d fate e') :
    ∀ x, x ≠ d.pendingId → e'.works x = e.works x ∧ e'.futures x = e.futures x := by
  intro x hx
  refine ⟨h.works.1 x hx, ?_⟩
  cases h with
  | left hacquire =>
    obtain ⟨_, _, _, _, rfl⟩ := acquireWorker_frame hacquire
    rfl
  | dropped hacquire =>
    obtain ⟨_, _, _, _, rfl⟩ := acquireWorker_frame hacquire
    exact Function.update_of_ne hx _ _
  | shipped hacquire hstarted =>
    obtain ⟨_, _, _, _, rfl⟩ := acquireWorker_frame hacquire
    rcases hstarted with ⟨-, rfl⟩ | ⟨-, -, rfl⟩
    · rfl
    · exact Function.update_of_ne hx _ _

theorem Handling.apart {hs : List (DispatchDecision × Fate)} (h : Handling env e hs e') :
    ∀ x ∉ (hs.map Prod.fst).map DispatchDecision.pendingId, e'.works x = e.works x ∧ e'.futures x = e.futures x := by
  induction h with
  | nil => exact fun _ _ => ⟨rfl, rfl⟩
  | cons h _ ih =>
    intro x hx
    rw [List.map_cons, List.map_cons, List.mem_cons, not_or] at hx
    obtain ⟨hworks, hfutures⟩ := h.apart x hx.1
    obtain ⟨hworks', hfutures'⟩ := ih x hx.2
    exact ⟨hworks'.trans hworks, hfutures'.trans hfutures⟩

theorem Handling.shippable {hs : List (DispatchDecision × Fate)} (h : Handling env e hs e') {x : WorkId}
    (hx : x ∉ (hs.map Prod.fst).map DispatchDecision.pendingId) (hship : e.Shippable x) : e'.Shippable x := by
  obtain ⟨hworks, hfutures⟩ := h.apart x hx
  unfold Shippable
  rwa [hworks, hfutures]

/-- A task that a decision takes off the queue is in flight, or its future has been told. -/
theorem Handled.gone {d : DispatchDecision} {fate : Fate} (h : Handled env e d fate e') (hleaves : fate.leaves = true) :
    d.pendingId ∈ e'.inFlight ∨ (e'.futures d.pendingId).told = true := by
  cases h with
  | left => cases hleaves
  | dropped =>
    right
    dsimp only
    rw [Function.update_self]
    rfl
  | shipped => exact .inl (mem_insertKey.mpr (.inr rfl))

theorem Handled.inFlight_subset {d : DispatchDecision} {fate : Fate} (h : Handled env e d fate e') :
    e.inFlight ⊆ e'.inFlight := by
  intro x hx
  rw [h.works.2.2.1]
  split_ifs
  · exact mem_insertKey.mpr (.inl hx)
  · exact hx

theorem Handling.inFlight_subset {hs : List (DispatchDecision × Fate)} (h : Handling env e hs e') :
    e.inFlight ⊆ e'.inFlight := by
  induction h with
  | nil => exact List.Subset.refl _
  | cons h _ ih => exact fun x hx => ih (h.inFlight_subset hx)

/-! ## What the exception leaves -/

/-- Every task that was queued is in one place, the queue keeps its order, and no later plan names a task in flight. -/
structure Consistent (e e' : Executor α) : Prop where
  shipped : ∀ x ∈ e'.inFlight, x ∉ e'.pending ∧ e'.futures x = .running
  dropped : ∀ x ∈ e'.pending, (e'.futures x).told = false
  order : e'.pending.Sublist e.pending
  kept : ∀ x ∈ e.pending, x ∈ e'.pending ∨ x ∈ e'.inFlight ∨ (e'.futures x).done = true
  later : ∀ env, ∀ x ∈ e'.decided env, x ∉ e'.inFlight

/-- It is the first decision of the plan for which a worker cannot be started. -/
def FailsFirst (env : Env) (e : Executor α) : Prop :=
  ∃ d ds, e.decisions env = d :: ds ∧ e.SpawnFails env d.gpuId

theorem ready_spawnFails : (e.ready env).SpawnFails env gpuId ↔ e.SpawnFails env gpuId := by
  obtain ⟨works, next, hready, -⟩ := ready_frame env e
  obtain ⟨_, _, _, _, hplanned, -⟩ := planned_frame env e
  rw [hready, hplanned]
  rfl

/-- Until the loop begins, the ledger makes its moves and the flags agree with it. -/
theorem ready_moves (env : Env) (hmark : Marked e accepted) (htidy : Tidy (e.book accepted held)) :
    Ledger.Run (e.book accepted held) ((e.ready env).book accepted held) ∧ Marked (e.ready env) accepted :=
  DispatchSteps.moves ((prepare_steps env [] htidy.nodup.of_append_left).tail
    (.refresh (buildDispatchPlan_refreshed env e.prepare))) hmark htidy

theorem ready_kept (env : Env) {x : WorkId} (hx : x ∈ e.pending) :
    x ∈ (e.ready env).pending ∨ ((e.ready env).futures x).done = true := by
  obtain ⟨works, next, hready, -⟩ := ready_frame env e
  obtain ⟨works', hplanned, -⟩ := refreshObservations_frame env e.prepare e.prepare.clock
  obtain ⟨-, works₀, profiles, hreestimate⟩ := reestimatePending_frame e e.clock
  obtain ⟨hkept, -, hdone⟩ := sweepInfeasible_spec (e.reestimatePending e.clock).snapshot
    (e.reestimatePending e.clock).pending (e.reestimatePending e.clock)
  have hqueued : x ∈ (e.reestimatePending e.clock).pending := by
    rw [hreestimate]
    exact hx
  rw [hready, planned, hplanned]
  cases hinf : (e.reestimatePending e.clock).infeasible (e.reestimatePending e.clock).snapshot x with
  | false =>
    left
    change x ∈ (sweepInfeasible _ _ _).2
    rw [hkept, List.mem_filter, hinf]
    exact ⟨hqueued, rfl⟩
  | true => exact .inr (hdone x (.inl ⟨hqueued, hinf⟩))

/-- The queue is consistent when the loop begins, and an eviction does not change that. -/
theorem ready_consistent (env : Env) (hmark : Marked e accepted) (htidy : Tidy (e.book accepted held))
    (hpending : e'.pending = (e.ready env).pending) (hflight : e'.inFlight = (e.ready env).inFlight)
    (hfutures : e'.futures = (e.ready env).futures) : Consistent e e' := by
  obtain ⟨hrun, -⟩ := ready_moves env hmark htidy
  have htidy' := Ledger.run_tidy hrun htidy
  have hsub : (e.ready env).pending.Sublist e.pending := by
    rw [ready_pending]
    exact (planned_steps env [] htidy.nodup.of_append_left).pending
  have hapart : ∀ x ∈ e'.pending, x ∉ e'.inFlight := fun x hx hf => by
    rw [hpending] at hx
    rw [hflight] at hf
    exact htidy'.not_mem_flight hx (List.mem_append_left _ hf)
  refine ⟨fun x hx => ⟨fun hp => hapart x hp hx, ?_⟩, fun x hx => ?_, hpending ▸ hsub, fun x hx => ?_,
    fun env' x hx => hapart x ?_⟩
  · rw [hflight] at hx
    rw [hfutures]
    exact htidy'.running x (List.mem_append_left _ hx)
  · rw [hpending] at hx
    rw [hfutures]
    exact htidy'.queued x hx
  · rw [hpending, hfutures]
    exact (ready_kept env hx).imp_right .inr
  · have hnodup : e'.pending.Nodup := hpending ▸ htidy.nodup.of_append_left.sublist hsub
    exact (planned_steps env' [] hnodup).pending.subset ((decided_sublist env' e').subset hx)

/-- A cycle that raises does so because a worker cannot be started: the handshake of a queued task never raises. The
decisions before have all been acted on. -/
theorem maybeDispatch_spawnFails (hmark : Marked e accepted) (htidy : Tidy (e.book accepted held))
    (h : e.maybeDispatch env = .error e') :
    ∃ hs d rest e₁, Handling env (e.ready env) hs e₁ ∧ (∀ d ∈ hs, d.2.leaves = true) ∧
      e.decisions env = hs.map Prod.fst ++ d :: rest ∧ e₁.acquireWorker env d.gpuId = .error e' := by
  obtain ⟨hs, d, rest, e₁, hhandling, hsplit, hraise⟩ := maybeDispatch_raises h
  obtain ⟨hrun, hmark'⟩ := ready_moves env hmark htidy
  have htidy' := Ledger.run_tidy hrun htidy
  have hraise : e₁.acquireWorker env d.gpuId = .error e' := by
    refine hraise.resolve_right ?_
    rintro ⟨e₂, w, hacquire, hhand⟩
    have hnodup := htidy.nodup.of_append_left.sublist (decisions_sublist env htidy.nodup.of_append_left)
    rw [hsplit, List.map_append, List.map_cons, List.nodup_append] at hnodup
    have hship : (e.ready env).Shippable d.pendingId :=
      ⟨htidy'.queued _ (decisions_pending env e d (by rw [hsplit]; exact List.mem_append_right _ List.mem_cons_self)),
        hmark'.running _⟩
    have hship₁ := hhandling.shippable (fun hm => hnodup.2.2 _ hm _ List.mem_cons_self rfl) hship
    have hship₂ : e₂.Shippable d.pendingId := by
      obtain ⟨_, _, _, _, rfl⟩ := acquireWorker_frame hacquire
      exact hship₁
    obtain ⟨e₃, hok, -⟩ := handshake_ok env hship₂ d.gpuId w
    rw [hok] at hhand
    cases hhand
  obtain ⟨acted, left, rfl, hacted, -, hnone⟩ := hhandling.acted
  obtain rfl : left = [] := by
    by_contra hleft
    rw [hnone hleft] at hraise
    cases hraise
  rw [List.append_nil] at hhandling hsplit
  exact ⟨acted, d, rest, e₁, hhandling, hacted, hsplit, hraise⟩

theorem FailsFirst.nil {hs : List (DispatchDecision × Fate)} {d : DispatchDecision} {rest : List DispatchDecision}
    (h : e.FailsFirst env) (hhandling : Handling env (e.ready env) hs e')
    (hsplit : e.decisions env = hs.map Prod.fst ++ d :: rest) : hs = [] := by
  obtain ⟨d', ds, hdecisions, hfails⟩ := h
  obtain ⟨e₁, herror⟩ := acquireWorker_raises.mpr (ready_spawnFails.mpr hfails)
  cases hhandling with
  | nil => rfl
  | cons hfirst _ =>
    rw [hsplit] at hdecisions
    obtain ⟨rfl, -⟩ := List.cons.inj hdecisions
    cases hfirst with
    | left hacquire | dropped hacquire | shipped hacquire =>
      rw [herror] at hacquire
      cases hacquire

/-- **A worker that cannot be started leaves the queue consistent** only at the first decision of the plan. -/
theorem maybeDispatch_consistent (hmark : Marked e accepted) (htidy : Tidy (e.book accepted held))
    (h : e.maybeDispatch env = .error e') : Consistent e e' ↔ e.FailsFirst env := by
  obtain ⟨hs, d, rest, e₁, hhandling, hacted, hsplit, hraise⟩ := maybeDispatch_spawnFails hmark htidy h
  obtain ⟨hfails, slots, workers, retiring, next, hframe⟩ := acquireWorker_error hraise
  cases hhandling with
  | nil =>
    refine ⟨fun _ => ⟨d, rest, hsplit, ready_spawnFails.mp hfails⟩, fun _ => ?_⟩
    rw [hframe]
    exact ready_consistent env hmark htidy rfl rfl rfl
  | @cons _ e₂ _ d₀ fate ds hfirst hrest =>
    obtain ⟨hleaves, -⟩ := List.forall_mem_cons.mp hacted
    have hpending : e₁.pending = (e.ready env).pending := hrest.pending.trans hfirst.pending
    have hnodup := htidy.nodup.of_append_left.sublist (decisions_sublist env htidy.nodup.of_append_left)
    rw [hsplit, List.map_append, List.map_cons, List.map_cons, List.cons_append, List.nodup_cons] at hnodup
    have hqueued : d₀.pendingId ∈ e'.pending := by
      rw [hframe]
      change d₀.pendingId ∈ e₁.pending
      rw [hpending]
      exact decisions_pending env e d₀ (by rw [hsplit]; exact List.mem_cons_self)
    constructor
    · -- the task of the first decision is still queued, but it has been shipped or dropped
      intro hconsistent
      rcases hfirst.gone hleaves with hflight | htold
      · refine absurd hqueued (hconsistent.shipped _ ?_).1
        rw [hframe]
        exact hrest.inFlight_subset hflight
      · have huntold := hconsistent.dropped _ hqueued
        have hsame := (hrest.apart _ fun hm => hnodup.1 (List.mem_append_left _ hm)).2
        rw [hframe] at huntold
        dsimp only at huntold
        rw [hsame, htold] at huntold
        cases huntold
    · intro hfails'
      cases hfails'.nil (.cons hfirst hrest) hsplit

def raised {σ β : Type} : Raising σ β → Option σ
  | .error s => some s
  | .ok _ => none

theorem of_raised {σ β : Type} {r : Raising σ β} {s : σ} (h : raised r = some s) : r = .error s := by
  cases r with
  | error => exact congrArg Except.error (Option.some.inj h)
  | ok => cases h

theorem of_toOption {σ β : Type} {r : Raising σ β} {b : β} (h : r.toOption = some b) : r = .ok b := by
  cases r with
  | error => cases h
  | ok => exact congrArg Except.ok (Option.some.inj h)

end Executor

namespace System
open Executor (Consistent raised)
variable {α : Type} {s : System α} {env : Env}

/-- The exception leaves the system as sound as it was when the queue is consistent. -/
theorem Sound.raise (hs : Sound s) {executor : Executor α} (hraise : s.executor.maybeDispatch env = .error executor)
    (hfirst : s.executor.FailsFirst env) : Sound { s with executor := executor } := by
  obtain ⟨ds, d, rest, e₁, hhandling, -, hsplit, hacquire⟩ :=
    Executor.maybeDispatch_spawnFails hs.marked hs.tidy hraise
  obtain rfl := hfirst.nil hhandling hsplit
  cases hhandling
  obtain ⟨-, slots, workers, retiring, next, hframe⟩ := Executor.acquireWorker_error hacquire
  obtain ⟨hrun, hmark⟩ := Executor.ready_moves env hs.marked hs.tidy
  rw [hframe]
  refine ⟨Ledger.run_tidy hrun hs.tidy, hmark.of_same (fun _ => ⟨rfl, rfl⟩) rfl (List.Subset.refl _) (List.Subset.refl _),
    fun x hx => ?_, hs.fresh, hs.issued⟩
  exact (Ledger.run_future_eq hrun hs.tidy hx).trans (hs.unknown x hx)

/-- **When the start of a worker fails inside a cycle**, the queue is consistent exactly when it is the worker for the
first decision of the plan; everything that holds of sound states then goes on to hold. -/
theorem spawn_failure_consistent (h : Reachable s) {executor : Executor α}
    (hraise : s.executor.maybeDispatch env = .error executor) :
    (Consistent s.executor executor ↔ s.executor.FailsFirst env) ∧
      (s.executor.FailsFirst env → Sound { s with executor := executor }) :=
  ⟨Executor.maybeDispatch_consistent h.sound.1.marked h.sound.1.tidy hraise, h.sound.1.raise hraise⟩

/-! ## A run -/

def twoWorkers : Config where
  maxWorkers := 2
  gpuIds := []

def tenSeconds : ProfileStore := ({} : ProfileStore).record "m" "f" ⟨1, 0, 1, 10⟩ none

/-- Two tasks of ten seconds are queued, and between them one that has to wait for the first, and a cancelled one. -/
def queueFour : List (Event Unit) :=
  [.poll plainReading, .submit "x" plainRequest plainReading, .append "x",
    .submit "y" ⟨"m", "g", some (17 / 2), none, none⟩ plainReading, .append "y",
    .submit "z" ⟨"m", "g", some 4, none, none⟩ plainReading, .append "z", .cancel "z",
    .submit "w" plainRequest plainReading, .append "w"]

def failingEnv (w : WorkerId) : Env := { plainEnv with spawnPid := fun w' => if w' = w then none else some w' }

def hintedRequest : Executor.Request := ⟨"m", "f", some 1, none, none⟩

def submitTwo : List (Event Unit) :=
  [.submit "x" hintedRequest plainReading, .append "x", .submit "y" hintedRequest plainReading, .append "y"]

/-- No worker can be started at all: both tasks stay queued. -/
theorem spawn_failure_first : ∃ (s : System Unit) (e : Executor Unit), s.executor.maybeDispatch (failingEnv 0) = .error e ∧
    e.pending = ["x", "y"] ∧ Consistent s.executor e := by
  have hfacts : ((init twoWorkers {} : System Unit).play submitTwo).any (fun s => decide (
      (raised (s.executor.maybeDispatch (failingEnv 0))).map (·.pending) = some ["x", "y"] ∧ s.executor.workers = [] ∧
        s.executor.nextWorkerId = 0 ∧ s.executor.cfg.maxWorkers = 2 ∧ s.executor.decisions (failingEnv 0) ≠ [])) = true := by
    decide +kernel
  obtain ⟨s, hs, hfacts⟩ := (Option.any_eq_true _ _).mp hfacts
  obtain ⟨hraised, hworkers, hnext, hmax, hdecisions⟩ := of_decide_eq_true hfacts
  obtain ⟨e, he, hpending⟩ := Option.map_eq_some_iff.mp hraised
  refine ⟨s, e, Executor.of_raised he, hpending,
    (spawn_failure_consistent (play_reachable hs) (Executor.of_raised he)).1.mpr ?_⟩
  obtain ⟨d, ds, hdecisions⟩ := List.exists_cons_of_ne_nil hdecisions
  refine ⟨d, ds, hdecisions, fun w hw => ?_, fun hfull => ?_, ?_⟩
  · rw [hworkers] at hw
    cases hw
  · rw [hworkers, hmax] at hfull
    cases hfull
  · rw [hnext]
    rfl

/-- The second of two workers cannot be started: the first task is in flight and still queued, and the next cycle ships
it to another worker. -/
theorem spawn_failure_ships_twice : ∃ (s : System Unit) (e e' : Executor Unit), Reachable s ∧
    s.executor.maybeDispatch (failingEnv 1) = .error e ∧ e.pending = ["x", "y"] ∧ e.inFlight = ["x"] ∧
      ¬ Consistent s.executor e ∧ e.maybeDispatch plainEnv = .ok e' ∧
        (e'.slots 0).process.unfinished = ["x"] ∧ (e'.slots 2).process.unfinished = ["x"] := by
  have hfacts : ((init twoWorkers {} : System Unit).play submitTwo).any (fun s =>
      (raised (s.executor.maybeDispatch (failingEnv 1))).any fun e =>
        decide (e.pending = ["x", "y"] ∧ e.inFlight = ["x"]) && (e.maybeDispatch plainEnv).toOption.any fun e' =>
          decide ((e'.slots 0).process.unfinished = ["x"] ∧ (e'.slots 2).process.unfinished = ["x"])) = true := by
    decide +kernel
  obtain ⟨s, hs, hfacts⟩ := (Option.any_eq_true _ _).mp hfacts
  obtain ⟨e, he, hfacts⟩ := (Option.any_eq_true _ _).mp hfacts
  rw [Bool.and_eq_true, decide_eq_true_eq] at hfacts
  obtain ⟨⟨hpending, hflight⟩, hlater⟩ := hfacts
  obtain ⟨e', he', hqueues⟩ := (Option.any_eq_true _ _).mp hlater
  obtain ⟨hfirst, hsecond⟩ := of_decide_eq_true hqueues
  refine ⟨s, e, e', play_reachable hs, Executor.of_raised he, hpending, hflight, fun hconsistent => ?_,
    Executor.of_toOption he', hfirst, hsecond⟩
  have hgone := (hconsistent.shipped "x" (by rw [hflight]; exact List.mem_cons_self)).1
  rw [hpending] at hgone
  exact hgone List.mem_cons_self

end System

end AdaptiveExecutor
