import AdaptiveExecutor.Executor.Commitments
import AdaptiveExecutor.Executor.Drain
import AdaptiveExecutor.Executor.Spawn

/-!
# No dispatch stall

Between operations that do not overlap, the busy workers of the pool and the tasks in flight are one to one. So a cycle
that finds no worker for a decision has a dead one in the pool: the plan never admits more tasks than there is room for.

* `Staffed` : the invariant of the pool between operations;
* `Obtains`, `Handled.obtains` : a decision that is acted on has got a worker of its GPU;
* `DispatchSteps.alive` : a cycle leaves the pool alive;
* `workers_le_flight` : a pool of busy workers is not larger than the flight;
* `pool_invariant` : both, over all runs of operations that do not overlap.
-/

namespace AdaptiveExecutor
open Relation (ReflTransGen)

namespace Executor
variable {α : Type} {env : Env} {e e' : Executor α} {accepted : List WorkId}

/-- The workers of the pool are as many as there may be, none of them retired, stopped or poisoned, and the busy ones
are one to one with the tasks in flight, each on a worker that is pinned to its GPU. -/
structure Staffed (e : Executor α) : Prop where
  nodup : e.workers.Nodup
  size : e.workers.length ≤ e.cfg.maxWorkers.toNat
  retired : ∀ w ∈ e.workers, w ∉ e.retiring
  unstopped : ∀ w ∈ e.workers, (e.slots w).intentionallyStopped = false ∧ (e.slots w).queuePoisoned = false
  busy : ∀ w ∈ e.workers, ∀ x, (e.slots w).currentWorkId = some x → x ∈ e.inFlight ∧ (e.works x).workerId = some w
  manned : ∀ x ∈ e.inFlight, ∃ w ∈ e.workers, (e.works x).workerId = some w ∧ (e.slots w).currentWorkId = some x ∧
    (e.slots w).pinnedGpuId = (e.works x).assignedGpuId

theorem workers_le_flight (hnodup : e.workers.Nodup) (hbusy : ∀ w ∈ e.workers, ∃ x ∈ e.inFlight,
    (e.works x).workerId = some w) : e.workers.length ≤ e.inFlight.length := by
  have hsub : e.workers ⊆ e.inFlight.filterMap fun x => (e.works x).workerId := by
    intro w hw
    obtain ⟨x, hx, hid⟩ := hbusy w hw
    exact List.mem_filterMap.mpr ⟨x, hx, hid⟩
  exact (List.subperm_of_subset hnodup hsub).length_le.trans (List.length_filterMap_le _ _)

/-! ## The decisions acted on -/

/-- The decision gets a worker of the pool that is idle and pinned to its GPU. -/
def Obtains (env : Env) (e : Executor α) (d : DispatchDecision) : Prop :=
  ∃ e₁ w, e.acquireWorker env d.gpuId = .ok (e₁, some w) ∧ w ∈ e₁.workers ∧ e₁.idle w = true ∧
    (e₁.slots w).pinnedGpuId = d.gpuId

/-- What becomes of the task of a decision: it is on a worker of its GPU, or dropped as cancelled, or still queued. -/
def Becomes (e' : Executor α) (d : DispatchDecision) : Fate → Prop
  | .shipped w => w ∈ e'.workers ∧ (e'.slots w).currentWorkId = some d.pendingId ∧ (e'.slots w).pinnedGpuId = d.gpuId ∧
      d.pendingId ∈ e'.inFlight ∧ (e'.works d.pendingId).workerId = some w ∧
        (e'.works d.pendingId).assignedGpuId = d.gpuId ∧ d.pendingId ∉ e'.pending
  | .dropped => e'.futures d.pendingId = .cancelledAndNotified ∧ d.pendingId ∉ e'.pending ∧ d.pendingId ∉ e'.inFlight
  | .left => d.pendingId ∈ e'.pending

theorem Handled.obtains {d : DispatchDecision} {fate : Fate} (h : Handled env e d fate e') (hroster : Roster e)
    (hleaves : fate.leaves = true) : Obtains env e d := by
  have hworker {e₁ : Executor α} {w : WorkerId} (hacquire : e.acquireWorker env d.gpuId = .ok (e₁, some w)) :
      Obtains env e d := by
    obtain ⟨hmem, hidle⟩ := (acquireWorker_steps [] hacquire).2.2 w rfl
    exact ⟨e₁, w, hacquire, hmem, hidle, ((acquireWorker_staffs hacquire hroster).2 w rfl).2⟩
  cases h with
  | left => cases hleaves
  | dropped hacquire => exact hworker hacquire
  | shipped hacquire => exact hworker hacquire

/-! ## A pool that is alive -/

theorem DispatchStep.alive {decided : List WorkId} (h : DispatchStep env decided e e')
    (halive : ∀ w ∈ e.workers, (e.slots w).process.alive = true) : ∀ w ∈ e'.workers, (e'.slots w).process.alive = true := by
  cases h with
  | refresh h =>
    obtain ⟨_, _, _, -, rfl⟩ := h
    exact halive
  | fail => exact halive
  | drop => exact halive
  | @retire w hw hidle =>
    intro v hv
    have hsame : ((e.retireWorker w).slots v).process.alive = (e.slots v).process.alive :=
      modifySlot_keeps e (f := fun slot =>
        { slot with
          intentionallyStopped := true
          process := { slot.process with workQueue := slot.process.workQueue ++ [none] } }) (·.process.alive)
        (fun _ => rfl) w v
    rw [hsame]
    exact halive v (List.erase_subset hv)
  | spawn pid gpuId =>
    intro v hv
    have hslots : (e.spawned pid gpuId).slots v =
        if v = e.nextWorkerId then { process := { pid := pid }, pinnedGpuId := gpuId } else e.slots v :=
      Function.update_apply _ _ _ _
    rw [hslots]
    split_ifs with hnew
    · rfl
    · exact halive v ((mem_insertKey.mp hv).resolve_right hnew)
  | @ship id s₁ w gpuId _ _ _ _ hs =>
    have hstart : s₁.slots = e.slots ∧ s₁.workers = e.workers := by
      rcases hs with ⟨-, rfl⟩ | ⟨-, -, rfl⟩
      · exact ⟨rfl, rfl⟩
      · exact ⟨rfl, rfl⟩
    obtain ⟨item, -, hslots⟩ := ship_slots env s₁ id gpuId w
    intro v hv
    have hmem : v ∈ e.workers := hstart.2 ▸ hv
    change ((s₁.ship env id gpuId w).slots v).process.alive = true
    rw [hslots, hstart.1]
    split_ifs with hvw
    · rw [← hvw]
      exact halive v hmem
    · exact halive v hmem

theorem DispatchSteps.alive {decided : List WorkId} (h : DispatchSteps env decided e e')
    (halive : ∀ w ∈ e.workers, (e.slots w).process.alive = true) : ∀ w ∈ e'.workers, (e'.slots w).process.alive = true := by
  induction h with
  | refl => exact halive
  | tail _ h ih => exact h.alive ih

/-- When there is no worker for a decision, the pool is full and none of it is idle. -/
theorem acquireWorker_full {gpuId : Option GpuId} (h : e.acquireWorker env gpuId = .ok (e', none)) :
    e.cfg.maxWorkers ≤ e.workers.length ∧ ∀ w ∈ e.workers, e.idle w = false := by
  unfold acquireWorker at h
  split at h
  · cases h
  split_ifs at h with hfull
  · refine ⟨hfull, fun w hw => ?_⟩
    split at h
    · rename_i hnone
      simpa using List.find?_eq_none.mp hnone w hw
    · rename_i victim _
      cases hv : (e.retireWorker victim).spawnWorker env gpuId with
      | error => rw [hv] at h; cases h
      | ok => rw [hv] at h; cases h
  · cases hv : e.spawnWorker env gpuId with
    | error => rw [hv] at h; cases h
    | ok => rw [hv] at h; cases h

/-- Without an idle worker, every worker of a live pool has a task of its own in flight. -/
theorem Staffed.workers_le (hstaffed : Staffed e) (halive : ∀ w ∈ e.workers, (e.slots w).process.alive = true)
    (hidle : ∀ w ∈ e.workers, e.idle w = false) : e.workers.length ≤ e.inFlight.length := by
  refine workers_le_flight hstaffed.nodup fun w hw => ?_
  have hnot := hidle w hw
  rw [idle, (hstaffed.unstopped w hw).1, halive w hw] at hnot
  simp only [Bool.not_false, Bool.and_true, Option.isNone_eq_false_iff, Option.isSome_iff_exists] at hnot
  obtain ⟨x, hx⟩ := hnot
  exact ⟨x, hstaffed.busy w hw x hx⟩

/-! ## A cycle -/

theorem fated_unique {hs : List (DispatchDecision × Fate)} (hnodup : ((hs.map Prod.fst).map DispatchDecision.pendingId).Nodup)
    {p : Fate → Bool} {d : DispatchDecision × Fate} (hd : d ∈ hs) (hmem : d.1.pendingId ∈ fated p hs) : p d.2 = true := by
  obtain ⟨d', hd', hid⟩ := List.mem_map.mp hmem
  obtain ⟨hd', hp⟩ := List.mem_filter.mp hd'
  rw [List.map_map] at hnodup
  rwa [← List.inj_on_of_nodup_map hnodup hd' hd hid]

theorem mem_fated {hs : List (DispatchDecision × Fate)} {p : Fate → Bool} {d : DispatchDecision × Fate} (hd : d ∈ hs)
    (hp : p d.2 = true) : d.1.pendingId ∈ fated p hs :=
  List.mem_map_of_mem (List.mem_filter.mpr ⟨hd, hp⟩)

theorem Handling.dropped {hs : List (DispatchDecision × Fate)} (h : Handling env e hs e')
    (hnodup : ((hs.map Prod.fst).map DispatchDecision.pendingId).Nodup) :
    ∀ d ∈ hs, d.2 = .dropped → e'.futures d.1.pendingId = .cancelledAndNotified := by
  induction h with
  | nil => exact fun _ hd => by cases hd
  | @cons e e₁ e' d fate ds h hrest ih =>
    rw [List.map_cons, List.map_cons, List.nodup_cons] at hnodup
    refine List.forall_mem_cons.mpr ⟨fun hfate => ?_, ih hnodup.2⟩
    obtain rfl : fate = .dropped := hfate
    rw [(hrest.apart d.pendingId hnodup.1).2]
    cases h with
    | dropped => exact Function.update_self _ _ _

theorem Handling.obtains {hs : List (DispatchDecision × Fate)} (h : Handling env e hs e') (hroster : Roster e) :
    ∀ pre d post, hs = pre ++ d :: post → d.2.leaves = true → ∃ e₁, Handling env e pre e₁ ∧ Obtains env e₁ d.1 := by
  induction h with
  | nil => exact fun pre d post hsplit => by cases pre <;> cases hsplit
  | @cons e e₁ e' d fate ds h hrest ih =>
    intro pre d' post hsplit hleaves
    cases pre with
    | nil =>
      obtain ⟨rfl, -⟩ := List.cons.inj hsplit
      exact ⟨e, .nil e, h.obtains hroster hleaves⟩
    | cons d₀ pre =>
      rw [List.cons_append] at hsplit
      obtain ⟨rfl, htail⟩ := List.cons.inj hsplit
      obtain ⟨e₂, hpre, hobtains⟩ := ih ((h.staffs hroster).1.roster hroster) pre d' post htail hleaves
      exact ⟨e₂, .cons h hpre, hobtains⟩

/-- What a cycle makes of its plan: it acts on the first decisions, `acted`, and leaves the others, `left`. -/
structure Acts (env : Env) (e e' : Executor α) (acted left : List (DispatchDecision × Fate)) : Prop where
  plan : (acted ++ left).map Prod.fst = e.decisions env
  obtains : ∀ pre d post, acted = pre ++ d :: post → ∃ e₁, Handling env (e.ready env) pre e₁ ∧ Obtains env e₁ d.1
  done : ∀ d ∈ acted, d.2.leaves = true ∧ Becomes e' d.1 d.2
  queued : ∀ d ∈ left, d.2 = .left ∧ Becomes e' d.1 d.2
  all : (∀ w ∈ e.workers, (e.slots w).process.alive = true) → left = []

theorem Acts.nil (h : e.decisions env = []) : Acts env e e' [] [] := by
  refine ⟨h.symm, fun pre d post hsplit => ?_, fun _ hd => (by cases hd), fun _ hd => (by cases hd), fun _ => rfl⟩
  cases pre <;> cases hsplit

/-- **A cycle acts on the first decisions of its plan**, and on all of them while the pool is alive. -/
theorem maybeDispatch_acts (h : e.maybeDispatch env = .ok e') (hnodup : e.pending.Nodup)
    (hqueued : ∀ x ∈ e.pending, x ∉ e.inFlight) (hroster : Roster e) (hstaffed : Staffed e') :
    ∃ acted left, Acts env e e' acted left := by
  have hsteps := maybeDispatch_steps hnodup h
  have hsub := decisions_sublist env hnodup
  rcases maybeDispatch_planned h with ⟨hempty, -⟩ | ⟨hswept, -⟩ | ⟨hs, e₁, hhandling, hfst, he'⟩
  · refine ⟨[], [], .nil ?_⟩
    rw [hempty] at hsub
    exact List.map_eq_nil_iff.mp (List.sublist_nil.mp hsub)
  · refine ⟨[], [], .nil ?_⟩
    have hplanned : (e.planned env).pending = [] := by
      obtain ⟨works, hframe, -⟩ := refreshObservations_frame env e.prepare e.prepare.clock
      rw [planned, hframe]
      exact hswept
    have hdecided := decided_sublist env e
    rw [hplanned, ← decisions_ids] at hdecided
    exact List.map_eq_nil_iff.mp (List.sublist_nil.mp hdecided)
  rw [← hfst] at hsub
  have hids := hnodup.sublist hsub
  obtain ⟨-, hworkers, -, -, hready, hcfg⟩ := ready_workers env e
  have hrosterReady := (ready_staffs env e).roster hroster
  have hout : ∀ d ∈ hs, d.1.pendingId ∉ (e.ready env).inFlight := fun d hd => by
    rw [hready]
    exact hqueued _ (hsub.subset (List.mem_map_of_mem (List.mem_map_of_mem hd)))
  obtain ⟨hflight, -, hdispatched⟩ := hhandling.flight hids hout
  obtain ⟨-, hpinned⟩ := hhandling.staffs hrosterReady
  obtain ⟨acted, left, hsplit, hacted, hleft, hnone⟩ := hhandling.acted
  have hfields : e'.inFlight = e₁.inFlight ∧ e'.works = e₁.works ∧ e'.slots = e₁.slots ∧ e'.futures = e₁.futures ∧
      e'.workers = e₁.workers ∧ e'.cfg = e₁.cfg ∧
        e'.pending = e₁.pending.filter fun id => id ∉ fated Fate.leaves hs := by
    rw [he']
    exact ⟨rfl, rfl, rfl, rfl, rfl, rfl, rfl⟩
  obtain ⟨hinFlight, hworks, hslots, hfutures, hpool, hcfg', hpending⟩ := hfields
  have hgone (d : DispatchDecision × Fate) (hd : d ∈ hs) (hleaves : d.2.leaves = true) : d.1.pendingId ∉ e'.pending := by
    rw [hpending, List.mem_filter]
    rintro ⟨-, hnot⟩
    exact of_decide_eq_true hnot (mem_fated hd hleaves)
  have hbecomes (d : DispatchDecision × Fate) (hd : d ∈ hs) : Becomes e' d.1 d.2 := by
    cases hfate : d.2 with
    | left =>
      change d.1.pendingId ∈ e'.pending
      rw [hpending, List.mem_filter, hhandling.pending, decide_eq_true_eq]
      refine ⟨decisions_pending env e d.1 (hfst ▸ List.mem_map_of_mem hd), fun hm => ?_⟩
      have hleaves := fated_unique hids hd hm
      rw [hfate] at hleaves
      cases hleaves
    | dropped =>
      refine ⟨?_, hgone d hd (by rw [hfate]; rfl), ?_⟩
      · rw [hfutures]
        exact hhandling.dropped hids d hd hfate
      · rw [hinFlight, hflight, List.mem_append, not_or]
        refine ⟨hout d hd, fun hm => ?_⟩
        have hships := fated_unique hids hd hm
        rw [hfate] at hships
        cases hships
    | shipped w =>
      have hmem : d.1.pendingId ∈ e'.inFlight := by
        rw [hinFlight, hflight]
        exact List.mem_append_right _ (mem_fated hd (by rw [hfate]; rfl))
      have hwork := hdispatched d hd w hfate
      rw [← hworks] at hwork
      obtain ⟨v, hv, hid, hcur, -⟩ := hstaffed.manned _ hmem
      obtain rfl : v = w := Option.some.inj (hid.symm.trans hwork.workerId)
      refine ⟨hv, hcur, ?_, hmem, hid, hwork.assignedGpuId, hgone d hd (by rw [hfate]; rfl)⟩
      rw [hslots]
      exact (hpinned d hd v hfate).2
  refine ⟨acted, left, ?_, fun pre d post hpre => ?_, fun d hd => ?_, fun d hd => ?_, fun halive => ?_⟩
  · rw [← hsplit]
    exact hfst
  · have hd : d ∈ acted := hpre ▸ List.mem_append_right _ List.mem_cons_self
    refine hhandling.obtains hrosterReady pre d (post ++ left) ?_ (hacted d hd)
    rw [hsplit, hpre, List.append_assoc, List.cons_append]
  · exact ⟨hacted d hd, hbecomes d (hsplit ▸ List.mem_append_left _ hd)⟩
  · exact ⟨hleft d hd, hbecomes d (hsplit ▸ List.mem_append_right _ hd)⟩
  · -- otherwise all workers of a full pool are busy, and there would be room for one task more
    by_contra hne
    obtain ⟨hfull, hidle⟩ := acquireWorker_full (hnone hne none)
    have hle := hstaffed.workers_le (hsteps.alive halive) fun w hw => by
      have hnot := hidle w (hpool ▸ hw)
      rwa [idle, ← hslots] at hnot
    have hlength : e'.inFlight.length ≤ e.inFlight.length + acted.length := by
      rw [hinFlight, hflight, hready, List.length_append, fated, List.length_map, hsplit, List.filter_append]
      have hnil : left.filter (fun d => d.2.ships) = [] := List.filter_eq_nil_iff.mpr fun d hd => by
        rw [hleft d hd]
        exact Bool.false_ne_true
      rw [hnil, List.append_nil]
      exact Nat.add_le_add_left (List.length_filter_le _ _) _
    have hadmitted : (e.planner env).admitted.length = acted.length + left.length := by
      have hcount := congrArg List.length hfst
      rw [decisions_eq, List.length_map, List.length_map, hsplit, List.length_append] at hcount
      exact hcount.symm
    have hpos := List.length_pos_iff.mpr hne
    have hroom := (planner_within env e (by
      intro hnil
      rw [hnil, List.length_nil] at hadmitted
      omega)).2
    obtain ⟨_, _, _, _, hplanned, -⟩ := planned_frame env e
    have hsame : (e.planned env).inFlight = e.inFlight ∧ (e.planned env).cfg = e.cfg := by
      rw [hplanned]
      exact ⟨rfl, rfl⟩
    have hcfg₁ : e₁.cfg = e.cfg := hhandling.frame.1.trans hcfg
    rw [hsame.1, hsame.2, hadmitted] at hroom
    rw [hcfg₁, ← hpool] at hfull
    push_cast at hroom
    omega

end Executor

/-! ## Between operations -/

namespace System
open Executor (Acts Pinned Roster Staffed)
variable {α : Type} {s s' : System α} {cfg : Config} {profiles : ProfileStore}

theorem staffed_of_crewed {e : Executor α} {accepted retrying : List WorkId} {results : List (WorkResult α)}
    (hc : e.Crewed accepted results [] retrying) (hunst : e.Unstopped []) (hroster : Roster e) (hpinned : Pinned e) :
    Staffed e := by
  refine ⟨hroster.nodup, hroster.size, fun w hw hr => (hroster.retired w hr).2 hw, fun w hw => ?_, hc.busy, fun x hx => ?_⟩
  · refine ⟨hunst w ?_, hroster.unpoisoned w hw⟩
    rwa [List.append_nil]
  · obtain ⟨w, hw, hid, hcur⟩ := hc.manned x hx
    exact ⟨w, hw.resolve_right (by simp), hid, hcur, (hpinned x hx w hid).2⟩

/-- **The pool between operations, and no dispatch stall**: after operations that do not overlap, the pool is staffed,
and a dispatch cycle whose workers can be started acts on the first decisions of its plan, and on all of them when every
worker of the pool is alive. -/
theorem pool_invariant (h : ReflTransGen (NextWhen OneAtATime) (init cfg profiles) s) (hstopping : s.stopping = false)
    (hrests : s.Rests) : Staffed s.executor ∧
      ∀ env, (∀ w, (env.spawnPid w).isSome = true) → ∃ e', s.executor.maybeDispatch env = .ok e' ∧ Staffed e' ∧
        ∃ acted left, Acts env s.executor e' acted left := by
  have hreachable : Reachable s := ⟨cfg, profiles, run_of_when h⟩
  have hserving := hreachable.serving hstopping
  have hc := run_crewed (run_one h hstopping) hstopping
  obtain ⟨hroster, hpinned⟩ := hreachable.roster
  have hlost : s.lost = [] := List.filterMap_eq_nil_iff.mpr fun m hm => Section.loses_of_begins (hrests m hm)
  have hunst := hserving.unstopped
  unfold Crewed at hc
  rw [hlost] at hc hunst
  refine ⟨staffed_of_crewed hc hunst hroster hpinned, fun env hspawn => ?_⟩
  obtain ⟨e', hok⟩ := hreachable.maybeDispatch_ok hspawn
  have hpool := hserving.pool
  rw [hlost] at hpool
  have hsteps := Executor.maybeDispatch_steps hserving.sound.pending hok
  have hc' := Executor.DispatchSteps.crewed hsteps hc hserving.sound.marked hserving.sound.tidy s.retrying_subset_held hpool
  obtain ⟨hroster', hpinned'⟩ := Executor.maybeDispatch_roster hok hserving.sound.pending
    hserving.sound.queued_not_flight hroster hpinned
  have hstaffed := staffed_of_crewed hc' ((Executor.DispatchSteps.reshapes hsteps hpool).2 hunst) hroster' hpinned'
  exact ⟨e', hok, hstaffed, Executor.maybeDispatch_acts hok hserving.sound.pending hserving.sound.queued_not_flight hroster
    hstaffed⟩

/-- The result of the first task has been processed and settled, and the next task is queued. -/
def queueNext : List (Event Unit) :=
  completeOne ++ List.replicate 2 (.act .collector plainEnv) ++ [.submit "y" plainRequest plainReading, .append "y"]

theorem pool_invariant_next : ∃ s : System Unit, s.executor.workers = [0] ∧ s.executor.pending = ["y"] ∧
    Staffed s.executor ∧ ∃ e', s.executor.maybeDispatch plainEnv = .ok e' ∧ Staffed e' ∧
      ∃ acted left, Acts plainEnv s.executor e' acted left := by
  obtain ⟨s, hs⟩ := Option.isSome_iff_exists.mp
    (show ((init oneWorker {} : System Unit).playWhen OneAtATime queueNext).isSome = true by decide +kernel)
  have hfacts : ((init oneWorker {} : System Unit).playWhen OneAtATime queueNext).any (fun s => decide
      (s.executor.workers = [0] ∧ s.executor.pending = ["y"] ∧ s.stopping = false ∧ s.Rests)) = true := by decide +kernel
  rw [hs, Option.any_some] at hfacts
  obtain ⟨hworkers, hpending, hstopping, hrests⟩ := of_decide_eq_true hfacts
  obtain ⟨hstaffed, hcycle⟩ := pool_invariant (playWhen_run hs) hstopping hrests
  exact ⟨s, hworkers, hpending, hstaffed, hcycle plainEnv fun _ => rfl⟩

end System

end AdaptiveExecutor
