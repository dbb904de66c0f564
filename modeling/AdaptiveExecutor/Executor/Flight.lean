import AdaptiveExecutor.Executor.Places

/-!
# The tasks in flight

What puts a task into flight, and what happens to it there.

* `SectionStep`, `run_step` : what a section that is no dispatch cycle does, the workers apart;
* `Lands`, `run_lands`, `Stepped.lands` : every section but a dispatch cycle only takes tasks out of flight, and leaves
  those that stay as they are;
* `Handled`, `Handling` : what becomes of one decision of a plan, and of all; `dispatchLoop_handling` : the loop of a
  cycle is one, `dispatchLoop_raises` : and when it raises, then at the worker of a decision;
* `maybeDispatch_planned`, `maybeDispatch_raises` : the whole cycle; `maybeDispatch_flight` : what it does to the tasks
  in flight.
-/

namespace AdaptiveExecutor
open Ledger (Future Tidy)
open Relation (ReflTransGen)

/-- The sections that set `_shutdown`. -/
def Section.shuts {α : Type} : Section α → Bool
  | .shutUnstarted | .stopThreads => true
  | _ => false

namespace Executor
variable {α : Type} {env : Env} {e e' e'' : Executor α}

/-! ## The other sections -/

/-- What a section that is no dispatch cycle does to the executor, its workers apart. -/
inductive SectionStep (e : Executor α) : Section α → Executor α → Prop
  | workers {m : Section α} (hm : m.retries = none) (slots : WorkerId → WorkerSlot α) (workers retiring : List WorkerId)
    (accepting shutdown threadsShouldStop : Bool) (hshutdown : m.shuts = false → shutdown = e.shutdown) :
    SectionStep e m
      { e with
        slots := slots
        workers := workers
        retiring := retiring
        accepting := accepting
        shutdown := shutdown
        threadsShouldStop := threadsShouldStop }
  /-- A task leaves flight. -/
  | leaves {m : Section α} (hm : m.retries = none) (id : WorkId) (slots : WorkerId → WorkerSlot α)
    (workers retiring : List WorkerId) {works : WorkId → PendingWork}
    (hworks : works = e.works ∨ works = (e.modifyWork id fun w => { w with resultIgnored := true }).works) :
    SectionStep e m
      { e with
        slots := slots
        workers := workers
        retiring := retiring
        works := works
        inFlight := e.inFlight.erase id }
  | record (id : WorkId) (observation : ResourceObservation) :
    SectionStep e (.record id observation) (e.record id observation)
  | settle (id : WorkId) (outcome : Outcome α) : SectionStep e (.settle id outcome) (e.settle id outcome)
  | failPendingFutures : SectionStep e .failPendingFutures e.failPendingFutures
  | penalizeEstimate (id : WorkId) : SectionStep e (.penalizeEstimate id) (e.penalizeEstimate id)
  | requeue (id : WorkId) : SectionStep e (.requeue id) (e.requeue id)

/-- **What a section does**, one case for each part of the executor that it may change. -/
theorem run_step {m : Section α} {body : List (Section α)} (h : e.run env m = some (e', body))
    (hm : m ≠ .maybeDispatch) : SectionStep e m e' := by
  have still {slots : WorkerId → WorkerSlot α} {workers retiring : List WorkerId} (hm : m.retries = none) :
      SectionStep e m { e with slots := slots, workers := workers, retiring := retiring } :=
    .workers hm slots workers retiring e.accepting e.shutdown e.threadsShouldStop fun _ => rfl
  cases m with
  | maybeDispatch => exact absurd rfl hm
  | processResult r =>
    obtain ⟨rfl, -⟩ := run_eq (r := e.processResult r) h
    obtain ⟨slots, workers, retiring, hframe⟩ := clearWorker_frame e r
    unfold processResult
    dsimp only
    rw [hframe]
    split_ifs
    · exact .leaves rfl r.id slots workers retiring (.inl rfl)
    · exact .leaves rfl r.id slots workers retiring (.inl rfl)
    · exact still rfl
  | takeLost w =>
    obtain ⟨rfl, -⟩ := run_eq (r := e.takeLost w) h
    rcases takeLost_frame e w with hframe | ⟨id, -, hframe⟩
    · rw [hframe]
      exact still rfl
    · rw [hframe]
      exact .leaves rfl id e.slots e.workers e.retiring (.inl rfl)
  | handleTimeout id =>
    obtain ⟨rfl, -⟩ := run_eq (r := e.handleTimeout id) h
    rcases handleTimeout_cases e id with hsame | ⟨-, -, slots, workers, retiring, works, heq, hworks⟩
    · rw [hsame]
      exact still rfl
    · rw [heq]
      exact .leaves rfl id slots workers retiring hworks
  | getNowait w results =>
    obtain ⟨rfl, -⟩ := run_eq (r := e.getNowait w results) h
    unfold getNowait
    split
    · exact still rfl
    · split_ifs
      · exact still rfl
      · exact still rfl
  | escalateKill w =>
    obtain ⟨rfl, -⟩ := run_eq h
    obtain ⟨slots, hframe⟩ := escalateKill_frame env e w
    rw [hframe]
    exact still rfl
  | stopAllWorkers =>
    obtain ⟨rfl, -⟩ := run_eq (r := e.stopAllWorkers) h
    obtain ⟨slots, hframe⟩ := stopAllWorkers_frame e
    rw [hframe]
    exact still rfl
  | record id observation =>
    obtain ⟨rfl, -⟩ := run_eq h
    exact .record id observation
  | settle id outcome =>
    obtain ⟨rfl, -⟩ := run_eq h
    exact .settle id outcome
  | failPendingFutures =>
    obtain ⟨rfl, -⟩ := run_eq h
    exact .failPendingFutures
  | penalizeEstimate id =>
    obtain ⟨rfl, -⟩ := run_eq h
    exact .penalizeEstimate id
  | requeue id =>
    obtain ⟨rfl, -⟩ := run_eq h
    exact .requeue id
  | checkWorkers | discardQueue | pruneRetiring | sweep | readClock | scanTimeouts | readQueue | testInFlight | finalDrain | leave =>
    obtain ⟨rfl, -⟩ := run_eq h
    exact still rfl
  | shutUnstarted | stopAccepting | stopThreads =>
    obtain ⟨rfl, -⟩ := run_eq h
    exact .workers rfl e.slots e.workers e.retiring _ _ _ fun hm => by first | rfl | cases hm

/-- Some tasks leave flight, and those that stay are as they were, the owned one apart. -/
structure Lands (e : Executor α) (owned : Option WorkId) (e' : Executor α) : Prop where
  cfg : e'.cfg = e.cfg
  flight : e'.inFlight.Sublist e.inFlight
  works : ∀ x ∈ e'.inFlight, owned ≠ some x → e'.works x = e.works x

theorem Lands.of_same (owned : Option WorkId) (hcfg : e'.cfg = e.cfg) (hflight : e'.inFlight = e.inFlight)
    (hworks : e'.works = e.works) : Lands e owned e' := by
  refine ⟨hcfg, ?_, fun x _ _ => ?_⟩
  · rw [hflight]
  · rw [hworks]

theorem Lands.pop (owned : Option WorkId) (x : WorkId) (hcfg : e'.cfg = e.cfg)
    (hflight : e'.inFlight = e.inFlight.erase x) (hworks : ∀ y, y ≠ x → e'.works y = e.works y)
    (hnodup : e.inFlight.Nodup) : Lands e owned e' := by
  refine ⟨hcfg, ?_, fun y hy _ => ?_⟩
  · rw [hflight]
    apply List.erase_sublist
  · apply hworks
    rintro rfl
    rw [hflight] at hy
    exact hnodup.not_mem_erase hy

/-- **No section but a dispatch cycle** puts a task into flight, or changes one in flight that it does not own. -/
theorem run_lands {m : Section α} {body : List (Section α)} (h : e.run env m = some (e', body))
    (hm : m ≠ .maybeDispatch) (hnodup : e.inFlight.Nodup) : Lands e m.owns e' := by
  cases run_step h hm with
  | workers | record | settle => exact .of_same _ rfl rfl rfl
  | leaves _ id _ _ _ hworks =>
    refine .pop _ id rfl rfl (fun y hy => ?_) hnodup
    rcases hworks with rfl | rfl
    · rfl
    · exact Function.update_of_ne hy _ _
  | failPendingFutures =>
    obtain ⟨futures, hframe⟩ := failPendingFutures_frame e
    rw [hframe]
    exact .of_same _ rfl rfl rfl
  | penalizeEstimate | requeue =>
    refine ⟨rfl, .refl _, fun y _ hy => ?_⟩
    exact Function.update_of_ne (by rintro rfl; exact hy rfl) _ _

/-! ## The loop over the decisions -/

inductive Fate
  /-- There is no worker: the task stays in the queue. -/
  | left
  /-- The future turns out to be cancelled. -/
  | dropped
  | shipped (w : WorkerId)
  deriving DecidableEq

def Fate.leaves : Fate → Bool
  | .left => false
  | _ => true

def Fate.ships : Fate → Bool
  | .shipped _ => true
  | _ => false

inductive Handled (env : Env) (e : Executor α) (d : DispatchDecision) : Fate → Executor α → Prop
  | left {e₁ : Executor α} (hacquire : e.acquireWorker env d.gpuId = .ok (e₁, none)) : Handled env e d .left e₁
  | dropped {e₁ : Executor α} {w : WorkerId} (hacquire : e.acquireWorker env d.gpuId = .ok (e₁, some w))
    (hnew : (e₁.works d.pendingId).runningNotified = false) (hf : e₁.futures d.pendingId = .cancelled) :
    Handled env e d .dropped
      { e₁ with futures := Function.update e₁.futures d.pendingId .cancelledAndNotified }
  | shipped {e₁ e₂ : Executor α} {w : WorkerId} (hacquire : e.acquireWorker env d.gpuId = .ok (e₁, some w))
    (hstarted : e₁.Started d.pendingId e₂) : Handled env e d (.shipped w) (e₂.ship env d.pendingId d.gpuId w)

/-- The decisions of a plan, one after another, each with its fate. -/
inductive Handling (env : Env) : Executor α → List (DispatchDecision × Fate) → Executor α → Prop
  | nil (e : Executor α) : Handling env e [] e
  | cons {e e₁ e' : Executor α} {d : DispatchDecision} {fate : Fate} {ds : List (DispatchDecision × Fate)}
    (h : Handled env e d fate e₁) (hs : Handling env e₁ ds e') : Handling env e ((d, fate) :: ds) e'

def fated (p : Fate → Bool) (ds : List (DispatchDecision × Fate)) : List WorkId :=
  (ds.filter fun d => p d.2).map fun d => d.1.pendingId

theorem fated_cons (p : Fate → Bool) (d : DispatchDecision) (fate : Fate) (ds : List (DispatchDecision × Fate)) :
    fated p ((d, fate) :: ds) = (if p fate then [d.pendingId] else []) ++ fated p ds := by
  unfold fated
  rw [List.filter_cons]
  dsimp only
  split_ifs <;> rfl

theorem fated_sublist (p : Fate → Bool) (ds : List (DispatchDecision × Fate)) :
    (fated p ds).Sublist ((ds.map Prod.fst).map DispatchDecision.pendingId) := by
  rw [List.map_map]
  exact List.filter_sublist.map _

theorem fated_ships {hs : List (DispatchDecision × Fate)} {d : DispatchDecision × Fate}
    (hd : d ∈ hs.filter fun d => d.2.ships) : d ∈ hs ∧ ∃ w, d.2 = .shipped w := by
  obtain ⟨hd, hships⟩ := List.mem_filter.mp hd
  obtain ⟨d, fate⟩ := d
  cases fate with
  | left => cases hships
  | dropped => cases hships
  | shipped w => exact ⟨hd, w, rfl⟩

theorem of_fated_ships {hs : List (DispatchDecision × Fate)} {x : WorkId} (hx : x ∈ fated Fate.ships hs) :
    ∃ d ∈ hs, d.1.pendingId = x ∧ ∃ w, d.2 = .shipped w := by
  obtain ⟨d, hd, hid⟩ := List.mem_map.mp hx
  obtain ⟨hd, hshipped⟩ := fated_ships hd
  exact ⟨d, hd, hid, hshipped⟩

theorem handshake_handled {d : DispatchDecision} {w : WorkerId} (hacquire : e.acquireWorker env d.gpuId = .ok (e', some w))
    (h : e'.handshake env d.pendingId d.gpuId w = .ok e'') :
    ∃ fate, fate.leaves = true ∧ Handled env e d fate e'' := by
  unfold handshake at h
  split_ifs at h with hn
  · obtain rfl := Except.ok.inj h
    exact ⟨.shipped w, rfl, .shipped hacquire (.inl ⟨hn, rfl⟩)⟩
  · rw [Bool.not_eq_true] at hn
    cases hf : e'.futures d.pendingId <;> rw [hf] at h
    · obtain rfl := Except.ok.inj h
      exact ⟨.shipped w, rfl, .shipped hacquire (.inr ⟨hn, hf, rfl⟩)⟩
    · cases h
    · obtain rfl := Except.ok.inj h
      exact ⟨.dropped, rfl, .dropped hacquire hn hf⟩
    · cases h
    · cases h

theorem Handled.pending {d : DispatchDecision} {fate : Fate} (h : Handled env e d fate e') : e'.pending = e.pending := by
  cases h with
  | left hacquire => exact (acquireWorker_steps [] hacquire).2.1
  | dropped hacquire => exact (acquireWorker_steps [] hacquire).2.1
  | shipped hacquire hstarted =>
    rw [← (acquireWorker_steps [] hacquire).2.1]
    rcases hstarted with ⟨-, rfl⟩ | ⟨-, -, rfl⟩ <;> rfl

theorem Handling.pending {ds : List (DispatchDecision × Fate)} (h : Handling env e ds e') : e'.pending = e.pending := by
  induction h with
  | nil => rfl
  | cons h _ ih => exact ih.trans h.pending

/-- **The loop handles one decision after another.** -/
theorem dispatchLoop_handling : ∀ (ds : List DispatchDecision) (e : Executor α) (removed : List WorkId)
    (r : Executor α × List WorkId), dispatchLoop env ds e removed = .ok r → (∀ d ∈ ds, d.pendingId ∈ e.pending) →
    ∃ hs, Handling env e hs r.1 ∧ hs.map Prod.fst = ds ∧ r.2 = (fated Fate.leaves hs).reverse ++ removed
  | [], e, removed, r, h, _ => by
    obtain rfl := Except.ok.inj h
    exact ⟨[], .nil e, rfl, rfl⟩
  | d :: ds, e, removed, r, h, hds => by
    obtain ⟨hd, hds⟩ := List.forall_mem_cons.mp hds
    have next {e₁ : Executor α} {fate : Fate} {removed₁ : List WorkId} (hhandled : Handled env e d fate e₁)
        (hloop : dispatchLoop env ds e₁ removed₁ = .ok r)
        (hremoved : removed₁ = (if fate.leaves then [d.pendingId] else []) ++ removed) :
        ∃ hs, Handling env e hs r.1 ∧ hs.map Prod.fst = d :: ds ∧ r.2 = (fated Fate.leaves hs).reverse ++ removed := by
      obtain ⟨hs, hrest, hfst, hr⟩ := dispatchLoop_handling ds e₁ removed₁ r hloop fun d' hd' => by
        rw [hhandled.pending]
        exact hds d' hd'
      refine ⟨(d, fate) :: hs, .cons hhandled hrest, ?_, ?_⟩
      · rw [List.map_cons, hfst]
      · rw [hr, hremoved, fated_cons]
        cases fate.leaves <;> simp
    unfold dispatchLoop at h
    rw [if_pos hd] at h
    split at h
    · cases h
    · rename_i e₁ hacquire
      exact next (.left hacquire) h rfl
    · rename_i e₁ w hacquire
      split at h
      · cases h
      · rename_i e₂ hhand
        obtain ⟨fate, hleaves, hhandled⟩ := handshake_handled hacquire hhand
        refine next hhandled h ?_
        rw [hleaves]
        rfl

/-- **When the loop raises**, then at a decision for which no worker can be started, or whose handshake raises; the
decisions before have been handled. -/
theorem dispatchLoop_raises : ∀ (ds : List DispatchDecision) (e : Executor α) (removed : List WorkId)
    (e' : Executor α), dispatchLoop env ds e removed = .error e' → (∀ d ∈ ds, d.pendingId ∈ e.pending) →
    ∃ hs d rest e₁, Handling env e hs e₁ ∧ ds = hs.map Prod.fst ++ d :: rest ∧
      (e₁.acquireWorker env d.gpuId = .error e' ∨
        ∃ e₂ w, e₁.acquireWorker env d.gpuId = .ok (e₂, some w) ∧ e₂.handshake env d.pendingId d.gpuId w = .error e')
  | [], e, removed, e', h, _ => by cases h
  | d :: ds, e, removed, e', h, hds => by
    obtain ⟨hd, hds⟩ := List.forall_mem_cons.mp hds
    have next {e₁ : Executor α} {fate : Fate} {removed₁ : List WorkId} (hhandled : Handled env e d fate e₁)
        (hloop : dispatchLoop env ds e₁ removed₁ = .error e') :
        ∃ hs d' rest e₁, Handling env e hs e₁ ∧ d :: ds = hs.map Prod.fst ++ d' :: rest ∧
          (e₁.acquireWorker env d'.gpuId = .error e' ∨
            ∃ e₂ w, e₁.acquireWorker env d'.gpuId = .ok (e₂, some w) ∧
              e₂.handshake env d'.pendingId d'.gpuId w = .error e') := by
      obtain ⟨hs, d', rest, e₂, hrest, hsplit, hraise⟩ := dispatchLoop_raises ds e₁ removed₁ e' hloop fun x hx => by
        rw [hhandled.pending]
        exact hds x hx
      refine ⟨(d, fate) :: hs, d', rest, e₂, .cons hhandled hrest, ?_, hraise⟩
      rw [hsplit]
      rfl
    unfold dispatchLoop at h
    rw [if_pos hd] at h
    split at h
    · rename_i hacquire
      refine ⟨[], d, ds, e, .nil e, rfl, .inl ?_⟩
      rw [hacquire, Except.error.inj h]
    · rename_i e₁ hacquire
      exact next (.left hacquire) h
    · rename_i e₁ w hacquire
      split at h
      · rename_i hhand
        refine ⟨[], d, ds, e, .nil e, rfl, .inr ⟨e₁, w, hacquire, ?_⟩⟩
        rw [hhand, Except.error.inj h]
      · rename_i e₂ hhand
        obtain ⟨fate, -, hhandled⟩ := handshake_handled hacquire hhand
        exact next hhandled h

/-! ## What a cycle ships -/

theorem acquireWorker_frame {gpuId : Option GpuId} {o : Option WorkerId} (h : e.acquireWorker env gpuId = .ok (e', o)) :
    ∃ slots workers retiring next, e' =
      { e with slots := slots, workers := workers, retiring := retiring, nextWorkerId := next } := by
  have spawn {e₀ : Executor α} {v : Executor α × WorkerId} (hv : e₀.spawnWorker env gpuId = .ok v) :
      ∃ slots workers next, v.1 = { e₀ with slots := slots, workers := workers, nextWorkerId := next } := by
    obtain ⟨pid, hs, -⟩ := spawnWorker_ok hv
    exact ⟨_, _, _, hs⟩
  unfold acquireWorker at h
  split at h
  · obtain ⟨rfl, -⟩ := Prod.mk.inj (Except.ok.inj h)
    exact ⟨_, _, _, _, rfl⟩
  split_ifs at h
  · split at h
    · obtain ⟨rfl, -⟩ := Prod.mk.inj (Except.ok.inj h)
      exact ⟨_, _, _, _, rfl⟩
    · rename_i victim _
      cases hv : (e.retireWorker victim).spawnWorker env gpuId with
      | error => rw [hv] at h; cases h
      | ok v =>
        rw [hv] at h
        obtain ⟨rfl, -⟩ := Prod.mk.inj (Except.ok.inj h)
        obtain ⟨slots, workers, next, hframe⟩ := spawn hv
        exact ⟨slots, workers, _, next, hframe⟩
  · cases hv : e.spawnWorker env gpuId with
    | error => rw [hv] at h; cases h
    | ok v =>
      rw [hv] at h
      obtain ⟨rfl, -⟩ := Prod.mk.inj (Except.ok.inj h)
      obtain ⟨slots, workers, next, hframe⟩ := spawn hv
      exact ⟨slots, workers, _, next, hframe⟩

/-- What shipping leaves of a task, and what it sets. -/
structure Dispatched (gpuId : Option GpuId) (w : WorkerId) (work work' : PendingWork) : Prop where
  estimate : work'.estimate = work.estimate
  memoryHint : work'.memoryHint = work.memoryHint
  vramHint : work'.vramHint = work.vramHint
  profileIdentity : work'.profileIdentity = work.profileIdentity
  assignedGpuId : work'.assignedGpuId = gpuId
  workerId : work'.workerId = some w
  observedMemoryGb : work'.observedMemoryGb = 0
  observedVramGb : work'.observedVramGb = 0

theorem Handled.works {d : DispatchDecision} {fate : Fate} (h : Handled env e d fate e') :
    (∀ x, x ≠ d.pendingId → e'.works x = e.works x) ∧ (fate.ships = false → e'.works = e.works) ∧
      e'.inFlight = (if fate.ships then insertKey e.inFlight d.pendingId else e.inFlight) ∧
      ∀ w, fate = .shipped w → Dispatched d.gpuId w (e.works d.pendingId) (e'.works d.pendingId) := by
  cases h with
  | left hacquire =>
    obtain ⟨_, _, _, _, rfl⟩ := acquireWorker_frame hacquire
    exact ⟨fun _ _ => rfl, fun _ => rfl, rfl, fun w hw => by cases hw⟩
  | dropped hacquire =>
    obtain ⟨_, _, _, _, rfl⟩ := acquireWorker_frame hacquire
    exact ⟨fun _ _ => rfl, fun _ => rfl, rfl, fun w hw => by cases hw⟩
  | @shipped e₁ e₂ w hacquire hstarted =>
    obtain ⟨_, _, _, _, rfl⟩ := acquireWorker_frame hacquire
    have hother (x : WorkId) (hx : x ≠ d.pendingId) : (e₂.ship env d.pendingId d.gpuId w).works x = e₂.works x :=
      Function.update_of_ne hx _ _
    have hself : (e₂.ship env d.pendingId d.gpuId w).works d.pendingId = captureBaseline env e₂.clock
        (e₂.slots w).process.pid d.gpuId { e₂.works d.pendingId with
          assignedGpuId := d.gpuId, workerId := some w, startedAt := some e₂.clock } := Function.update_self _ _ _
    rcases hstarted with ⟨-, rfl⟩ | ⟨-, -, rfl⟩
    · refine ⟨hother, fun h => (by cases h), rfl, fun w' hw => ?_⟩
      obtain rfl := Fate.shipped.inj hw
      rw [hself]
      exact ⟨rfl, rfl, rfl, rfl, rfl, rfl, rfl, rfl⟩
    · refine ⟨fun x hx => (hother x hx).trans (Function.update_of_ne hx _ _), fun h => (by cases h), rfl,
        fun w' hw => ?_⟩
      obtain rfl := Fate.shipped.inj hw
      rw [hself]
      have hstart {β : Type} (g : PendingWork → β) (hg : ∀ w, g { w with runningNotified := true } = g w) :
          g ((start _ d.pendingId).works d.pendingId) = g (e.works d.pendingId) := modifyWork_keeps e g hg d.pendingId _
      exact ⟨hstart (·.estimate) fun _ => rfl, hstart (·.memoryHint) fun _ => rfl, hstart (·.vramHint) fun _ => rfl,
        hstart (·.profileIdentity) fun _ => rfl, rfl, rfl, rfl, rfl⟩

theorem Handled.frame {d : DispatchDecision} {fate : Fate} (h : Handled env e d fate e') :
    e'.cfg = e.cfg ∧ e'.profiles = e.profiles ∧ e'.snapshot = e.snapshot ∧ e'.clock = e.clock := by
  cases h with
  | left hacquire =>
    obtain ⟨_, _, _, _, rfl⟩ := acquireWorker_frame hacquire
    exact ⟨rfl, rfl, rfl, rfl⟩
  | dropped hacquire =>
    obtain ⟨_, _, _, _, rfl⟩ := acquireWorker_frame hacquire
    exact ⟨rfl, rfl, rfl, rfl⟩
  | shipped hacquire hstarted =>
    obtain ⟨_, _, _, _, rfl⟩ := acquireWorker_frame hacquire
    rcases hstarted with ⟨-, rfl⟩ | ⟨-, -, rfl⟩ <;> exact ⟨rfl, rfl, rfl, rfl⟩

theorem Handling.frame {ds : List (DispatchDecision × Fate)} (h : Handling env e ds e') :
    e'.cfg = e.cfg ∧ e'.profiles = e.profiles ∧ e'.snapshot = e.snapshot ∧ e'.clock = e.clock := by
  induction h with
  | nil => exact ⟨rfl, rfl, rfl, rfl⟩
  | cons h _ ih =>
    obtain ⟨hcfg, hprofiles, hsnapshot, hclock⟩ := h.frame
    exact ⟨ih.1.trans hcfg, ih.2.1.trans hprofiles, ih.2.2.1.trans hsnapshot, ih.2.2.2.trans hclock⟩

/-- **What the loop ships**: the tasks that it ships get into flight in the order of the plan, as decided; the other
tasks are as they were. -/
theorem Handling.flight {ds : List (DispatchDecision × Fate)} (h : Handling env e ds e')
    (hnodup : ((ds.map Prod.fst).map DispatchDecision.pendingId).Nodup)
    (hnew : ∀ d ∈ ds, d.1.pendingId ∉ e.inFlight) :
    e'.inFlight = e.inFlight ++ fated Fate.ships ds ∧ (∀ x ∉ fated Fate.ships ds, e'.works x = e.works x) ∧
      ∀ d ∈ ds, ∀ w, d.2 = .shipped w → Dispatched d.1.gpuId w (e.works d.1.pendingId) (e'.works d.1.pendingId) := by
  induction h with
  | nil => exact ⟨(List.append_nil _).symm, fun _ _ => rfl, fun _ h => by cases h⟩
  | @cons e e₁ e' d fate ds h hrest ih =>
    rw [List.map_cons, List.map_cons, List.nodup_cons] at hnodup
    obtain ⟨hd, hnodup⟩ := hnodup
    obtain ⟨hdnew, hnew⟩ := List.forall_mem_cons.mp hnew
    obtain ⟨hother, hkept, hflight, hshipped⟩ := h.works
    have hflight₁ : e₁.inFlight = e.inFlight ++ (if fate.ships then [d.pendingId] else []) := by
      rw [hflight]
      split_ifs
      · exact insertKey_of_not_mem hdnew
      · exact (List.append_nil _).symm
    have hne (x : DispatchDecision × Fate) (hx : x ∈ ds) : x.1.pendingId ≠ d.pendingId := fun he => by
      apply hd
      rw [← he]
      exact List.mem_map_of_mem (List.mem_map_of_mem hx)
    have hgone : d.pendingId ∉ fated Fate.ships ds := fun hm => hd ((fated_sublist _ ds).subset hm)
    obtain ⟨ihflight, ihworks, ihshipped⟩ := ih hnodup fun x hx hm => by
      rw [hflight₁] at hm
      rcases List.mem_append.mp hm with hm | hm
      · exact hnew x hx hm
      · split_ifs at hm
        · exact hne x hx (List.mem_singleton.mp hm)
        · cases hm
    refine ⟨?_, fun x hx => ?_, List.forall_mem_cons.mpr ⟨fun w hw => ?_, fun x hx w hw => ?_⟩⟩
    · rw [ihflight, hflight₁, fated_cons, List.append_assoc]
    · rw [fated_cons, List.mem_append, not_or] at hx
      rw [ihworks x hx.2]
      cases hs : fate.ships with
      | false => rw [hkept hs]
      | true =>
        apply hother
        rintro rfl
        exact hx.1 (by simp [hs])
    · have hsame := ihworks d.pendingId hgone
      rw [hsame]
      exact hshipped w hw
    · have hworks := ihshipped x hx w hw
      rwa [hother _ (hne x hx)] at hworks

/-! ## Before the loop -/

theorem reestimateOne_frame (now : ℚ) (e : Executor α) (id : WorkId) :
    (∀ x, x ≠ id → (e.reestimateOne now id).works x = e.works x) ∧
      ∃ works profiles, e.reestimateOne now id = { e with works := works, profiles := profiles } := by
  unfold reestimateOne
  dsimp only
  split_ifs
  · exact ⟨fun _ _ => rfl, _, _, rfl⟩
  · exact ⟨fun _ _ => rfl, _, _, rfl⟩
  · exact ⟨fun x hx => Function.update_of_ne hx _ _, _, _, rfl⟩
  · exact ⟨fun x hx => Function.update_of_ne hx _ _, _, _, rfl⟩

theorem reestimatePending_frame (e : Executor α) (now : ℚ) :
    (∀ x ∉ e.pending, (e.reestimatePending now).works x = e.works x) ∧
      ∃ works profiles, e.reestimatePending now = { e with works := works, profiles := profiles } := by
  have turns : ∀ (ids : List WorkId) (e : Executor α),
      (∀ x ∉ ids, (ids.foldl (reestimateOne now) e).works x = e.works x) ∧
        ∃ works profiles, ids.foldl (reestimateOne now) e = { e with works := works, profiles := profiles } := by
    intro ids
    induction ids with
    | nil => exact fun e => ⟨fun _ _ => rfl, _, _, rfl⟩
    | cons id ids ih =>
      intro e
      obtain ⟨hworks, works, profiles, hframe⟩ := reestimateOne_frame now e id
      obtain ⟨ihworks, works', profiles', ihframe⟩ := ih (e.reestimateOne now id)
      refine ⟨fun x hx => ?_, works', profiles', ?_⟩
      · rw [List.mem_cons, not_or] at hx
        exact (ihworks x hx.2).trans (hworks x hx.1)
      · rw [List.foldl_cons, ihframe, hframe]
  exact turns e.pending e

theorem sweepInfeasible_frame (snapshot : Option ResourceSnapshot) : ∀ (ids : List WorkId) (e : Executor α),
    ∃ futures, (sweepInfeasible snapshot ids e).1 = { e with futures := futures }
  | [], e => ⟨_, rfl⟩
  | id :: rest, e => by
    unfold sweepInfeasible
    split
    · exact sweepInfeasible_frame snapshot rest e
    · rename_i error _
      obtain ⟨futures, h⟩ := sweepInfeasible_frame snapshot rest (e.settle id (.exception (.infeasible error)))
      exact ⟨futures, h⟩

def infeasible (snapshot : Option ResourceSnapshot) (e : Executor α) (id : WorkId) : Bool :=
  (infeasibleEstimate e.cfg (e.works id).estimate snapshot (e.works id).retryCount).isSome

/-- **The sweep** keeps the feasible tasks, settles the others, and touches no other future. -/
theorem sweepInfeasible_spec (snapshot : Option ResourceSnapshot) : ∀ (ids : List WorkId) (e : Executor α),
    (sweepInfeasible snapshot ids e).2 = (ids.filter fun id => !e.infeasible snapshot id) ∧
      (∀ x, (x ∈ ids → e.infeasible snapshot x = false) →
        (sweepInfeasible snapshot ids e).1.futures x = e.futures x) ∧
      ∀ x, (x ∈ ids ∧ e.infeasible snapshot x = true) ∨ (e.futures x).done = true →
        ((sweepInfeasible snapshot ids e).1.futures x).done = true
  | [], e => ⟨rfl, fun _ _ => rfl, fun x hx => hx.resolve_left fun h => by cases h.1⟩
  | id :: rest, e => by
    unfold sweepInfeasible
    split
    · rename_i hnone
      obtain ⟨hkept, hsame, hdone⟩ := sweepInfeasible_spec snapshot rest e
      have hfeasible : e.infeasible snapshot id = false := by
        rw [infeasible, hnone]
        rfl
      refine ⟨?_, fun x hx => hsame x fun hm => hx (List.mem_cons_of_mem id hm), fun x hx => hdone x ?_⟩
      · rw [List.filter_cons, hfeasible]
        exact congrArg (id :: ·) hkept
      · refine hx.imp_left fun ⟨hm, hinf⟩ => ⟨(List.mem_cons.mp hm).resolve_left ?_, hinf⟩
        rintro rfl
        rw [hfeasible] at hinf
        cases hinf
    · rename_i error hsome
      obtain ⟨hkept, hsame, hdone⟩ := sweepInfeasible_spec snapshot rest (e.settle id (.exception (.infeasible error)))
      have hinf : e.infeasible snapshot id = true := by
        rw [infeasible, hsome]
        rfl
      refine ⟨?_, fun x hx => ?_, fun x hx => hdone x ?_⟩
      · rw [List.filter_cons, hinf]
        exact hkept
      · rw [hsame x fun hm => hx (List.mem_cons_of_mem id hm)]
        apply Function.update_of_ne
        rintro rfl
        rw [hx List.mem_cons_self] at hinf
        cases hinf
      · by_cases hxid : x = id
        · subst hxid
          right
          have hupdate : (e.settle x (.exception (.infeasible error))).futures x =
              (e.futures x).settle (.exception (.infeasible error)) := Function.update_self _ _ _
          rw [hupdate]
          exact Future.settle_done _ _
        · have hupdate : (e.settle id (.exception (.infeasible error))).futures x = e.futures x :=
            Function.update_of_ne hxid _ _
          rw [hupdate]
          exact hx.imp_left fun ⟨hm, hinf⟩ => ⟨(List.mem_cons.mp hm).resolve_left hxid, hinf⟩

theorem prepare_frame (e : Executor α) : (∀ x ∉ e.pending, e.prepare.works x = e.works x) ∧
    ∃ works profiles futures pending, e.prepare =
      { e with works := works, profiles := profiles, futures := futures, pending := pending } := by
  obtain ⟨hworks, works, profiles, hframe⟩ := reestimatePending_frame e e.clock
  obtain ⟨futures, hsweep⟩ := sweepInfeasible_frame (e.reestimatePending e.clock).snapshot
    (e.reestimatePending e.clock).pending (e.reestimatePending e.clock)
  have hprepare : e.prepare = { (e.reestimatePending e.clock) with
      futures := futures
      pending := (sweepInfeasible (e.reestimatePending e.clock).snapshot (e.reestimatePending e.clock).pending
        (e.reestimatePending e.clock)).2 } := by
    unfold prepare
    dsimp only
    rw [hsweep]
  refine ⟨fun x hx => ?_, works, profiles, futures, e.prepare.pending, ?_⟩
  · rw [hprepare]
    exact hworks x hx
  · rw [hprepare, hframe]

theorem updateObserved_frame (env : Env) (now : ℚ) (w : PendingWork) : ∃ refreshedAt memory vram,
    updateObserved env now w =
      { w with observedRefreshedAt := refreshedAt, observedMemoryGb := memory, observedVramGb := vram } := by
  unfold updateObserved
  dsimp only
  repeat' split
  all_goals exact ⟨_, _, _, rfl⟩

theorem updateObserved_keeps {β : Type} {g : PendingWork → β} (hg : ∀ w refreshedAt memory vram,
      g { w with observedRefreshedAt := refreshedAt, observedMemoryGb := memory, observedVramGb := vram } = g w)
    (env : Env) (now : ℚ) (w : PendingWork) : g (updateObserved env now w) = g w := by
  obtain ⟨refreshedAt, memory, vram, h⟩ := updateObserved_frame env now w
  rw [h, hg]

theorem refreshOne_frame (env : Env) (now : ℚ) (e : Executor α) (id : WorkId) :
    ∃ works, refreshOne env now e id = { e with works := works } ∧
      ∀ {β : Type} (g : PendingWork → β), (∀ w, g (updateObserved env now w) = g w) → ∀ x, g (works x) = g (e.works x) := by
  unfold refreshOne
  split_ifs
  · exact ⟨_, rfl, fun _ _ _ => rfl⟩
  · exact ⟨_, rfl, fun g hg x => modifyWork_keeps e g hg id x⟩

theorem refreshObservations_frame (env : Env) (e : Executor α) (now : ℚ) :
    ∃ works, e.refreshObservations env now = { e with works := works } ∧
      ∀ {β : Type} (g : PendingWork → β), (∀ w, g (updateObserved env now w) = g w) → ∀ x, g (works x) = g (e.works x) := by
  have turns : ∀ (ids : List WorkId) (e : Executor α), ∃ works, ids.foldl (refreshOne env now) e = { e with works := works } ∧
      ∀ {β : Type} (g : PendingWork → β), (∀ w, g (updateObserved env now w) = g w) → ∀ x, g (works x) = g (e.works x) := by
    intro ids
    induction ids with
    | nil => exact fun e => ⟨_, rfl, fun _ _ _ => rfl⟩
    | cons id ids ih =>
      intro e
      obtain ⟨works, hframe, hkeeps⟩ := refreshOne_frame env now e id
      obtain ⟨works', hframe', hkeeps'⟩ := ih (refreshOne env now e id)
      refine ⟨works', ?_, fun g hg x => ?_⟩
      · rw [List.foldl_cons, hframe', hframe]
      · rw [hkeeps' g hg x, hframe]
        exact hkeeps g hg x
  exact turns e.inFlight e

theorem identityOf_stampIdentity (e : Executor α) (id x : WorkId) : (e.stampIdentity id).identityOf x = e.identityOf x := by
  have hkeeps := modifyWork_keeps e (f := fun w => { w with profileIdentity := some (e.identityOf id).1 })
    (fun w => (w.fnModule, w.fnName, w.profileKey)) (fun _ => rfl) id x
  simp only [Prod.mk.injEq] at hkeeps
  unfold identityOf
  rw [stampIdentity, hkeeps.1, hkeeps.2.1, hkeeps.2.2]
  rfl

theorem foldl_stampIdentity : ∀ (ids : List WorkId) (e : Executor α),
    (∃ works, ids.foldl stampIdentity e = { e with works := works }) ∧
      ∀ x, (ids.foldl stampIdentity e).works x =
        if x ∈ ids then { e.works x with profileIdentity := some (e.identityOf x).1 } else e.works x
  | [], e => ⟨⟨_, rfl⟩, fun _ => rfl⟩
  | id :: ids, e => by
    obtain ⟨⟨works, hframe⟩, hworks⟩ := foldl_stampIdentity ids (e.stampIdentity id)
    refine ⟨⟨works, ?_⟩, fun x => ?_⟩
    · rw [List.foldl_cons, hframe]
      rfl
    · have hone : (e.stampIdentity id).works x =
          if x = id then { e.works id with profileIdentity := some (e.identityOf id).1 } else e.works x :=
        modifyWork_works e id _ x
      rw [List.foldl_cons, hworks, identityOf_stampIdentity, hone]
      by_cases hx : x = id
      · subst hx
        simp
      · simp [hx]

/-! ## The whole cycle -/

/-- The state in which the loop over the decisions begins. -/
def ready (env : Env) (e : Executor α) : Executor α := (e.prepare.buildDispatchPlan env).1

def decisions (env : Env) (e : Executor α) : List DispatchDecision := (e.prepare.buildDispatchPlan env).2.decisions

theorem decisions_ids (env : Env) (e : Executor α) : (e.decisions env).map DispatchDecision.pendingId = e.decided env := rfl

/-- The planner as the plan of a cycle leaves it. -/
def planner (env : Env) (e : Executor α) : Planner :=
  cycle ((e.planned env).pending.map (e.planned env).pendingEntry)
    ((e.planned env).inFlight.map ((e.planned env).runningEntry (e.planned env).clock)) (e.planned env).capacity

theorem decisions_eq (env : Env) (e : Executor α) : e.decisions env = (e.planner env).admitted.map Admission.decision := rfl

theorem planner_admitted {a : Admission} (ha : a ∈ (e.planner env).admitted) :
    a.task = (e.planned env).pendingEntry a.task.id ∧ a.task.id ∈ (e.planned env).pending := by
  obtain ⟨as, bs, h⟩ := Planner.run_spec (Planner.init ((e.planned env).pending.map (e.planned env).pendingEntry)
    ((e.planned env).inFlight.map ((e.planned env).runningEntry (e.planned env).clock)) (e.planned env).capacity)
  rw [planner, cycle_admitted h] at ha
  obtain ⟨id, hid, htask⟩ := List.mem_map.mp (h.sublist.subset (List.mem_map_of_mem ha))
  rw [← htask]
  exact ⟨rfl, hid⟩

theorem ready_frame (env : Env) (e : Executor α) : ∃ works next, e.ready env =
    { e.planned env with works := works, nextGpuIndex := next } ∧
      ∀ x, works x = if x ∈ (e.planned env).pending
        then { (e.planned env).works x with profileIdentity := some ((e.planned env).identityOf x).1 }
        else (e.planned env).works x := by
  obtain ⟨⟨works, hframe⟩, hworks⟩ := foldl_stampIdentity (e.planned env).pending (e.planned env)
  refine ⟨works, ((e.planned env).dispatchPlan (e.planned env).clock).nextGpuIndex, ?_, fun x => ?_⟩
  · have hready : e.ready env = { (e.planned env).pending.foldl stampIdentity (e.planned env) with
        nextGpuIndex := ((e.planned env).dispatchPlan (e.planned env).clock).nextGpuIndex } := rfl
    rw [hready, hframe]
  · rw [← hworks x, hframe]

theorem planned_frame (env : Env) (e : Executor α) : ∃ works profiles futures pending, e.planned env =
    { e with works := works, profiles := profiles, futures := futures, pending := pending } ∧
      e.prepare.profiles = profiles ∧ e.prepare.pending = pending ∧
      ∀ {β : Type} (g : PendingWork → β), (∀ w, g (updateObserved env e.clock w) = g w) → ∀ x ∉ e.pending,
        g (works x) = g (e.works x) := by
  obtain ⟨hprepare, works, profiles, futures, pending, hframe⟩ := prepare_frame e
  obtain ⟨works', hframe', hkeeps⟩ := refreshObservations_frame env e.prepare e.prepare.clock
  have hclock : e.prepare.clock = e.clock := by rw [hframe]
  refine ⟨works', profiles, futures, pending, ?_, ?_, ?_, fun g hg x hx => ?_⟩
  · rw [planned, hframe', hframe]
  · rw [hframe]
  · rw [hframe]
  · rw [hkeeps g (fun w => by rw [hclock]; exact hg w) x, hprepare x hx]

theorem ready_pending (env : Env) (e : Executor α) : (e.ready env).pending = (e.planned env).pending := by
  obtain ⟨works, next, h, -⟩ := ready_frame env e
  rw [h]

theorem ready_inFlight (env : Env) (e : Executor α) : (e.ready env).inFlight = e.inFlight := by
  obtain ⟨_, _, hready, -⟩ := ready_frame env e
  obtain ⟨_, _, _, _, hplanned, -⟩ := planned_frame env e
  rw [hready, hplanned]

theorem ready_clock (env : Env) (e : Executor α) : (e.ready env).clock = e.clock := by
  obtain ⟨_, _, hready, -⟩ := ready_frame env e
  obtain ⟨_, _, _, _, hplanned, -⟩ := planned_frame env e
  rw [hready, hplanned]

/-- A task that is not queued keeps all but its observed usage until the loop begins. -/
theorem ready_keeps {β : Type} {g : PendingWork → β} (hg : ∀ w, g (updateObserved env e.clock w) = g w)
    (hnodup : e.pending.Nodup) {x : WorkId} (hx : x ∉ e.pending) : g ((e.ready env).works x) = g (e.works x) := by
  obtain ⟨works, _, _, _, hplanned, -, -, hkeeps⟩ := planned_frame env e
  obtain ⟨works', next, hready, hworks⟩ := ready_frame env e
  rw [hready]
  change g (works' x) = g (e.works x)
  rw [hworks, if_neg fun hp => hx ((planned_steps env [] hnodup).pending.subset hp), ← hkeeps g hg x hx, hplanned]

theorem decisions_pending (env : Env) (e : Executor α) : ∀ d ∈ e.decisions env, d.pendingId ∈ (e.ready env).pending :=
  fun _ hd => by
    rw [ready_pending]
    exact (decided_sublist env e).subset (List.mem_map_of_mem hd)

theorem decisions_sublist (env : Env) (hnodup : e.pending.Nodup) :
    ((e.decisions env).map DispatchDecision.pendingId).Sublist e.pending := by
  rw [decisions_ids]
  exact (decided_sublist env e).trans (planned_steps env [] hnodup).pending

/-- **A cycle that does not raise** stops before the plan with an empty queue, or handles the decisions of the plan. -/
theorem maybeDispatch_planned (h : e.maybeDispatch env = .ok e') :
    e.pending = [] ∧ e' = e ∨ e.prepare.pending = [] ∧ e' = e.prepare ∨
      ∃ hs e₁, Handling env (e.ready env) hs e₁ ∧ hs.map Prod.fst = e.decisions env ∧
        e' = { e₁ with pending := e₁.pending.filter fun id => id ∉ fated Fate.leaves hs } := by
  unfold maybeDispatch at h
  dsimp only at h
  split_ifs at h with hempty hswept hnone
  · exact .inl ⟨hempty, (Except.ok.inj h).symm⟩
  · exact .inr (.inl ⟨hswept, (Except.ok.inj h).symm⟩)
  · refine .inr (.inr ⟨[], e.ready env, .nil _, hnone.symm, ?_⟩)
    rw [← Except.ok.inj h]
    simp [fated, ready]
  · cases hloop : dispatchLoop env (e.decisions env) (e.ready env) [] with
    | error =>
      rw [decisions, ready] at hloop
      rw [hloop] at h
      cases h
    | ok r =>
      obtain ⟨hs, hhandling, hfst, hr⟩ := dispatchLoop_handling _ _ _ _ hloop (decisions_pending env e)
      rw [decisions, ready] at hloop
      rw [hloop] at h
      refine .inr (.inr ⟨hs, r.1, hhandling, hfst, ?_⟩)
      rw [← Except.ok.inj h]
      dsimp only
      rw [hr]
      simp

/-- **A cycle that raises** has handled the decisions before the one at which it raises, and leaves the queue as it was
in the plan. -/
theorem maybeDispatch_raises (h : e.maybeDispatch env = .error e') :
    ∃ hs d rest e₁, Handling env (e.ready env) hs e₁ ∧ e.decisions env = hs.map Prod.fst ++ d :: rest ∧
      (e₁.acquireWorker env d.gpuId = .error e' ∨
        ∃ e₂ w, e₁.acquireWorker env d.gpuId = .ok (e₂, some w) ∧ e₂.handshake env d.pendingId d.gpuId w = .error e') := by
  unfold maybeDispatch at h
  dsimp only at h
  split_ifs at h
  cases hloop : dispatchLoop env (e.decisions env) (e.ready env) [] with
  | ok r =>
    rw [decisions, ready] at hloop
    rw [hloop] at h
    cases h
  | error e₁ =>
    have hraises := dispatchLoop_raises _ _ _ _ hloop (decisions_pending env e)
    rw [decisions, ready] at hloop
    rw [hloop] at h
    obtain rfl := Except.error.inj h
    exact hraises

/-- **What a cycle does to the tasks in flight**: those in flight before keep all but their observed usage, and the
tasks it ships follow in the order of the plan. -/
theorem maybeDispatch_flight (h : e.maybeDispatch env = .ok e') (hnodup : e.pending.Nodup)
    (hqueued : ∀ x ∈ e.pending, x ∉ e.inFlight) :
    ∃ hs : List (DispatchDecision × Fate), (hs.map Prod.fst).Sublist (e.decisions env) ∧
      e'.cfg = e.cfg ∧ e'.snapshot = e.snapshot ∧ (e' = e ∨ e'.profiles = (e.planned env).profiles) ∧
      e'.inFlight = e.inFlight ++ fated Fate.ships hs ∧
      (∀ {β : Type} (g : PendingWork → β), (∀ w, g (updateObserved env e.clock w) = g w) → ∀ x ∈ e.inFlight,
        g (e'.works x) = g (e.works x)) ∧
      (hs ≠ [] → ∀ x ∈ e.inFlight, e'.works x = (e.planned env).works x) ∧
      ∀ d ∈ hs, ∀ w, d.2 = .shipped w →
        Dispatched d.1.gpuId w ((e.ready env).works d.1.pendingId) (e'.works d.1.pendingId) := by
  obtain ⟨works, profiles, futures, pending, hplanned, hprofiles, hpending, hkeeps⟩ := planned_frame env e
  have hold (x : WorkId) (hx : x ∈ e.inFlight) : x ∉ e.pending := fun hp => hqueued x hp hx
  rcases maybeDispatch_planned h with ⟨-, rfl⟩ | ⟨-, rfl⟩ | ⟨hs, e₁, hhandling, hfst, rfl⟩
  · exact ⟨[], List.nil_sublist _, rfl, rfl, .inl rfl, (List.append_nil _).symm, fun _ _ _ _ => rfl,
      fun h => absurd rfl h, fun _ h => by cases h⟩
  · obtain ⟨hprepare, works', _, _, _, hframe⟩ := prepare_frame e
    refine ⟨[], List.nil_sublist _, ?_, ?_, .inr ?_, ?_, fun g _ x hx => ?_, fun h => absurd rfl h, fun _ h => by cases h⟩
    · rw [hframe]
    · rw [hframe]
    · rw [hplanned, hprofiles]
    · rw [hframe]
      exact (List.append_nil _).symm
    · rw [hprepare x (hold x hx)]
  · obtain ⟨works', next, hready, hworks'⟩ := ready_frame env e
    have hdecided : ((hs.map Prod.fst).map DispatchDecision.pendingId).Sublist e.pending := by
      rw [hfst]
      exact decisions_sublist env hnodup
    obtain ⟨hcfg, hprofiles', hsnapshot, -⟩ := hhandling.frame
    obtain ⟨hflight, hsame, hshipped⟩ := hhandling.flight (hnodup.sublist hdecided) fun d hd => by
      rw [ready_inFlight]
      exact hqueued _ (hdecided.subset (List.mem_map_of_mem (List.mem_map_of_mem hd)))
    have hplannedWorks (x : WorkId) (hx : x ∈ e.inFlight) : e₁.works x = (e.planned env).works x := by
      have hout : x ∉ fated Fate.ships hs := fun hm => hold x hx (hdecided.subset ((fated_sublist _ hs).subset hm))
      rw [hsame x hout, hready]
      change works' x = _
      rw [hworks', if_neg]
      exact fun hp => hold x hx ((planned_steps env [] hnodup).pending.subset hp)
    refine ⟨hs, hfst ▸ .refl _, ?_, ?_, .inr ?_, ?_, fun g hg x hx => ?_, fun _ => hplannedWorks, hshipped⟩
    · rw [hcfg, hready, hplanned]
    · rw [hsnapshot, hready, hplanned]
    · rw [hprofiles', hready]
    · change e₁.inFlight = _
      rw [hflight, ready_inFlight]
    · change g (e₁.works x) = _
      rw [hplannedWorks x hx, ← hkeeps g hg x (hold x hx), hplanned]

end Executor

/-! ## Events -/

namespace System
open Executor (Lands)
variable {α : Type} {s s' : System α} {e : Event α}

theorem Sound.not_held_of_flight (hs : Sound s) {x : WorkId} (hx : x ∈ s.executor.inFlight) : x ∉ s.held := fun hh =>
  (List.nodup_append.mp hs.tidy.nodup.of_append_right).2.2 x hx x hh rfl

theorem Sound.not_mem_flight (hs : Sound s) {t : Thread} {m : Section α} {rest : List (Section α)}
    (hand : s.hands t = m :: rest) {x : WorkId} (hx : m.owns = some x) : x ∉ s.executor.inFlight := fun hf => by
  refine hs.not_held_of_flight hf (mem_held (mem_sections.mpr ⟨t, ?_⟩) hx)
  rw [hand]
  exact List.mem_cons_self

theorem Sound.flight_nodup (hs : Sound s) : s.executor.inFlight.Nodup := hs.tidy.nodup.of_append_right.of_append_left

theorem Sound.queued_not_flight (hs : Sound s) : ∀ x ∈ s.executor.pending, x ∉ s.executor.inFlight := fun _ hx hf =>
  hs.tidy.not_mem_flight hx (List.mem_append_left _ hf)

theorem Sound.not_flight_of_new (hs : Sound s) {id : WorkId} (hid : id ∉ s.issued) : id ∉ s.executor.inFlight := fun hf =>
  hid (hs.issued id (List.mem_append_left _ (hs.tidy.known id (List.mem_append_right _ (List.mem_append_left _ hf)))))

/-- **An event is a dispatch cycle, or tasks only leave flight.** -/
theorem Stepped.lands (h : Stepped s e s') (hs : Sound s) :
    (∃ env, s.executor.maybeDispatch env = .ok s'.executor) ∨ Lands s.executor none s'.executor := by
  cases h with
  | @submit id r reading work profiles _ hid =>
    refine .inr ⟨rfl, .refl _, fun x hx _ => Function.update_of_ne ?_ _ _⟩
    rintro rfl
    exact hs.not_flight_of_new hid hx
  | @act t env m rest r hand hrun =>
    by_cases hm : m = .maybeDispatch
    · subst hm
      obtain ⟨hok, -⟩ := Executor.run_maybeDispatch hrun
      exact .inl ⟨env, hok⟩
    · obtain ⟨hcfg, hflight, hworks⟩ := Executor.run_lands hrun hm hs.flight_nodup
      refine .inr ⟨hcfg, hflight, fun x hx _ => hworks x hx fun howns => ?_⟩
      exact hs.not_mem_flight hand howns (hflight.subset hx)
  | _ => exact .inr (.of_same _ rfl rfl rfl)

end System

end AdaptiveExecutor
