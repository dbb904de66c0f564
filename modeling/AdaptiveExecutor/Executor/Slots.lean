import Mathlib.Tactic.Linarith
import AdaptiveExecutor.Executor.Places

/-!
# What becomes of a worker

The parent's view of a worker, and its work queue: what the sections do to them, and what a dispatch cycle does.

* `Lasts` : nothing new is shipped, reported or begun; at most the worker gets free, is told to stop, or is killed;
* `run_lasts` : so it is with every section but a dispatch cycle;
* `Sends`, `Staffing`, `DispatchStep.staffing` : the small steps of a cycle start, stop and supply workers;
* `DispatchSteps.keep` : what they keep, a cycle keeps.
-/

namespace AdaptiveExecutor
open Ledger (Tidy)

namespace Executor
variable {α : Type} {env : Env} {e e' : Executor α} {accepted held : List WorkId} {pooled : Prop}

/-! ## Sections -/

/-- What can become of a worker that gets no new task. Only one of the pool is stopped. -/
structure Lasts (pooled : Prop) (slot slot' : WorkerSlot α) : Prop where
  pid : slot'.process.pid = slot.process.pid
  executing : slot'.process.executing = slot.process.executing
  leaving : slot'.process.leaving = slot.process.leaving
  /-- Sentinels are put on its work queue, and then it is marked as stopped. -/
  queue : ∃ k, slot'.process.workQueue = slot.process.workQueue ++ List.replicate k none ∧
    (0 < k → slot'.intentionallyStopped = true)
  stopped : slot.intentionallyStopped = true → slot'.intentionallyStopped = true
  pooled : slot'.intentionallyStopped = true → slot.intentionallyStopped = true ∨ pooled
  results : slot'.process.resultQueue ⊆ slot.process.resultQueue
  alive : slot'.process.alive = true → slot.process.alive = true
  current : ∀ x, slot'.currentWorkId = some x → slot.currentWorkId = some x
  /-- A task counts as completed when it is no longer the current one. -/
  completed : slot'.tasksCompleted = slot.tasksCompleted ∨
    slot'.tasksCompleted = slot.tasksCompleted + 1 ∧ slot.currentWorkId ≠ none ∧ slot'.currentWorkId = none

theorem Lasts.of_queue {slot slot' : WorkerSlot α} (hpid : slot'.process.pid = slot.process.pid)
    (hexecuting : slot'.process.executing = slot.process.executing) (hleaving : slot'.process.leaving = slot.process.leaving)
    (hqueue : slot'.process.workQueue = slot.process.workQueue)
    (hstopped : slot'.intentionallyStopped = slot.intentionallyStopped)
    (hresults : slot'.process.resultQueue ⊆ slot.process.resultQueue)
    (halive : slot'.process.alive = true → slot.process.alive = true)
    (hcurrent : ∀ x, slot'.currentWorkId = some x → slot.currentWorkId = some x)
    (hcompleted : slot'.tasksCompleted = slot.tasksCompleted) : Lasts pooled slot slot' := by
  refine ⟨hpid, hexecuting, hleaving, ⟨0, ?_, fun hk => absurd hk (lt_irrefl 0)⟩, fun h => hstopped.trans h,
    fun h => .inl ?_, hresults, halive, hcurrent, .inl hcompleted⟩
  · rw [hqueue, List.replicate_zero, List.append_nil]
  · exact hstopped ▸ h

theorem Lasts.refl (slot : WorkerSlot α) : Lasts pooled slot slot :=
  .of_queue rfl rfl rfl rfl rfl (List.Subset.refl _) id (fun _ => id) rfl

theorem Lasts.trans {slot slot' slot'' : WorkerSlot α} (h : Lasts pooled slot slot') (h' : Lasts pooled slot' slot'') :
    Lasts pooled slot slot'' := by
  refine ⟨h'.pid.trans h.pid, h'.executing.trans h.executing, h'.leaving.trans h.leaving, ?_,
    fun hs => h'.stopped (h.stopped hs), fun hs => ?_, List.Subset.trans h'.results h.results,
    fun ha => h.alive (h'.alive ha), fun x hx => h.current x (h'.current x hx), ?_⟩
  · obtain ⟨k, hk, hstop⟩ := h.queue
    obtain ⟨k', hk', hstop'⟩ := h'.queue
    refine ⟨k + k', ?_, fun hpos => ?_⟩
    · rw [hk', hk, List.append_assoc, List.replicate_append_replicate]
    · rcases Nat.eq_zero_or_pos k with rfl | hpos'
      · exact hstop' (by omega)
      · exact h'.stopped (hstop hpos')
  · exact (h'.pooled hs).elim h.pooled .inr
  · have free : slot'.currentWorkId = none → slot''.currentWorkId = none := fun hnone => by
      cases hx : slot''.currentWorkId with
      | none => rfl
      | some x => rw [h'.current x hx] at hnone; cases hnone
    have busy : slot'.currentWorkId ≠ none → slot.currentWorkId ≠ none := fun hne => by
      obtain ⟨x, hx⟩ := Option.ne_none_iff_exists'.mp hne
      rw [h.current x hx]
      exact Option.some_ne_none x
    rcases h.completed with hsame | ⟨hone, hbusy, hfree⟩
    · rcases h'.completed with hsame' | ⟨hone', hbusy', hfree'⟩
      · exact .inl (hsame'.trans hsame)
      · exact .inr ⟨hone'.trans (by rw [hsame]), busy hbusy', hfree'⟩
    · rcases h'.completed with hsame' | ⟨-, hbusy', -⟩
      · exact .inr ⟨hsame'.trans hone, hbusy, free hfree⟩
      · exact absurd hfree hbusy'

theorem lasts_exit (slot : WorkerSlot α) (code : Int) :
    Lasts pooled slot { slot with process := slot.process.exit code } := by
  unfold WorkerProcess.exit
  split_ifs
  · exact .of_queue rfl rfl rfl rfl rfl (List.Subset.refl _) (fun ha => by cases ha) (fun _ => id) rfl
  · exact .refl slot

theorem lasts_sentinel (slot : WorkerSlot α) (hw : pooled) : Lasts pooled slot
    { slot with
      intentionallyStopped := true
      process := { slot.process with workQueue := slot.process.workQueue ++ [none] } } :=
  ⟨rfl, rfl, rfl, ⟨1, rfl, fun _ => rfl⟩, fun _ => rfl, fun _ => .inr hw, List.Subset.refl _, id, fun _ => id, .inl rfl⟩

theorem lasts_modifySlot {ws : List WorkerId} {f : WorkerSlot α → WorkerSlot α} {w : WorkerId}
    (hf : Lasts (w ∈ ws) (e.slots w) (f (e.slots w))) (v : WorkerId) :
    Lasts (v ∈ ws) (e.slots v) ((e.modifySlot w f).slots v) := by
  rw [modifySlot_slots]
  split_ifs with hv
  · rwa [hv]
  · exact .refl _

theorem lasts_retire {ws : List WorkerId} (e : Executor α) {w : WorkerId} (hw : w ∈ ws) (v : WorkerId) :
    Lasts (v ∈ ws) (e.slots v) ((e.retireWorker w).slots v) :=
  lasts_modifySlot (f := fun slot => { slot with
    intentionallyStopped := true
    process := { slot.process with workQueue := slot.process.workQueue ++ [none] } }) (lasts_sentinel _ hw) v

theorem lasts_foldl {ws : List WorkerId} {f : WorkerSlot α → WorkerSlot α} (hf : ∀ slot, Lasts True slot (f slot))
    (v : WorkerId) : ∀ (stop : List WorkerId) (e : Executor α), stop ⊆ ws →
      Lasts (v ∈ ws) (e.slots v) ((stop.foldl (fun e w => e.modifySlot w f) e).slots v)
  | [], _, _ => .refl _
  | w :: stop, e, hstop => by
    obtain ⟨hw, hstop⟩ := List.cons_subset.mp hstop
    have hlasts := hf (e.slots w)
    rw [← eq_true hw] at hlasts
    exact (lasts_modifySlot hlasts v).trans (lasts_foldl hf v stop (e.modifySlot w f) hstop)

theorem lasts_clearWorker (e : Executor α) (r : WorkResult α) (v : WorkerId) :
    Lasts (v ∈ e.workers) (e.slots v) ((e.clearWorker r).slots v) := by
  unfold clearWorker
  split_ifs with hw
  · have hfree : Lasts (v ∈ e.workers) (e.slots v) ((e.modifySlot r.workerId fun slot =>
        { slot with currentWorkId := none, tasksCompleted := slot.tasksCompleted + 1 }).slots v) := by
      refine lasts_modifySlot (f := fun slot =>
        { slot with currentWorkId := none, tasksCompleted := slot.tasksCompleted + 1 }) ?_ v
      refine ⟨rfl, rfl, rfl, ⟨0, (List.append_nil _).symm, fun hk => absurd hk (lt_irrefl 0)⟩, id, .inl, List.Subset.refl _,
        id, fun x hx => (by cases hx), .inr ⟨rfl, ?_, rfl⟩⟩
      rw [hw.2]
      exact Option.some_ne_none _
    dsimp only
    split_ifs
    · exact hfree.trans (lasts_retire _ hw.1 v)
    · exact hfree
  · exact .refl _

theorem lasts_handleTimeout (e : Executor α) (id : WorkId) (v : WorkerId) :
    Lasts (v ∈ e.workers) (e.slots v) ((e.handleTimeout id).1.slots v) := by
  unfold handleTimeout
  split_ifs
  · exact .refl _
  dsimp only
  split
  · split_ifs with hw
    · exact lasts_modifySlot (f := fun slot =>
        { slot with intentionallyStopped := true, queuePoisoned := true, currentWorkId := none })
        ⟨rfl, rfl, rfl, ⟨0, (List.append_nil _).symm, fun hk => absurd hk (lt_irrefl 0)⟩, fun _ => rfl, fun _ => .inr hw,
          List.Subset.refl _, fun ha => ha, fun x hx => (by cases hx), .inl rfl⟩ v
    · exact .refl _
  · split
    · exact .refl _
    · split_ifs
      · exact lasts_modifySlot (f := fun slot => { slot with currentWorkId := none })
          (.of_queue rfl rfl rfl rfl rfl (List.Subset.refl _) (fun ha => ha) (fun _ hx => by cases hx) rfl) v
      · exact .refl _

/-- **No section but a dispatch cycle** ships a task, makes it a worker's own, or reports a result. -/
theorem run_lasts {m : Section α} {body : List (Section α)} (h : e.run env m = some (e', body)) (hm : m ≠ .maybeDispatch)
    (v : WorkerId) : Lasts (v ∈ e.workers) (e.slots v) (e'.slots v) := by
  cases m with
  | maybeDispatch => exact absurd rfl hm
  | processResult r =>
    obtain ⟨rfl, -⟩ := run_eq (r := e.processResult r) h
    have hslots : (e.processResult r).1.slots = (e.clearWorker r).slots := by
      unfold processResult
      dsimp only
      split_ifs <;> rfl
    rw [hslots]
    exact lasts_clearWorker e r v
  | takeLost w =>
    obtain ⟨rfl, -⟩ := run_eq (r := e.takeLost w) h
    rcases takeLost_frame e w with hframe | ⟨id, -, hframe⟩
    · rw [hframe]
      exact .refl _
    · rw [hframe]
      exact .refl _
  | handleTimeout id =>
    obtain ⟨rfl, -⟩ := run_eq (r := e.handleTimeout id) h
    exact lasts_handleTimeout e id v
  | getNowait w results =>
    obtain ⟨rfl, -⟩ := run_eq (r := e.getNowait w results) h
    unfold getNowait
    split
    · exact .refl _
    · rename_i r rest hqueue
      split_ifs
      · exact .refl _
      · refine lasts_modifySlot (f := fun slot => { slot with process := { slot.process with resultQueue := rest } })
          (.of_queue rfl rfl rfl rfl rfl ?_ id (fun _ => id) rfl) v
        rw [hqueue]
        exact List.subset_cons_self r rest
  | escalateKill w =>
    obtain ⟨rfl, -⟩ := run_eq h
    unfold escalateKill
    split
    · exact lasts_modifySlot (f := fun slot => { slot with process := slot.process.exit (-15) }) (lasts_exit _ (-15)) v
    · exact lasts_modifySlot (f := fun slot => { slot with process := slot.process.exit (-9) }) (lasts_exit _ (-9)) v
    · exact .refl _
  | discardQueue w =>
    obtain ⟨rfl, -⟩ := run_eq h
    exact lasts_modifySlot (f := fun slot => { slot with queueDiscarded := true })
      (.of_queue rfl rfl rfl rfl rfl (List.Subset.refl _) id (fun _ => id) rfl) v
  | stopAllWorkers =>
    obtain ⟨rfl, -⟩ := run_eq (r := e.stopAllWorkers) h
    exact lasts_foldl (f := fun slot => { slot with
      intentionallyStopped := true
      process := { slot.process with workQueue := slot.process.workQueue ++ [none] } })
      (fun slot => lasts_sentinel slot trivial) v e.workers e (List.Subset.refl _)
  | failPendingFutures =>
    obtain ⟨rfl, -⟩ := run_eq h
    obtain ⟨futures, hframe⟩ := failPendingFutures_frame e
    rw [hframe]
    exact .refl _
  | checkWorkers | record | settle | penalizeEstimate | requeue | pruneRetiring | sweep | readClock | scanTimeouts | readQueue
  | testInFlight | finalDrain | leave | shutUnstarted | stopAccepting | stopThreads =>
    obtain ⟨rfl, -⟩ := run_eq h
    exact .refl _

/-! ## Small steps of a cycle -/

/-- A queued task is shipped to an idle worker of the pool. -/
structure Sends (e : Executor α) (x : WorkId) (w : WorkerId) (e' : Executor α) : Prop where
  queued : x ∈ e.pending
  worker : w ∈ e.workers
  idle : e.idle w = true
  pending : e'.pending = e.pending.erase x
  inFlight : e'.inFlight = e.inFlight ++ [x]
  workers : e'.workers = e.workers
  retiring : e'.retiring = e.retiring
  next : e'.nextWorkerId = e.nextWorkerId
  workerId : ∀ y, (e'.works y).workerId = if y = x then some w else (e.works y).workerId
  slots : ∃ item : WorkItem, item.id = x ∧ ∀ v, e'.slots v = if v = w then
      { e.slots w with
        currentWorkId := some x
        process := { (e.slots w).process with workQueue := (e.slots w).process.workQueue ++ [some item] } }
    else e.slots v

/-- What a small step does to the workers and the tasks in flight. -/
inductive Staffing (e : Executor α) : Executor α → Prop
  | still {e' : Executor α} (hpending : e'.pending ⊆ e.pending) (hflight : e'.inFlight = e.inFlight)
    (hslots : e'.slots = e.slots) (hworkers : e'.workers = e.workers) (hretiring : e'.retiring = e.retiring)
    (hnext : e'.nextWorkerId = e.nextWorkerId) (hworks : ∀ x, (e'.works x).workerId = (e.works x).workerId) : Staffing e e'
  | retire {w : WorkerId} (hw : w ∈ e.workers) (hidle : e.idle w = true) : Staffing e (e.retireWorker w)
  | spawn (pid : Int) (gpuId : Option GpuId) : Staffing e (e.spawned pid gpuId)
  | send {e' : Executor α} {x : WorkId} {w : WorkerId} (h : e.Sends x w e') : Staffing e e'

theorem DispatchStep.staffing {decided : List WorkId} (h : DispatchStep env decided e e')
    (htidy : Tidy (e.book accepted held)) : Staffing e e' := by
  cases h with
  | refresh h =>
    obtain ⟨_, _, _, hworks, rfl⟩ := h
    exact .still (List.Subset.refl _) rfl rfl rfl rfl rfl fun x => (hworks x).workerId
  | fail | drop => exact .still List.erase_subset rfl rfl rfl rfl rfl fun _ => rfl
  | retire hw hidle => exact .retire hw hidle
  | spawn pid gpuId => exact .spawn pid gpuId
  | @ship x e₁ w gpuId hid _ hw hidle hs =>
    obtain ⟨hslots, hflight, hworkers, hretiring, hnext, hworks⟩ : e₁.slots = e.slots ∧ e₁.inFlight = e.inFlight ∧
        e₁.workers = e.workers ∧ e₁.retiring = e.retiring ∧ e₁.nextWorkerId = e.nextWorkerId ∧
          ∀ y, (e₁.works y).workerId = (e.works y).workerId := by
      rcases hs with ⟨-, rfl⟩ | ⟨-, -, rfl⟩
      · exact ⟨rfl, rfl, rfl, rfl, rfl, fun _ => rfl⟩
      · refine ⟨rfl, rfl, rfl, rfl, rfl, fun y => ?_⟩
        exact modifyWork_keeps e (f := fun w => { w with runningNotified := true }) (·.workerId) (fun _ => rfl) x y
    obtain ⟨item, hitem, hship⟩ := ship_slots env e₁ x gpuId w
    refine .send ⟨hid, hw, hidle, rfl, ?_, hworkers, hretiring, hnext, fun y => ?_, item, hitem, hslots ▸ hship⟩
    · have hout : x ∉ e.inFlight := fun hx => htidy.not_mem_flight hid (List.mem_append_left _ hx)
      change insertKey e₁.inFlight x = _
      rw [hflight]
      exact if_neg hout
    · have hmodify := modifyWork_works e₁ x (fun work => captureBaseline env e₁.clock (e₁.slots w).process.pid gpuId
        { work with assignedGpuId := gpuId, workerId := some w, startedAt := some e₁.clock }) y
      refine (congrArg PendingWork.workerId hmodify).trans ?_
      split_ifs
      · rfl
      · exact hworks y

/-- **A dispatch cycle** keeps what its small steps keep. -/
theorem DispatchSteps.keep {P : Executor α → Prop} {decided : List WorkId} {lost : List WorkerId}
    (h : DispatchSteps env decided e e') (hmark : Marked e accepted) (htidy : Tidy (e.book accepted held)) (hpool : Pool e lost)
    (hstep : ∀ {e e' : Executor α}, Tidy (e.book accepted held) → Pool e lost → Staffing e e' → P e → P e') (hp : P e) : P e' := by
  induction h with
  | refl => exact hp
  | tail hsteps h ih =>
    have htidy' := Ledger.run_tidy (DispatchSteps.moves hsteps hmark htidy).1 htidy
    exact hstep htidy' (DispatchSteps.reshapes hsteps hpool).1 (h.staffing htidy') ih

end Executor

end AdaptiveExecutor
