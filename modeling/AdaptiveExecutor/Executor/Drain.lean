import AdaptiveExecutor.Executor.Crew

/-!
# The queue of a dead worker

Before the task of a dead worker is taken for lost, the thread that found the worker dead has read its result queue to
the end and discarded it, unless the queue is poisoned. What it has read, it has processed by then.

* `Ages`, `run_ages` : a dead worker stays dead, and its empty queue empty; a queue is discarded after the death of its
  worker, and a worker leaves the pool without a task or dead;
* `Guarded` : what must have come before a section in its hand; `Drained` : all hands;
* `Stepped.drained`, `run_drained` : before shutdown, all hands are so;
* `NotInHand` : no task is taken for lost while its result is in another hand; `OneAtATime` : no operation begins
  before the others are over;
* `run_crewed`, `run_one` : the crew over the runs of such steps.
-/

namespace AdaptiveExecutor
open Relation (ReflTransGen)

/-! ## Slots -/

namespace WorkerSlot
variable {α : Type} {slot slot' slot'' : WorkerSlot α}

/-- What lasts of a slot: death, the end of a dead worker's queue, and the flags that close a queue. A queue that gets
discarded is that of a dead worker. -/
structure Ages (slot slot' : WorkerSlot α) : Prop where
  dead : slot.process.alive = false → slot'.process.alive = false
  drained : slot.process.alive = false → slot.process.resultQueue = [] → slot'.process.resultQueue = []
  discarded : slot.queueDiscarded = true → slot'.queueDiscarded = true
  poisoned : slot.queuePoisoned = true → slot'.queuePoisoned = true
  closed : slot'.queueDiscarded = true → slot.queueDiscarded = true ∨ slot'.process.alive = false

structure SameQueue (slot slot' : WorkerSlot α) : Prop where
  alive : slot'.process.alive = slot.process.alive
  results : slot'.process.resultQueue = slot.process.resultQueue
  discarded : slot'.queueDiscarded = slot.queueDiscarded
  poisoned : slot'.queuePoisoned = slot.queuePoisoned

theorem SameQueue.refl (slot : WorkerSlot α) : slot.SameQueue slot := ⟨rfl, rfl, rfl, rfl⟩

theorem SameQueue.trans (h : slot.SameQueue slot') (h' : slot'.SameQueue slot'') : slot.SameQueue slot'' :=
  ⟨h'.alive.trans h.alive, h'.results.trans h.results, h'.discarded.trans h.discarded, h'.poisoned.trans h.poisoned⟩

theorem SameQueue.ages (h : slot.SameQueue slot') : slot.Ages slot' :=
  ⟨fun hd => h.alive.trans hd, fun _ hq => h.results.trans hq, fun hf => h.discarded.trans hf,
    fun hf => h.poisoned.trans hf, fun hf => .inl (h.discarded.symm.trans hf)⟩

theorem Ages.refl (slot : WorkerSlot α) : slot.Ages slot := (SameQueue.refl slot).ages

theorem Ages.trans (h : slot.Ages slot') (h' : slot'.Ages slot'') : slot.Ages slot'' := by
  refine ⟨fun hd => h'.dead (h.dead hd), fun hd hq => h'.drained (h.dead hd) (h.drained hd hq),
    fun hf => h'.discarded (h.discarded hf), fun hf => h'.poisoned (h.poisoned hf), fun hf => ?_⟩
  rcases h'.closed hf with hf | hd
  · exact (h.closed hf).imp_right h'.dead
  · exact .inr hd

theorem Ages.of_process {w : WorkerId} {p : WorkerProcess α} (hp : System.ProcessStep w slot.process p) :
    slot.Ages { slot with process := p } := by
  refine ⟨fun hd => ?_, fun hd hq => ?_, id, id, .inl⟩
  · cases hp with
    | take | stop | put | lose => exact hd
    | exit => exact Executor.alive_exit _ _
  · cases hp with
    | take | stop | lose => exact hq
    | put halive =>
      rw [hd] at halive
      cases halive
    | exit =>
      change WorkerProcess.resultQueue (WorkerProcess.exit _ _) = []
      rw [WorkerProcess.resultQueue_exit]
      exact hq

end WorkerSlot

namespace Executor
variable {α : Type} {env : Env} {e e' e'' : Executor α} {m : Section α} {body : List (Section α)}

/-- A worker with a task is in the pool, or dead. -/
def Attached (e : Executor α) : Prop :=
  ∀ w, (e.slots w).currentWorkId ≠ none → w ∈ e.workers ∨ (e.slots w).process.alive = false

/-- The queue of a worker that is alive is not discarded. -/
def Opened (e : Executor α) : Prop :=
  ∀ w < e.nextWorkerId, (e.slots w).queueDiscarded = true → (e.slots w).process.alive = false

/-- Workers are added, the slots of those that there are age, and a worker does not leave the pool alive and with a
task. -/
structure Ages (e e' : Executor α) : Prop where
  next : e.nextWorkerId ≤ e'.nextWorkerId
  slot : ∀ w < e.nextWorkerId, (e.slots w).Ages (e'.slots w)
  fresh : ∀ w < e'.nextWorkerId, e.nextWorkerId ≤ w → (e'.slots w).queueDiscarded = true →
    (e'.slots w).process.alive = false
  attached : Attached e → Attached e'

theorem Ages.refl (e : Executor α) : Ages e e :=
  ⟨le_rfl, fun _ _ => .refl _, fun _ hlt hle => absurd hlt (not_lt.mpr hle), id⟩

theorem Ages.trans (h : Ages e e') (h' : Ages e' e'') : Ages e e'' := by
  refine ⟨h.next.trans h'.next, fun w hw => (h.slot w hw).trans (h'.slot w (hw.trans_le h.next)), fun w hlt hle hf => ?_,
    fun ha => h'.attached (h.attached ha)⟩
  by_cases hw : w < e'.nextWorkerId
  · have hslot := h'.slot w hw
    rcases hslot.closed hf with hf | hd
    · exact hslot.dead (h.fresh w hw hle hf)
    · exact hd
  · exact h'.fresh w hlt (not_lt.mp hw) hf

theorem Ages.opened (h : Ages e e') (ho : Opened e) : Opened e' := by
  intro w hw hf
  by_cases hlt : w < e.nextWorkerId
  · have hslot := h.slot w hlt
    rcases hslot.closed hf with hf | hd
    · exact hslot.dead (ho w hlt hf)
    · exact hd
  · exact h.fresh w hw (not_lt.mp hlt) hf

theorem Ages.of_same (hslots : e'.slots = e.slots) (hworkers : e'.workers = e.workers)
    (hnext : e'.nextWorkerId = e.nextWorkerId) : Ages e e' := by
  refine ⟨hnext.ge, fun w _ => ?_, fun w hlt hle => ?_, fun ha w hw => ?_⟩
  · rw [hslots]
    exact .refl _
  · rw [hnext] at hlt
    exact absurd hlt (not_lt.mpr hle)
  · rw [hslots] at hw ⊢
    rw [hworkers]
    exact ha w hw

theorem ages_modifySlot {w : WorkerId} {f : WorkerSlot α → WorkerSlot α} (hf : (e.slots w).Ages (f (e.slots w)))
    (hcur : (e.slots w).currentWorkId = none → (f (e.slots w)).currentWorkId = none) : Ages e (e.modifySlot w f) := by
  refine ⟨le_rfl, fun v _ => ?_, fun v hlt hle => absurd hlt (not_lt.mpr hle), fun ha v hv => ?_⟩
  · rw [modifySlot_slots]
    split_ifs with hvw
    · rw [hvw]
      exact hf
    · exact .refl _
  · rw [modifySlot_slots] at hv ⊢
    split_ifs with hvw
    · rw [if_pos hvw] at hv
      rw [hvw]
      exact (ha w fun hnone => hv (hcur hnone)).imp_right hf.dead
    · rw [if_neg hvw] at hv
      exact ha v hv

theorem ages_modifyProcess {w : WorkerId} {p : WorkerProcess α} (hp : System.ProcessStep w (e.slots w).process p) :
    Ages e (e.modifyProcess w fun _ => p) :=
  ages_modifySlot (f := fun slot => { slot with process := p }) (.of_process hp) id

theorem ages_evict {w : WorkerId} (hidle : (e.slots w).currentWorkId = none) : Ages e (e.evict w) := by
  refine ⟨le_rfl, fun _ _ => .refl _, fun v hlt hle => absurd hlt (not_lt.mpr hle), fun ha v hv => ?_⟩
  have hvw : v ≠ w := by
    rintro rfl
    exact hv hidle
  exact (ha v hv).imp_left (List.mem_erase_of_ne hvw).mpr

theorem ages_retire {w : WorkerId} (hidle : (e.slots w).currentWorkId = none) : Ages e (e.retireWorker w) := by
  have hstop : Ages e (e.modifySlot w fun slot =>
      { slot with
        intentionallyStopped := true
        process := { slot.process with workQueue := slot.process.workQueue ++ [none] } }) :=
    ages_modifySlot (WorkerSlot.SameQueue.ages ⟨rfl, rfl, rfl, rfl⟩) id
  refine hstop.trans (ages_evict ?_)
  rw [modifySlot_slots, if_pos rfl]
  exact hidle

theorem modifySlot_sameQueue {v w : WorkerId} {f : WorkerSlot α → WorkerSlot α} (hf : ∀ slot : WorkerSlot α, slot.SameQueue (f slot)) :
    (e.slots w).SameQueue ((e.modifySlot v f).slots w) := by
  rw [modifySlot_slots]
  split_ifs with hwv
  · rw [hwv]
    exact hf _
  · exact .refl _

theorem retireWorker_sameQueue {v : WorkerId} (w : WorkerId) : (e.slots v).SameQueue ((e.retireWorker w).slots v) := by
  have hstop : (e.slots v).SameQueue ((e.modifySlot w fun slot =>
      { slot with
        intentionallyStopped := true
        process := { slot.process with workQueue := slot.process.workQueue ++ [none] } }).slots v) :=
    modifySlot_sameQueue fun _ => ⟨rfl, rfl, rfl, rfl⟩
  exact hstop

/-- A small step of a cycle touches no queue of a worker that there is, and a new worker has a clean one. -/
theorem DispatchStep.queues {decided : List WorkId} (h : DispatchStep env decided e e') (v : WorkerId) :
    (e.slots v).SameQueue (e'.slots v) ∨ v = e.nextWorkerId ∧ (e'.slots v).queuePoisoned = false := by
  cases h with
  | refresh h =>
    obtain ⟨_, _, _, -, rfl⟩ := h
    exact .inl (.refl _)
  | fail | drop => exact .inl (.refl _)
  | retire => exact .inl (retireWorker_sameQueue _)
  | spawn pid gpuId =>
    have hslots : (e.spawned pid gpuId).slots v =
        if v = e.nextWorkerId then { process := { pid := pid }, pinnedGpuId := gpuId } else e.slots v :=
      Function.update_apply _ _ _ _
    rw [hslots]
    split_ifs with hv
    · exact .inr ⟨hv, rfl⟩
    · exact .inl (.refl _)
  | @ship id s₁ w gpuId _ _ _ _ hs =>
    left
    have hstart : s₁.slots = e.slots := by
      rcases hs with ⟨-, rfl⟩ | ⟨-, -, rfl⟩
      · rfl
      · rfl
    obtain ⟨item, -, hslots⟩ := ship_slots env s₁ id gpuId w
    change (e.slots v).SameQueue ((s₁.ship env id gpuId w).slots v)
    rw [hslots, hstart]
    split_ifs with hvw
    · rw [hvw]
      exact ⟨rfl, rfl, rfl, rfl⟩
    · exact .refl _

theorem DispatchStep.sameQueue {decided : List WorkId} (h : DispatchStep env decided e e') :
    ∀ w < e.nextWorkerId, (e.slots w).SameQueue (e'.slots w) := by
  intro w hw
  apply (h.queues w).resolve_right
  rintro ⟨rfl, -⟩
  exact lt_irrefl _ hw

theorem DispatchStep.ages {decided : List WorkId} (h : DispatchStep env decided e e') : Ages e e' := by
  have hslot (w : WorkerId) (hw : w < e.nextWorkerId) : (e.slots w).Ages (e'.slots w) := (h.sameQueue w hw).ages
  cases h with
  | refresh h =>
    obtain ⟨_, _, _, -, rfl⟩ := h
    exact .of_same rfl rfl rfl
  | fail => exact .of_same rfl rfl rfl
  | @retire w hw hidle =>
    simp only [idle, Bool.and_eq_true, Option.isNone_iff_eq_none] at hidle
    exact ages_retire hidle.1.1
  | spawn pid gpuId =>
    have hslots (v : WorkerId) : (e.spawned pid gpuId).slots v =
        if v = e.nextWorkerId then { process := { pid := pid }, pinnedGpuId := gpuId } else e.slots v :=
      Function.update_apply _ _ _ _
    refine ⟨Nat.le_succ _, hslot, fun v hlt hle hf => ?_, fun ha v hv => ?_⟩
    · have hv : v = e.nextWorkerId := le_antisymm (Nat.lt_succ_iff.mp hlt) hle
      rw [hslots, if_pos hv] at hf
      cases hf
    · rw [hslots] at hv ⊢
      split_ifs with hnew
      · exact .inl (mem_insertKey.mpr (.inr hnew))
      · rw [if_neg hnew] at hv
        exact (ha v hv).imp_left fun hm => mem_insertKey.mpr (.inl hm)
  | drop => exact .of_same rfl rfl rfl
  | @ship id s₁ w gpuId _ _ hw _ hs =>
    have hstart : s₁.slots = e.slots ∧ s₁.workers = e.workers ∧ s₁.nextWorkerId = e.nextWorkerId := by
      rcases hs with ⟨-, rfl⟩ | ⟨-, -, rfl⟩
      · exact ⟨rfl, rfl, rfl⟩
      · exact ⟨rfl, rfl, rfl⟩
    obtain ⟨item, -, hslots⟩ := ship_slots env s₁ id gpuId w
    rw [hstart.1] at hslots
    refine ⟨hstart.2.2.ge, hslot, fun v hlt hle => absurd (hstart.2.2 ▸ hlt) (not_lt.mpr hle), fun ha v hv => ?_⟩
    change v ∈ s₁.workers ∨ ((s₁.ship env id gpuId w).slots v).process.alive = false
    change ((s₁.ship env id gpuId w).slots v).currentWorkId ≠ none at hv
    rw [hstart.2.1]
    rw [hslots] at hv ⊢
    split_ifs with hvw
    · rw [hvw]
      exact .inl hw
    · rw [if_neg hvw] at hv
      exact ha v hv

theorem DispatchSteps.ages {decided : List WorkId} (h : DispatchSteps env decided e e') : Ages e e' := by
  induction h with
  | refl => exact .refl e
  | tail _ h ih => exact ih.trans h.ages

theorem DispatchSteps.sameQueue {decided : List WorkId} (h : DispatchSteps env decided e e') :
    ∀ w < e.nextWorkerId, (e.slots w).SameQueue (e'.slots w) := by
  induction h with
  | refl => exact fun _ _ => .refl _
  | tail hsteps h ih => exact fun w hw => (ih w hw).trans (h.sameQueue w (hw.trans_le (DispatchSteps.ages hsteps).next))

theorem clearWorker_sameQueue {w : WorkerId} (r : WorkResult α) : (e.slots w).SameQueue ((e.clearWorker r).slots w) := by
  have hfree : (e.slots w).SameQueue ((e.modifySlot r.workerId fun slot =>
      { slot with currentWorkId := none, tasksCompleted := slot.tasksCompleted + 1 }).slots w) :=
    modifySlot_sameQueue fun _ => ⟨rfl, rfl, rfl, rfl⟩
  unfold clearWorker
  dsimp only
  split_ifs
  · exact hfree.trans (retireWorker_sameQueue _)
  · exact hfree
  · exact .refl _

theorem clearWorker_ages (e : Executor α) (r : WorkResult α) : Ages e (e.clearWorker r) := by
  have hfree : Ages e (e.modifySlot r.workerId fun slot =>
      { slot with currentWorkId := none, tasksCompleted := slot.tasksCompleted + 1 }) :=
    ages_modifySlot (WorkerSlot.SameQueue.ages ⟨rfl, rfl, rfl, rfl⟩) fun _ => rfl
  unfold clearWorker
  dsimp only
  split_ifs
  · refine hfree.trans (ages_retire ?_)
    rw [modifySlot_slots, if_pos rfl]
  · exact hfree
  · exact .refl e

theorem handleTimeout_ages (e : Executor α) (id : WorkId) : Ages e (e.handleTimeout id).1 := by
  have hpop : Ages e (e.popInFlight id) := .of_same rfl rfl rfl
  unfold handleTimeout
  split_ifs
  · exact .refl e
  dsimp only
  split
  · rename_i w _ _
    split_ifs
    · have hkill : Ages e (e.modifySlot w fun slot =>
          { slot with intentionallyStopped := true, queuePoisoned := true, currentWorkId := none }) :=
        ages_modifySlot ⟨fun h => h, fun _ h => h, fun h => h, fun _ => rfl, .inl⟩ fun _ => rfl
      refine (hkill.trans (ages_evict ?_)).trans (.of_same rfl rfl rfl)
      rw [modifySlot_slots, if_pos rfl]
    · exact hpop
  · split
    · exact .of_same rfl rfl rfl
    · rename_i w _
      have hfree : Ages e (e.modifySlot w fun slot => { slot with currentWorkId := none }) :=
        ages_modifySlot (WorkerSlot.SameQueue.ages ⟨rfl, rfl, rfl, rfl⟩) fun _ => rfl
      split_ifs
      · exact hfree.trans (.of_same rfl rfl rfl)
      · exact .of_same rfl rfl rfl

theorem getNowait_ages (e : Executor α) (w : WorkerId) (results : List (WorkResult α)) :
    Ages e (e.getNowait w results).1 := by
  unfold getNowait
  split
  · exact .refl e
  · rename_i r rest hqueue
    split_ifs
    · exact .refl e
    · refine ages_modifySlot (f := fun slot => { slot with process := { slot.process with resultQueue := rest } })
        ⟨id, fun _ hempty => ?_, id, id, .inl⟩ id
      rw [hempty] at hqueue
      cases hqueue

theorem checkWorkers_ages (e : Executor α) : Ages e e.checkWorkers.1 := by
  refine ⟨le_rfl, fun _ _ => .refl _, fun v hlt hle => absurd hlt (not_lt.mpr hle), fun ha v hv => ?_⟩
  cases halive : (e.slots v).process.alive with
  | false => exact .inr halive
  | true =>
    have hmem := (ha v hv).resolve_right (by rw [halive]; exact Bool.noConfusion)
    exact .inl (List.mem_filter.mpr ⟨hmem, halive⟩)

end Executor

/-! ## The sections that touch a queue -/

namespace Section
variable {α : Type}

def reports : Section α → Bool
  | .getNowait _ _ | .processResult _ | .record _ _ | .settle _ _ => true
  | _ => false

/-- The queue of the worker that a section is about to read. -/
def reads : Section α → Option WorkerId
  | .readQueue w | .getNowait w _ => some w
  | _ => none

def discards : Section α → Option WorkerId
  | .discardQueue w => some w
  | _ => none

def timesOut : Section α → Option WorkId
  | .handleTimeout x => some x
  | _ => none

end Section

namespace Executor
variable {α : Type} {env : Env} {e e' : Executor α} {m : Section α} {body : List (Section α)}

/-- **Every section lets the workers age**, as long as it discards only the queues of dead ones. -/
theorem run_ages (h : e.run env m = some (e', body)) (hnodup : e.pending.Nodup)
    (hdead : ∀ w ∈ m.discards, (e.slots w).process.alive = false) : Ages e e' := by
  cases m with
  | maybeDispatch =>
    obtain ⟨hok, -⟩ := run_maybeDispatch h
    exact (maybeDispatch_steps hnodup hok).ages
  | processResult r =>
    obtain ⟨rfl, -⟩ := run_eq (r := e.processResult r) h
    unfold processResult
    dsimp only
    split_ifs
    · exact (clearWorker_ages e r).trans (.of_same rfl rfl rfl)
    · exact (clearWorker_ages e r).trans (.of_same rfl rfl rfl)
    · exact clearWorker_ages e r
  | takeLost w =>
    obtain ⟨rfl, -⟩ := run_eq (r := e.takeLost w) h
    rcases takeLost_frame e w with hframe | ⟨id, -, hframe⟩
    · rw [hframe]
      exact .refl e
    · rw [hframe]
      exact .of_same rfl rfl rfl
  | handleTimeout id =>
    obtain ⟨rfl, -⟩ := run_eq (r := e.handleTimeout id) h
    exact handleTimeout_ages e id
  | getNowait w results =>
    obtain ⟨rfl, -⟩ := run_eq (r := e.getNowait w results) h
    exact getNowait_ages e w results
  | checkWorkers =>
    obtain ⟨rfl, -⟩ := run_eq (r := e.checkWorkers) h
    exact checkWorkers_ages e
  | escalateKill w =>
    obtain ⟨rfl, -⟩ := run_eq h
    have hexit (code : Int) : Ages e (e.modifyProcess w (·.exit code)) := ages_modifyProcess (.exit code)
    unfold escalateKill
    split
    · exact hexit _
    · exact hexit _
    · exact .refl e
  | discardQueue w =>
    obtain ⟨rfl, -⟩ := run_eq h
    have hdiscard : Ages e (e.modifySlot w fun slot => { slot with queueDiscarded := true }) :=
      ages_modifySlot ⟨id, fun _ => id, fun _ => rfl, id, fun _ => .inr (hdead w rfl)⟩ id
    exact hdiscard
  | stopAllWorkers =>
    obtain ⟨rfl, -⟩ := run_eq (r := e.stopAllWorkers) h
    obtain ⟨slots, hslots, hkeeps⟩ := foldl_modifySlot (fun slot : WorkerSlot α =>
      { slot with
        intentionallyStopped := true
        process := { slot.process with workQueue := slot.process.workQueue ++ [none] } }) e.workers e
    rw [Executor.stopAllWorkers, hslots]
    have halive := hkeeps (·.process.alive) fun _ => rfl
    refine ⟨le_rfl, fun w _ => ?_, fun v hlt hle => absurd hlt (not_lt.mpr hle), fun ha w hw => ?_⟩
    · exact WorkerSlot.SameQueue.ages ⟨halive w, hkeeps (·.process.resultQueue) (fun _ => rfl) w,
        hkeeps (·.queueDiscarded) (fun _ => rfl) w, hkeeps (·.queuePoisoned) (fun _ => rfl) w⟩
    · have hcur := hkeeps (·.currentWorkId) (fun _ => rfl) w
      exact (ha w fun hnone => hw (hcur.trans hnone)).imp_right (halive w).trans
  | failPendingFutures =>
    obtain ⟨rfl, -⟩ := run_eq h
    obtain ⟨futures, hframe⟩ := failPendingFutures_frame e
    rw [hframe]
    exact .of_same rfl rfl rfl
  | sweep | readClock | scanTimeouts | readQueue | testInFlight | finalDrain | settle | record | penalizeEstimate | requeue
  | shutUnstarted | stopAccepting | stopThreads | pruneRetiring | leave =>
    obtain ⟨rfl, -⟩ := run_eq h
    exact .of_same rfl rfl rfl

end Executor

/-! ## What comes before a section -/

namespace Executor
variable {α : Type} {env : Env} {e e' : Executor α} {m m₀ : Section α} {body before hand : List (Section α)} {w : WorkerId}

theorem Follows.reports (h : Follows m₀ m) (hm : m₀.reports = true) : m.reports = true := by
  cases h <;> first | rfl | cases hm

/-- What comes before a section in its hand: only what processes older results before a result; the end of the queue
before its discarding; the discarding of the queue before the taking of a lost task. -/
structure Guarded (e : Executor α) (before : List (Section α)) (m : Section α) : Prop where
  order : m.delivers ≠ [] → ∀ m' ∈ before, m'.reports = true
  discard : ∀ w ∈ m.discards, w < e.nextWorkerId ∧ (e.slots w).process.alive = false ∧
    ((∃ m' ∈ before, m'.reads = some w) ∨ (e.slots w).process.resultQueue = [] ∨ (e.slots w).queuePoisoned = true ∨
      (e.slots w).queueDiscarded = true)
  lost : ∀ w ∈ m.loses, w < e.nextWorkerId ∧ (e.slots w).process.alive = false ∧
    (.discardQueue w ∈ before ∨ (e.slots w).queueDiscarded = true)

theorem Guarded.of_plain (hdelivers : m.delivers = []) (hdiscards : m.discards = none) (hloses : m.loses = none) :
    Guarded e before m := by
  refine ⟨fun h => absurd hdelivers h, fun w hw => ?_, fun w hw => ?_⟩
  · rw [hdiscards] at hw
    cases hw
  · rw [hloses] at hw
    cases hw

theorem Guarded.ages (h : Guarded e before m) (hages : Ages e e') : Guarded e' before m := by
  refine ⟨h.order, fun w hw => ?_, fun w hw => ?_⟩
  · obtain ⟨hlt, hdead, hread⟩ := h.discard w hw
    have hslot := hages.slot w hlt
    refine ⟨hlt.trans_le hages.next, hslot.dead hdead, ?_⟩
    exact hread.imp_right fun hread => hread.imp (hslot.drained hdead) fun hread => hread.imp hslot.poisoned hslot.discarded
  · obtain ⟨hlt, hdead, hdiscarded⟩ := h.lost w hw
    have hslot := hages.slot w hlt
    exact ⟨hlt.trans_le hages.next, hslot.dead hdead, hdiscarded.imp_right hslot.discarded⟩

/-- The section that reads a queue has come to its end, or is followed by one that reads on. -/
theorem run_reads (h : e.run env m₀ = some (e', body)) (hreads : m₀.reads = some w) :
    (∃ m' ∈ body, m'.reads = some w) ∨ (e.slots w).process.resultQueue = [] ∨ (e.slots w).queuePoisoned = true ∨
      (e.slots w).queueDiscarded = true := by
  cases m₀ with
  | readQueue v =>
    obtain rfl := Option.some.inj hreads
    obtain ⟨-, rfl⟩ := run_eq h
    unfold readQueue
    split_ifs with hclosed
    · exact .inr (.inr (Bool.or_eq_true _ _ ▸ hclosed))
    · exact .inl ⟨_, List.mem_singleton.mpr rfl, rfl⟩
  | getNowait v results =>
    obtain rfl := Option.some.inj hreads
    obtain ⟨-, rfl⟩ := run_eq (r := e.getNowait v results) h
    unfold getNowait
    split
    · rename_i hempty
      exact .inr (.inl hempty)
    · split_ifs with hdiscarded
      · exact .inr (.inr (.inr hdiscarded))
      · exact .inl ⟨_, List.mem_singleton.mpr rfl, rfl⟩
  | _ => cases hreads

theorem Guarded.run (h : Guarded e (m₀ :: before) m) (hrun : e.run env m₀ = some (e', body)) (hages : Ages e e') :
    Guarded e' (body ++ before) m := by
  refine ⟨fun hm m' hm' => ?_, fun w hw => ?_, fun w hw => ?_⟩
  · have horder := h.order hm
    rcases List.mem_append.mp hm' with hm' | hm'
    · exact (run_follows hrun m' hm').reports (horder m₀ List.mem_cons_self)
    · exact horder m' (List.mem_cons_of_mem m₀ hm')
  · obtain ⟨hlt, hdead, hread⟩ := h.discard w hw
    have hslot := hages.slot w hlt
    refine ⟨hlt.trans_le hages.next, hslot.dead hdead, ?_⟩
    have hread : (∃ m' ∈ body ++ before, m'.reads = some w) ∨ (e.slots w).process.resultQueue = [] ∨
        (e.slots w).queuePoisoned = true ∨ (e.slots w).queueDiscarded = true := by
      rcases hread with ⟨m', hm', hreads⟩ | hread
      · rcases List.mem_cons.mp hm' with rfl | hm'
        · exact (run_reads hrun hreads).imp_left fun ⟨m', hm', hreads⟩ => ⟨m', List.mem_append_left _ hm', hreads⟩
        · exact .inl ⟨m', List.mem_append_right _ hm', hreads⟩
      · exact .inr hread
    exact hread.imp_right fun hread => hread.imp (hslot.drained hdead) fun hread => hread.imp hslot.poisoned hslot.discarded
  · obtain ⟨hlt, hdead, hdiscarded⟩ := h.lost w hw
    have hslot := hages.slot w hlt
    refine ⟨hlt.trans_le hages.next, hslot.dead hdead, ?_⟩
    rcases hdiscarded with hm' | hdiscarded
    · rcases List.mem_cons.mp hm' with rfl | hm'
      · obtain ⟨rfl, -⟩ := run_eq hrun
        right
        change ((e.modifySlot w fun slot => { slot with queueDiscarded := true }).slots w).queueDiscarded = true
        rw [modifySlot_slots, if_pos rfl]
      · exact .inl (List.mem_append_right _ hm')
    · exact .inr (hslot.discarded hdiscarded)

/-- A read comes to an end because of another one, and nothing is left to be read. -/
theorem Guarded.contended {v : WorkerId} {results : List (WorkResult α)} (h : Guarded e (.getNowait v results :: before) m)
    (hempty : m.discards = some v → (e.slots v).process.resultQueue = []) :
    Guarded e (results.map .processResult ++ before) m := by
  refine ⟨fun hm m' hm' => ?_, fun w hw => ?_, fun w hw => ?_⟩
  · rcases List.mem_append.mp hm' with hm' | hm'
    · obtain ⟨r, -, rfl⟩ := List.mem_map.mp hm'
      rfl
    · exact h.order hm m' (List.mem_cons_of_mem _ hm')
  · obtain ⟨hlt, hdead, hread⟩ := h.discard w hw
    refine ⟨hlt, hdead, ?_⟩
    rcases hread with ⟨m', hm', hreads⟩ | hread
    · rcases List.mem_cons.mp hm' with rfl | hm'
      · obtain rfl := Option.some.inj hreads
        exact .inr (.inl (hempty hw))
      · exact .inl ⟨m', List.mem_append_right _ hm', hreads⟩
    · exact .inr hread
  · obtain ⟨hlt, hdead, hdiscarded⟩ := h.lost w hw
    refine ⟨hlt, hdead, hdiscarded.imp_left fun hm' => ?_⟩
    rcases List.mem_cons.mp hm' with hm' | hm'
    · cases hm'
    · exact List.mem_append_right _ hm'

/-! ## Hands -/

/-- All sections of a hand are guarded, after what comes before the hand. -/
def Drains (e : Executor α) : List (Section α) → List (Section α) → Prop
  | _, [] => True
  | before, m :: rest => Guarded e before m ∧ Drains e (before ++ [m]) rest

theorem drains_append : ∀ (before hand hand' : List (Section α)),
    Drains e before (hand ++ hand') ↔ Drains e before hand ∧ Drains e (before ++ hand) hand'
  | before, [], hand' => by simp [Drains]
  | before, m :: hand, hand' => by
    have h := drains_append (before ++ [m]) hand hand'
    rw [List.append_assoc, List.singleton_append] at h
    rw [List.cons_append, Drains, Drains, h, and_assoc]

theorem Drains.ages (hages : Ages e e') : ∀ {before hand : List (Section α)}, Drains e before hand → Drains e' before hand
  | _, [], _ => trivial
  | _, _ :: _, h => ⟨h.1.ages hages, Drains.ages hages h.2⟩

theorem Drains.run (hrun : e.run env m₀ = some (e', body)) (hages : Ages e e') : ∀ {before hand : List (Section α)},
    Drains e (m₀ :: before) hand → Drains e' (body ++ before) hand
  | _, [], _ => trivial
  | before, m :: hand, h => by
    refine ⟨h.1.run hrun hages, ?_⟩
    rw [List.append_assoc]
    exact Drains.run hrun hages h.2

theorem Drains.contended {v : WorkerId} {results : List (WorkResult α)} : ∀ {before hand : List (Section α)},
    Drains e (.getNowait v results :: before) hand →
    (∀ m ∈ hand, m.discards = some v → (e.slots v).process.resultQueue = []) →
    Drains e (results.map .processResult ++ before) hand
  | _, [], _, _ => trivial
  | before, m :: hand, h, hempty => by
    refine ⟨h.1.contended (hempty m List.mem_cons_self), ?_⟩
    rw [List.append_assoc]
    exact Drains.contended h.2 fun m' hm' => hempty m' (List.mem_cons_of_mem m hm')

theorem drains_of_plain : ∀ {before hand : List (Section α)}, (∀ m ∈ hand, m.delivers = [] ∧ m.discards = none ∧
    m.loses = none) → Drains e before hand
  | _, [], _ => trivial
  | _, m :: _, h => by
    obtain ⟨hdelivers, hdiscards, hloses⟩ := h m List.mem_cons_self
    exact ⟨.of_plain hdelivers hdiscards hloses, drains_of_plain fun m' hm' => h m' (List.mem_cons_of_mem m hm')⟩

theorem drains_of_reports : ∀ {before hand : List (Section α)}, (∀ m ∈ before ++ hand, m.reports = true) →
    Drains e before hand
  | _, [], _ => trivial
  | before, m :: hand, h => by
    have hm := h m (List.mem_append_right _ List.mem_cons_self)
    have hnone : m.discards = none ∧ m.loses = none := by
      cases m <;> first | exact ⟨rfl, rfl⟩ | cases hm
    refine ⟨⟨fun _ m' hm' => h m' (List.mem_append_left _ hm'), fun w hw => ?_, fun w hw => ?_⟩, drains_of_reports ?_⟩
    · rw [hnone.1] at hw
      cases hw
    · rw [hnone.2] at hw
      cases hw
    · rwa [List.append_assoc]

/-- The dead workers are drained one by one. -/
theorem drains_flatMap {f : WorkerId → List (Section α)} : ∀ {ws : List WorkerId} {before : List (Section α)},
    (∀ w ∈ ws, ∀ before, Drains e before (f w)) → Drains e before (ws.flatMap f)
  | [], _, _ => trivial
  | w :: ws, before, h => by
    rw [List.flatMap_cons, drains_append]
    exact ⟨h w List.mem_cons_self before, drains_flatMap fun v hv => h v (List.mem_cons_of_mem w hv)⟩

theorem drains_drainAndDiscard (hlt : w < e.nextWorkerId) (hdead : (e.slots w).process.alive = false) :
    Drains e before (drainAndDiscard w) := by
  refine ⟨.of_plain rfl rfl rfl, ⟨fun h => absurd rfl h, fun v hv => ?_, fun v hv => by cases hv⟩, trivial⟩
  obtain rfl := Option.some.inj hv
  exact ⟨hlt, hdead, .inl ⟨.readQueue w, List.mem_append_right _ (List.mem_singleton.mpr rfl), rfl⟩⟩

theorem checkWorkers_drains (hroster : Roster e) : Drains e.checkWorkers.1 [] e.checkWorkers.2 := by
  refine Drains.ages (checkWorkers_ages e) ?_
  unfold checkWorkers
  dsimp only
  rw [drains_append]
  refine ⟨drains_flatMap fun w hw before => ?_, drains_flatMap fun w hw before => ?_⟩
  · rw [List.mem_filter, Bool.not_eq_true'] at hw
    exact drains_drainAndDiscard (hroster.retired w hw.1).1 hw.2
  · rw [List.mem_filter, Bool.not_eq_true'] at hw
    have hlt := hroster.spawned w hw.1
    rw [drains_append]
    refine ⟨drains_drainAndDiscard hlt hw.2, ⟨fun h => absurd rfl h, fun v hv => (by cases hv), fun v hv => ?_⟩, trivial⟩
    obtain rfl := Option.some.inj hv
    refine ⟨hlt, hw.2, .inl (List.mem_append_right _ ?_)⟩
    exact List.mem_cons_of_mem _ (List.mem_singleton.mpr rfl)

/-- What follows a section is guarded. -/
theorem run_drains (h : e.run env m₀ = some (e', body)) (hcontrol : m₀.control = false) (hroster : Roster e) :
    Drains e' [] body := by
  have hfollows := run_follows h
  cases m₀ with
  | checkWorkers =>
    obtain ⟨rfl, rfl⟩ := run_eq (r := e.checkWorkers) h
    exact checkWorkers_drains hroster
  | getNowait w results => exact drains_of_reports fun m hm => (hfollows m hm).reports rfl
  | shutUnstarted | stopAccepting | failPendingFutures | testInFlight | stopThreads | stopAllWorkers | finalDrain | pruneRetiring
  | leave => cases hcontrol
  | sweep | readQueue | processResult | record | settle | discardQueue | takeLost | penalizeEstimate | requeue
  | maybeDispatch | readClock | scanTimeouts | handleTimeout | escalateKill =>
    refine drains_of_plain fun m hm => ?_
    cases hfollows m hm <;> exact ⟨rfl, rfl, rfl⟩

theorem Drains.delivers_nil {m' : Section α} (hm' : m'.reports = false) : ∀ {before hand : List (Section α)},
    Drains e before hand → m' ∈ before → hand.flatMap Section.delivers = []
  | _, [], _, _ => rfl
  | _, m :: hand, h, hmem => by
    have hnone : m.delivers = [] := by
      by_contra hm
      have htrue := h.1.order hm m' hmem
      rw [hm'] at htrue
      cases htrue
    rw [List.flatMap_cons, hnone, List.nil_append]
    exact Drains.delivers_nil hm' h.2 (List.mem_append_left _ hmem)

end Executor

/-! ## Events -/

namespace System
open Executor (Ages Drains Spares)
variable {α : Type} {s s' : System α} {e : Event α} {t : Thread} {w : WorkerId} {rest : List (Section α)}
  {cfg : Config} {profiles : ProfileStore}

/-- All hands are guarded, the queue of a worker that is alive is not discarded, and a worker with a task is in the pool
or dead. -/
structure Drained (s : System α) : Prop where
  hands : ∀ t, s.executor.Drains [] (s.hands t)
  opened : s.executor.Opened
  attached : s.executor.Attached

/-- **Before shutdown, every event lets the workers age.** -/
theorem Stepped.ages (h : Stepped s e s') (hs : Sound s) (hd : s.Drained) : Ages s.executor s'.executor := by
  cases h with
  | process hp => exact Executor.ages_modifyProcess hp
  | @deliver t w i r _ hand hr hopen =>
    refine Executor.ages_modifySlot (f := fun slot =>
      { slot with process := { slot.process with resultQueue := slot.process.resultQueue.eraseIdx i } })
      ⟨id, fun _ hempty => ?_, id, id, .inl⟩ id
    rw [hempty] at hr
    cases hr
  | @act t env m rest r hand hrun =>
    refine Executor.run_ages hrun hs.pending fun w hw => ?_
    have hhand := hd.hands t
    rw [hand] at hhand
    exact (hhand.1.discard w hw).2.1
  | outside | submit | append | cancel | begin | shutdown | contended | again => exact .of_same rfl rfl rfl

/-- If a `get_nowait()` of the drain of a dead worker's queue raises `Empty` because of another thread, then the queue is
empty. -/
def DrainsAlone (s : System α) : Event α → Prop
  | .contended t => ∀ w ∈ (s.hands t).head?.bind Section.reads, ∀ m ∈ s.hands t, m.discards = some w →
    (s.executor.slots w).process.resultQueue = []
  | _ => True

instance (s : System α) : ∀ e : Event α, Decidable (s.DrainsAlone e)
  | .contended t => inferInstanceAs (Decidable (∀ w ∈ (s.hands t).head?.bind Section.reads, ∀ m ∈ s.hands t,
    m.discards = some w → (s.executor.slots w).process.resultQueue = []))
  | .tick _ | .start | .poll _ | .submit _ _ _ | .append _ | .cancel _ | .workerTake _ | .workerPut _ _ | .workerLose _ _
  | .workerDie _ _ | .round _ | .call _ _ | .deliver _ _ _ | .act _ _ | .shutdown _ => .isTrue trivial

theorem drainsAlone_of_next {m : Section α} (h : s.nextSection e = some m) : s.DrainsAlone e := by
  cases e with
  | contended t => cases h
  | _ => trivial

/-- **Before shutdown, every event keeps the hands guarded.** -/
theorem Stepped.drained (h : Stepped s e s') (halone : s.DrainsAlone e) (hserving : Serving s) (hroster : s.executor.Roster)
    (hstopping : s'.stopping = false) (hd : s.Drained) : s'.Drained := by
  have hages := h.ages hserving.sound hd
  refine ⟨?_, hages.opened hd.opened, hages.attached hd.attached⟩
  have hupdate {t : Thread} {hand : List (Section α)} (hhands : s'.hands = Function.update s.hands t hand)
      (hnew : s'.executor.Drains [] hand) : ∀ t, s'.executor.Drains [] (s'.hands t) := by
    rw [hhands]
    exact (Function.forall_update_iff s.hands fun _ => s'.executor.Drains []).mpr
      ⟨hnew, fun t' _ => (hd.hands t').ages hages⟩
  cases h with
  | outside | submit | append | cancel | process | again => exact fun t => (hd.hands t).ages hages
  | begin _ _ hbody =>
    refine hupdate rfl (Executor.drains_of_plain fun m hm => ?_)
    have hbegins := hbody m hm
    cases m <;> first | exact ⟨rfl, rfl, rfl⟩ | cases hbegins
  | deliver => exact hupdate rfl ⟨⟨fun _ _ h => (by cases h), fun _ h => (by cases h), fun _ h => by cases h⟩, trivial⟩
  | @act t env m rest r hand hrun =>
    refine hupdate rfl ?_
    have hold := hd.hands t
    rw [hand] at hold
    have hcontrol := hserving.plain m (mem_sections.mpr ⟨t, by rw [hand]; exact List.mem_cons_self⟩)
    rw [Executor.drains_append]
    refine ⟨Executor.run_drains hrun hcontrol hroster, ?_⟩
    have hrest := Drains.run hrun hages hold.2
    rwa [List.append_nil] at hrest
  | @contended t w results rest hand =>
    refine hupdate rfl ?_
    have hold := hd.hands t
    rw [hand] at hold
    have hempty : ∀ m ∈ rest, m.discards = some w → (s.executor.slots w).process.resultQueue = [] := fun m hm =>
      halone w (by rw [hand]; rfl) m (by rw [hand]; exact List.mem_cons_of_mem _ hm)
    have hrest := hold.2.contended hempty
    rw [List.append_nil] at hrest
    rw [Executor.drains_append]
    refine ⟨Executor.drains_of_reports fun m hm => ?_, hrest⟩
    obtain ⟨r, -, rfl⟩ := List.mem_map.mp hm
    rfl
  | shutdown => cases hstopping

theorem run_drained {p : System α → Event α → Prop} (hp : ∀ s e, p s e → s.DrainsAlone e)
    (h : ReflTransGen (NextWhen p) (init cfg profiles) s) (hs : s.stopping = false) : s.Drained := by
  induction h with
  | refl => exact ⟨fun _ => trivial, fun _ h => (by cases h), fun _ h => absurd rfl h⟩
  | tail hrun h ih =>
    have hreachable : Reachable _ := ⟨cfg, profiles, run_of_when hrun⟩
    obtain ⟨e, hpe, h⟩ := h
    have hstopping := stopping_of_next ⟨e, h⟩ hs
    exact (step_stepped h).drained (hp _ e hpe) (hreachable.serving hstopping) hreachable.roster.1 hs (ih hstopping)

/-- The queue of a lost worker has been read and discarded, and what was read has been processed. -/
theorem Drained.takeLost (hd : s.Drained) (hand : s.hands t = .takeLost w :: rest) :
    (s.executor.slots w).process.alive = false ∧ (s.executor.slots w).queueDiscarded = true ∧
      (s.hands t).flatMap Section.delivers = [] := by
  have hhand := hd.hands t
  rw [hand] at hhand ⊢
  obtain ⟨-, hdead, hdiscarded⟩ := hhand.1.lost w rfl
  refine ⟨hdead, hdiscarded.resolve_left (by simp), ?_⟩
  rw [List.flatMap_cons]
  have hquiet : (.takeLost w : Section α).reports = false := rfl
  exact hhand.2.delivers_nil hquiet (List.mem_singleton.mpr rfl)

/-- A queue that is discarded has been read to its end, unless it is poisoned or has been discarded before. -/
theorem Drained.discardQueue (hd : s.Drained) (hand : s.hands t = .discardQueue w :: rest) :
    (s.executor.slots w).process.resultQueue = [] ∨ (s.executor.slots w).queuePoisoned = true ∨
      (s.executor.slots w).queueDiscarded = true := by
  have hhand := hd.hands t
  rw [hand] at hhand
  obtain ⟨-, -, hread⟩ := hhand.1.discard w rfl
  refine hread.resolve_left ?_
  rintro ⟨m, hm, -⟩
  cases hm

/-! ## Losses -/

/-- If the event takes the task of a dead worker out of flight, then its result is in no hand. -/
def NotInHand (s : System α) (e : Event α) : Prop :=
  ∀ m ∈ s.nextSection e, ∀ w ∈ m.loses, ∀ x ∈ (s.executor.slots w).currentWorkId, x ∈ s.executor.inFlight →
    ∀ r ∈ s.delivered, r.isOf x w = false

instance (s : System α) (e : Event α) : Decidable (s.NotInHand e) :=
  inferInstanceAs (Decidable (∀ m ∈ s.nextSection e, ∀ w ∈ m.loses, ∀ x ∈ (s.executor.slots w).currentWorkId,
    x ∈ s.executor.inFlight → ∀ r ∈ s.delivered, r.isOf x w = false))

/-- No result of a dead worker is left behind: neither on its queue, by a drain that another reader ends, nor in another
hand, when its task is taken for lost. -/
def KeepsResults (s : System α) (e : Event α) : Prop := s.DrainsAlone e ∧ s.NotInHand e

instance (s : System α) (e : Event α) : Decidable (s.KeepsResults e) :=
  inferInstanceAs (Decidable (s.DrainsAlone e ∧ s.NotInHand e))

/-- A thread runs its operation to the end before another begins. -/
def OneAtATime (s : System α) : Event α → Prop
  | .act t _ | .contended t => ∀ t' ∈ Thread.all, t' ≠ t → ∀ m ∈ s.hands t', m.begins = true
  | _ => True

instance (s : System α) : ∀ e : Event α, Decidable (s.OneAtATime e)
  | .act t _ | .contended t =>
    inferInstanceAs (Decidable (∀ t' ∈ Thread.all, t' ≠ t → ∀ m ∈ s.hands t', m.begins = true))
  | .tick _ | .start | .poll _ | .submit _ _ _ | .append _ | .cancel _ | .workerTake _ | .workerPut _ _ | .workerLose _ _
  | .workerDie _ _ | .round _ | .call _ _ | .deliver _ _ _ | .shutdown _ => .isTrue trivial

def Rests (s : System α) : Prop := ∀ m ∈ s.sections, m.begins = true

instance (s : System α) : Decidable s.Rests := inferInstanceAs (Decidable (∀ m ∈ s.sections, m.begins = true))

/-- **The thread that takes a lost task has processed its result**, if there was one: only another thread can still have
it in hand. -/
theorem NotInHand.spares (h : s.NotInHand e) (hd : s.Drained) :
    ∀ m ∈ s.nextSection e, s.executor.Spares s.delivered m := by
  intro m hm w hw x hx hflight
  have hnone : s.delivered.countP (WorkResult.isOf x w) = 0 := by
    rw [List.countP_eq_zero]
    intro r hr
    rw [h m hm w hw x hx hflight r hr]
    exact Bool.false_ne_true
  cases e with
  | act t env =>
    cases hand : s.hands t with
    | nil =>
      simp only [nextSection, hand, List.head?_nil] at hm
      cases hm
    | cons m₀ rest =>
      simp only [nextSection, hand, List.head?_cons] at hm
      obtain rfl := Option.some.inj hm
      cases m₀ with
      | takeLost v =>
        obtain rfl := Option.some.inj hw
        obtain ⟨hdead, hdiscarded, -⟩ := hd.takeLost hand
        unfold Executor.copies WorkerSlot.carries WorkerSlot.workload WorkerSlot.readable
        rw [hdead, hdiscarded, hnone]
        rfl
      | _ => cases hw
  | _ => cases hm

theorem OneAtATime.notInHand (h : s.OneAtATime e) (hd : s.Drained) : s.NotInHand e := by
  intro m hm w hw x hx hflight r hr
  exfalso
  cases e with
  | act t env =>
    cases hand : s.hands t with
    | nil =>
      simp only [nextSection, hand, List.head?_nil] at hm
      cases hm
    | cons m₀ rest =>
      simp only [nextSection, hand, List.head?_cons] at hm
      obtain rfl := Option.some.inj hm
      cases m₀ with
      | takeLost v =>
        obtain ⟨-, -, hnone⟩ := hd.takeLost hand
        obtain ⟨m', hm', hr⟩ := List.mem_flatMap.mp hr
        obtain ⟨t', hm'⟩ := mem_sections.mp hm'
        by_cases ht : t' = t
        · subst ht
          have hmem := List.mem_flatMap_of_mem hm' hr
          rw [hnone] at hmem
          cases hmem
        · rw [Section.delivers_of_begins (h t' t'.mem_all ht m' hm')] at hr
          cases hr
      | _ => cases hw
  | _ => cases hm

theorem OneAtATime.drainsAlone (h : s.OneAtATime e) (hstep : s.step e = some s') : s.DrainsAlone e := by
  cases e with
  | contended t =>
    exfalso
    simp only [step] at hstep
    split at hstep
    · split_ifs at hstep with hreader
      obtain ⟨t', ht', hother⟩ := List.any_eq_true.mp hreader
      obtain ⟨hne, hother⟩ := Bool.and_eq_true_iff.mp hother
      obtain ⟨m, hm, hreads⟩ := (Option.any_eq_true _ _).mp hother
      have hbegins := h t' ht' (of_decide_eq_true hne) m (List.mem_of_mem_head? hm)
      cases m <;> simp_all [Section.begins]
    · cases hstep
  | _ => trivial

/-- **The crew**, in every run in which no result of a dead worker is left behind. -/
theorem run_crewed (h : ReflTransGen (NextWhen KeepsResults) (init cfg profiles) s) (hstopping : s.stopping = false) :
    s.Crewed := by
  induction h with
  | refl => exact init_crewed cfg profiles
  | tail hrun h ih =>
    have hreachable : Reachable _ := ⟨cfg, profiles, run_of_when hrun⟩
    obtain ⟨e, hkeeps, h⟩ := h
    have hstopping' := stopping_of_next ⟨e, h⟩ hstopping
    obtain ⟨hs, hpool⟩ := hreachable.sound
    have hd := run_drained (fun _ _ h => h.1) hrun hstopping'
    exact (step_stepped h).crewed (hkeeps.2.spares hd) hs hpool (ih hstopping')

/-- Operations that do not overlap leave no result behind. -/
theorem run_one (h : ReflTransGen (NextWhen OneAtATime) (init cfg profiles) s) (hstopping : s.stopping = false) :
    ReflTransGen (NextWhen KeepsResults) (init cfg profiles) s := by
  induction h with
  | refl => exact .refl
  | tail hrun h ih =>
    obtain ⟨e, hone, h⟩ := h
    have hstopping' := stopping_of_next ⟨e, h⟩ hstopping
    have hkeeps := ih hstopping'
    have hd := run_drained (fun _ _ h => h.1) hkeeps hstopping'
    exact hkeeps.tail ⟨e, ⟨hone.drainsAlone h, hone.notInHand hd⟩, h⟩

end System

end AdaptiveExecutor
