import AdaptiveExecutor.Executor.Calm
import AdaptiveExecutor.Executor.Roster

/-!
# Who is at which task

The busy workers of the pool and the tasks in flight, as long as the task of a dead worker is not taken for lost while
its result is still on its way.

* `copies` : how often a task is with a worker, as an item or as a result that can still be processed;
* `Crewed` : a task in flight is the current one of its worker, and the current task of a worker of the pool is in
  flight; no task is with two workers, or twice with one;
* `Crewed.mono`, `Crewed.release`, `Crewed.ship`, `Crewed.takeLost` : the changes that keep it;
* `DispatchSteps.crewed`, `run_crewed` : a cycle, and every section that is no such loss (`Spares`), keep it.
-/

namespace AdaptiveExecutor
open Ledger (Tidy)
open Relation (ReflTransGen)

/-! ## Copies of a task -/

/-- The result is of the task, and of the worker. -/
def WorkResult.isOf {α : Type} (x : WorkId) (w : WorkerId) (r : WorkResult α) : Bool := decide (r.id = x ∧ r.workerId = w)

theorem WorkResult.isOf_iff {α : Type} {x : WorkId} {w : WorkerId} {r : WorkResult α} :
    r.isOf x w = true ↔ r.id = x ∧ r.workerId = w := decide_eq_true_iff

namespace WorkerSlot
variable {α : Type}

/-- The results that can still be read from the queue of the worker. -/
def readable (slot : WorkerSlot α) : List (WorkResult α) := if slot.queueDiscarded then [] else slot.process.resultQueue

def workload (slot : WorkerSlot α) : List WorkId := if slot.process.alive then slot.process.unfinished else []

/-- How often the task is with this worker `w`, the results in hand apart. -/
def carries (slot : WorkerSlot α) (x : WorkId) (w : WorkerId) : Nat :=
  slot.workload.count x + slot.readable.countP (WorkResult.isOf x w)

end WorkerSlot

namespace Executor
variable {α : Type} {env : Env} {e e' : Executor α} {accepted accepted' retrying retrying' held : List WorkId}
  {results results' : List (WorkResult α)} {lost lost' : List WorkerId} {x : WorkId} {w : WorkerId}

/-- How often the task is with the worker: shipped to it and not done, or done and its result not yet processed. -/
def copies (e : Executor α) (results : List (WorkResult α)) (x : WorkId) (w : WorkerId) : Nat :=
  (e.slots w).carries x w + results.countP (WorkResult.isOf x w)

/-! ## The invariant -/

/-- The busy workers of the pool and the tasks in flight belong together. In hand are `results`, the dead workers `lost`
whose task has not been taken yet, and the tasks `retrying` on their way back to the queue. -/
structure Crewed (e : Executor α) (accepted : List WorkId) (results : List (WorkResult α)) (lost : List WorkerId)
    (retrying : List WorkId) : Prop where
  manned : ∀ x ∈ e.inFlight, ∃ w, (w ∈ e.workers ∨ w ∈ lost) ∧ (e.works x).workerId = some w ∧
    (e.slots w).currentWorkId = some x
  busy : ∀ w ∈ e.workers, ∀ x, (e.slots w).currentWorkId = some x → x ∈ e.inFlight ∧ (e.works x).workerId = some w
  missing : ∀ w ∈ lost, ∀ x, (e.slots w).currentWorkId = some x → e.Bound accepted retrying x w
  sent : ∀ x w, 0 < e.copies results x w → e.Bound accepted retrying x w ∧ w < e.nextWorkerId
  once : ∀ x w, e.copies results x w ≤ 1
  origin : ∀ w, ∀ r ∈ (e.slots w).process.resultQueue, r.workerId = w

theorem Crewed.manned_iff (h : Crewed e accepted results lost retrying) (hx : x ∈ e.inFlight)
    (hw : (e.works x).workerId = some w) : (w ∈ e.workers ∨ w ∈ lost) ∧ (e.slots w).currentWorkId = some x := by
  obtain ⟨v, hv, hid, hcur⟩ := h.manned x hx
  obtain rfl : v = w := Option.some.inj (hid.symm.trans hw)
  exact ⟨hv, hcur⟩

theorem Crewed.mono (h : Crewed e accepted results lost retrying)
    (hmanned : ∀ x ∈ e'.inFlight, ∀ w, (w ∈ e.workers ∨ w ∈ lost) → (e.works x).workerId = some w →
      (e.slots w).currentWorkId = some x → (w ∈ e'.workers ∨ w ∈ lost') ∧ (e'.slots w).currentWorkId = some x)
    (hbusy : ∀ w ∈ e'.workers, ∀ x, (e'.slots w).currentWorkId = some x →
      w ∈ e.workers ∧ (e.slots w).currentWorkId = some x ∧ x ∈ e'.inFlight)
    (hmissing : ∀ w ∈ lost', ∀ x, (e'.slots w).currentWorkId = some x → w ∈ lost ∧ (e.slots w).currentWorkId = some x)
    (hcopies : ∀ x w, e'.copies results' x w ≤ e.copies results x w)
    (horigin : ∀ w, ∀ r ∈ (e'.slots w).process.resultQueue, r.workerId = w) (hnext : e.nextWorkerId ≤ e'.nextWorkerId)
    (haccepted : accepted ⊆ accepted') (hretrying : retrying' ⊆ retrying) (hpending : e'.pending ⊆ e.pending)
    (hflight : e'.inFlight ⊆ e.inFlight) (hworks : ∀ x ∈ e'.inFlight, (e'.works x).workerId = (e.works x).workerId) :
    Crewed e' accepted' results' lost' retrying' := by
  refine ⟨fun x hx => ?_, fun w hw x hx => ?_, fun w hw x hx => ?_, fun x w hx => ?_, fun x w => ?_, horigin⟩
  · obtain ⟨w, hw, hid, hcur⟩ := h.manned x (hflight hx)
    obtain ⟨hw', hcur'⟩ := hmanned x hx w hw hid hcur
    exact ⟨w, hw', (hworks x hx).trans hid, hcur'⟩
  · obtain ⟨hw, hcur, hf⟩ := hbusy w hw x hx
    exact ⟨hf, (hworks x hf).trans (h.busy w hw x hcur).2⟩
  · obtain ⟨hw, hcur⟩ := hmissing w hw x hx
    exact (h.missing w hw x hcur).mono haccepted hretrying hpending hflight hworks
  · obtain ⟨hbound, hlt⟩ := h.sent x w (hx.trans_le (hcopies x w))
    exact ⟨hbound.mono haccepted hretrying hpending hflight hworks, hlt.trans_le hnext⟩
  · exact (hcopies x w).trans (h.once x w)

theorem Crewed.of_perm (h : Crewed e accepted results lost retrying) (hresults : results'.Subperm results)
    (hlost : lost'.Perm lost) (hretrying : retrying' ⊆ retrying) : Crewed e accepted results' lost' retrying' := by
  refine h.mono (fun x _ w hw _ hcur => ⟨?_, hcur⟩) (fun w hw x hx => ⟨hw, hx, (h.busy w hw x hx).1⟩)
    (fun w hw x hx => ⟨hlost.subset hw, hx⟩) (fun x w => ?_) h.origin le_rfl (List.Subset.refl _) hretrying
    (List.Subset.refl _) (List.Subset.refl _) fun _ _ => rfl
  · exact hw.imp_right fun hw => hlost.symm.subset hw
  · exact Nat.add_le_add_left (hresults.countP_le _) _

/-- The slots change in nothing that the parent's view is about, or a process is through with something. -/
theorem Crewed.of_slots (h : Crewed e accepted results lost retrying) (hworkers : e'.workers = e.workers)
    (hnext : e'.nextWorkerId = e.nextWorkerId) (hpending : e'.pending ⊆ e.pending) (hflight : e'.inFlight = e.inFlight)
    (hworks : ∀ x ∈ e.inFlight, (e'.works x).workerId = (e.works x).workerId)
    (hcur : ∀ w, (e'.slots w).currentWorkId = (e.slots w).currentWorkId)
    (hcopies : ∀ x w, e'.copies results' x w ≤ e.copies results x w)
    (horigin : ∀ w, ∀ r ∈ (e'.slots w).process.resultQueue, r.workerId = w) :
    Crewed e' accepted results' lost retrying := by
  refine h.mono (fun x _ w hw _ hx => ⟨?_, (hcur w).trans hx⟩) (fun w hw x hx => ?_)
    (fun w hw x hx => ⟨hw, (hcur w).symm.trans hx⟩) hcopies horigin hnext.ge (List.Subset.refl _) (List.Subset.refl _)
    hpending (hflight ▸ List.Subset.refl _) fun x hx => hworks x (hflight ▸ hx)
  · rwa [hworkers]
  · rw [hworkers] at hw
    rw [hcur] at hx
    rw [hflight]
    exact ⟨hw, hx, (h.busy w hw x hx).1⟩

theorem Crewed.of_tasks (h : Crewed e accepted results lost retrying) (hslots : e'.slots = e.slots)
    (hworkers : e'.workers = e.workers) (hnext : e'.nextWorkerId = e.nextWorkerId) (hpending : e'.pending ⊆ e.pending)
    (hflight : e'.inFlight = e.inFlight) (hworks : ∀ x ∈ e.inFlight, (e'.works x).workerId = (e.works x).workerId) :
    Crewed e' accepted results lost retrying := by
  refine h.of_slots hworkers hnext hpending hflight hworks (fun w => ?_) (fun x w => ?_) fun w r hr => ?_
  · rw [hslots]
  · unfold copies
    rw [hslots]
  · rw [hslots] at hr
    exact h.origin w r hr

/-! ## Processes -/

theorem modifySlot_carries (e : Executor α) {f : WorkerSlot α → WorkerSlot α}
    (hf : ∀ slot x w, (f slot).carries x w ≤ slot.carries x w) (v : WorkerId) (x : WorkId) (w : WorkerId) :
    ((e.modifySlot v f).slots w).carries x w ≤ (e.slots w).carries x w := by
  rw [modifySlot_slots]
  split_ifs with hw
  · rw [hw]
    exact hf _ _ _
  · exact le_rfl

theorem Crewed.modifySlot (h : Crewed e accepted results lost retrying) {v : WorkerId} {f : WorkerSlot α → WorkerSlot α}
    (hcur : (f (e.slots v)).currentWorkId = (e.slots v).currentWorkId)
    (hcopies : ∀ x, (f (e.slots v)).carries x v ≤ (e.slots v).carries x v)
    (horigin : ∀ r ∈ (f (e.slots v)).process.resultQueue, r.workerId = v) :
    Crewed (e.modifySlot v f) accepted results lost retrying := by
  refine h.of_slots rfl rfl (List.Subset.refl _) rfl (fun _ _ => rfl) (fun w => ?_) (fun x w => ?_) fun w r hr => ?_
  · rw [modifySlot_slots]
    split_ifs with hw
    · rw [hw, hcur]
    · rfl
  · unfold copies
    rw [modifySlot_slots]
    split_ifs with hw
    · rw [hw]
      exact Nat.add_le_add_right (hcopies x) _
    · exact le_rfl
  · rw [modifySlot_slots] at hr
    split_ifs at hr with hw
    · rw [hw]
      exact horigin r hr
    · exact h.origin w r hr

theorem alive_exit (p : WorkerProcess α) (code : Int) : (p.exit code).alive = false := by
  unfold WorkerProcess.exit
  split_ifs with halive
  · rfl
  · exact Bool.eq_false_of_not_eq_true halive

theorem carries_exit (slot : WorkerSlot α) (p : WorkerProcess α) (code : Int) (hqueue : p.resultQueue = slot.process.resultQueue)
    (x : WorkId) (w : WorkerId) : ({ slot with process := p.exit code } : WorkerSlot α).carries x w ≤ slot.carries x w := by
  unfold WorkerSlot.carries WorkerSlot.workload WorkerSlot.readable
  dsimp only
  rw [alive_exit, WorkerProcess.resultQueue_exit, hqueue]
  simp

/-- What happens to a process copies no task: a result takes the place of its item. -/
theorem process_carries {slot : WorkerSlot α} {p : WorkerProcess α} (hp : System.ProcessStep w slot.process p) (x : WorkId) :
    ({ slot with process := p } : WorkerSlot α).carries x w ≤ slot.carries x w := by
  cases hp with
  | @take item rest _ hidle hqueue =>
    have hsame : ({ slot.process with workQueue := rest, executing := some item } : WorkerProcess α).unfinished =
        slot.process.unfinished := by
      simp [WorkerProcess.unfinished, hidle, hqueue, List.reduceOption_cons_of_some]
    unfold WorkerSlot.carries WorkerSlot.workload WorkerSlot.readable
    rw [hsame]
  | @stop rest _ _ hqueue =>
    have hsame : ({ slot.process with workQueue := rest, leaving := true } : WorkerProcess α).unfinished =
        slot.process.unfinished := by
      simp [WorkerProcess.unfinished, hqueue, List.reduceOption_cons_of_none]
    unfold WorkerSlot.carries WorkerSlot.workload WorkerSlot.readable
    rw [hsame]
  | @put item r halive hitem hr hw =>
    have hbefore : slot.process.unfinished = r.id :: ({ slot.process with executing := none } : WorkerProcess α).unfinished := by
      simp [WorkerProcess.unfinished, hitem, hr]
    have hafter : ({ slot.process with executing := none, resultQueue := slot.process.resultQueue ++ [r] } :
        WorkerProcess α).unfinished = ({ slot.process with executing := none } : WorkerProcess α).unfinished := rfl
    unfold WorkerSlot.carries WorkerSlot.workload WorkerSlot.readable
    dsimp only
    rw [if_pos halive, if_pos halive, hafter, hbefore, List.count_cons]
    have hqueue : (if slot.queueDiscarded then [] else slot.process.resultQueue ++ [r]).countP (WorkResult.isOf x w) ≤
        (if slot.queueDiscarded then [] else slot.process.resultQueue).countP (WorkResult.isOf x w) +
          if r.id == x then 1 else 0 := by
      split_ifs with _ hx hx
      · simp
      · simp
      · rw [List.countP_append, List.countP_singleton]
        split_ifs <;> omega
      · have hother : ¬ r.isOf x w = true := fun h => hx (beq_iff_eq.mpr (WorkResult.isOf_iff.mp h).1)
        rw [List.countP_append, List.countP_singleton, if_neg hother]
    omega
  | lose =>
    have hsub : (({ slot.process with executing := none } : WorkerProcess α).unfinished).Sublist slot.process.unfinished :=
      (List.sublist_append_right _ _).map _
    have hcount := hsub.count_le x
    unfold WorkerSlot.carries WorkerSlot.workload WorkerSlot.readable
    dsimp only at hcount ⊢
    split_ifs <;> omega
  | exit code => exact carries_exit slot slot.process code rfl x w

theorem Crewed.process (h : Crewed e accepted results lost retrying) {p : WorkerProcess α}
    (hp : System.ProcessStep w (e.slots w).process p) :
    Crewed (e.modifyProcess w fun _ => p) accepted results lost retrying := by
  refine h.modifySlot rfl (process_carries hp) fun r hr => ?_
  change r ∈ p.resultQueue at hr
  cases hp with
  | take | stop | lose => exact h.origin w r hr
  | put _ _ _ hw =>
    rcases List.mem_append.mp hr with hr | hr
    · exact h.origin w r hr
    · rw [List.mem_singleton.mp hr]
      exact hw
  | exit =>
    rw [WorkerProcess.resultQueue_exit] at hr
    exact h.origin w r hr

theorem carries_read (slot : WorkerSlot α) {i : Nat} {r : WorkResult α} (hr : slot.process.resultQueue[i]? = some r)
    (hopen : slot.queueDiscarded = false) (x : WorkId) (w : WorkerId) :
    ({ slot with process := { slot.process with resultQueue := slot.process.resultQueue.eraseIdx i } } :
      WorkerSlot α).carries x w + (if r.isOf x w then 1 else 0) = slot.carries x w := by
  obtain ⟨hi, hri⟩ := List.getElem?_eq_some_iff.mp hr
  have hcount := (List.getElem_cons_eraseIdx_perm hi).countP_eq (WorkResult.isOf x w)
  rw [hri, List.countP_cons] at hcount
  simp only [WorkerSlot.carries, WorkerSlot.workload, WorkerSlot.readable, hopen, Bool.false_eq_true, if_false]
  rw [← hcount, Nat.add_assoc]
  rfl

theorem Crewed.read (h : Crewed e accepted results lost retrying) {i : Nat} {r : WorkResult α}
    (hr : (e.slots w).process.resultQueue[i]? = some r) (hopen : (e.slots w).queueDiscarded = false) :
    Crewed (e.modifyProcess w fun p => { p with resultQueue := p.resultQueue.eraseIdx i }) accepted (r :: results) lost
      retrying := by
  have hw : r.workerId = w := h.origin w r (List.mem_of_getElem? hr)
  have hslots (v : WorkerId) := modifySlot_slots e w (fun slot =>
    { slot with process := { slot.process with resultQueue := slot.process.resultQueue.eraseIdx i } }) v
  refine h.of_slots rfl rfl (List.Subset.refl _) rfl (fun _ _ => rfl) (fun v => ?_) (fun x v => ?_) fun v r' hr' => ?_
  · unfold modifyProcess
    rw [hslots]
    split_ifs with hv
    · rw [hv]
    · rfl
  · unfold copies modifyProcess
    rw [hslots, List.countP_cons]
    by_cases hv : v = w
    · subst hv
      rw [if_pos rfl, ← carries_read (e.slots v) hr hopen x v]
      exact ((Nat.add_assoc _ _ _).symm.trans (Nat.add_right_comm _ _ _)).le
    · have hother : ¬ r.isOf x v = true := fun hof => hv ((WorkResult.isOf_iff.mp hof).2.symm.trans hw)
      rw [if_neg hv, if_neg hother]
      exact le_rfl
  · unfold modifyProcess at hr'
    rw [hslots] at hr'
    split_ifs at hr' with hv
    · rw [hv]
      exact h.origin w r' (List.eraseIdx_subset hr')
    · exact h.origin v r' hr'

/-- A worker is told to stop, or its queue is given up: nothing is copied. -/
theorem carries_stop (slot : WorkerSlot α) (x : WorkId) (w : WorkerId) : ({ slot with
    intentionallyStopped := true
    process := { slot.process with workQueue := slot.process.workQueue ++ [none] } } : WorkerSlot α).carries x w =
      slot.carries x w := by
  unfold WorkerSlot.carries WorkerSlot.workload WorkerSlot.readable
  rw [slot.process.unfinished_sentinel]

/-! ## Tasks that leave flight -/

/-- **A task leaves flight** and its worker, if it is in the pool, has no task any more. -/
theorem Crewed.release (h : Crewed e accepted results lost retrying) (hnodup : e.inFlight.Nodup)
    (hflight : e'.inFlight = e.inFlight.erase x) (hworks : ∀ y, (e'.works y).workerId = (e.works y).workerId)
    (hpending : e'.pending = e.pending) (hnext : e'.nextWorkerId = e.nextWorkerId)
    (hstay : ∀ w y, (w ∈ e.workers ∨ w ∈ lost) → (e.slots w).currentWorkId = some y → y ≠ x →
      (w ∈ e'.workers ∨ w ∈ lost) ∧ (e'.slots w).currentWorkId = some y)
    (hold : ∀ w, (w ∈ e'.workers → w ∈ e.workers) ∧ ∀ y, (e'.slots w).currentWorkId = some y →
      (e.slots w).currentWorkId = some y)
    (hfree : ∀ w ∈ e'.workers, (e'.slots w).currentWorkId ≠ some x)
    (hcopies : ∀ y w, e'.copies results' y w ≤ e.copies results y w)
    (horigin : ∀ w, ∀ r ∈ (e'.slots w).process.resultQueue, r.workerId = w) :
    Crewed e' accepted results' lost retrying := by
  have hne {y : WorkId} (hy : y ∈ e'.inFlight) : y ≠ x := by
    rintro rfl
    rw [hflight] at hy
    exact hnodup.not_mem_erase hy
  refine h.mono (fun y hy w hw _ hcur => hstay w y hw hcur (hne hy)) (fun w hw y hy => ?_)
    (fun w hw y hy => ⟨hw, (hold w).2 y hy⟩) hcopies horigin hnext.ge (List.Subset.refl _) (List.Subset.refl _) ?_ ?_
    fun y _ => hworks y
  · have hw' := (hold w).1 hw
    have hcur := (hold w).2 y hy
    have hyx : y ≠ x := by
      rintro rfl
      exact hfree w hw hy
    refine ⟨hw', hcur, ?_⟩
    rw [hflight]
    exact (List.mem_erase_of_ne hyx).mpr (h.busy w hw' y hcur).1
  · rw [hpending]
    exact List.Subset.refl _
  · rw [hflight]
    exact List.erase_subset

theorem Crewed.pop (h : Crewed e accepted results lost retrying) (hnodup : e.inFlight.Nodup)
    (hfree : ∀ w ∈ e.workers, (e.slots w).currentWorkId ≠ some x) :
    Crewed (e.popInFlight x) accepted results lost retrying :=
  h.release hnodup rfl (fun _ => rfl) rfl rfl (fun _ _ hw hcur _ => ⟨hw, hcur⟩) (fun _ => ⟨id, fun _ => id⟩) hfree
    (fun _ _ => le_rfl) h.origin

theorem Crewed.clear (h : Crewed e accepted results lost retrying) (hnodup : e.inFlight.Nodup)
    (hcur : (e.slots w).currentWorkId = some x) (hw : (e.works x).workerId = some w)
    {f : WorkerSlot α → WorkerSlot α} (hnone : ∀ slot, (f slot).currentWorkId = none)
    (hprocess : ∀ slot, (f slot).process = slot.process ∧ (f slot).queueDiscarded = slot.queueDiscarded) :
    Crewed ((e.modifySlot w f).popInFlight x) accepted results lost retrying := by
  have hslots (v : WorkerId) : ((e.modifySlot w f).popInFlight x).slots v = if v = w then f (e.slots w) else e.slots v :=
    modifySlot_slots e w f v
  have hcarries (slot : WorkerSlot α) (y : WorkId) (v : WorkerId) : (f slot).carries y v = slot.carries y v := by
    unfold WorkerSlot.carries WorkerSlot.workload WorkerSlot.readable
    rw [(hprocess slot).1, (hprocess slot).2]
  refine h.release hnodup rfl (fun _ => rfl) rfl rfl (fun v y hv hy hyx => ⟨hv, ?_⟩) (fun v => ⟨id, fun y hy => ?_⟩)
    (fun v hv hy => ?_) (fun y v => ?_) fun v r hr => ?_
  · rw [hslots, if_neg]
    · exact hy
    · rintro rfl
      exact hyx (Option.some.inj (hy.symm.trans hcur))
  · rw [hslots] at hy
    split_ifs at hy
    · rw [hnone] at hy
      cases hy
    · exact hy
  · rw [hslots] at hy
    split_ifs at hy with hvw
    · rw [hnone] at hy
      cases hy
    · exact hvw (Option.some.inj ((h.busy v hv x hy).2.symm.trans hw))
  · exact Nat.add_le_add_right (modifySlot_carries e (fun slot x w => (hcarries slot x w).le) w y v) _
  · rw [hslots] at hr
    split_ifs at hr with hvw
    · rw [(hprocess _).1] at hr
      rw [hvw]
      exact h.origin w r hr
    · exact h.origin v r hr

theorem Crewed.evict (h : Crewed e accepted results lost retrying) (hidle : (e.slots w).currentWorkId = none)
    {f : WorkerSlot α → WorkerSlot α} (hcur : ∀ slot, (f slot).currentWorkId = slot.currentWorkId)
    (hcarries : ∀ slot x v, (f slot).carries x v = slot.carries x v)
    (hqueue : ∀ slot, (f slot).process.resultQueue = slot.process.resultQueue) :
    Crewed ((e.modifySlot w f).evict w) accepted results lost retrying := by
  have hkeeps (v : WorkerId) : (((e.modifySlot w f).evict w).slots v).currentWorkId = (e.slots v).currentWorkId :=
    modifySlot_keeps e (·.currentWorkId) hcur w v
  refine h.mono (fun x hx v hv hid hx' => ⟨?_, (hkeeps v).trans hx'⟩) (fun v hv x hx => ?_)
    (fun v hv x hx => ⟨hv, (hkeeps v).symm.trans hx⟩) (fun x v => ?_) (fun v r hr => ?_) le_rfl (List.Subset.refl _)
    (List.Subset.refl _) (List.Subset.refl _) (List.Subset.refl _) fun _ _ => rfl
  · have hvw : v ≠ w := by
      rintro rfl
      rw [hidle] at hx'
      cases hx'
    exact hv.imp_left fun hv => (List.mem_erase_of_ne hvw).mpr hv
  · rw [hkeeps] at hx
    have hv' := List.erase_subset hv
    exact ⟨hv', hx, (h.busy v hv' x hx).1⟩
  · exact Nat.add_le_add_right (modifySlot_carries e (fun slot x w => (hcarries slot x w).le) w x v) _
  · have hsame : (((e.modifySlot w f).evict w).slots v).process.resultQueue = (e.slots v).process.resultQueue :=
      modifySlot_keeps e (·.process.resultQueue) hqueue w v
    rw [hsame] at hr
    exact h.origin v r hr

theorem Crewed.retireWorker (h : Crewed e accepted results lost retrying) (hidle : (e.slots w).currentWorkId = none) :
    Crewed (e.retireWorker w) accepted results lost retrying :=
  h.evict hidle (fun _ => rfl) carries_stop fun _ => rfl

/-! ## Tasks and workers that come -/

theorem Crewed.spawn (h : Crewed e accepted results lost retrying) (hpool : Pool e lost) (pid : Int)
    (gpuId : Option GpuId) : Crewed (e.spawned pid gpuId) accepted results lost retrying := by
  have hslots (v : WorkerId) : (e.spawned pid gpuId).slots v =
      if v = e.nextWorkerId then { process := { pid := pid }, pinnedGpuId := gpuId } else e.slots v :=
    Function.update_apply _ _ _ _
  refine h.mono (fun x _ v hv _ hcur => ?_) (fun v hv x hx => ?_) (fun v hv x hx => ⟨hv, ?_⟩) (fun x v => ?_)
    (fun v r hr => ?_) (Nat.le_succ _) (List.Subset.refl _) (List.Subset.refl _) (List.Subset.refl _)
    (List.Subset.refl _) fun _ _ => rfl
  · have hlt : v < e.nextWorkerId := hpool.spawned v (List.mem_append.mpr hv)
    rw [hslots, if_neg hlt.ne]
    exact ⟨hv.imp_left fun hv => mem_insertKey.mpr (.inl hv), hcur⟩
  · rw [hslots] at hx
    split_ifs at hx with hnew
    have hv' := (mem_insertKey.mp hv).resolve_right hnew
    exact ⟨hv', hx, (h.busy v hv' x hx).1⟩
  · rw [hslots] at hx
    split_ifs at hx
    exact hx
  · unfold copies
    rw [hslots]
    split_ifs
    · rw [show ({ process := { pid := pid }, pinnedGpuId := gpuId } : WorkerSlot α).carries x v = 0 from rfl, Nat.zero_add]
      exact Nat.le_add_left _ _
    · exact le_rfl
  · rw [hslots] at hr
    split_ifs at hr
    · cases hr
    · exact h.origin v r hr

theorem carries_ship (slot : WorkerSlot α) (item : WorkItem) (cur : Option WorkId) (halive : slot.process.alive = true)
    (x : WorkId) (w : WorkerId) : ({ slot with
      currentWorkId := cur
      process := { slot.process with workQueue := slot.process.workQueue ++ [some item] } } : WorkerSlot α).carries x w =
        slot.carries x w + if item.id = x then 1 else 0 := by
  unfold WorkerSlot.carries WorkerSlot.workload WorkerSlot.readable
  dsimp only
  rw [if_pos halive, if_pos halive, slot.process.unfinished_ship item, List.count_append, List.count_singleton,
    Nat.add_right_comm]
  simp only [beq_iff_eq]

theorem Crewed.ship (h : Crewed e accepted results lost retrying) {gpuId : Option GpuId} (hx : x ∈ e.pending)
    (hnodup : e.pending.Nodup) (hflight : x ∉ e.inFlight) (haccepted : x ∈ accepted) (hretrying : x ∉ retrying)
    (hw : w ∈ e.workers) (hlost : w ∉ lost) (hspawned : w < e.nextWorkerId) (hidle : e.idle w = true) :
    Crewed { e.ship env x gpuId w with pending := e.pending.erase x } accepted results lost retrying := by
  obtain ⟨item, hitem, hslots⟩ := ship_slots env e x gpuId w
  have hnone : (e.slots w).currentWorkId = none ∧ (e.slots w).process.alive = true := by
    simp only [idle, Bool.and_eq_true, Option.isNone_iff_eq_none] at hidle
    exact ⟨hidle.1.1, hidle.2⟩
  generalize he : ({ e.ship env x gpuId w with pending := e.pending.erase x } : Executor α) = e'
  have hpending : e'.pending = e.pending.erase x := by rw [← he]
  have hworkers : e'.workers = e.workers ∧ e'.nextWorkerId = e.nextWorkerId := by rw [← he]; exact ⟨rfl, rfl⟩
  have hinFlight (y : WorkId) : y ∈ e'.inFlight ↔ y ∈ e.inFlight ∨ y = x := by rw [← he]; exact mem_insertKey
  have hworks (y : WorkId) : (e'.works y).workerId = if y = x then some w else (e.works y).workerId := by
    have hmodify := modifyWork_works e x (fun work => captureBaseline env e.clock (e.slots w).process.pid gpuId
      { work with assignedGpuId := gpuId, workerId := some w, startedAt := some e.clock }) y
    rw [← he]
    refine (congrArg PendingWork.workerId hmodify).trans ?_
    split_ifs <;> rfl
  have hslots (v : WorkerId) : e'.slots v = if v = w then
      { e.slots w with
        currentWorkId := some x
        process := { (e.slots w).process with workQueue := (e.slots w).process.workQueue ++ [some item] } }
      else e.slots v := by rw [← he]; exact hslots v
  have hcopies (y : WorkId) (v : WorkerId) : e'.copies results y v =
      e.copies results y v + if y = x ∧ v = w then 1 else 0 := by
    unfold copies
    rw [hslots]
    by_cases hv : v = w
    · rw [if_pos hv, hv, carries_ship (e.slots w) item (some x) hnone.2, hitem, Nat.add_right_comm]
      simp [eq_comm]
    · rw [if_neg hv, if_neg fun hboth => hv hboth.2]
      rfl
  -- nobody else has the task, since it was queued
  have hfresh (v : WorkerId) : e.copies results x v = 0 := by
    by_contra hpos
    exact (h.sent x v (Nat.pos_of_ne_zero hpos)).1.pending hx
  have hbound (y : WorkId) (v : WorkerId) (hb : e.Bound accepted retrying y v) : e'.Bound accepted retrying y v := by
    have hyx : y ≠ x := by
      rintro rfl
      exact hb.pending hx
    refine ⟨hb.accepted, fun hm => hb.pending (List.erase_subset (hpending ▸ hm)), hb.retrying, fun hm => ?_⟩
    rw [hworks, if_neg hyx]
    exact hb.flight (((hinFlight y).mp hm).resolve_right hyx)
  refine ⟨fun y hy => ?_, fun v hv y hy => ?_, fun v hv y hy => ?_, fun y v hpos => ?_, fun y v => ?_, fun v r hr => ?_⟩
  · rw [hworks]
    by_cases hyx : y = x
    · rw [if_pos hyx]
      refine ⟨w, .inl (hworkers.1 ▸ hw), rfl, ?_⟩
      rw [hslots, if_pos rfl, hyx]
    · obtain ⟨v, hv, hid, hcur⟩ := h.manned y (((hinFlight y).mp hy).resolve_right hyx)
      rw [if_neg hyx, hworkers.1]
      refine ⟨v, hv, hid, ?_⟩
      rw [hslots, if_neg]
      · exact hcur
      · rintro rfl
        rw [hnone.1] at hcur
        cases hcur
  · rw [hslots] at hy
    rw [hinFlight, hworks]
    split_ifs at hy with hvw
    · obtain rfl := Option.some.inj hy
      rw [if_pos rfl, hvw]
      exact ⟨.inr rfl, rfl⟩
    · obtain ⟨hf, hid⟩ := h.busy v (hworkers.1 ▸ hv) y hy
      rw [if_neg]
      · exact ⟨.inl hf, hid⟩
      · rintro rfl
        exact hflight hf
  · rw [hslots, if_neg] at hy
    · exact hbound y v (h.missing v hv y hy)
    · rintro rfl
      exact hlost hv
  · rw [hworkers.2]
    by_cases hyx : y = x ∧ v = w
    · obtain ⟨rfl, rfl⟩ := hyx
      refine ⟨⟨haccepted, hpending ▸ hnodup.not_mem_erase, hretrying, fun _ => ?_⟩, hspawned⟩
      rw [hworks, if_pos rfl]
    · rw [hcopies, if_neg hyx] at hpos
      obtain ⟨hb, hlt⟩ := h.sent y v hpos
      exact ⟨hbound y v hb, hlt⟩
  · rw [hcopies]
    split_ifs with hyx
    · rw [hyx.1, hfresh v]
    · exact h.once y v
  · rw [hslots] at hr
    split_ifs at hr with hvw
    · rw [hvw]
      exact h.origin w r hr
    · exact h.origin v r hr

theorem Crewed.append (h : Crewed e accepted results lost retrying) (hx : x ∉ accepted) :
    Crewed { e with pending := e.pending ++ [x] } (accepted ++ [x]) results lost retrying := by
  have hbound (y : WorkId) (w : WorkerId) (hb : e.Bound accepted retrying y w) :
      Bound { e with pending := e.pending ++ [x] } (accepted ++ [x]) retrying y w := by
    refine ⟨List.mem_append_left _ hb.accepted, fun hm => ?_, hb.retrying, hb.flight⟩
    rcases List.mem_append.mp hm with hm | hm
    · exact hb.pending hm
    · exact hx (List.mem_singleton.mp hm ▸ hb.accepted)
  exact ⟨h.manned, h.busy, fun w hw y hy => hbound y w (h.missing w hw y hy),
    fun y w hpos => (h.sent y w hpos).imp_left (hbound y w), h.once, h.origin⟩

theorem Crewed.requeue (h : Crewed e accepted results lost (x :: retrying)) (hx : x ∉ e.inFlight) :
    Crewed (e.requeue x) accepted results lost retrying := by
  have hworks (y : WorkId) (hy : y ∈ e.inFlight) : ((e.requeue x).works y).workerId = (e.works y).workerId := by
    refine congrArg PendingWork.workerId (Function.update_of_ne ?_ _ _)
    rintro rfl
    exact hx hy
  have hbound (y : WorkId) (w : WorkerId) (hb : e.Bound accepted (x :: retrying) y w) :
      (e.requeue x).Bound accepted retrying y w := by
    obtain ⟨hyx, hr⟩ := not_or.mp (mt List.mem_cons.mpr hb.retrying)
    exact ⟨hb.accepted, fun hm => (List.mem_cons.mp hm).elim hyx hb.pending, hr,
      fun hm => (hworks y hm).trans (hb.flight hm)⟩
  refine ⟨fun y hy => ?_, fun w hw y hy => ?_, fun w hw y hy => hbound y w (h.missing w hw y hy),
    fun y w hpos => (h.sent y w hpos).imp_left (hbound y w), h.once, h.origin⟩
  · obtain ⟨w, hw, hid, hcur⟩ := h.manned y hy
    exact ⟨w, hw, (hworks y hy).trans hid, hcur⟩
  · obtain ⟨hf, hid⟩ := h.busy w hw y hy
    exact ⟨hf, (hworks y hf).trans hid⟩

/-! ## Dead workers -/

theorem Crewed.checkWorkers (h : Crewed e accepted results lost retrying) (htidy : Tidy (e.book accepted held))
    (hretrying : retrying ⊆ held) : Crewed e.checkWorkers.1 accepted results
      ((e.workers.filter fun w => !(e.slots w).process.alive) ++ lost) retrying := by
  have hbound (x : WorkId) (w : WorkerId) (hb : e.Bound accepted retrying x w) :
      e.checkWorkers.1.Bound accepted retrying x w := ⟨hb.accepted, hb.pending, hb.retrying, hb.flight⟩
  refine ⟨fun x hx => ?_, fun w hw => h.busy w (List.mem_filter.mp hw).1, fun w hw x hx => hbound x w ?_,
    fun x w hpos => (h.sent x w hpos).imp_left (hbound x w), h.once, h.origin⟩
  · obtain ⟨w, hw, hid, hcur⟩ := h.manned x hx
    refine ⟨w, ?_, hid, hcur⟩
    rcases hw with hw | hw
    · cases halive : (e.slots w).process.alive with
      | true => exact .inl (List.mem_filter.mpr ⟨hw, halive⟩)
      | false => exact .inr (List.mem_append_left _ (List.mem_filter.mpr ⟨hw, by rw [halive]; rfl⟩))
    · exact .inr (List.mem_append_right _ hw)
  · rcases List.mem_append.mp hw with hw | hw
    · obtain ⟨hf, hid⟩ := h.busy w (List.mem_filter.mp hw).1 x hx
      have hplace : x ∉ e.pending := fun hp => htidy.not_mem_flight hp (List.mem_append_left _ hf)
      refine ⟨htidy.known x (List.mem_append_right _ (List.mem_append_left _ hf)), hplace, fun hr => ?_, fun _ => hid⟩
      exact (List.nodup_append.mp htidy.nodup.of_append_right).2.2 x hf x (hretrying hr) rfl
    · exact h.missing w hw x hx

theorem Crewed.lose (h : Crewed e accepted results (w :: lost) retrying) (hpool : Pool e (w :: lost))
    (hnodup : e.inFlight.Nodup) (hcur : (e.slots w).currentWorkId = some x) :
    Crewed (e.popInFlight x) accepted results lost retrying := by
  have hbound := h.missing w List.mem_cons_self x hcur
  have hgone : w ∉ e.workers := fun hw => (List.nodup_append.mp hpool.nodup).2.2 w hw w List.mem_cons_self rfl
  refine h.mono (fun y hy v hv hid hy' => ⟨?_, hy'⟩) (fun v hv y hy => ⟨hv, hy, ?_⟩)
    (fun v hv y hy => ⟨List.mem_cons_of_mem w hv, hy⟩) (fun _ _ => le_rfl) h.origin le_rfl (List.Subset.refl _)
    (List.Subset.refl _) (List.Subset.refl _) List.erase_subset fun _ _ => rfl
  · refine hv.imp_right fun hv => (List.mem_cons.mp hv).resolve_left ?_
    rintro rfl
    obtain rfl := Option.some.inj (hcur.symm.trans hy')
    exact hnodup.not_mem_erase hy
  · obtain ⟨hf, hid⟩ := h.busy v hv y hy
    refine (List.mem_erase_of_ne ?_).mpr hf
    rintro rfl
    exact hgone (Option.some.inj (hid.symm.trans (hbound.flight hf)) ▸ hv)

theorem Crewed.retry (h : Crewed e accepted results lost retrying) (hcopies : ∀ v, e.copies results x v = 0)
    (hlost : ∀ v ∈ lost, (e.slots v).currentWorkId ≠ some x) : Crewed e accepted results lost (x :: retrying) := by
  have hbound (y : WorkId) (v : WorkerId) (hb : e.Bound accepted retrying y v) (hne : y ≠ x) :
      e.Bound accepted (x :: retrying) y v :=
    ⟨hb.accepted, hb.pending, fun hm => (List.mem_cons.mp hm).elim hne hb.retrying, hb.flight⟩
  refine ⟨h.manned, h.busy, fun v hv y hy => hbound y v (h.missing v hv y hy) ?_, fun y v hpos => ?_, h.once, h.origin⟩
  · rintro rfl
    exact hlost v hv hy
  · obtain ⟨hb, hlt⟩ := h.sent y v hpos
    refine ⟨hbound y v hb ?_, hlt⟩
    rintro rfl
    rw [hcopies] at hpos
    exact lt_irrefl _ hpos

/-- No task in flight is taken for lost while it is still with the dead worker. -/
def Spares (e : Executor α) (results : List (WorkResult α)) (m : Section α) : Prop :=
  ∀ w ∈ m.loses, ∀ x ∈ (e.slots w).currentWorkId, x ∈ e.inFlight → e.copies results x w = 0

/-- **A task is taken for lost.** -/
theorem Crewed.takeLost (h : Crewed e accepted results (w :: lost) retrying) (hpool : Pool e (w :: lost))
    (hnodup : e.inFlight.Nodup) (hspares : e.Spares results (.takeLost w)) :
    Crewed (e.takeLost w).1 accepted results lost ((e.takeLost w).2.filterMap Section.retries ++ retrying) := by
  unfold Executor.takeLost
  split
  · rename_i hnone
    refine h.mono (fun x _ v hv _ hx => ⟨?_, hx⟩) (fun v hv x hx => ⟨hv, hx, (h.busy v hv x hx).1⟩)
      (fun v hv x hx => ⟨List.mem_cons_of_mem w hv, hx⟩) (fun _ _ => le_rfl) h.origin le_rfl (List.Subset.refl _)
      (List.Subset.refl _) (List.Subset.refl _) (List.Subset.refl _) fun _ _ => rfl
    refine hv.imp_right fun hv => (List.mem_cons.mp hv).resolve_left ?_
    rintro rfl
    rw [hnone] at hx
    cases hx
  · rename_i x hcur
    have hlose := h.lose hpool hnodup hcur
    dsimp only
    split_ifs with _ hflight
    · exact hlose
    · -- a retry: whoever else were at the task would have it in flight
      have hbound := h.missing w List.mem_cons_self x hcur
      refine hlose.retry (fun v => ?_) fun v hv hv' => ?_
      · by_contra hpos
        have hv := ((h.sent x v (Nat.pos_of_ne_zero hpos)).1.flight hflight).symm.trans (hbound.flight hflight)
        obtain rfl := Option.some.inj hv
        exact hpos (hspares v rfl x hcur hflight)
      · have hv'' := (h.missing v (List.mem_cons_of_mem w hv) x hv').flight hflight
        obtain rfl := Option.some.inj (hv''.symm.trans (hbound.flight hflight))
        exact (List.nodup_cons.mp hpool.nodup.of_append_right).1 hv
    · exact hlose
    · exact hlose

/-! ## Results and timeouts -/

/-- **A result is processed.** -/
theorem Crewed.processResult {r : WorkResult α} (h : Crewed e accepted (r :: results) lost retrying)
    (hnodup : e.inFlight.Nodup) : Crewed (e.processResult r).1 accepted results lost retrying := by
  have hbound : e.Bound accepted retrying r.id r.workerId := by
    refine (h.sent r.id r.workerId ?_).1
    have hof : r.isOf r.id r.workerId = true := WorkResult.isOf_iff.mpr ⟨rfl, rfl⟩
    unfold copies
    rw [List.countP_cons, if_pos hof]
    omega
  have hless : Crewed e accepted results lost retrying :=
    h.of_perm (List.sublist_cons_self r results).subperm (.refl _) (List.Subset.refl _)
  unfold Executor.processResult Executor.clearWorker
  by_cases hw : r.workerId ∈ e.workers ∧ (e.slots r.workerId).currentWorkId = some r.id
  · rw [if_pos hw]
    obtain ⟨hflight, hid⟩ := hless.busy r.workerId hw.1 r.id hw.2
    have hclear := hless.clear hnodup hw.2 hid (f := fun slot =>
      { slot with currentWorkId := none, tasksCompleted := slot.tasksCompleted + 1 }) (fun _ => rfl) fun _ => ⟨rfl, rfl⟩
    have hnone : (((e.modifySlot r.workerId fun slot =>
        { slot with currentWorkId := none, tasksCompleted := slot.tasksCompleted + 1 }).popInFlight r.id).slots
          r.workerId).currentWorkId = none :=
      congrArg WorkerSlot.currentWorkId (Function.update_self r.workerId _ e.slots)
    have hretire := hclear.retireWorker hnone
    dsimp only
    by_cases hrecycle : (e.modifySlot r.workerId fun slot =>
        { slot with currentWorkId := none, tasksCompleted := slot.tasksCompleted + 1 }).shouldRecycle r.workerId = true
    · rw [if_pos hrecycle]
      split_ifs with hin
      · exact hretire
      · exact hretire
      · exact absurd hflight hin
    · rw [if_neg hrecycle]
      split_ifs with hin
      · exact hclear
      · exact hclear
      · exact absurd hflight hin
  · rw [if_neg hw]
    dsimp only
    by_cases hflight : r.id ∈ e.inFlight
    · have hpop := hless.pop (x := r.id) hnodup fun v hv hcur => by
        obtain rfl := Option.some.inj ((hless.busy v hv r.id hcur).2.symm.trans (hbound.flight hflight))
        exact hw ⟨hv, hcur⟩
      rw [if_neg (not_not.mpr hflight)]
      split_ifs
      · exact hpop
      · exact hpop
    · rw [if_pos hflight]
      exact hless

/-- **A task times out.** -/
theorem Crewed.handleTimeout (h : Crewed e accepted results lost retrying) (hnodup : e.inFlight.Nodup)
    (hworkers : e.workers.Nodup) : Crewed (e.handleTimeout x).1 accepted results lost retrying := by
  unfold Executor.handleTimeout
  split_ifs with hcond
  · exact h
  rw [not_or, not_not] at hcond
  -- nobody else has the task
  have hpop (hfree : ∀ w, (e.works x).workerId = some w → ¬ (w ∈ e.workers ∧ (e.slots w).currentWorkId = some x)) :
      Crewed (e.popInFlight x) accepted results lost retrying :=
    h.pop hnodup fun v hv hcur => hfree v (h.busy v hv x hcur).2 ⟨hv, hcur⟩
  dsimp only
  split
  · rename_i w _ hid
    split_ifs with hw
    · have hcur := (h.manned_iff hcond.1 hid).2
      have hslots (v : WorkerId) := modifySlot_slots e w (fun slot =>
        { slot with intentionallyStopped := true, queuePoisoned := true, currentWorkId := none }) v
      refine h.release hnodup rfl (fun _ => rfl) rfl rfl (fun v y hv hy hyx => ?_) (fun v => ⟨fun hv => List.erase_subset hv,
        fun y hy => ?_⟩) (fun v hv hy => ?_) (fun y v => ?_) fun v r hr => ?_
      · have hvw : v ≠ w := by
          rintro rfl
          exact hyx (Option.some.inj (hy.symm.trans hcur))
        refine ⟨hv.imp_left fun hv => (List.mem_erase_of_ne hvw).mpr hv, ?_⟩
        refine (congrArg WorkerSlot.currentWorkId (hslots v)).trans ?_
        rw [if_neg hvw]
        exact hy
      · have hy := (congrArg WorkerSlot.currentWorkId (hslots v)).symm.trans hy
        split_ifs at hy
        exact hy
      · have hvw : v ≠ w := by
          rintro rfl
          exact hworkers.not_mem_erase hv
        have hy := (congrArg WorkerSlot.currentWorkId (hslots v)).symm.trans hy
        rw [if_neg hvw] at hy
        exact hvw (Option.some.inj ((h.busy v (List.erase_subset hv) x hy).2.symm.trans hid))
      · exact Nat.add_le_add_right (modifySlot_carries e (f := fun slot =>
          { slot with intentionallyStopped := true, queuePoisoned := true, currentWorkId := none }) (fun _ _ _ => le_rfl)
          w y v) _
      · have hsame := modifySlot_keeps e (f := fun slot =>
          { slot with intentionallyStopped := true, queuePoisoned := true, currentWorkId := none })
          (·.process.resultQueue) (fun _ => rfl) w v
        exact h.origin v r (hsame ▸ hr)
    · exact hpop fun v hv hboth => hw (Option.some.inj (hid.symm.trans hv) ▸ hboth.1)
  · have hignore (hpop : Crewed (e.popInFlight x) accepted results lost retrying) :
        Crewed ((e.modifyWork x fun w => { w with resultIgnored := true }).popInFlight x) accepted results lost retrying :=
      hpop.of_tasks rfl rfl rfl (List.Subset.refl _) rfl fun y _ =>
        modifyWork_keeps e (f := fun w => { w with resultIgnored := true }) (·.workerId) (fun _ => rfl) x y
    obtain ⟨w, -, hid, -⟩ := h.manned x hcond.1
    split
    · rename_i hnone
      rw [hid] at hnone
      cases hnone
    · rename_i v hid'
      split_ifs with hw
      · have hclear := h.clear hnodup hw.2 hid' (f := fun slot => { slot with currentWorkId := none }) (fun _ => rfl)
          fun _ => ⟨rfl, rfl⟩
        exact hclear.of_tasks rfl rfl rfl (List.Subset.refl _) rfl fun y _ =>
          modifyWork_keeps e (f := fun w => { w with resultIgnored := true }) (·.workerId) (fun _ => rfl) x y
      · exact hignore (hpop fun u hu hboth => hw (Option.some.inj (hid'.symm.trans hu) ▸ hboth))

theorem Crewed.getNowait {rs : List (WorkResult α)} (h : Crewed e accepted (rs ++ results) lost retrying) :
    Crewed (e.getNowait w rs).1 accepted ((e.getNowait w rs).2.flatMap Section.delivers ++ results) lost retrying := by
  unfold Executor.getNowait
  split
  · rwa [Section.flatMap_delivers]
  · rename_i r rest hqueue
    split_ifs with hopen
    · rwa [Section.flatMap_delivers]
    · have hread := h.read (w := w) (i := 0) (r := r) (by rw [hqueue]; rfl) (Bool.eq_false_of_not_eq_true hopen)
      have hsame : (e.modifyProcess w fun p => { p with resultQueue := p.resultQueue.eraseIdx 0 }) =
          e.modifyProcess w fun p => { p with resultQueue := rest } := by
        have hrest : (e.slots w).process.resultQueue.eraseIdx 0 = rest := by
          rw [hqueue]
          rfl
        rw [← hrest]
        rfl
      rw [hsame] at hread
      refine hread.of_perm (List.Perm.subperm ?_) (.refl _) (List.Subset.refl _)
      have hperm : (rs ++ [r] ++ results).Perm (r :: (rs ++ results)) := by
        rw [List.append_assoc]
        exact List.perm_middle
      have hone : [Section.getNowait w (rs ++ [r])].flatMap Section.delivers = rs ++ [r] := List.append_nil _
      change ([Section.getNowait w (rs ++ [r])].flatMap Section.delivers ++ results).Perm _
      rw [hone]
      exact hperm

/-! ## A dispatch cycle -/

theorem DispatchStep.crewed {decided : List WorkId} (h : DispatchStep env decided e e')
    (hc : Crewed e accepted results lost retrying) (htidy : Tidy (e.book accepted held)) (hretrying : retrying ⊆ held)
    (hpool : Pool e lost) : Crewed e' accepted results lost retrying := by
  cases h with
  | refresh h =>
    obtain ⟨_, _, _, hworks, rfl⟩ := h
    exact hc.of_tasks rfl rfl rfl (List.Subset.refl _) rfl fun x _ => (hworks x).workerId
  | fail => exact hc.of_tasks rfl rfl rfl List.erase_subset rfl fun _ _ => rfl
  | @retire w hw hidle =>
    simp only [idle, Bool.and_eq_true, Option.isNone_iff_eq_none] at hidle
    exact hc.retireWorker hidle.1.1
  | spawn pid gpuId => exact hc.spawn hpool pid gpuId
  | drop => exact hc.of_tasks rfl rfl rfl List.erase_subset rfl fun _ _ => rfl
  | @ship id s₁ w gpuId hid _ hw hidle hs =>
    have hstarted : Crewed s₁ accepted results lost retrying ∧ s₁.pending = e.pending ∧ s₁.inFlight = e.inFlight ∧
        s₁.workers = e.workers ∧ s₁.nextWorkerId = e.nextWorkerId ∧ s₁.slots = e.slots := by
      rcases hs with ⟨-, rfl⟩ | ⟨-, -, rfl⟩
      · exact ⟨hc, rfl, rfl, rfl, rfl, rfl⟩
      · refine ⟨hc.of_tasks rfl rfl rfl (List.Subset.refl _) rfl fun x _ => ?_, rfl, rfl, rfl, rfl, rfl⟩
        exact modifyWork_keeps e (f := fun w => { w with runningNotified := true }) (·.workerId) (fun _ => rfl) id x
    obtain ⟨hc, hpending, hflight, hworkers, hnext, hslots⟩ := hstarted
    have hidle' : s₁.idle w = true := by
      rw [idle, hslots]
      exact hidle
    have hplace := htidy.not_mem_flight hid
    rw [← hpending]
    refine hc.ship (hpending ▸ hid) (hpending ▸ htidy.nodup.of_append_left) (fun hf => ?_)
      (htidy.known id (List.mem_append_left _ hid)) (fun hm => ?_) (hworkers ▸ hw) (fun hl => ?_) ?_ hidle'
    · rw [hflight] at hf
      exact hplace (List.mem_append_left _ hf)
    · exact hplace (List.mem_append_right _ (hretrying hm))
    · exact (List.nodup_append.mp hpool.nodup).2.2 w hw w hl rfl
    · rw [hnext]
      exact hpool.spawned w (List.mem_append_left _ hw)

theorem DispatchSteps.crewed {decided : List WorkId} (h : DispatchSteps env decided e e')
    (hc : Crewed e accepted results lost retrying) (hmark : Marked e accepted) (htidy : Tidy (e.book accepted held))
    (hretrying : retrying ⊆ held) (hpool : Pool e lost) : Crewed e' accepted results lost retrying := by
  induction h with
  | refl => exact hc
  | tail hsteps h ih =>
    have htidy' := Ledger.run_tidy (DispatchSteps.moves hsteps hmark htidy).1 htidy
    exact h.crewed ih htidy' hretrying (DispatchSteps.reshapes hsteps hpool).1

/-! ## Sections -/

/-- **A section keeps the crew**, unless it takes a task for lost that is still with the dead worker. -/
theorem run_crewed {m : Section α} {body : List (Section α)} (h : e.run env m = some (e', body))
    (hspares : e.Spares results m) (hmark : Marked e accepted) (htidy : Tidy (e.book accepted (m.owns.toList ++ held)))
    (hpool : Pool e (m.loses.toList ++ lost)) (hretrying : m.retries.toList ++ retrying ⊆ m.owns.toList ++ held)
    (hc : Crewed e accepted (m.delivers ++ results) (m.loses.toList ++ lost) (m.retries.toList ++ retrying)) :
    Crewed e' accepted (body.flatMap Section.delivers ++ results) (body.filterMap Section.loses ++ lost)
      (body.filterMap Section.retries ++ retrying) := by
  have hflight : e.inFlight.Nodup := htidy.nodup.of_append_right.of_append_left
  cases m with
  | maybeDispatch =>
    obtain ⟨hok, rfl⟩ := run_maybeDispatch h
    exact (maybeDispatch_steps htidy.nodup.of_append_left hok).crewed hc hmark htidy hretrying hpool
  | processResult r =>
    rw [run_delivers h fun m hm => by cases hm <;> rfl, run_filterMap Section.loses h fun m hm => by cases hm <;> rfl,
      run_filterMap Section.retries h fun m hm => by cases hm <;> rfl]
    obtain ⟨rfl, -⟩ := run_eq (r := e.processResult r) h
    exact hc.processResult hflight
  | takeLost w =>
    rw [run_delivers h fun m hm => by cases hm <;> rfl, run_filterMap Section.loses h fun m hm => by cases hm <;> rfl]
    obtain ⟨rfl, rfl⟩ := run_eq (r := e.takeLost w) h
    exact hc.takeLost hpool hflight hspares
  | handleTimeout x =>
    rw [run_delivers h fun m hm => by cases hm <;> rfl, run_filterMap Section.loses h fun m hm => by cases hm <;> rfl,
      run_filterMap Section.retries h fun m hm => by cases hm <;> rfl]
    obtain ⟨rfl, -⟩ := run_eq (r := e.handleTimeout x) h
    exact hc.handleTimeout hflight hpool.nodup.of_append_left
  | getNowait w rs =>
    rw [run_filterMap Section.loses h fun m hm => by cases hm <;> rfl,
      run_filterMap Section.retries h fun m hm => by cases hm <;> rfl]
    obtain ⟨rfl, rfl⟩ := run_eq (r := e.getNowait w rs) h
    exact hc.getNowait
  | checkWorkers =>
    rw [run_delivers h fun m hm => by cases hm <;> rfl, run_filterMap Section.retries h fun m hm => by cases hm <;> rfl]
    obtain ⟨rfl, rfl⟩ := run_eq (r := e.checkWorkers) h
    rw [checkWorkers_loses]
    exact hc.checkWorkers htidy hretrying
  | requeue x =>
    obtain ⟨rfl, rfl⟩ := run_eq h
    refine hc.requeue fun hf => ?_
    exact (List.nodup_append.mp htidy.nodup.of_append_right).2.2 x hf x List.mem_cons_self rfl
  | penalizeEstimate x =>
    obtain ⟨rfl, rfl⟩ := run_eq h
    exact hc.of_tasks rfl rfl rfl (List.Subset.refl _) rfl fun y _ => modifyWork_keeps e
      (f := fun w => { w with estimate := penalized w.estimate, exclusive := true }) (·.workerId) (fun _ => rfl) x y
  | escalateKill w =>
    obtain ⟨rfl, rfl⟩ := run_eq h
    have hexit (code : Int) : Crewed (e.modifyProcess w (·.exit code)) accepted results lost retrying :=
      hc.process (.exit code)
    unfold escalateKill
    split
    · exact hexit _
    · exact hexit _
    · exact hc
  | discardQueue w =>
    obtain ⟨rfl, rfl⟩ := run_eq h
    refine hc.modifySlot (f := fun slot => { slot with queueDiscarded := true }) rfl (fun x => ?_) (hc.origin w)
    unfold WorkerSlot.carries WorkerSlot.readable
    exact Nat.add_le_add_left (by simp) _
  | stopAllWorkers =>
    rw [run_delivers h fun m hm => by cases hm <;> rfl, run_filterMap Section.loses h fun m hm => by cases hm <;> rfl,
      run_filterMap Section.retries h fun m hm => by cases hm <;> rfl]
    obtain ⟨rfl, -⟩ := run_eq (r := e.stopAllWorkers) h
    obtain ⟨slots, hslots, hkeeps⟩ := foldl_modifySlot (fun slot : WorkerSlot α =>
      { slot with
        intentionallyStopped := true
        process := { slot.process with workQueue := slot.process.workQueue ++ [none] } }) e.workers e
    rw [Executor.stopAllWorkers, hslots]
    refine hc.of_slots rfl rfl (List.Subset.refl _) rfl (fun _ _ => rfl) (hkeeps (·.currentWorkId) fun _ => rfl)
      (fun x w => ?_) fun w r hr => ?_
    · have hsame := hkeeps (·.carries x w) (fun slot => carries_stop slot x w) w
      exact Nat.add_le_add_right hsame.le _
    · have hsame := hkeeps (·.process.resultQueue) (fun _ => rfl) w
      exact hc.origin w r (hsame ▸ hr)
  | failPendingFutures =>
    obtain ⟨rfl, rfl⟩ := run_eq h
    obtain ⟨futures, hframe⟩ := failPendingFutures_frame e
    rw [hframe]
    exact hc.of_tasks rfl rfl rfl (List.nil_subset _) rfl fun _ _ => rfl
  | sweep | readClock | scanTimeouts | readQueue | testInFlight | finalDrain | settle | record | shutUnstarted | stopAccepting | stopThreads
  | pruneRetiring | leave =>
    rw [run_delivers h fun m hm => by cases hm <;> rfl, run_filterMap Section.loses h fun m hm => by cases hm <;> rfl,
      run_filterMap Section.retries h fun m hm => by cases hm <;> rfl]
    obtain ⟨rfl, -⟩ := run_eq h
    exact hc.of_tasks rfl rfl rfl (List.Subset.refl _) rfl fun _ _ => rfl

end Executor

/-! ## Events -/

namespace System
open Executor (Crewed)
variable {α : Type} {s s' : System α} {e : Event α}

def Crewed (s : System α) : Prop := s.executor.Crewed s.accepted s.delivered s.lost s.retrying

theorem crewed_begin (s : System α) (t : Thread) (body : List (Section α)) {executor : Executor α}
    (h : executor.Crewed s.accepted (body.flatMap Section.delivers ++ s.delivered) s.lost s.retrying)
    (hbody : ∀ m ∈ body, m.loses = none ∧ m.retries = none)
    (hhands : s'.hands = Function.update s.hands t (s.hands t ++ body)) :
    executor.Crewed s.accepted s'.delivered s'.lost s'.retrying := by
  obtain ⟨others, hbefore, hafter⟩ := sections_perm s t
  refine h.of_perm (List.Perm.subperm ?_) (filterMap_begin Section.loses s' (fun m hm => (hbody m hm).1) hhands)
    (filterMap_begin Section.retries s' (fun m hm => (hbody m hm).2) hhands).subset
  have hnew := (hafter s' _ hhands).flatMap_right Section.delivers
  have hold := hbefore.flatMap_right Section.delivers
  rw [List.flatMap_append] at hold
  rw [List.flatMap_append, List.flatMap_append] at hnew
  refine hnew.trans (List.Perm.trans ?_ (hold.symm.append_left _))
  rw [← List.append_assoc]
  exact List.perm_append_comm.append_right _

/-- **An event keeps the crew**, unless it takes a task for lost that is still with the dead worker. -/
theorem Stepped.crewed (h : Stepped s e s') (hspares : ∀ m ∈ s.nextSection e, s.executor.Spares s.delivered m)
    (hs : Sound s) (hpool : s.executor.Pool s.lost) (hc : s.Crewed) : s'.Crewed := by
  unfold Crewed at hc ⊢
  cases h with
  | outside => exact hc.of_tasks rfl rfl rfl (List.Subset.refl _) rfl fun _ _ => rfl
  | @submit id r reading work profiles _ hid =>
    refine hc.of_tasks rfl rfl rfl (List.Subset.refl _) rfl fun x hx => congrArg PendingWork.workerId ?_
    refine Function.update_of_ne ?_ _ _
    rintro rfl
    exact hs.not_flight_of_new hid hx
  | @append id hid => exact hc.append fun h => (List.nodup_append.mp hs.fresh).2.2 id h id hid rfl
  | cancel => exact hc.of_tasks rfl rfl rfl (List.Subset.refl _) rfl fun _ _ => rfl
  | process hp => exact hc.process hp
  | @begin _ t body _ hand hbody =>
    refine crewed_begin s t body ?_ (fun m hm => ⟨Section.loses_of_begins (hbody m hm),
      Section.retries_of_begins (hbody m hm)⟩) (by rw [hand, List.nil_append])
    rwa [List.flatMap_eq_nil_iff.mpr fun m hm => Section.delivers_of_begins (hbody m hm), List.nil_append]
  | @deliver t w i r _ hand hr hopen =>
    refine crewed_begin s t [.processResult r] (hc.read hr hopen) (fun m hm => ?_) (by rw [hand, List.nil_append])
    rw [List.mem_singleton.mp hm]
    exact ⟨rfl, rfl⟩
  | @act t env m rest r hand hrun =>
    generalize hs' : ({ s with
      executor := r.1, hands := Function.update s.hands t (r.2 ++ rest), returned := s.returned || m.returns } : System α) =
        s'
    have hhands : s'.hands = Function.update s.hands t (r.2 ++ rest) := by rw [← hs']
    have hexecutor : s'.executor = r.1 ∧ s'.accepted = s.accepted := by rw [← hs']; exact ⟨rfl, rfl⟩
    obtain ⟨held, hheld, -⟩ := filterMap_act Section.owns s' hand hhands
    obtain ⟨lost, hlost, hlost'⟩ := filterMap_act Section.loses s' hand hhands
    obtain ⟨retrying, hretrying, hretrying'⟩ := filterMap_act Section.retries s' hand hhands
    obtain ⟨results, hresults, hresults'⟩ := flatMap_act Section.delivers s' hand hhands
    have hspares' : s.executor.Spares results m := fun w hw x hx hf => by
      have hzero := hspares m (by simp [nextSection, hand]) w hw x hx hf
      have hcount : s.delivered.countP (WorkResult.isOf x w) = _ := hresults.countP_eq _
      rw [List.countP_append] at hcount
      unfold Executor.copies at hzero ⊢
      omega
    have hrun' := Executor.run_crewed hrun hspares' hs.marked (hs.tidy_of_perm hheld)
      (Reshapes.perm hlost.symm hpool).1 (fun x hx => hheld.subset (s.retrying_subset_held (hretrying.symm.subset hx)))
      (hc.of_perm hresults.symm.subperm hlost.symm hretrying.symm.subset)
    rw [hexecutor.1, hexecutor.2]
    exact hrun'.of_perm hresults'.subperm hlost' hretrying'.subset
  | @shutdown wait =>
    refine crewed_begin s .shutdown (Executor.shutdownSections s.started wait) ?_
      (fun m hm => ⟨shutdownSections_loses _ wait m hm, shutdownSections_retries _ wait m hm⟩) rfl
    rwa [Section.shutdownSections_delivers]
  | @contended t w results rest hand =>
    have hresults := flatMap_contended Section.delivers
      { s with hands := Function.update s.hands t (results.map .processResult ++ rest) }
      (Section.flatMap_delivers results) hand rfl
    exact hc.of_perm hresults.subperm (filterMap_contended Section.loses _ rfl (fun _ => rfl) hand rfl)
      (filterMap_contended Section.retries _ rfl (fun _ => rfl) hand rfl).subset
  | again => exact hc

theorem init_crewed (cfg : Config) (profiles : ProfileStore) : (init cfg profiles : System α).Crewed := by
  have hcopies (x : WorkId) (w : WorkerId) : (init cfg profiles : System α).executor.copies
      (init cfg profiles : System α).delivered x w = 0 := rfl
  refine ⟨fun _ h => (by cases h), fun _ h => (by cases h), fun _ h => (by cases h), fun x w hpos => ?_, fun x w => ?_,
    fun _ _ h => by cases h⟩
  · rw [hcopies] at hpos
    cases hpos
  · rw [hcopies]
    exact Nat.zero_le _

end System

end AdaptiveExecutor
