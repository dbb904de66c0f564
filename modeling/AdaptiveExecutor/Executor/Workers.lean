import Mathlib.Data.List.ReduceOption
import AdaptiveExecutor.Executor.Places

/-!
# What the parent believes of its workers

A worker of the pool has at most one item for which it has not yet put a result, its `current_work_id`, in flight, as
long as no task leaves flight while its worker is still at it. Two sections can take it away so: the timeout that
leaves the worker running, and the result of an earlier attempt.

* `Accurate` : the parent's view is right; `Finished`, `Calm` : the condition on a section;
* `Tracked` : the invariant; `Tracked.mono`, and a lemma for each change that it does not cover;
* `DispatchStep.tracked`, `run_tracked` : the small steps of a cycle, and the calm sections, keep it.
-/

namespace AdaptiveExecutor
open Ledger (Future Tidy)
open Relation (ReflTransGen)

/-! ## What is in hand -/

namespace Section
variable {α : Type}

def delivers : Section α → List (WorkResult α)
  | .getNowait _ results => results
  | .processResult r => [r]
  | _ => []

/-- The task that a section takes out of flight without stopping its worker. -/
def pops (onTimeout : OnTimeout) : Section α → Option WorkId
  | .processResult r => some r.id
  | .handleTimeout x => if onTimeout = .failFuture then some x else none
  | _ => none

theorem delivers_of_begins {m : Section α} (h : m.begins = true) : m.delivers = [] := by
  cases m <;> first | rfl | cases h

theorem flatMap_delivers (rs : List (WorkResult α)) : (rs.map Section.processResult).flatMap Section.delivers = rs := by
  induction rs with
  | nil => rfl
  | cons r rs ih => exact congrArg (r :: ·) ih

theorem shutdownSections_delivers (started wait : Bool) :
    (Executor.shutdownSections started wait : List (Section α)).flatMap delivers = [] := by
  cases started <;> cases wait <;> rfl

end Section

/-! ## Processes -/

namespace WorkerProcess
variable {α : Type} (p : WorkerProcess α)

@[simp] theorem unfinished_exit (code : Int) : (p.exit code).unfinished = p.unfinished := by
  unfold exit
  split_ifs <;> rfl

@[simp] theorem resultQueue_exit (code : Int) : (p.exit code).resultQueue = p.resultQueue := by
  unfold exit
  split_ifs <;> rfl

theorem unfinished_sentinel :
    ({ p with workQueue := p.workQueue ++ [none] } : WorkerProcess α).unfinished = p.unfinished := by
  simp [unfinished, List.reduceOption_append]

theorem unfinished_ship (item : WorkItem) :
    ({ p with workQueue := p.workQueue ++ [some item] } : WorkerProcess α).unfinished = p.unfinished ++ [item.id] := by
  simp [unfinished, List.reduceOption_append, List.reduceOption_cons_of_some]

end WorkerProcess

namespace Executor
variable {α : Type} {env : Env} {e e' : Executor α}

/-! ## The view of the parent -/

/-- The items shipped to a worker for which it has not yet put a result. -/
def unfinished (e : Executor α) (w : WorkerId) : List WorkId := (e.slots w).process.unfinished

/-- A worker of the pool has at most one unfinished item, its current one, in flight. -/
structure Accurate (e : Executor α) : Prop where
  one : ∀ w ∈ e.workers, (e.unfinished w).length ≤ 1
  current : ∀ w ∈ e.workers, ∀ x ∈ e.unfinished w, (e.slots w).currentWorkId = some x ∧ x ∈ e.inFlight

/-- The worker to which the task has been shipped has put its result, or has left the pool. -/
def Finished (e : Executor α) (x : WorkId) : Prop :=
  ∀ w ∈ e.workers, (e.works x).workerId = some w → x ∉ e.unfinished w

/-- A section that takes a task out of flight, and leaves the worker in the pool, finds it finished there. -/
def Calm (e : Executor α) (m : Section α) : Prop := ∀ x ∈ m.pops e.cfg.onTimeout, x ∈ e.inFlight → e.Finished x

instance (e : Executor α) (x : WorkId) : Decidable (e.Finished x) :=
  inferInstanceAs (Decidable (∀ w ∈ e.workers, (e.works x).workerId = some w → x ∉ e.unfinished w))

instance (e : Executor α) (m : Section α) : Decidable (e.Calm m) :=
  inferInstanceAs (Decidable (∀ x ∈ m.pops e.cfg.onTimeout, x ∈ e.inFlight → e.Finished x))

/-! ## The invariant -/

/-- If the task is in flight, then it is on that worker, and it is not on its way to another one. -/
structure Bound (e : Executor α) (accepted retrying : List WorkId) (x : WorkId) (w : WorkerId) : Prop where
  accepted : x ∈ accepted
  pending : x ∉ e.pending
  retrying : x ∉ retrying
  flight : x ∈ e.inFlight → (e.works x).workerId = some w

/-- A result in hand, or in the queue of a worker. -/
def Live (e : Executor α) (results : List (WorkResult α)) (r : WorkResult α) : Prop :=
  r ∈ results ∨ ∃ w, r ∈ (e.slots w).process.resultQueue

/-- The parent's view is right, and will be. In hand are `results`, the dead workers `lost` whose task has not been
taken yet, and the tasks `retrying` on their way back to the queue. -/
structure Tracked (e : Executor α) (accepted : List WorkId) (results : List (WorkResult α)) (lost : List WorkerId)
    (retrying : List WorkId) : Prop where
  accurate : e.Accurate
  current : ∀ w, w ∈ e.workers ∨ w ∈ lost → ∀ x, (e.slots w).currentWorkId = some x → e.Bound accepted retrying x w
  result : ∀ r, e.Live results r → r.workerId ∈ e.workers →
    e.Bound accepted retrying r.id r.workerId ∧ r.id ∉ e.unfinished r.workerId
  spawned : ∀ w, e.unfinished w ≠ [] → w < e.nextWorkerId
  sent : ∀ r, e.Live results r → r.workerId < e.nextWorkerId

def Free (e : Executor α) (w : WorkerId) : Prop := (e.slots w).currentWorkId = none ∧ e.unfinished w = []

section Tracked
variable {accepted accepted' retrying retrying' : List WorkId} {results results' : List (WorkResult α)}
  {lost lost' : List WorkerId}

theorem Bound.mono {x : WorkId} {w : WorkerId} (h : e.Bound accepted retrying x w) (haccepted : accepted ⊆ accepted')
    (hretrying : retrying' ⊆ retrying) (hpending : e'.pending ⊆ e.pending) (hflight : e'.inFlight ⊆ e.inFlight)
    (hworks : ∀ x ∈ e'.inFlight, (e'.works x).workerId = (e.works x).workerId) : e'.Bound accepted' retrying' x w :=
  ⟨haccepted h.accepted, fun hm => h.pending (hpending hm), fun hm => h.retrying (hretrying hm),
    fun hm => (hworks x hm).trans (h.flight (hflight hm))⟩

theorem Tracked.workerId (h : Tracked e accepted results lost retrying) {w : WorkerId} (hw : w ∈ e.workers) {x : WorkId}
    (hx : x ∈ e.unfinished w) : x ∈ e.inFlight ∧ (e.works x).workerId = some w := by
  obtain ⟨hcur, hflight⟩ := h.accurate.current w hw x hx
  exact ⟨hflight, (h.current w (.inl hw) x hcur).flight hflight⟩

theorem Tracked.unfinished_eq_nil (h : Tracked e accepted results lost retrying) {w : WorkerId} (hw : w ∈ e.workers)
    {o : Option WorkId} (hcur : (e.slots w).currentWorkId = o) (ho : ∀ x, o = some x → x ∉ e.unfinished w) :
    e.unfinished w = [] :=
  List.eq_nil_iff_forall_not_mem.mpr fun x hx =>
    ho x (hcur.symm.trans (h.accurate.current w hw x hx).1) hx

/-- Tasks, results and workers only leave, and the workers that stay have the task that they had or none. -/
theorem Tracked.mono (h : Tracked e accepted results lost retrying)
    (hunfinished : ∀ w, (e'.unfinished w).Sublist (e.unfinished w))
    (hpool : ∀ w ∈ e'.workers, w ∈ e.workers ∧ (e'.slots w).currentWorkId = (e.slots w).currentWorkId ∨
      (w ∈ e.workers ∨ e.nextWorkerId ≤ w) ∧ e'.Free w)
    (hlost : ∀ w ∈ lost', (w ∈ e.workers ∨ w ∈ lost) ∧ ((e'.slots w).currentWorkId = (e.slots w).currentWorkId ∨
      (e'.slots w).currentWorkId = none))
    (hlive : ∀ r, e'.Live results' r → e.Live results r) (hnext : e.nextWorkerId ≤ e'.nextWorkerId)
    (haccepted : accepted ⊆ accepted') (hretrying : retrying' ⊆ retrying) (hpending : e'.pending ⊆ e.pending)
    (hflight : e'.inFlight ⊆ e.inFlight)
    (hstay : ∀ w ∈ e'.workers, ∀ x ∈ e'.unfinished w, x ∈ e.inFlight → x ∈ e'.inFlight)
    (hworks : ∀ x ∈ e'.inFlight, (e'.works x).workerId = (e.works x).workerId) :
    Tracked e' accepted' results' lost' retrying' := by
  refine ⟨⟨fun w hw => ?_, fun w hw x hx => ?_⟩, fun w hw x hx => ?_, fun r hr hw => ?_, fun w hw => ?_, fun r hr => ?_⟩
  · rcases hpool w hw with ⟨hw, -⟩ | ⟨-, -, hnone⟩
    · exact (hunfinished w).length_le.trans (h.accurate.one w hw)
    · simp [hnone]
  · rcases hpool w hw with ⟨hold, hcur⟩ | ⟨-, -, hnone⟩
    · obtain ⟨hcur', hf⟩ := h.accurate.current w hold x ((hunfinished w).subset hx)
      exact ⟨hcur.trans hcur', hstay w hw x hx hf⟩
    · rw [hnone] at hx
      cases hx
  · refine Bound.mono (h.current w ?_ x ?_) haccepted hretrying hpending hflight hworks
    · rcases hw with hw | hw
      · rcases hpool w hw with ⟨hold, -⟩ | ⟨-, hnone, -⟩
        · exact .inl hold
        · rw [hnone] at hx
          cases hx
      · exact (hlost w hw).1
    · rcases hw with hw | hw
      · rcases hpool w hw with ⟨-, hcur⟩ | ⟨-, hnone, -⟩
        · exact hcur ▸ hx
        · rw [hnone] at hx
          cases hx
      · rcases (hlost w hw).2 with hcur | hnone
        · exact hcur ▸ hx
        · rw [hnone] at hx
          cases hx
  · have hold : r.workerId ∈ e.workers := by
      rcases hpool _ hw with ⟨hold, -⟩ | ⟨hold, -⟩
      · exact hold
      · exact hold.resolve_right (not_le.mpr (h.sent r (hlive r hr)))
    obtain ⟨hbound, hgone⟩ := h.result r (hlive r hr) hold
    exact ⟨hbound.mono haccepted hretrying hpending hflight hworks, fun hx => hgone ((hunfinished _).subset hx)⟩
  · refine lt_of_lt_of_le (h.spawned w fun hnone => hw ?_) hnext
    exact List.sublist_nil.mp (hnone ▸ hunfinished w)
  · exact lt_of_lt_of_le (h.sent r (hlive r hr)) hnext

theorem Tracked.of_subset (h : Tracked e accepted results lost retrying) (hresults : results' ⊆ results)
    (hlost : lost' ⊆ lost) (hretrying : retrying' ⊆ retrying) : Tracked e accepted results' lost' retrying' :=
  h.mono (fun _ => .refl _) (fun _ hw => .inl ⟨hw, rfl⟩) (fun _ hw => ⟨.inr (hlost hw), .inl rfl⟩)
    (fun _ hr => hr.imp_left fun hr => hresults hr) le_rfl (List.Subset.refl _) hretrying (List.Subset.refl _)
    (List.Subset.refl _) (fun _ _ _ _ hx => hx) fun _ _ => rfl

theorem Tracked.of_slots {slots : WorkerId → WorkerSlot α} (h : Tracked e accepted results lost retrying)
    (hcur : ∀ w, (slots w).currentWorkId = (e.slots w).currentWorkId)
    (hunfinished : ∀ w, (slots w).process.unfinished.Sublist (e.slots w).process.unfinished)
    (hlive : ∀ r, ({ e with slots := slots } : Executor α).Live results' r → e.Live results r) :
    Tracked { e with slots := slots } accepted results' lost retrying :=
  h.mono hunfinished (fun w hw => .inl ⟨hw, hcur w⟩)
    (fun w hw => ⟨.inr hw, .inl (hcur w)⟩) hlive le_rfl (List.Subset.refl _) (List.Subset.refl _) (List.Subset.refl _)
    (List.Subset.refl _) (fun _ _ _ _ hx => hx) fun _ _ => rfl

theorem Tracked.modifyProcess (h : Tracked e accepted results lost retrying) {w : WorkerId}
    {f : WorkerProcess α → WorkerProcess α} (hunfinished : (f (e.slots w).process).unfinished.Sublist (e.unfinished w))
    (hqueue : ∀ r ∈ (f (e.slots w).process).resultQueue, e.Live results r) (hresults : ∀ r ∈ results', e.Live results r) :
    Tracked (e.modifyProcess w f) accepted results' lost retrying := by
  have hprocess (v : WorkerId) : ((e.modifyProcess w f).slots v).process =
      if v = w then f (e.slots w).process else (e.slots v).process := by
    rw [Executor.modifyProcess, modifySlot_slots]
    split_ifs <;> rfl
  refine h.of_slots (fun v => ?_) (fun v => ?_) fun r hr => ?_
  · exact modifySlot_keeps e (f := fun slot => { slot with process := f slot.process }) (·.currentWorkId) (fun _ => rfl) w v
  · refine (congrArg WorkerProcess.unfinished (hprocess v)).symm ▸ ?_
    split_ifs with hv
    · exact hv ▸ hunfinished
    · exact .refl _
  · rcases hr with hr | ⟨v, hr⟩
    · exact hresults r hr
    · have hr : r ∈ ((e.modifyProcess w f).slots v).process.resultQueue := hr
      rw [hprocess] at hr
      split_ifs at hr
      · exact hqueue r hr
      · exact .inr ⟨v, hr⟩

theorem Tracked.of_tasks (h : Tracked e accepted results lost retrying) (hslots : e'.slots = e.slots)
    (hworkers : e'.workers = e.workers) (hnext : e'.nextWorkerId = e.nextWorkerId) (hpending : e'.pending ⊆ e.pending)
    (hflight : e'.inFlight = e.inFlight)
    (hworks : ∀ x ∈ e.inFlight, (e'.works x).workerId = (e.works x).workerId) :
    Tracked e' accepted results lost retrying := by
  refine h.mono (fun w => by rw [unfinished, unfinished, hslots]) (fun w hw => .inl ⟨hworkers ▸ hw, ?_⟩)
    (fun w hw => ⟨.inr hw, .inl (by rw [hslots])⟩) (fun r hr => ?_) hnext.ge (List.Subset.refl _) (List.Subset.refl _)
    hpending (hflight ▸ List.Subset.refl _) (fun _ _ _ _ hx => hflight ▸ hx) fun x hx => hworks x (hflight ▸ hx)
  · rw [hslots]
  · unfold Live at hr
    rwa [hslots] at hr

theorem Tracked.pop (h : Tracked e accepted results lost retrying) {x : WorkId} (hx : x ∈ e.inFlight → e.Finished x) :
    Tracked (e.popInFlight x) accepted results lost retrying := by
  refine h.mono (fun _ => .refl _) (fun _ hw => .inl ⟨hw, rfl⟩) (fun _ hw => ⟨.inr hw, .inl rfl⟩) (fun _ hr => hr) le_rfl
    (List.Subset.refl _) (List.Subset.refl _) (List.Subset.refl _) List.erase_subset (fun w hw y hy hf => ?_)
    fun _ _ => rfl
  refine (List.mem_erase_of_ne ?_).mpr hf
  rintro rfl
  exact hx hf w hw (h.workerId hw hy).2 hy

theorem Tracked.clear (h : Tracked e accepted results lost retrying) {w : WorkerId} (hw : w ∈ e.workers)
    (hnone : e.unfinished w = []) {f : WorkerSlot α → WorkerSlot α} (hcur : ∀ slot, (f slot).currentWorkId = none)
    (hprocess : ∀ slot, (f slot).process = slot.process) :
    Tracked (e.modifySlot w f) accepted results lost retrying := by
  have hprocess' := modifySlot_keeps e (·.process) hprocess w
  have hunfinished (v : WorkerId) : (e.modifySlot w f).unfinished v = e.unfinished v := by
    rw [unfinished, hprocess' v, unfinished]
  have hcur' (v : WorkerId) : v ≠ w → ((e.modifySlot w f).slots v).currentWorkId = (e.slots v).currentWorkId := fun hv => by
    rw [modifySlot_slots, if_neg hv]
  have hself : ((e.modifySlot w f).slots w).currentWorkId = none := by rw [modifySlot_slots, if_pos rfl, hcur]
  refine h.mono (fun v => hunfinished v ▸ .refl _) (fun v hv => ?_) (fun v hv => ⟨.inr hv, ?_⟩) (fun r hr => ?_) le_rfl
    (List.Subset.refl _) (List.Subset.refl _) (List.Subset.refl _) (List.Subset.refl _) (fun _ _ _ _ hx => hx)
    fun _ _ => rfl
  · by_cases hvw : v = w
    · subst hvw
      exact .inr ⟨.inl hw, hself, (hunfinished v).trans hnone⟩
    · exact .inl ⟨hv, hcur' v hvw⟩
  · by_cases hvw : v = w
    · exact .inr (hvw ▸ hself)
    · exact .inl (hcur' v hvw)
  · exact hr.imp_right (Exists.imp fun v hr => hprocess' v ▸ hr)

theorem Tracked.evict (h : Tracked e accepted results lost retrying) (hnodup : e.workers.Nodup) {w : WorkerId}
    {f : WorkerSlot α → WorkerSlot α}
    (hcur : ∀ slot, (f slot).currentWorkId = slot.currentWorkId ∨ (f slot).currentWorkId = none)
    (hunfinished : ∀ slot, (f slot).process.unfinished = slot.process.unfinished)
    (hqueue : ∀ slot, (f slot).process.resultQueue = slot.process.resultQueue) :
    Tracked ((e.modifySlot w f).evict w) accepted results lost retrying := by
  have hkeeps := modifySlot_keeps e (·.process.unfinished) hunfinished w
  have hslots (v : WorkerId) : ((e.modifySlot w f).evict w).slots v = if v = w then f (e.slots w) else e.slots v :=
    modifySlot_slots e w f v
  refine h.mono (fun v => ?_) (fun v hv => .inl ⟨List.erase_subset hv, ?_⟩) (fun v hv => ⟨.inr hv, ?_⟩) (fun r hr => ?_)
    le_rfl (List.Subset.refl _) (List.Subset.refl _) (List.Subset.refl _) (List.Subset.refl _) (fun _ _ _ _ hx => hx)
    fun _ _ => rfl
  · change ((e.modifySlot w f).slots v).process.unfinished.Sublist (e.unfinished v)
    rw [hkeeps v]
    exact .refl _
  · rw [hslots, if_neg]
    rintro rfl
    exact hnodup.not_mem_erase hv
  · rw [hslots]
    split_ifs with hvw
    · exact hvw ▸ hcur _
    · exact .inl rfl
  · exact hr.imp_right (Exists.imp fun v hr => (modifySlot_keeps e (·.process.resultQueue) hqueue w v).symm ▸ hr)

theorem Tracked.send (h : Tracked e accepted results lost retrying) {r : WorkResult α}
    (hsent : r.workerId < e.nextWorkerId) (hr : r.workerId ∈ e.workers →
      e.Bound accepted retrying r.id r.workerId ∧ r.id ∉ e.unfinished r.workerId) :
    Tracked e accepted (r :: results) lost retrying := by
  have hcases {r' : WorkResult α} (hr' : e.Live (r :: results) r') : r' = r ∨ e.Live results r' := by
    rcases hr' with hr' | hr'
    · exact (List.mem_cons.mp hr').imp_right .inl
    · exact .inr (.inr hr')
  refine ⟨h.accurate, h.current, fun r' hr' => ?_, h.spawned, fun r' hr' => ?_⟩
  · rcases hcases hr' with rfl | hr'
    exacts [hr, h.result r' hr']
  · rcases hcases hr' with rfl | hr'
    exacts [hsent, h.sent r' hr']

theorem Tracked.put (h : Tracked e accepted results lost retrying) {w : WorkerId} {item : WorkItem} {r : WorkResult α}
    (hitem : (e.slots w).process.executing = some item) (hid : r.id = item.id) (hw : r.workerId = w) :
    Tracked (e.modifyProcess w fun p => { p with executing := none, resultQueue := p.resultQueue ++ [r] }) accepted
      results lost retrying := by
  subst hw
  have hunfinished : e.unfinished r.workerId =
      r.id :: (e.slots r.workerId).process.workQueue.reduceOption.map WorkItem.id := by
    simp [unfinished, WorkerProcess.unfinished, hitem, hid]
  -- first the item is done, and then its result is sent
  have hdone : Tracked (e.modifyProcess r.workerId fun p => { p with executing := none }) accepted results lost
      retrying := by
    refine h.modifyProcess ?_ (fun r' hr' => .inr ⟨r.workerId, hr'⟩) fun _ => .inl
    rw [hunfinished]
    exact List.sublist_cons_self _ _
  have hslots (v : WorkerId) : ((e.modifyProcess r.workerId fun p => { p with executing := none }).slots v) =
      if v = r.workerId then { e.slots r.workerId with process := { (e.slots r.workerId).process with executing := none } }
      else e.slots v := modifySlot_slots e _ _ v
  have hnone : r.workerId ∈ e.workers → (e.modifyProcess r.workerId fun p => { p with executing := none }).unfinished
      r.workerId = [] := fun hw => by
    have hone := h.accurate.one _ hw
    rw [hunfinished, List.length_cons] at hone
    have hnil : (e.slots r.workerId).process.workQueue.reduceOption.map WorkItem.id = [] :=
      List.length_eq_zero_iff.mp (by omega)
    rw [unfinished, hslots, if_pos rfl]
    exact hnil
  have hsent := hdone.send (r := r) (h.spawned _ (by rw [hunfinished]; exact List.cons_ne_nil _ _)) fun hw => by
    obtain ⟨hcur, -⟩ := h.accurate.current _ hw r.id (by rw [hunfinished]; exact List.mem_cons_self)
    refine ⟨(h.current _ (.inl hw) _ hcur).mono (List.Subset.refl _) (List.Subset.refl _) (List.Subset.refl _)
      (List.Subset.refl _) fun _ _ => rfl, ?_⟩
    rw [hnone hw]
    exact List.not_mem_nil
  have hput : Tracked _ accepted results lost retrying := hsent.modifyProcess (w := r.workerId)
    (f := fun p => { p with resultQueue := p.resultQueue ++ [r] })
    (.refl _) (fun r' hr' => ?_) fun r' hr' => .inl (List.mem_cons_of_mem _ hr')
  · have hsame : ∀ f g : WorkerProcess α → WorkerProcess α, (e.modifyProcess r.workerId f).modifyProcess r.workerId g =
        e.modifyProcess r.workerId (g ∘ f) := fun f g => by
      simp [Executor.modifyProcess, modifySlot]
    rwa [hsame] at hput
  · rcases List.mem_append.mp hr' with hr' | hr'
    · exact .inr ⟨r.workerId, hr'⟩
    · exact .inl (List.mem_singleton.mp hr' ▸ List.mem_cons_self)

theorem Tracked.append (h : Tracked e accepted results lost retrying) {x : WorkId} (hx : x ∉ accepted) :
    Tracked { e with pending := e.pending ++ [x] } (accepted ++ [x]) results lost retrying := by
  have hbound : ∀ y w, e.Bound accepted retrying y w →
      Bound { e with pending := e.pending ++ [x] } (accepted ++ [x]) retrying y w := fun y w hb => by
    refine ⟨List.mem_append_left _ hb.accepted, fun hm => ?_, hb.retrying, hb.flight⟩
    rcases List.mem_append.mp hm with hm | hm
    · exact hb.pending hm
    · exact hx (List.mem_singleton.mp hm ▸ hb.accepted)
  exact ⟨⟨h.accurate.one, h.accurate.current⟩, fun w hw y hy => hbound y w (h.current w hw y hy),
    fun r hr hw => (h.result r hr hw).imp_left (hbound _ _), h.spawned, h.sent⟩

theorem Tracked.retry (h : Tracked e accepted results lost retrying) {x : WorkId}
    (hx : ∀ w, w ∈ e.workers ∨ w ∈ lost → ¬ e.Bound accepted retrying x w) :
    Tracked e accepted results lost (x :: retrying) := by
  have hbound : ∀ y w, w ∈ e.workers ∨ w ∈ lost → e.Bound accepted retrying y w → e.Bound accepted (x :: retrying) y w :=
    fun y w hw hb => ⟨hb.accepted, hb.pending, fun hm => by
      rcases List.mem_cons.mp hm with rfl | hm
      exacts [hx w hw hb, hb.retrying hm], hb.flight⟩
  exact ⟨h.accurate, fun w hw y hy => hbound y w hw (h.current w hw y hy),
    fun r hr hw => (h.result r hr hw).imp_left (hbound _ _ (.inl hw)), h.spawned, h.sent⟩

theorem Tracked.requeue {x : WorkId} (h : Tracked e accepted results lost (x :: retrying)) (hx : x ∉ e.inFlight) :
    Tracked (e.requeue x) accepted results lost retrying := by
  have hworks : ∀ y ∈ e.inFlight, ((e.requeue x).works y).workerId = (e.works y).workerId := fun y hy => by
    refine congrArg PendingWork.workerId (Function.update_of_ne ?_ _ _)
    rintro rfl
    exact hx hy
  have hbound : ∀ y w, e.Bound accepted (x :: retrying) y w → (e.requeue x).Bound accepted retrying y w := fun y w hb => by
    obtain ⟨hyx, hr⟩ := not_or.mp (mt List.mem_cons.mpr hb.retrying)
    exact ⟨hb.accepted, fun hm => (List.mem_cons.mp hm).elim hyx hb.pending, hr,
      fun hm => (hworks y hm).trans (hb.flight hm)⟩
  exact ⟨⟨h.accurate.one, h.accurate.current⟩, fun w hw y hy => hbound y w (h.current w hw y hy),
    fun r hr hw => (h.result r hr hw).imp_left (hbound _ _), h.spawned, h.sent⟩

/-! ## A dispatch cycle -/

theorem Tracked.ship (h : Tracked e accepted results lost retrying) {id : WorkId} {gpuId : Option GpuId} {w : WorkerId}
    (hid : id ∈ e.pending) (hnodup : e.pending.Nodup) (haccepted : id ∈ accepted) (hretrying : id ∉ retrying)
    (hw : w ∈ e.workers) (hspawned : w < e.nextWorkerId) (hidle : e.idle w = true) :
    Tracked { e.ship env id gpuId w with pending := e.pending.erase id } accepted results lost retrying := by
  obtain ⟨item, hitem, hslots⟩ := ship_slots env e id gpuId w
  have hnone : (e.slots w).currentWorkId = none := by
    simp only [idle, Bool.and_eq_true, Option.isNone_iff_eq_none] at hidle
    exact hidle.1.1
  have hnil := h.unfinished_eq_nil hw hnone fun _ hx => by cases hx
  generalize he : ({ e.ship env id gpuId w with pending := e.pending.erase id } : Executor α) = e'
  have hpending : e'.pending = e.pending.erase id := by rw [← he]
  have hworkers : e'.workers = e.workers ∧ e'.nextWorkerId = e.nextWorkerId := by rw [← he]; exact ⟨rfl, rfl⟩
  have hflight (x : WorkId) : x ∈ e'.inFlight ↔ x ∈ e.inFlight ∨ x = id := by rw [← he]; exact mem_insertKey
  have hworks (x : WorkId) : (e'.works x).workerId = if x = id then some w else (e.works x).workerId := by
    have hmodify := modifyWork_works e id (fun work => captureBaseline env e.clock (e.slots w).process.pid gpuId
      { work with assignedGpuId := gpuId, workerId := some w, startedAt := some e.clock }) x
    rw [← he]
    refine (congrArg PendingWork.workerId hmodify).trans ?_
    split_ifs <;> rfl
  have hslots (v : WorkerId) : e'.slots v = if v = w then
      { e.slots w with
        currentWorkId := some id
        process := { (e.slots w).process with workQueue := (e.slots w).process.workQueue ++ [some item] } }
      else e.slots v := by rw [← he]; exact hslots v
  have hunfinished (v : WorkerId) : e'.unfinished v = if v = w then [id] else e.unfinished v := by
    rw [unfinished, hslots]
    split_ifs
    · have hship := (e.slots w).process.unfinished_ship item
      rw [show (e.slots w).process.unfinished = [] from hnil, hitem] at hship
      exact hship
    · rfl
  have hlive (r : WorkResult α) (hr : e'.Live results r) : e.Live results r := by
    refine hr.imp_right (Exists.imp fun v hr => ?_)
    rw [hslots] at hr
    split_ifs at hr with hv
    exacts [hv ▸ hr, hr]
  -- nobody else has the task, since it was queued
  have hbound (x : WorkId) (v : WorkerId) (hb : e.Bound accepted retrying x v) : e'.Bound accepted retrying x v := by
    have hx : x ≠ id := by
      rintro rfl
      exact hb.pending hid
    refine ⟨hb.accepted, fun hm => hb.pending (List.erase_subset (hpending ▸ hm)), hb.retrying, fun hm => ?_⟩
    rw [hworks, if_neg hx]
    exact hb.flight (((hflight x).mp hm).resolve_right hx)
  refine ⟨⟨fun v hv => ?_, fun v hv x hx => ?_⟩, fun v hv x hx => ?_, fun r hr hv => ?_, fun v hv => ?_, fun r hr => ?_⟩
  · rw [hunfinished]
    split_ifs
    exacts [le_rfl, h.accurate.one v (hworkers.1 ▸ hv)]
  · rw [hunfinished] at hx
    rw [hslots, hflight]
    split_ifs at hx ⊢
    · exact ⟨congrArg some (List.mem_singleton.mp hx).symm, .inr (List.mem_singleton.mp hx)⟩
    · exact (h.accurate.current v (hworkers.1 ▸ hv) x hx).imp_right .inl
  · rw [hslots] at hx
    split_ifs at hx with hvw
    · obtain rfl := Option.some.inj hx
      refine ⟨haccepted, hpending ▸ hnodup.not_mem_erase, hretrying, fun _ => ?_⟩
      rw [hworks, if_pos rfl, hvw]
    · exact hbound x v (h.current v (hworkers.1 ▸ hv) x hx)
  · obtain ⟨hb, hgone⟩ := h.result r (hlive r hr) (hworkers.1 ▸ hv)
    refine ⟨hbound _ _ hb, fun hx => ?_⟩
    rw [hunfinished] at hx
    split_ifs at hx
    · exact hb.pending (List.mem_singleton.mp hx ▸ hid)
    · exact hgone hx
  · rw [hunfinished] at hv
    rw [hworkers.2]
    split_ifs at hv with hvw
    · exact hvw ▸ hspawned
    · exact h.spawned v hv
  · rw [hworkers.2]
    exact h.sent r (hlive r hr)

theorem Tracked.retireWorker (h : Tracked e accepted results lost retrying) (hnodup : e.workers.Nodup) (w : WorkerId) :
    Tracked (e.retireWorker w) accepted results lost retrying :=
  h.evict hnodup (fun _ => .inl rfl) (fun slot => slot.process.unfinished_sentinel) fun _ => rfl

theorem Tracked.spawn (h : Tracked e accepted results lost retrying) (pid : Int) (gpuId : Option GpuId) :
    Tracked (e.spawned pid gpuId) accepted results lost retrying := by
  have hslots (v : WorkerId) : (e.spawned pid gpuId).slots v =
      if v = e.nextWorkerId then { process := { pid := pid }, pinnedGpuId := gpuId } else e.slots v :=
    Function.update_apply _ _ _ _
  refine h.mono (fun v => ?_) (fun v hv => ?_) (fun v hv => ⟨.inr hv, ?_⟩) (fun r hr => hr.imp_right (Exists.imp fun v hr => ?_))
    (Nat.le_succ _) (List.Subset.refl _) (List.Subset.refl _) (List.Subset.refl _) (List.Subset.refl _)
    (fun _ _ _ _ hx => hx) fun _ _ => rfl
  · rw [unfinished, hslots]
    split_ifs
    exacts [List.nil_sublist _, .refl _]
  · by_cases hnew : v = e.nextWorkerId
    · refine .inr ⟨.inr hnew.ge, ?_⟩
      rw [Free, unfinished, hslots, if_pos hnew]
      exact ⟨rfl, rfl⟩
    · rw [hslots, if_neg hnew]
      exact .inl ⟨(mem_insertKey.mp hv).resolve_right hnew, rfl⟩
  · rw [hslots]
    split_ifs
    exacts [.inr rfl, .inl rfl]
  · rw [hslots] at hr
    split_ifs at hr
    exacts [absurd hr List.not_mem_nil, hr]

theorem DispatchStep.tracked {decided held : List WorkId} (h : DispatchStep env decided e e')
    (ht : Tracked e accepted results lost retrying) (htidy : Tidy (e.book accepted held)) (hretrying : retrying ⊆ held)
    (hpool : Pool e lost) : Tracked e' accepted results lost retrying := by
  cases h with
  | refresh h =>
    obtain ⟨_, _, _, hworks, rfl⟩ := h
    exact ht.of_tasks rfl rfl rfl (List.Subset.refl _) rfl fun x _ => (hworks x).workerId
  | fail => exact ht.of_tasks rfl rfl rfl List.erase_subset rfl fun _ _ => rfl
  | retire => exact ht.retireWorker hpool.nodup.of_append_left _
  | spawn pid gpuId => exact ht.spawn pid gpuId
  | drop => exact ht.of_tasks rfl rfl rfl List.erase_subset rfl fun _ _ => rfl
  | @ship id s₁ w gpuId hid _ hw hidle hs =>
    have hstarted : Tracked s₁ accepted results lost retrying ∧ s₁.pending = e.pending ∧ s₁.workers = e.workers ∧
        s₁.nextWorkerId = e.nextWorkerId ∧ s₁.slots = e.slots := by
      rcases hs with ⟨-, rfl⟩ | ⟨-, -, rfl⟩
      · exact ⟨ht, rfl, rfl, rfl, rfl⟩
      · refine ⟨ht.of_tasks rfl rfl rfl (List.Subset.refl _) rfl fun x _ => ?_, rfl, rfl, rfl, rfl⟩
        exact modifyWork_keeps e (f := fun w => { w with runningNotified := true }) (·.workerId) (fun _ => rfl) id x
    obtain ⟨ht, hpending, hworkers, hnext, hslots⟩ := hstarted
    have hidle' : s₁.idle w = true := by
      rw [idle, hslots]
      exact hidle
    rw [← hpending]
    refine ht.ship (hpending ▸ hid) (hpending ▸ htidy.nodup.of_append_left)
      (htidy.known id (List.mem_append_left _ hid)) (fun hm => ?_) (hworkers ▸ hw) ?_ hidle'
    · exact htidy.not_mem_flight hid (List.mem_append_right _ (hretrying hm))
    · rw [hnext]
      exact hpool.spawned w (List.mem_append_left _ hw)

theorem DispatchSteps.tracked {decided held : List WorkId} (h : DispatchSteps env decided e e')
    (ht : Tracked e accepted results lost retrying) (hmark : Marked e accepted) (htidy : Tidy (e.book accepted held))
    (hretrying : retrying ⊆ held) (hpool : Pool e lost) : Tracked e' accepted results lost retrying := by
  induction h with
  | refl => exact ht
  | tail hsteps h ih =>
    have htidy' := Ledger.run_tidy (DispatchSteps.moves hsteps hmark htidy).1 htidy
    exact h.tracked ih htidy' hretrying (DispatchSteps.reshapes hsteps hpool).1

/-! ## Sections -/

theorem Tracked.clearWorker (h : Tracked e accepted results lost retrying) (hnodup : e.workers.Nodup) {r : WorkResult α}
    (hr : e.Live results r) : Tracked (e.clearWorker r) accepted results lost retrying := by
  unfold Executor.clearWorker
  split_ifs with hw
  · obtain ⟨hw, hcur⟩ := hw
    have hnone := h.unfinished_eq_nil hw hcur fun x hx => by
      obtain rfl := Option.some.inj hx
      exact (h.result r hr hw).2
    have hclear := h.clear hw hnone (f := fun slot =>
      { slot with currentWorkId := none, tasksCompleted := slot.tasksCompleted + 1 }) (fun _ => rfl) fun _ => rfl
    dsimp only
    split_ifs
    exacts [hclear.retireWorker hnodup _, hclear]
  · exact h

theorem retireWorker_unfinished (e : Executor α) (w v : WorkerId) : (e.retireWorker w).unfinished v = e.unfinished v :=
  modifySlot_keeps e (f := fun slot =>
    { slot with
      intentionallyStopped := true
      process := { slot.process with workQueue := slot.process.workQueue ++ [none] } })
    (·.process.unfinished) (fun slot => slot.process.unfinished_sentinel) w v

theorem clearWorker_keeps (e : Executor α) (r : WorkResult α) : (e.clearWorker r).workers ⊆ e.workers ∧
    (∀ w, (e.clearWorker r).unfinished w = e.unfinished w) ∧ ∀ w ∈ e.workers, w ≠ r.workerId →
      w ∈ (e.clearWorker r).workers := by
  have hclear := modifySlot_keeps e (f := fun slot =>
    { slot with currentWorkId := none, tasksCompleted := slot.tasksCompleted + 1 }) (·.process.unfinished) (fun _ => rfl)
    r.workerId
  unfold Executor.clearWorker
  dsimp only
  split_ifs
  · exact ⟨List.erase_subset, fun w => (retireWorker_unfinished _ _ w).trans (hclear w),
      fun w hw hne => (List.mem_erase_of_ne hne).mpr hw⟩
  · exact ⟨List.Subset.refl _, hclear, fun _ hw _ => hw⟩
  · exact ⟨List.Subset.refl _, fun _ => rfl, fun _ hw _ => hw⟩

theorem Tracked.processResult {r : WorkResult α} (h : Tracked e accepted (r :: results) lost retrying)
    (hnodup : e.workers.Nodup) (hcalm : e.Calm (.processResult r)) :
    Tracked (e.processResult r).1 accepted results lost retrying := by
  have hclear := (h.clearWorker hnodup (.inl List.mem_cons_self)).of_subset (List.subset_cons_self r results)
    (List.Subset.refl _) (List.Subset.refl _)
  obtain ⟨hworkers, hunfinished, -⟩ := clearWorker_keeps e r
  obtain ⟨slots, workers, retiring, hframe⟩ := clearWorker_frame e r
  have hworks : (e.clearWorker r).works = e.works ∧ (e.clearWorker r).inFlight = e.inFlight := by
    rw [hframe]
    exact ⟨rfl, rfl⟩
  have hpop := hclear.pop (x := r.id) fun hf w hw hid => by
    rw [hunfinished]
    exact hcalm r.id rfl (hworks.2 ▸ hf) w (hworkers hw) (hworks.1 ▸ hid)
  unfold Executor.processResult
  dsimp only
  split_ifs
  exacts [hpop, hpop, hclear]

/-- The task of a dead worker is taken: it is on no worker of the pool. -/
theorem Tracked.takeLost {w : WorkerId} (h : Tracked e accepted results (w :: lost) retrying)
    (hpool : Pool e (w :: lost)) :
    Tracked (e.takeLost w).1 accepted results lost ((e.takeLost w).2.filterMap Section.retries ++ retrying) := by
  have hrest := h.of_subset (List.Subset.refl _) (List.subset_cons_self w lost) (List.Subset.refl _)
  have hgone : ∀ v, v ∈ e.workers ∨ v ∈ lost → v ≠ w := fun v hv hvw => by
    subst hvw
    have hnodup := List.nodup_append.mp hpool.nodup
    rcases hv with hv | hv
    · exact hnodup.2.2 v hv v List.mem_cons_self rfl
    · exact (List.nodup_cons.mp hnodup.2.1).1 hv
  unfold Executor.takeLost
  split
  · exact hrest
  · rename_i x hcur
    have hbound := h.current w (.inr List.mem_cons_self) x hcur
    have hpop := hrest.pop (x := x) fun hf v hv hid _ =>
      hgone v (.inl hv) (Option.some.inj (hid.symm.trans (hbound.flight hf)))
    dsimp only
    split_ifs with _ hlost
    · exact hpop
    · -- a retry: whoever else were bound to the task would have it in flight
      have hretry := hrest.retry (x := x) fun v hv hb =>
        hgone v hv (Option.some.inj ((hb.flight hlost).symm.trans (hbound.flight hlost)))
      exact hretry.pop fun hf v hv hid _ => hgone v (.inl hv) (Option.some.inj (hid.symm.trans (hbound.flight hf)))
    · exact hpop
    · exact hpop

theorem Tracked.handleTimeout (h : Tracked e accepted results lost retrying) (hnodup : e.workers.Nodup) {x : WorkId}
    (hcalm : e.Calm (.handleTimeout x)) : Tracked (e.handleTimeout x).1 accepted results lost retrying := by
  unfold Executor.handleTimeout
  split_ifs with hcond
  · exact h
  rw [not_or, not_not] at hcond
  dsimp only
  split
  · rename_i w _ hid
    split_ifs with hw
    · have hevict := h.evict hnodup (w := w) (f := fun slot =>
        { slot with intentionallyStopped := true, queuePoisoned := true, currentWorkId := none }) (fun _ => .inr rfl)
        (fun _ => rfl) fun _ => rfl
      refine hevict.pop fun _ v hv hv' => ?_
      obtain rfl := Option.some.inj (hid.symm.trans hv')
      exact absurd hv hnodup.not_mem_erase
    · exact h.pop fun _ v hv hv' => absurd (Option.some.inj (hid.symm.trans hv') ▸ hv) hw
  · rename_i o _ hmode
    have hfinished : e.Finished x := fun v hv hv' => by
      cases hmode' : e.cfg.onTimeout with
      | failFuture => exact hcalm x (if_pos hmode') hcond.1 v hv hv'
      | killWorker => exact (hmode v hmode' hv').elim
    have hworks := modifyWork_keeps e (f := fun w => { w with resultIgnored := true }) (·.workerId) (fun _ => rfl) x
    have hignore : Tracked (e.modifyWork x fun w => { w with resultIgnored := true }) accepted results lost retrying :=
      h.of_tasks rfl rfl rfl (List.Subset.refl _) rfl fun y _ => hworks y
    have hpop := hignore.pop fun _ v hv hv' => hfinished v hv ((hworks x).symm.trans hv')
    split
    · exact hpop
    · rename_i w hid
      split_ifs with hw
      · have hnone := h.unfinished_eq_nil hw.1 hw.2 fun y hy => Option.some.inj hy ▸ hfinished w hw.1 hid
        exact hpop.clear hw.1 hnone (f := fun slot => { slot with currentWorkId := none }) (fun _ => rfl) fun _ => rfl
      · exact hpop

/-- A timeout in the `fail_future` mode leaves the pool and the processes as they are. -/
theorem handleTimeout_leaves {x : WorkId} (hmode : e.cfg.onTimeout = .failFuture) (hf : x ∈ e.inFlight)
    (hrunning : e.futures x = .running) : (e.handleTimeout x).1.inFlight = e.inFlight.erase x ∧
      (e.handleTimeout x).1.workers = e.workers ∧ ∀ v, (e.handleTimeout x).1.unfinished v = e.unfinished v := by
  have hcond : ¬ (x ∉ e.inFlight ∨ (e.futures x).done = true) := by simp [hf, hrunning, Future.done]
  rw [Executor.handleTimeout, if_neg hcond]
  simp only [hmode]
  split
  · exact ⟨rfl, rfl, fun _ => rfl⟩
  · split_ifs
    · exact ⟨rfl, rfl, modifySlot_keeps ((e.modifyWork x fun w => { w with resultIgnored := true }).popInFlight x)
        (f := fun slot => { slot with currentWorkId := none }) (·.process.unfinished) (fun _ => rfl) _⟩
    · exact ⟨rfl, rfl, fun _ => rfl⟩

theorem Tracked.getNowait {w : WorkerId} {rs : List (WorkResult α)}
    (h : Tracked e accepted (rs ++ results) lost retrying) :
    Tracked (e.getNowait w rs).1 accepted ((e.getNowait w rs).2.flatMap Section.delivers ++ results) lost retrying := by
  have hdelivers (rs : List (WorkResult α)) : (rs.map Section.processResult).flatMap Section.delivers = rs := by
    induction rs with
    | nil => rfl
    | cons r rs ih => exact congrArg (r :: ·) ih
  unfold Executor.getNowait
  split
  · rwa [hdelivers]
  · rename_i r rest hqueue
    split_ifs
    · rwa [hdelivers]
    · have hlive {r' : WorkResult α} (hr' : r' ∈ r :: rest) : e.Live (rs ++ results) r' := .inr ⟨w, hqueue ▸ hr'⟩
      refine h.modifyProcess (f := fun p => { p with resultQueue := rest }) (.refl _)
        (fun r' hr' => hlive (List.mem_cons_of_mem r hr')) fun r' hr' => ?_
      have hr' : r' ∈ (rs ++ [r]) ++ [] ++ results := hr'
      rw [List.append_nil, List.append_assoc, List.mem_append, List.singleton_append, List.mem_cons] at hr'
      rcases hr' with hr' | rfl | hr'
      · exact .inl (List.mem_append_left _ hr')
      · exact hlive List.mem_cons_self
      · exact .inl (List.mem_append_right _ hr')

theorem run_delivers {m : Section α} {body : List (Section α)} (h : e.run env m = some (e', body))
    (hm : ∀ m', Follows m m' → m'.delivers = []) : body.flatMap Section.delivers = [] :=
  List.flatMap_eq_nil_iff.mpr fun m' hm' => hm m' (run_follows h m' hm')

/-- **A calm section keeps the parent's view.** -/
theorem run_tracked {m : Section α} {body : List (Section α)} {held : List WorkId} (h : e.run env m = some (e', body))
    (hcalm : e.Calm m) (hmark : Marked e accepted) (htidy : Tidy (e.book accepted (m.owns.toList ++ held)))
    (hpool : Pool e (m.loses.toList ++ lost)) (hretrying : m.retries.toList ++ retrying ⊆ m.owns.toList ++ held)
    (ht : Tracked e accepted (m.delivers ++ results) (m.loses.toList ++ lost) (m.retries.toList ++ retrying)) :
    Tracked e' accepted (body.flatMap Section.delivers ++ results) (body.filterMap Section.loses ++ lost)
      (body.filterMap Section.retries ++ retrying) := by
  have hnodup : e.workers.Nodup := hpool.nodup.of_append_left
  cases m with
  | maybeDispatch =>
    obtain ⟨hok, rfl⟩ := run_maybeDispatch h
    exact (maybeDispatch_steps htidy.nodup.of_append_left hok).tracked ht hmark htidy hretrying hpool
  | processResult r =>
    rw [run_delivers h fun m hm => by cases hm <;> rfl, run_filterMap Section.loses h fun m hm => by cases hm <;> rfl,
      run_filterMap Section.retries h fun m hm => by cases hm <;> rfl]
    obtain ⟨rfl, -⟩ := run_eq (r := e.processResult r) h
    exact ht.processResult hnodup hcalm
  | takeLost w =>
    rw [run_delivers h fun m hm => by cases hm <;> rfl, run_filterMap Section.loses h fun m hm => by cases hm <;> rfl]
    obtain ⟨rfl, rfl⟩ := run_eq (r := e.takeLost w) h
    exact ht.takeLost hpool
  | handleTimeout x =>
    rw [run_delivers h fun m hm => by cases hm <;> rfl, run_filterMap Section.loses h fun m hm => by cases hm <;> rfl,
      run_filterMap Section.retries h fun m hm => by cases hm <;> rfl]
    obtain ⟨rfl, -⟩ := run_eq (r := e.handleTimeout x) h
    exact ht.handleTimeout hnodup hcalm
  | getNowait w rs =>
    rw [run_filterMap Section.loses h fun m hm => by cases hm <;> rfl,
      run_filterMap Section.retries h fun m hm => by cases hm <;> rfl]
    obtain ⟨rfl, rfl⟩ := run_eq (r := e.getNowait w rs) h
    exact ht.getNowait
  | checkWorkers =>
    rw [run_delivers h fun m hm => by cases hm <;> rfl, run_filterMap Section.retries h fun m hm => by cases hm <;> rfl]
    obtain ⟨rfl, rfl⟩ := run_eq (r := e.checkWorkers) h
    rw [checkWorkers_loses]
    refine ht.mono (fun _ => .refl _) (fun w hw => .inl ⟨(List.mem_filter.mp hw).1, rfl⟩) (fun w hw => ⟨?_, .inl rfl⟩)
      (fun _ hr => hr) le_rfl (List.Subset.refl _) (List.Subset.refl _) (List.Subset.refl _) (List.Subset.refl _)
      (fun _ _ _ _ hx => hx) fun _ _ => rfl
    exact (List.mem_append.mp hw).imp_left fun hw => (List.mem_filter.mp hw).1
  | requeue x =>
    obtain ⟨rfl, rfl⟩ := run_eq h
    refine ht.requeue fun hf => ?_
    exact (List.nodup_append.mp htidy.nodup.of_append_right).2.2 x hf x List.mem_cons_self rfl
  | penalizeEstimate x =>
    obtain ⟨rfl, rfl⟩ := run_eq h
    exact ht.of_tasks rfl rfl rfl (List.Subset.refl _) rfl fun y _ => modifyWork_keeps e
      (f := fun w => { w with estimate := penalized w.estimate, exclusive := true }) (·.workerId) (fun _ => rfl) x y
  | escalateKill w =>
    obtain ⟨rfl, rfl⟩ := run_eq h
    have hexit (code : Int) : Tracked (e.modifyProcess w (·.exit code)) accepted results lost retrying :=
      ht.modifyProcess ((WorkerProcess.unfinished_exit _ code).symm ▸ .refl _)
        (fun r hr => .inr ⟨w, by rwa [WorkerProcess.resultQueue_exit] at hr⟩) fun _ => .inl
    unfold escalateKill
    split
    exacts [hexit _, hexit _, ht]
  | discardQueue w =>
    obtain ⟨rfl, rfl⟩ := run_eq h
    have hprocess := modifySlot_keeps e (f := fun slot => { slot with queueDiscarded := true }) (·.process) (fun _ => rfl) w
    refine ht.of_slots (modifySlot_keeps e (f := fun slot => { slot with queueDiscarded := true }) (·.currentWorkId)
      (fun _ => rfl) w) (fun v => ?_) fun r hr => hr.imp_right (Exists.imp fun v hr => hprocess v ▸ hr)
    exact (congrArg WorkerProcess.unfinished (hprocess v)).symm ▸ .refl _
  | stopAllWorkers =>
    rw [run_delivers h fun m hm => by cases hm <;> rfl, run_filterMap Section.loses h fun m hm => by cases hm <;> rfl,
      run_filterMap Section.retries h fun m hm => by cases hm <;> rfl]
    obtain ⟨rfl, -⟩ := run_eq (r := e.stopAllWorkers) h
    obtain ⟨slots, hslots, hkeeps⟩ := foldl_modifySlot (fun slot : WorkerSlot α =>
      { slot with
        intentionallyStopped := true
        process := { slot.process with workQueue := slot.process.workQueue ++ [none] } }) e.workers e
    rw [Executor.stopAllWorkers, hslots]
    refine ht.of_slots (hkeeps (·.currentWorkId) fun _ => rfl) (fun w => ?_) fun r hr => hr.imp_right (Exists.imp fun w hr => ?_)
    · rw [hkeeps (·.process.unfinished) (fun slot => slot.process.unfinished_sentinel) w]
    · rwa [hkeeps (·.process.resultQueue) (fun _ => rfl) w] at hr
  | failPendingFutures =>
    obtain ⟨rfl, rfl⟩ := run_eq h
    obtain ⟨futures, hframe⟩ := failPendingFutures_frame e
    rw [hframe]
    exact ht.of_tasks rfl rfl rfl (List.nil_subset _) rfl fun _ _ => rfl
  | sweep | readClock | scanTimeouts | readQueue | testInFlight | finalDrain | settle | record | shutUnstarted | stopAccepting | stopThreads
  | pruneRetiring | leave =>
    rw [run_delivers h fun m hm => by cases hm <;> rfl, run_filterMap Section.loses h fun m hm => by cases hm <;> rfl,
      run_filterMap Section.retries h fun m hm => by cases hm <;> rfl]
    obtain ⟨rfl, -⟩ := run_eq h
    exact ht.of_tasks rfl rfl rfl (List.Subset.refl _) rfl fun _ _ => rfl

end Tracked

end Executor

end AdaptiveExecutor
