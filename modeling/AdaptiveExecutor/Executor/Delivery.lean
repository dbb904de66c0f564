import AdaptiveExecutor.Executor.Collect

/-!
# A delivered result is not thrown away

What a worker has put on its queue reaches the future of its task, as long as no task is taken for lost while its result
is in another hand.

* `Coming` : the result of a task in flight is in hand, or can still be read;
* `run_coming` : a section that neither takes the task for lost nor lets it time out keeps it so, or settles the future;
* `System.Ending` : the result is coming, the future is about to be settled with it, or finished with it;
* `delivered_result_kept` : a run from the put on; `delivered_result_lost` : without the condition.
-/

namespace AdaptiveExecutor
open Ledger (Future Tidy)
open Relation (ReflTransGen)

namespace Executor
variable {α : Type} {env : Env} {e e' : Executor α} {accepted retrying held : List WorkId}
  {results results' : List (WorkResult α)} {lost : List WorkerId} {x : WorkId} {w : WorkerId} {r : WorkResult α}

/-- The task is in flight on its worker, and its result is in hand, or in the queue of the worker, which can be read. -/
structure Coming (e : Executor α) (results : List (WorkResult α)) (x : WorkId) (w : WorkerId) (r : WorkResult α) : Prop where
  flight : x ∈ e.inFlight
  worker : (e.works x).workerId = some w
  spawned : w < e.nextWorkerId
  here : r ∈ results ∨ r ∈ (e.slots w).process.resultQueue ∧ (e.slots w).queueDiscarded = false ∧
    (e.slots w).queuePoisoned = false

theorem Coming.mono (h : Coming e results x w r) (hflight : x ∈ e'.inFlight)
    (hworks : (e'.works x).workerId = (e.works x).workerId) (hnext : e.nextWorkerId ≤ e'.nextWorkerId)
    (hresults : r ∈ results → r ∈ results')
    (hqueue : r ∈ (e.slots w).process.resultQueue → (e.slots w).queueDiscarded = false →
      (e.slots w).queuePoisoned = false → r ∈ results' ∨ r ∈ (e'.slots w).process.resultQueue ∧
        (e'.slots w).queueDiscarded = false ∧ (e'.slots w).queuePoisoned = false) : Coming e' results' x w r := by
  refine ⟨hflight, hworks.trans h.worker, h.spawned.trans_le hnext, ?_⟩
  rcases h.here with hr | ⟨hr, hopen, hclean⟩
  · exact .inl (hresults hr)
  · exact hqueue hr hopen hclean

theorem Coming.of_slots (h : Coming e results x w r) (hflight : x ∈ e'.inFlight)
    (hworks : (e'.works x).workerId = (e.works x).workerId) (hnext : e.nextWorkerId ≤ e'.nextWorkerId)
    (hresults : r ∈ results → r ∈ results') (hslot : (e.slots w).SameQueue (e'.slots w)) : Coming e' results' x w r := by
  refine h.mono hflight hworks hnext hresults fun hr hopen hclean => .inr ⟨?_, ?_, ?_⟩
  · rwa [hslot.results]
  · rw [hslot.discarded, hopen]
  · rw [hslot.poisoned, hclean]

theorem Coming.copies_pos (h : Coming e results x w r) (hof : r.isOf x w = true) : 0 < e.copies results x w := by
  unfold copies WorkerSlot.carries
  rcases h.here with hr | ⟨hr, hopen, -⟩
  · have hpos := List.countP_pos_iff.mpr ⟨r, hr, hof⟩
    omega
  · have hread : (e.slots w).readable = (e.slots w).process.resultQueue := by
      unfold WorkerSlot.readable
      rw [hopen]
      rfl
    have hpos := List.countP_pos_iff.mpr ⟨r, hread ▸ hr, hof⟩
    omega

/-- **The result is processed, or another one.** -/
theorem Coming.processResult {r' : WorkResult α} (h : Coming e (r' :: results) x w r) (hof : r.isOf x w = true)
    (hc : Crewed e accepted (r' :: results) lost retrying) (hmark : Marked e accepted) :
    Coming (e.processResult r').1 results x w r ∨ .settle x r.outcome ∈ (e.processResult r').2 := by
  obtain ⟨htasks, hworks⟩ : ((e.clearWorker r').pending = e.pending ∧ (e.clearWorker r').inFlight = e.inFlight) ∧
      (e.clearWorker r').works = e.works ∧ e.nextWorkerId ≤ (e.clearWorker r').nextWorkerId := by
    obtain ⟨slots, workers, retiring, hframe⟩ := clearWorker_frame e r'
    rw [hframe]
    exact ⟨⟨rfl, rfl⟩, rfl, le_rfl⟩
  by_cases hid : r'.id = x
  · right
    -- it is the only copy
    have hpos : 0 < e.copies (r' :: results) r'.id r'.workerId := by
      have hof' : r'.isOf r'.id r'.workerId = true := WorkResult.isOf_iff.mpr ⟨rfl, rfl⟩
      unfold copies
      rw [List.countP_cons, if_pos hof']
      omega
    have hw : r'.workerId = w := by
      have hbound := (hc.sent _ _ hpos).1.flight (hid ▸ h.flight)
      rw [hid, h.worker] at hbound
      exact (Option.some.inj hbound).symm
    have hof' : r'.isOf x w = true := WorkResult.isOf_iff.mpr ⟨hid, hw⟩
    have hsame : r = r' := by
      by_contra hne
      have hrest : Coming e results x w r := h.mono h.flight rfl le_rfl
        (fun hr => (List.mem_cons.mp hr).resolve_left hne) fun hr hopen hclean => .inr ⟨hr, hopen, hclean⟩
      have honce := hc.once x w
      have hrest := hrest.copies_pos hof
      unfold copies at honce hrest
      rw [List.countP_cons, if_pos hof'] at honce
      omega
    have hignored : ((e.clearWorker r').works r'.id).resultIgnored = false := by
      rw [hworks.1, hid]
      by_contra hignored
      exact (hmark.ignored x (Bool.eq_true_of_not_eq_false hignored)).2.2 h.flight
    unfold Executor.processResult
    dsimp only
    rw [if_neg, if_neg]
    · rw [hsame, ← hid]
      exact List.mem_cons_of_mem _ (List.mem_singleton.mpr rfl)
    · rw [hignored]
      exact Bool.false_ne_true
    · rw [htasks.2, hid]
      exact not_not.mpr h.flight
  · left
    have hne : r ≠ r' := by
      rintro rfl
      exact hid (WorkResult.isOf_iff.mp hof).1
    have hstay : x ∈ (e.processResult r').1.inFlight ∧ (e.processResult r').1.works = e.works ∧
        e.nextWorkerId ≤ (e.processResult r').1.nextWorkerId ∧ (e.processResult r').1.slots = (e.clearWorker r').slots := by
      have herase : x ∈ e.inFlight.erase r'.id := (List.mem_erase_of_ne (Ne.symm hid)).mpr h.flight
      unfold Executor.processResult
      dsimp only
      split_ifs
      · refine ⟨?_, hworks.1, hworks.2, rfl⟩
        change x ∈ (e.clearWorker r').inFlight.erase r'.id
        rwa [htasks.2]
      · refine ⟨?_, hworks.1, hworks.2, rfl⟩
        change x ∈ (e.clearWorker r').inFlight.erase r'.id
        rwa [htasks.2]
      · refine ⟨?_, hworks.1, hworks.2, rfl⟩
        rw [htasks.2]
        exact h.flight
    obtain ⟨hflight, hsame, hnext, hslots⟩ := hstay
    refine h.of_slots hflight (by rw [hsame]) hnext (fun hr => (List.mem_cons.mp hr).resolve_left hne) ?_
    rw [hslots]
    exact clearWorker_sameQueue r'

theorem Coming.takeLost {v : WorkerId} (h : Coming e results x w r) (hof : r.isOf x w = true)
    (hc : Crewed e accepted results (v :: lost) retrying) (hspares : e.Spares results (.takeLost v)) :
    Coming (e.takeLost v).1 results x w r := by
  rcases takeLost_frame e v with hframe | ⟨y, hcur, hframe⟩
  · rw [hframe]
    exact h
  · have hyx : x ≠ y := by
      rintro rfl
      have hbound := (hc.missing v List.mem_cons_self x hcur).flight h.flight
      obtain rfl := Option.some.inj (hbound.symm.trans h.worker)
      exact (h.copies_pos hof).ne' (hspares v rfl x hcur h.flight)
    rw [hframe]
    exact h.of_slots ((List.mem_erase_of_ne hyx).mpr h.flight) rfl le_rfl (fun hr => hr) (.refl _)

theorem Coming.handleTimeout {y : WorkId} (h : Coming e results x w r) (hyx : x ≠ y)
    (hc : Crewed e accepted results lost retrying) : Coming (e.handleTimeout y).1 results x w r := by
  have herase : x ∈ e.inFlight.erase y := (List.mem_erase_of_ne hyx).mpr h.flight
  have hignore : ((e.modifyWork y fun w => { w with resultIgnored := true }).works x).workerId = (e.works x).workerId :=
    modifyWork_keeps e (f := fun w => { w with resultIgnored := true }) (·.workerId) (fun _ => rfl) y x
  unfold Executor.handleTimeout
  split_ifs with hcond
  · exact h
  rw [not_or, not_not] at hcond
  dsimp only
  split
  · rename_i v _ hid
    split_ifs with hv
    · -- the worker that is killed is at the other task
      have hwv : w ≠ v := by
        rintro rfl
        have hcur := (hc.manned_iff h.flight h.worker).2
        have hcur' := (hc.manned_iff hcond.1 hid).2
        exact hyx (Option.some.inj (hcur.symm.trans hcur'))
      refine h.of_slots herase rfl le_rfl (fun hr => hr) ?_
      change (e.slots w).SameQueue ((e.modifySlot v fun slot =>
        { slot with intentionallyStopped := true, queuePoisoned := true, currentWorkId := none }).slots w)
      rw [modifySlot_slots, if_neg hwv]
      exact .refl _
    · exact h.of_slots herase rfl le_rfl (fun hr => hr) (.refl _)
  · split
    · exact h.of_slots herase hignore le_rfl (fun hr => hr) (.refl _)
    · rename_i v _
      split_ifs
      · refine h.of_slots herase hignore le_rfl (fun hr => hr) ?_
        change (e.slots w).SameQueue ((e.modifySlot v fun slot => { slot with currentWorkId := none }).slots w)
        exact modifySlot_sameQueue fun _ => ⟨rfl, rfl, rfl, rfl⟩
      · exact h.of_slots herase hignore le_rfl (fun hr => hr) (.refl _)

theorem Coming.getNowait {v : WorkerId} {rs : List (WorkResult α)} (h : Coming e (rs ++ results) x w r) :
    Coming (e.getNowait v rs).1 ((e.getNowait v rs).2.flatMap Section.delivers ++ results) x w r := by
  unfold Executor.getNowait
  split
  · rwa [Section.flatMap_delivers]
  · rename_i r' rest hqueue
    split_ifs with hclosed
    · rwa [Section.flatMap_delivers]
    · have hone : [Section.getNowait v (rs ++ [r'])].flatMap Section.delivers = rs ++ [r'] := List.append_nil _
      change Coming _ ([Section.getNowait v (rs ++ [r'])].flatMap Section.delivers ++ results) x w r
      rw [hone]
      have hold (hr : r ∈ rs ++ results) : r ∈ rs ++ [r'] ++ results := by
        rw [List.append_assoc]
        exact (List.mem_append.mp hr).elim (fun hr => List.mem_append_left _ hr)
          fun hr => List.mem_append_right _ (List.mem_append_right _ hr)
      refine h.mono h.flight rfl le_rfl hold fun hr hopen hclean => ?_
      change _ ∨ r ∈ ((e.modifyProcess v fun p => { p with resultQueue := rest }).slots w).process.resultQueue ∧
        ((e.modifyProcess v fun p => { p with resultQueue := rest }).slots w).queueDiscarded = false ∧
          ((e.modifyProcess v fun p => { p with resultQueue := rest }).slots w).queuePoisoned = false
      unfold modifyProcess
      rw [modifySlot_slots]
      split_ifs with hwv
      · subst hwv
        rw [hqueue] at hr
        rcases List.mem_cons.mp hr with rfl | hr
        · exact .inl (List.mem_append_left _ (List.mem_append_right _ (List.mem_singleton.mpr rfl)))
        · exact .inr ⟨hr, hopen, hclean⟩
      · exact .inr ⟨hr, hopen, hclean⟩

/-- **A section brings the result on its way**, unless it takes the task for lost or lets it time out. -/
theorem run_coming {m : Section α} {body : List (Section α)} (h : e.run env m = some (e', body))
    (hcoming : Coming e (m.delivers ++ results) x w r) (hof : r.isOf x w = true) (hcontrol : m.control = false)
    (htimeout : m.timesOut ≠ some x) (hspares : e.Spares (m.delivers ++ results) m)
    (hdiscard : ∀ w ∈ m.discards, (e.slots w).process.resultQueue = [] ∨ (e.slots w).queuePoisoned = true ∨
      (e.slots w).queueDiscarded = true) (hmark : Marked e accepted)
    (htidy : Tidy (e.book accepted (m.owns.toList ++ held)))
    (hc : Crewed e accepted (m.delivers ++ results) (m.loses.toList ++ lost) retrying) :
    Coming e' (body.flatMap Section.delivers ++ results) x w r ∨ .settle x r.outcome ∈ body := by
  cases m with
  | shutUnstarted | stopAccepting | failPendingFutures | testInFlight | stopThreads | stopAllWorkers | finalDrain | pruneRetiring
  | leave => cases hcontrol
  | maybeDispatch =>
    left
    obtain ⟨hok, rfl⟩ := run_maybeDispatch h
    have hqueued : ∀ y ∈ e.pending, y ∉ e.inFlight := fun y hy hf => htidy.not_mem_flight hy (List.mem_append_left _ hf)
    have hsteps := maybeDispatch_steps htidy.nodup.of_append_left hok
    obtain ⟨hs, -, -, -, -, hflight, hkeeps, -⟩ := maybeDispatch_flight hok htidy.nodup.of_append_left hqueued
    refine hcoming.of_slots ?_ ?_ (DispatchSteps.ages hsteps).next (fun hr => hr)
      (DispatchSteps.sameQueue hsteps w hcoming.spawned)
    · rw [hflight]
      exact List.mem_append_left _ hcoming.flight
    · exact hkeeps (·.workerId) (updateObserved_keeps (fun _ _ _ _ => rfl) env e.clock) x hcoming.flight
  | processResult r' =>
    rw [run_delivers h fun m hm => by cases hm <;> rfl]
    obtain ⟨rfl, rfl⟩ := run_eq (r := e.processResult r') h
    exact hcoming.processResult hof hc hmark
  | takeLost v =>
    rw [run_delivers h fun m hm => by cases hm <;> rfl]
    obtain ⟨rfl, -⟩ := run_eq (r := e.takeLost v) h
    exact .inl (hcoming.takeLost hof hc hspares)
  | handleTimeout y =>
    rw [run_delivers h fun m hm => by cases hm <;> rfl]
    obtain ⟨rfl, -⟩ := run_eq (r := e.handleTimeout y) h
    exact .inl (hcoming.handleTimeout (fun hxy => htimeout (congrArg some hxy.symm)) hc)
  | getNowait v rs =>
    obtain ⟨rfl, rfl⟩ := run_eq (r := e.getNowait v rs) h
    exact .inl hcoming.getNowait
  | requeue y =>
    left
    obtain ⟨rfl, rfl⟩ := run_eq h
    refine hcoming.of_slots hcoming.flight ?_ le_rfl (fun hr => hr) (.refl _)
    refine congrArg PendingWork.workerId (Function.update_of_ne ?_ _ _)
    rintro rfl
    exact (List.nodup_append.mp htidy.nodup.of_append_right).2.2 x hcoming.flight x List.mem_cons_self rfl
  | penalizeEstimate y =>
    left
    obtain ⟨rfl, rfl⟩ := run_eq h
    refine hcoming.of_slots hcoming.flight ?_ le_rfl (fun hr => hr) (.refl _)
    exact modifyWork_keeps e (f := fun w => { w with estimate := penalized w.estimate, exclusive := true }) (·.workerId)
      (fun _ => rfl) y x
  | escalateKill v =>
    left
    obtain ⟨rfl, rfl⟩ := run_eq h
    have hexit (code : Int) : Coming (e.modifyProcess v (·.exit code)) results x w r := by
      refine hcoming.mono hcoming.flight rfl le_rfl (fun hr => hr) fun hr hopen hclean => .inr ?_
      unfold modifyProcess
      rw [modifySlot_slots]
      split_ifs with hwv
      · refine ⟨?_, hwv ▸ hopen, hwv ▸ hclean⟩
        rw [WorkerProcess.resultQueue_exit]
        exact hwv ▸ hr
      · exact ⟨hr, hopen, hclean⟩
    unfold escalateKill
    split
    · exact hexit _
    · exact hexit _
    · exact hcoming
  | discardQueue v =>
    left
    obtain ⟨rfl, rfl⟩ := run_eq h
    refine hcoming.mono hcoming.flight rfl le_rfl (fun hr => hr) fun hr hopen hclean => ?_
    right
    rw [modifySlot_slots, if_neg]
    · exact ⟨hr, hopen, hclean⟩
    · -- the queue of a worker is discarded when it has been read to its end
      rintro rfl
      rcases hdiscard w rfl with hempty | hpoisoned | hdiscarded
      · rw [hempty] at hr
        cases hr
      · rw [hpoisoned] at hclean
        cases hclean
      · rw [hdiscarded] at hopen
        cases hopen
  | checkWorkers | sweep | readClock | scanTimeouts | readQueue | settle | record =>
    left
    rw [run_delivers h fun m hm => by cases hm <;> rfl]
    obtain ⟨rfl, -⟩ := run_eq h
    exact hcoming.of_slots hcoming.flight rfl le_rfl (fun hr => hr) (.refl _)

end Executor

/-! ## Events -/

namespace System
open Executor (Coming)
variable {α : Type} {s s' : System α} {e : Event α} {x : WorkId} {w : WorkerId} {r : WorkResult α} {cfg : Config}
  {profiles : ProfileStore}

theorem ProcessStep.results {p p' : WorkerProcess α} (hp : ProcessStep w p p') (hr : r ∈ p.resultQueue) :
    r ∈ p'.resultQueue := by
  cases hp with
  | take | stop | lose => exact hr
  | put => exact List.mem_append_left _ hr
  | exit => rwa [WorkerProcess.resultQueue_exit]

/-- A section that reads no queue stays in its hand until it is run. -/
theorem Stepped.stays (h : Stepped s e s') {t : Thread} {m : Section α} (hreads : m.reads = none) (hm : m ∈ s.hands t) :
    m ∈ s'.hands t ∨ ∃ env r, s.executor.run env m = some r ∧ s'.executor = r.1 := by
  cases h.handStep t with
  | same hand' =>
    rw [← hand'] at hm
    exact .inl hm
  | begins _ hidle =>
    rw [hidle] at hm
    cases hm
  | act _ hand hrun hand' =>
    rw [hand] at hm
    rcases List.mem_cons.mp hm with rfl | hm
    · exact .inr ⟨_, _, hrun, rfl⟩
    · rw [hand']
      exact .inl (List.mem_append_right _ hm)
  | contended _ hand _ hand' =>
    rw [hand] at hm
    rcases List.mem_cons.mp hm with rfl | hm
    · cases hreads
    · rw [hand']
      exact .inl (List.mem_append_right _ hm)
  | shutdown _ _ hand' =>
    rw [hand']
    exact .inl (List.mem_append_left _ hm)

/-- The result of the task is coming, the future is about to be settled with it, or it is finished with it. -/
def Ending (s : System α) (x : WorkId) (w : WorkerId) (r : WorkResult α) : Prop :=
  s.executor.Coming s.delivered x w r ∨ (∃ t, .settle x r.outcome ∈ s.hands t) ∨
    s.executor.futures x = .finished r.outcome

def NoTimeout (x : WorkId) (s : System α) (e : Event α) : Prop :=
  ∀ m ∈ s.nextSection e, m.timesOut = some x → x ∉ s.executor.inFlight

instance (x : WorkId) (s : System α) (e : Event α) : Decidable (s.NoTimeout x e) :=
  inferInstanceAs (Decidable (∀ m ∈ s.nextSection e, m.timesOut = some x → x ∉ s.executor.inFlight))

/-- The event leaves no result behind, and no timeout of the task fires. -/
def Keeps (x : WorkId) (s : System α) (e : Event α) : Prop := s.KeepsResults e ∧ s.NoTimeout x e

instance (x : WorkId) (s : System α) (e : Event α) : Decidable (s.Keeps x e) := inferInstanceAs (Decidable (_ ∧ _))

/-- **The result stays on its way.** -/
theorem Stepped.coming (h : Stepped s e s') (hkeeps : Keeps x s e) (hserving : Serving s) (hc : s.Crewed) (hd : s.Drained)
    (hstopping : s'.stopping = false) (hof : r.isOf x w = true) (hcoming : s.executor.Coming s.delivered x w r) :
    s'.executor.Coming s'.delivered x w r ∨ ∃ t, .settle x r.outcome ∈ s'.hands t := by
  have hs := hserving.sound
  cases h with
  | outside | append | cancel | again =>
    exact .inl (hcoming.of_slots hcoming.flight rfl le_rfl (fun hr => hr) (.refl _))
  | shutdown => cases hstopping
  | @contended t v rs rest hand =>
    left
    refine hcoming.of_slots hcoming.flight rfl le_rfl (fun hr => ?_) (.refl _)
    exact (flatMap_contended Section.delivers (t := t)
      { s with hands := Function.update s.hands t (rs.map .processResult ++ rest) } (Section.flatMap_delivers rs) hand
      rfl).symm.subset hr
  | @submit id _ _ work _ _ hid =>
    left
    refine hcoming.of_slots hcoming.flight ?_ le_rfl (fun hr => hr) (.refl _)
    refine congrArg PendingWork.workerId (Function.update_of_ne ?_ _ _)
    rintro rfl
    exact hs.not_flight_of_new hid hcoming.flight
  | @process e v p hp =>
    left
    refine hcoming.mono hcoming.flight rfl le_rfl (fun hr => hr) fun hr hopen hclean => .inr ?_
    dsimp only [Executor.modifyProcess]
    rw [Executor.modifySlot_slots]
    split_ifs with hwv
    · exact ⟨hp.results (hwv ▸ hr), hwv ▸ hopen, hwv ▸ hclean⟩
    · exact ⟨hr, hopen, hclean⟩
  | @begin _ t body _ hand hbody =>
    left
    refine hcoming.of_slots hcoming.flight rfl le_rfl (fun hr => ?_) (.refl _)
    refine (flatMap_begin Section.delivers (t := t) { s with hands := Function.update s.hands t body }
      (fun m hm => Section.delivers_of_begins (hbody m hm)) ?_).symm.subset hr
    rw [hand, List.nil_append]
  | @deliver t v i r' _ hand hr' hopen' =>
    left
    obtain ⟨others, hbefore, hafter⟩ := sections_perm s t
    have hdelivered := (hafter { s with
      executor := s.executor.modifyProcess v fun p => { p with resultQueue := p.resultQueue.eraseIdx i }
      hands := Function.update s.hands t [.processResult r'] } _ rfl).flatMap_right Section.delivers
    have hold := hbefore.flatMap_right Section.delivers
    rw [hand, List.nil_append] at hold
    rw [List.flatMap_append] at hdelivered
    refine hcoming.mono hcoming.flight rfl le_rfl (fun hr => ?_) fun hr hopen hclean => ?_
    · exact hdelivered.symm.subset (List.mem_append_right _ (hold.subset hr))
    · dsimp only [Executor.modifyProcess]
      rw [Executor.modifySlot_slots]
      split_ifs with hwv
      · subst hwv
        obtain ⟨hi, hri⟩ := List.getElem?_eq_some_iff.mp hr'
        have hperm := List.getElem_cons_eraseIdx_perm hi
        rw [hri] at hperm
        rcases List.mem_cons.mp (hperm.symm.subset hr) with rfl | hr
        · exact .inl (hdelivered.symm.subset (List.mem_append_left _ (List.mem_singleton.mpr rfl)))
        · exact .inr ⟨hr, hopen, hclean⟩
      · exact .inr ⟨hr, hopen, hclean⟩
  | @act t env m rest r₁ hand hrun =>
    generalize hs' : ({ s with
      executor := r₁.1, hands := Function.update s.hands t (r₁.2 ++ rest), returned := s.returned || m.returns } :
        System α) = s'
    have hhands : s'.hands = Function.update s.hands t (r₁.2 ++ rest) := by rw [← hs']
    have hexecutor : s'.executor = r₁.1 := by rw [← hs']
    have hnext : m ∈ s.nextSection (.act t env) := by simp [nextSection, hand]
    obtain ⟨held, hheld, -⟩ := filterMap_act Section.owns s' hand hhands
    obtain ⟨lost, hlost, -⟩ := filterMap_act Section.loses s' hand hhands
    obtain ⟨results, hresults, hresults'⟩ := flatMap_act Section.delivers s' hand hhands
    have hresult (hr : r ∈ s.delivered) : r ∈ m.delivers ++ results := hresults.subset hr
    have hspares : s.executor.Spares (m.delivers ++ results) m := fun v hv y hy hf => by
      have hzero := hkeeps.1.2.spares hd m hnext v hv y hy hf
      have hcount : s.delivered.countP (WorkResult.isOf y v) = _ := hresults.countP_eq _
      unfold Executor.copies at hzero ⊢
      omega
    have hdiscard : ∀ v ∈ m.discards, (s.executor.slots v).process.resultQueue = [] ∨
        (s.executor.slots v).queuePoisoned = true ∨ (s.executor.slots v).queueDiscarded = true := fun v hv => by
      cases m with
      | discardQueue => exact Option.some.inj hv ▸ hd.discardQueue hand
      | _ => cases hv
    have hcrew := hc.of_perm hresults.symm.subperm hlost.symm (List.Subset.refl _)
    have hrun' := Executor.run_coming hrun (hcoming.of_slots hcoming.flight rfl le_rfl hresult (.refl _)) hof
      (hserving.plain m (mem_sections.mpr ⟨t, by rw [hand]; exact List.mem_cons_self⟩))
      (fun hx => hkeeps.2 m hnext hx hcoming.flight) hspares hdiscard hs.marked (hs.tidy_of_perm hheld) hcrew
    rcases hrun' with hcoming' | hsettle
    · left
      rw [hexecutor]
      exact hcoming'.of_slots hcoming'.flight rfl le_rfl (fun hr => hresults'.symm.subset hr) (.refl _)
    · right
      refine ⟨t, ?_⟩
      rw [hhands, Function.update_self]
      exact List.mem_append_left _ hsettle

/-- **An event lets the task end with its result.** -/
theorem Stepped.ending (h : Stepped s e s') (hkeeps : Keeps x s e) (hserving : Serving s) (hc : s.Crewed) (hd : s.Drained)
    (hstopping : s'.stopping = false) (hof : r.isOf x w = true) (hend : s.Ending x w r) : s'.Ending x w r := by
  rcases hend with hcoming | ⟨t, hm⟩ | hfinished
  · rcases h.coming hkeeps hserving hc hd hstopping hof hcoming with hcoming | hsettle
    · exact .inl hcoming
    · exact .inr (.inl hsettle)
  · rcases h.stays rfl hm with hm' | ⟨env, r', hrun, hexecutor⟩
    · exact .inr (.inl ⟨t, hm'⟩)
    · right; right
      obtain rfl := Option.some.inj hrun
      have hrunning : s.executor.futures x = .running :=
        hserving.sound.tidy.running x (List.mem_append_right _ (mem_held (mem_sections.mpr ⟨_, hm⟩) rfl))
      rw [hexecutor]
      change Function.update s.executor.futures x ((s.executor.futures x).settle r.outcome) x = _
      rw [Function.update_self, hrunning]
      rfl
  · right; right
    have hout : (s.executor.futures x).outcome = some (some r.outcome) := by
      rw [hfinished]
      rfl
    exact Future.of_outcome (h.outcome hserving.sound hout)

/-- What the ending says: the task is not queued again, it is with no other worker, and its future has no other outcome
than its result. -/
theorem Ending.spec (h : s.Ending x w r) (hs : Sound s) : x ∉ s.executor.pending ∧ x ∉ s.retrying ∧
    (x ∈ s.executor.inFlight → (s.executor.works x).workerId = some w) ∧
      (s.executor.futures x = .running ∨ s.executor.futures x = .finished r.outcome) := by
  have hnodup := List.nodup_append.mp hs.tidy.nodup
  have hnodup' := List.nodup_append.mp hnodup.2.1
  rcases h with hcoming | ⟨t, hm⟩ | hfinished
  · have hplace : x ∈ s.executor.inFlight ++ s.held := List.mem_append_left _ hcoming.flight
    refine ⟨fun hp => hnodup.2.2 x hp x hplace rfl, fun hr => ?_, fun _ => hcoming.worker,
      .inl (hs.tidy.running x hplace)⟩
    exact hnodup'.2.2 x hcoming.flight x (s.retrying_subset_held hr) rfl
  · have hheld := mem_held (x := x) (mem_sections.mpr ⟨_, hm⟩) rfl
    have hplace : x ∈ s.executor.inFlight ++ s.held := List.mem_append_right _ hheld
    refine ⟨fun hp => hnodup.2.2 x hp x hplace rfl, fun hr => ?_, fun hf => absurd rfl (hnodup'.2.2 x hf x hheld),
      .inl (hs.tidy.running x hplace)⟩
    -- the hand that is about to settle it is not the one that takes it back
    obtain ⟨m, hm', hretries⟩ := List.mem_filterMap.mp hr
    obtain ⟨before, after, hsplit⟩ := List.append_of_mem (mem_sections.mpr ⟨t, hm⟩)
    have hone : (before.filterMap Section.owns ++ x :: after.filterMap Section.owns).Nodup := by
      have hheld' : s.held.Nodup := hnodup'.2.1
      rwa [held, hsplit, List.filterMap_append, List.filterMap_cons] at hheld'
    obtain ⟨-, htail, hapart⟩ := List.nodup_append.mp hone
    have howns := Section.owns_of_retries hretries
    rw [hsplit] at hm'
    rcases List.mem_append.mp hm' with hm' | hm'
    · exact hapart x (List.mem_filterMap.mpr ⟨m, hm', howns⟩) x List.mem_cons_self rfl
    · rcases List.mem_cons.mp hm' with rfl | hm'
      · cases hretries
      · exact (List.nodup_cons.mp htail).1 (List.mem_filterMap.mpr ⟨m, hm', howns⟩)
  · have hplace : x ∉ s.executor.inFlight ++ s.held := fun hm => by
      have hrunning : s.executor.futures x = .running := hs.tidy.running x hm
      rw [hfinished] at hrunning
      cases hrunning
    refine ⟨fun hp => ?_, fun hr => hplace (List.mem_append_right _ (s.retrying_subset_held hr)),
      fun hf => absurd (List.mem_append_left _ hf) hplace, .inr hfinished⟩
    have htold : (s.executor.futures x).told = false := hs.tidy.queued x hp
    rw [hfinished] at htold
    cases htold

theorem run_ending (h₀ : ReflTransGen (NextWhen KeepsResults) (init cfg profiles) s) (hof : r.isOf x w = true)
    (hend : s.Ending x w r) (h : ReflTransGen (NextWhen (Keeps x)) s s') (hstopping : s'.stopping = false) :
    ReflTransGen (NextWhen KeepsResults) (init cfg profiles) s' ∧ s'.Ending x w r := by
  induction h with
  | refl => exact ⟨h₀, hend⟩
  | tail _ h ih =>
    obtain ⟨e, hkeeps, h⟩ := h
    have hstopping' := stopping_of_next ⟨e, h⟩ hstopping
    obtain ⟨hrun, hend⟩ := ih hstopping'
    have hreachable : Reachable _ := ⟨cfg, profiles, run_of_when hrun⟩
    exact ⟨hrun.tail ⟨e, hkeeps.1, h⟩, (step_stepped h).ending hkeeps (hreachable.serving hstopping')
      (run_crewed hrun hstopping') (run_drained (fun _ _ h => h.1) hrun hstopping') hstopping hof hend⟩

theorem coming_of_put {report : Report α} {item : WorkItem}
    (h : ReflTransGen (NextWhen KeepsResults) (init cfg profiles) s) (hstopping : s.stopping = false) (hitem : (s.executor.slots w).process.executing = some item)
    (hcur : (s.executor.slots w).currentWorkId = some item.id) (hclean : (s.executor.slots w).queuePoisoned = false)
    (hput : s.step (.workerPut w report) = some s') :
    s'.executor.Coming s'.delivered item.id w
      ⟨item.id, w, report.success, report.result, report.exception, report.observation⟩ := by
  have hreachable : Reachable s := ⟨cfg, profiles, run_of_when h⟩
  have hd := run_drained (fun _ _ h => h.1) h hstopping
  simp only [step, hitem] at hput
  split_ifs at hput with halive
  obtain rfl := Option.some.inj hput
  -- a worker that is alive and has a task is in the pool
  have hw : w ∈ s.executor.workers := by
    refine (hd.attached w ?_).resolve_right ?_
    · rw [hcur]
      exact Option.some_ne_none _
    · rw [halive]
      exact Bool.noConfusion
  have hlt := hreachable.roster.1.spawned w hw
  have hopen : (s.executor.slots w).queueDiscarded = false := by
    by_contra hdiscarded
    have hdead := hd.opened w hlt (Bool.eq_true_of_not_eq_false hdiscarded)
    rw [halive] at hdead
    cases hdead
  obtain ⟨hflight, hid⟩ := (run_crewed h hstopping).busy w hw _ hcur
  refine ⟨hflight, hid, hlt, .inr ?_⟩
  dsimp only [Executor.modifyProcess]
  rw [Executor.modifySlot_slots, if_pos rfl]
  exact ⟨List.mem_append_right _ (List.mem_singleton.mpr rfl), hopen, hclean⟩

/-! ## The end -/

theorem stopping_of_run (h : ReflTransGen Next s s') (hs' : s'.stopping = false) : s.stopping = false := by
  induction h with
  | refl => exact hs'
  | tail _ h ih => exact ih (stopping_of_next h hs')

theorem Collects.keeps (h : s.Collects e) : s.Keeps x e := by
  obtain ⟨m, hm, hcollects⟩ := h
  obtain ⟨hloses, -, htimesOut⟩ := Section.plain_of_collects hcollects
  refine ⟨⟨drainsAlone_of_next hm, ?_⟩, ?_⟩
  · intro m' hm' v hv
    obtain rfl := Option.mem_unique hm hm'
    rw [hloses] at hv
    cases hv
  · intro m' hm' hx
    obtain rfl := Option.mem_unique hm hm'
    rw [htimesOut] at hx
    cases hx

/-- A round of the collector reads all queues of the pool to their end. -/
theorem sweep_round (hs : Sound s) (hpool : ∀ w ∈ s.executor.workers, w < s.executor.nextWorkerId)
    (hand : s.hands .collector = []) (hflight : s.executor.inFlight ≠ []) :
    ∃ s', ReflTransGen (NextWhen (Keeps x)) s s' ∧ s'.hands .collector = [] ∧
      (∀ t, t ≠ .collector → s'.hands t = s.hands t) ∧ s'.stopping = s.stopping ∧
        ∀ w ∈ s.executor.workers, s'.executor.Exhausted w := by
  generalize hs₁ : ({ s with hands := Function.update s.hands .collector [.sweep] } : System α) = s₁
  generalize hs₂ : ({ s₁ with
    hands := Function.update s₁.hands .collector (s.executor.workers.map .readQueue)
    returned := s.returned || false } : System α) = s₂
  have hround : s.step (.round .collector) = some s₁ := by
    simp only [step, hand, loopBody, hflight, and_false, if_false, hs₁]
  have hhand₁ : s₁.hands .collector = [.sweep] := by
    rw [← hs₁]
    dsimp only
    exact Function.update_self _ _ _
  have hsweep : s₁.step (.act .collector ⟨fun _ => none, fun _ _ => none, fun _ => none, .failed⟩) = some s₂ := by
    simp only [step, hhand₁, Executor.run, Option.map_some, List.append_nil, Section.returns, ← hs₂]
    rw [← hs₁]
  have hhand₂ : s₂.hands .collector = s.executor.workers.map .readQueue := by
    rw [← hs₂]
    dsimp only
    exact Function.update_self _ _ _
  have hothers (t : Thread) (ht : t ≠ .collector) : s₂.hands t = s.hands t := by
    rw [← hs₂, ← hs₁]
    exact (Function.update_of_ne ht _ _).trans (Function.update_of_ne ht _ _)
  have hexecutor : s₂.executor = s.executor ∧ s₂.stopping = s.stopping := by
    rw [← hs₂, ← hs₁]
    exact ⟨rfl, rfl⟩
  have hsound := (step_stepped hsweep).sound ((step_stepped hround).sound hs)
  obtain ⟨s', hrun, hend, hothers', hstopping', hexhausted⟩ := collect (t := .collector)
    ⟨fun _ => none, fun _ _ => none, fun _ => none, .failed⟩ _ hsound
    (fun m hm => by
      rw [hhand₂] at hm
      obtain ⟨w, -, rfl⟩ := List.mem_map.mp hm
      rfl) le_rfl
  refine ⟨s', ?_, hend, fun t ht => (hothers' t ht).trans (hothers t ht), hstopping'.trans hexecutor.2, fun w hw => ?_⟩
  · have hkeepsRound : s.Keeps x (.round .collector) := by
      refine ⟨⟨trivial, ?_⟩, ?_⟩
      · intro m hm
        cases hm
      · intro m hm
        cases hm
    have hkeepsSweep : s₁.Keeps x (.act .collector ⟨fun _ => none, fun _ _ => none, fun _ => none, .failed⟩) := by
      refine ⟨⟨trivial, ?_⟩, ?_⟩
      · intro m hm v hv
        simp only [nextSection, hhand₁, List.head?_cons, Option.mem_some_iff] at hm
        subst hm
        cases hv
      · intro m hm hx
        simp only [nextSection, hhand₁, List.head?_cons, Option.mem_some_iff] at hm
        subst hm
        cases hx
    refine .head ⟨_, hkeepsRound, hround⟩ (.head ⟨_, hkeepsSweep, hsweep⟩ ?_)
    exact ReflTransGen.mono (fun _ _ hnext => hnext.imp fun _ h => ⟨h.1.keeps, h.2⟩) _ _ hrun
  · apply hexhausted w
    · rw [hexecutor.1]
      exact hpool w hw
    · rw [hhand₂]
      exact .inl ⟨.readQueue w, List.mem_map_of_mem hw, rfl⟩

def Report.outcome (report : Report α) : Outcome α :=
  if report.success then .result report.result else .exception (.raised report.exception)

/-- A worker has put the result of its current task on its queue, and no timeout of the task has fired since. -/
def AfterPut (s : System α) (x : WorkId) (w : WorkerId) (report : Report α) : Prop :=
  ∃ (s₀ s₁ : System α) (item : WorkItem), Reachable s₀ ∧ (s₀.executor.slots w).process.executing = some item ∧
    item.id = x ∧ (s₀.executor.slots w).currentWorkId = some x ∧ (s₀.executor.slots w).queuePoisoned = false ∧
      s₀.step (.workerPut w report) = some s₁ ∧ ReflTransGen (NextWhen (NoTimeout x)) s₁ s

/-- The collector has read the result when the worker dies, and the dispatcher takes the task for lost. -/
def readAndDie (exitcode : Int) (n : Nat) : List (Event Unit) :=
  .round .collector :: List.replicate 3 (.act .collector plainEnv) ++ .workerDie 0 exitcode :: .round .dispatcher ::
    List.replicate n (.act .dispatcher plainEnv)

/-- The collector is about to read the queue when the drain of the dead worker finds it taken. -/
def contendedDrain : List (Event Unit) :=
  [.workerDie 0 1, .round .collector, .act .collector plainEnv, .act .collector plainEnv, .round .dispatcher,
    .act .dispatcher plainEnv, .act .dispatcher plainEnv, .contended .dispatcher, .act .dispatcher plainEnv,
    .act .dispatcher plainEnv, .act .dispatcher plainEnv]

end System

end AdaptiveExecutor
