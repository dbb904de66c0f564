import AdaptiveExecutor.Executor.Mail
import AdaptiveExecutor.Executor.Shutdown

/-!
# Which workers a task has been to

A task that is retried after a crash, whatever else happens, is never given to a worker that has had it before.

* `Visits` : the workers of the pool have had none of the tasks that wait, and no two of them have had the same task;
* `Staffing.visits`, `run_visits`, `step_visits` : small steps, sections and events keep it;
* `no_worker_twice` : no worker gets, or reports, a task twice.
-/

namespace AdaptiveExecutor
open Ledger (Tidy)

namespace Executor
variable {α : Type} {env : Env} {e e' : Executor α} {accepted accepted' held retrying retrying' : List WorkId}
  {lost lost' : List WorkerId} {m : Mail}

/-- Which workers a task has been to. In hand are the dead workers `lost` whose task has not been taken yet, and the tasks
`retrying` on their way back to the queue. -/
structure Visits (m : Mail) (e : Executor α) (accepted retrying : List WorkId) (lost : List WorkerId) : Prop where
  accepted : ∀ w, ∀ x ∈ m.shipped w, x ∈ accepted
  nodup : ∀ w, (m.shipped w).Nodup
  gone : ∀ w ∈ e.workers ++ lost, ∀ x ∈ m.shipped w, x ∉ e.pending ∧ x ∉ retrying
  apart : ∀ w ∈ e.workers ++ lost, ∀ v ∈ e.workers ++ lost, ∀ x ∈ m.shipped w, x ∈ m.shipped v → w = v
  current : ∀ w x, (e.slots w).currentWorkId = some x → x ∈ m.shipped w

theorem modifyProcess_current (e : Executor α) (w : WorkerId) (f : WorkerProcess α → WorkerProcess α) (v : WorkerId) :
    ((e.modifyProcess w f).slots v).currentWorkId = (e.slots v).currentWorkId :=
  modifySlot_keeps e (f := fun slot => { slot with process := f slot.process }) (·.currentWorkId) (fun _ => rfl) w v

theorem Visits.mono (h : Visits m e accepted retrying lost) (hworkers : e'.workers ++ lost' ⊆ e.workers ++ lost)
    (hpending : e'.pending ⊆ e.pending) (hretrying : retrying' ⊆ retrying) (haccepted : accepted ⊆ accepted')
    (hcurrent : ∀ w x, (e'.slots w).currentWorkId = some x → (e.slots w).currentWorkId = some x) :
    Visits m e' accepted' retrying' lost' where
  accepted w x hx := haccepted (h.accepted w x hx)
  nodup := h.nodup
  gone w hw x hx := by
    obtain ⟨hp, hr⟩ := h.gone w (hworkers hw) x hx
    exact ⟨fun hm => hp (hpending hm), fun hm => hr (hretrying hm)⟩
  apart w hw v hv := h.apart w (hworkers hw) v (hworkers hv)
  current w x hx := h.current w x (hcurrent w x hx)

/-! ## A dispatch cycle -/

theorem Visits.spawn (h : Visits m e accepted retrying lost) (hblank : m.Blank e) (pid : Int) (gpuId : Option GpuId) :
    Visits m (e.spawned pid gpuId) accepted retrying lost := by
  have hnone : m.shipped e.nextWorkerId = [] := congrArg Mailbox.sent (hblank _ le_rfl)
  have old {w : WorkerId} (hw : w ∈ (e.spawned pid gpuId).workers ++ lost) : w ∈ e.workers ++ lost ∨ m.shipped w = [] := by
    rcases List.mem_append.mp hw with hw | hw
    · rcases mem_insertKey.mp hw with hw | rfl
      · exact .inl (List.mem_append_left _ hw)
      · exact .inr hnone
    · exact .inl (List.mem_append_right _ hw)
  refine ⟨h.accepted, h.nodup, fun w hw x hx => ?_, fun w hw v hv x hx hx' => ?_, fun w x hx => ?_⟩
  · rcases old hw with hw | hempty
    · exact h.gone w hw x hx
    · rw [hempty] at hx
      cases hx
  · rcases old hw with hw | hempty
    · rcases old hv with hv | hempty
      · exact h.apart w hw v hv x hx hx'
      · rw [hempty] at hx'
        cases hx'
    · rw [hempty] at hx
      cases hx
  · change (Function.update e.slots e.nextWorkerId _ w).currentWorkId = some x at hx
    rw [Function.update_apply] at hx
    split_ifs at hx
    exact h.current w x hx

theorem Visits.send {x : WorkId} {w : WorkerId} (h : Visits m e accepted retrying lost) (hsends : e.Sends x w e')
    (htidy : Tidy (e.book accepted held)) (hretrying : retrying ⊆ held) :
    Visits (m.ship e e') e' accepted retrying lost := by
  have hplace := htidy.not_mem_flight hsends.queued
  have hfresh (v : WorkerId) (hv : v ∈ e.workers ++ lost) : x ∉ m.shipped v := fun hx => (h.gone v hv x hx).1 hsends.queued
  have hshipped (v : WorkerId) : (m.ship e e').shipped v = m.shipped v ++ if v = w then [x] else [] := by
    change m.shipped v ++ e.shippedTo e' v = _
    rw [hsends.shippedTo fun hx => hplace (List.mem_append_left _ hx)]
  have mem {v : WorkerId} {y : WorkId} : y ∈ (m.ship e e').shipped v ↔ y ∈ m.shipped v ∨ v = w ∧ y = x := by
    rw [hshipped, List.mem_append]
    split_ifs with hv
    · rw [List.mem_singleton, eq_true hv, true_and]
    · rw [eq_false hv, false_and]
      exact or_congr_right (iff_of_false List.not_mem_nil id)
  have hw : w ∈ e.workers ++ lost := List.mem_append_left _ hsends.worker
  refine ⟨fun v y hy => ?_, fun v => ?_, fun v hv y hy => ?_, fun v hv v' hv' y hy hy' => ?_, fun v y hy => ?_⟩
  · rcases mem.mp hy with hy | ⟨-, rfl⟩
    · exact h.accepted v y hy
    · exact htidy.known y (List.mem_append_left _ hsends.queued)
  · rw [hshipped]
    split_ifs with hvw
    · subst hvw
      exact List.nodup_append.mpr ⟨h.nodup v, List.nodup_singleton x, fun a ha b hb hab =>
        hfresh v hw (List.mem_singleton.mp hb ▸ hab ▸ ha)⟩
    · rw [List.append_nil]
      exact h.nodup v
  · rw [hsends.workers] at hv
    rw [hsends.pending]
    rcases mem.mp hy with hy | ⟨-, rfl⟩
    · exact ⟨fun hm => (h.gone v hv y hy).1 (List.erase_subset hm), (h.gone v hv y hy).2⟩
    · exact ⟨htidy.nodup.of_append_left.not_mem_erase, fun hm => hplace (List.mem_append_right _ (hretrying hm))⟩
  · rw [hsends.workers] at hv hv'
    rcases mem.mp hy with hy | ⟨rfl, rfl⟩ <;> rcases mem.mp hy' with hy' | ⟨rfl, hxy⟩
    · exact h.apart v hv v' hv' y hy hy'
    · exact absurd (hxy ▸ hy) (hfresh v hv)
    · exact absurd hy' (hfresh v' hv')
    · rfl
  · obtain ⟨item, -, hslots⟩ := hsends.slots
    rw [hslots] at hy
    split_ifs at hy with hv
    · exact mem.mpr (.inr ⟨hv, (Option.some.inj hy).symm⟩)
    · exact mem.mpr (.inl (h.current v y hy))

theorem Staffing.visits (h : Staffing e e') (htidy : Tidy (e.book accepted held)) (hretrying : retrying ⊆ held)
    (hblank : m.Blank e) (hv : Visits m e accepted retrying lost) : Visits (m.ship e e') e' accepted retrying lost := by
  cases h with
  | still hpending hflight hslots hworkers _ _ _ =>
    rw [Mail.ship_same hflight]
    refine hv.mono ?_ hpending (List.Subset.refl _) (List.Subset.refl _) fun w x hx => ?_
    · rw [hworkers]
      exact List.Subset.refl _
    · rwa [hslots] at hx
  | @retire w hw =>
    rw [Mail.ship_same (show (e.retireWorker w).inFlight = e.inFlight from rfl)]
    refine hv.mono ?_ (List.Subset.refl _) (List.Subset.refl _) (List.Subset.refl _) fun v x hx => ?_
    · exact (List.erase_sublist.append_right lost).subset
    · exact (lasts_retire e hw v).current x hx
  | spawn pid gpuId =>
    rw [Mail.ship_same (show (e.spawned pid gpuId).inFlight = e.inFlight from rfl)]
    exact hv.spawn hblank pid gpuId
  | send hsends => exact hv.send hsends htidy hretrying

/-! ## Sections -/

/-- The worker whose task is taken to be retried is the only one that has had it. -/
theorem takeLost_visits {w : WorkerId} (hv : Visits m e accepted retrying (w :: lost)) (hpool : Pool e (w :: lost)) :
    Visits m (e.takeLost w).1 accepted ((e.takeLost w).2.filterMap Section.retries ++ retrying) lost := by
  have hframe : (e.takeLost w).1.workers = e.workers ∧ (e.takeLost w).1.pending = e.pending ∧
      (e.takeLost w).1.slots = e.slots := by
    rcases takeLost_frame e w with hframe | ⟨id, -, hframe⟩ <;> rw [hframe] <;> exact ⟨rfl, rfl, rfl⟩
  obtain ⟨hworkers, hpending, hslots⟩ := hframe
  have hother : w ∉ e.workers ++ lost := by
    have hnodup := hpool.nodup
    rw [List.perm_middle.nodup_iff, List.nodup_cons] at hnodup
    exact hnodup.1
  have hsub : e.workers ++ lost ⊆ e.workers ++ (w :: lost) :=
    ((List.sublist_cons_self w lost).append_left e.workers).subset
  refine ⟨hv.accepted, hv.nodup, fun v hv' x hx => ?_, fun v hv' v' hv'' => ?_, fun v x hx => ?_⟩
  · rw [hworkers] at hv'
    rw [hpending]
    obtain ⟨hp, hr⟩ := hv.gone v (hsub hv') x hx
    refine ⟨hp, fun hm => ?_⟩
    rcases List.mem_append.mp hm with hm | hm
    · obtain ⟨sec, hsec, hretries⟩ := List.mem_filterMap.mp hm
      have hpenalize : sec = .penalizeEstimate x := by
        cases takeLost_follows e w sec hsec with
        | penalize => exact congrArg _ (Option.some.inj hretries)
        | crashed => cases hretries
      subst hpenalize
      have hcur := hv.current w x (takeLost_retries hsec).1
      obtain rfl := hv.apart v (hsub hv') w (List.mem_append_right _ List.mem_cons_self) x hx hcur
      exact hother hv'
    · exact hr hm
  · rw [hworkers] at hv' hv''
    exact hv.apart v (hsub hv') v' (hsub hv'')
  · rw [hslots] at hx
    exact hv.current v x hx

theorem requeue_visits {x : WorkId} (hv : Visits m e accepted (x :: retrying) lost) :
    Visits m (e.requeue x) accepted retrying lost := by
  refine ⟨hv.accepted, hv.nodup, fun w hw y hy => ?_, hv.apart, hv.current⟩
  obtain ⟨hp, hr⟩ := hv.gone w hw y hy
  refine ⟨fun hm => ?_, fun hm => hr (List.mem_cons_of_mem x hm)⟩
  rcases List.mem_cons.mp hm with rfl | hm
  · exact hr List.mem_cons_self
  · exact hp hm

theorem run_visits {sec : Section α} {body : List (Section α)} (h : e.run env sec = some (e', body))
    (hsec : sec ≠ .maybeDispatch) (hnodup : e.pending.Nodup) (hpool : Pool e (sec.loses.toList ++ lost))
    (hv : Visits m e accepted (sec.retries.toList ++ retrying) (sec.loses.toList ++ lost)) :
    Visits m e' accepted (body.filterMap Section.retries ++ retrying) (body.filterMap Section.loses ++ lost) := by
  have hlasts := run_lasts h hsec
  have hthins := run_thins h hsec hpool.nodup.of_append_left
  have still (hretries : sec.retries = none) (hnone : body.filterMap Section.retries = [])
      (hlost : body.filterMap Section.loses ⊆ e.workers ++ sec.loses.toList) :
      Visits m e' accepted (body.filterMap Section.retries ++ retrying) (body.filterMap Section.loses ++ lost) := by
    refine hv.mono (fun w hw => ?_) (run_pending h hretries hnodup) ?_ (List.Subset.refl _) fun w => (hlasts w).current
    · simp only [List.mem_append] at hw ⊢
      rcases hw with hw | hw | hw
      · exact .inl (hthins.workers.subset hw)
      · exact (List.mem_append.mp (hlost hw)).imp_right .inl
      · exact .inr (.inr hw)
    · rw [hnone]
      exact List.subset_append_right _ _
  cases sec with
  | maybeDispatch => exact absurd rfl hsec
  | takeLost w =>
    rw [run_filterMap Section.loses h fun m hm => by cases hm <;> rfl]
    obtain ⟨rfl, rfl⟩ := run_eq (r := e.takeLost w) h
    exact takeLost_visits hv hpool
  | requeue x =>
    obtain ⟨rfl, rfl⟩ := run_eq h
    exact requeue_visits hv
  | penalizeEstimate x =>
    obtain ⟨rfl, rfl⟩ := run_eq h
    exact hv.mono (List.Subset.refl _) (List.Subset.refl _) (List.Subset.refl _) (List.Subset.refl _) fun _ _ => id
  | checkWorkers =>
    refine still rfl (run_filterMap _ h fun m hm => by cases hm <;> rfl) ?_
    obtain ⟨-, rfl⟩ := run_eq (r := e.checkWorkers) h
    rw [checkWorkers_loses]
    exact fun w hw => List.mem_append_left _ (List.mem_filter.mp hw).1
  | _ =>
    refine still rfl (run_filterMap _ h fun m hm => by cases hm <;> rfl) ?_
    rw [run_filterMap Section.loses h fun m hm => by cases hm <;> rfl]
    exact List.nil_subset _

end Executor

/-! ## Runs -/

namespace System
open Executor (Visits)
variable {α : Type} {s s' : System α} {e : Event α} {m : Mail}

theorem mail_shipped (h : s'.executor.inFlight ⊆ s.executor.inFlight) : (mail.next s e s' m).shipped = m.shipped := by
  funext w
  change m.shipped w ++ _ = m.shipped w
  rw [Executor.shippedTo_of_subset h, List.append_nil]

theorem visits_congr {m' : Mail} (hm : m'.shipped = m.shipped) {executor : Executor α} {accepted retrying : List WorkId}
    {lost : List WorkerId} (hv : Visits m executor accepted retrying lost) : Visits m' executor accepted retrying lost := by
  refine ⟨fun w => ?_, fun w => ?_, fun w hw => ?_, fun w hw v hv' => ?_, fun w x hx => ?_⟩ <;> rw [hm]
  exacts [hv.accepted w, hv.nodup w, hv.gone w hw, hv.apart w hw v hv', hv.current w x hx]

/-- **What an event does to the visits.** -/
theorem step_visits (h : s.step e = some s') (hs : Sound s) (hpool : s.executor.Pool s.lost) (hblank : m.Blank s.executor)
    (hv : Visits m s.executor s.accepted s.retrying s.lost) :
    Visits (mail.next s e s' m) s'.executor s'.accepted s'.retrying s'.lost := by
  have begins (hands : Thread → List (Section α)) (t : Thread) (body : List (Section α))
      (hbody : ∀ sec ∈ body, sec.retries = none ∧ sec.loses = none)
      (hhands : hands = Function.update s.hands t (s.hands t ++ body)) :
      Visits m s.executor s.accepted ({ s with hands := hands } : System α).retrying ({ s with hands := hands } : System α).lost := by
    have hretrying := filterMap_begin Section.retries { s with hands := hands } (fun sec hsec => (hbody sec hsec).1) hhands
    have hlost := filterMap_begin Section.loses { s with hands := hands } (fun sec hsec => (hbody sec hsec).2) hhands
    exact hv.mono (hlost.append_left _).subset (List.Subset.refl _) hretrying.subset (List.Subset.refl _) fun _ _ => id
  have still (hflight : s'.executor.inFlight ⊆ s.executor.inFlight)
      (hv' : Visits m s'.executor s'.accepted s'.retrying s'.lost) :
      Visits (mail.next s e s' m) s'.executor s'.accepted s'.retrying s'.lost :=
    visits_congr (mail_shipped hflight) hv'
  cases step_stepped h with
  | outside | submit | cancel | again =>
    refine still (List.Subset.refl _) ?_
    exact hv.mono (List.Subset.refl _) (List.Subset.refl _) (List.Subset.refl _) (List.Subset.refl _) fun _ _ => id
  | @append id hid =>
    refine still (List.Subset.refl _) ?_
    have hnew : id ∉ s.accepted := fun hold => (List.nodup_append.mp hs.fresh).2.2 id hold id hid rfl
    refine ⟨fun w x hx => List.mem_append_left _ (hv.accepted w x hx), hv.nodup, fun w hw x hx => ?_, hv.apart, hv.current⟩
    obtain ⟨hp, hr⟩ := hv.gone w hw x hx
    refine ⟨fun hm => ?_, hr⟩
    rcases List.mem_append.mp hm with hm | hm
    · exact hp hm
    · exact hnew (List.mem_singleton.mp hm ▸ hv.accepted w x hx)
  | @process _ w p hp =>
    refine still (List.Subset.refl _) ?_
    refine hv.mono (List.Subset.refl _) (List.Subset.refl _) (List.Subset.refl _) (List.Subset.refl _) fun v x hx => ?_
    rwa [Executor.modifyProcess_current] at hx
  | @begin _ t body _ hand hbody =>
    refine still (List.Subset.refl _) ?_
    exact begins _ t body (fun sec hsec => ⟨Section.retries_of_begins (hbody sec hsec),
      Section.loses_of_begins (hbody sec hsec)⟩) (by rw [hand, List.nil_append])
  | @deliver t w i r _ hand =>
    refine still (List.Subset.refl _) ?_
    have hv' := begins (Function.update s.hands t [.processResult r]) t [.processResult r]
      (List.forall_mem_singleton.mpr ⟨rfl, rfl⟩) (by rw [hand, List.nil_append])
    refine hv'.mono (List.Subset.refl _) (List.Subset.refl _) (List.Subset.refl _) (List.Subset.refl _) fun v x hx => ?_
    rwa [Executor.modifyProcess_current] at hx
  | contended hand =>
    refine still (List.Subset.refl _) ?_
    exact hv.mono ((filterMap_contended Section.loses _ rfl (fun _ => rfl) hand rfl).append_left _).subset
      (List.Subset.refl _) (filterMap_contended Section.retries _ rfl (fun _ => rfl) hand rfl).subset
      (List.Subset.refl _) fun _ _ => id
  | @shutdown wait =>
    refine still (List.Subset.refl _) ?_
    exact begins _ .shutdown _ (fun sec hsec => ⟨shutdownSections_retries _ wait sec hsec,
      shutdownSections_loses _ wait sec hsec⟩) rfl
  | @act t env sec rest r hand hrun =>
    obtain ⟨others, hretrying, hretrying'⟩ := filterMap_act Section.retries { s with
      executor := r.1, hands := Function.update s.hands t (r.2 ++ rest), returned := s.returned || sec.returns } hand rfl
    obtain ⟨others', hlost, hlost'⟩ := filterMap_act Section.loses { s with
      executor := r.1, hands := Function.update s.hands t (r.2 ++ rest), returned := s.returned || sec.returns } hand rfl
    by_cases hdispatch : sec = .maybeDispatch
    · subst hdispatch
      obtain ⟨executor, body⟩ := r
      obtain ⟨hok, rfl⟩ := Executor.run_maybeDispatch hrun
      have hcycle := Executor.DispatchSteps.mail (P := fun m e => m.Blank e ∧ Visits m e s.accepted s.retrying s.lost)
        (Executor.maybeDispatch_steps hs.pending hok) hs.marked hs.tidy hpool
        (fun htidy hpool hstaffing hboth => ⟨(hstaffing.posts htidy hpool hboth.1).1,
          hstaffing.visits htidy s.retrying_subset_held hboth.1 hboth.2⟩) ⟨hblank, hv⟩
      refine visits_congr (m := m.ship s.executor executor) ?_ ?_
      · rfl
      exact hcycle.2.mono ((hlost'.trans hlost.symm).append_left _).subset (List.Subset.refl _)
        (hretrying'.trans hretrying.symm).subset (List.Subset.refl _) fun _ _ => id
    · have hbefore : Visits m s.executor s.accepted (sec.retries.toList ++ others) (sec.loses.toList ++ others') :=
        hv.mono (hlost.symm.append_left _).subset (List.Subset.refl _) hretrying.symm.subset (List.Subset.refl _) fun _ _ => id
      have hafter := Executor.run_visits hrun hdispatch hs.pending (Reshapes.perm hlost.symm hpool).1 hbefore
      refine still (Executor.run_lands hrun hdispatch hs.flight_nodup).flight.subset ?_
      exact hafter.mono (hlost'.append_left _).subset (List.Subset.refl _) hretrying'.subset (List.Subset.refl _) fun _ _ => id

section Run
variable {cfg : Config} {profiles : ProfileStore}

theorem run_visits (h : Recorded mail (fun _ _ => True) (init cfg profiles) s m) :
    Visits m s.executor s.accepted s.retrying s.lost := by
  induction h with
  | start =>
    refine ⟨fun w x hx => (by cases hx), fun _ => List.nodup_nil, fun w hw => ?_, fun w hw => ?_, fun w x hx => by cases hx⟩
    · cases hw
    · cases hw
  | next hrun _ hstep ih =>
    obtain ⟨hs, hpool⟩ := hrun.reachable.sound
    exact step_visits hstep hs hpool (run_mail hrun).1 ih

/-- **No worker gets a task twice**: in every run, with whatever crashes, retries and timeouts, each attempt at a task is
made by a worker that has not had it before, and of the workers of the pool at most one has ever had it. -/
theorem no_worker_twice (h : Recorded mail (fun _ _ => True) (init cfg profiles) s m) :
    (∀ w, (m.shipped w).Nodup ∧ (m.reported w).Nodup) ∧
      (∀ w ∈ s.executor.workers, ∀ x ∈ m.shipped w, x ∉ s.executor.pending) ∧
        ∀ w ∈ s.executor.workers, ∀ v ∈ s.executor.workers, ∀ x ∈ m.shipped w, x ∈ m.shipped v → w = v := by
  have hv := run_visits h
  refine ⟨fun w => ⟨hv.nodup w, ?_⟩, fun w hw x hx => (hv.gone w (List.mem_append_left _ hw) x hx).1, fun w hw v hv' =>
    hv.apart w (List.mem_append_left _ hw) v (List.mem_append_left _ hv')⟩
  have horder := (mail_in_order h w).1
  have hnodup := hv.nodup w
  rw [horder] at hnodup
  exact hnodup.of_append_left

end Run

/-- The only worker is killed by the kernel, and the task of it is retried on the next one. -/
def retryElsewhere : List (Event ℕ) :=
  [.submit "x" plainRequest plainReading, .append "x", .call .dispatcher .maybeDispatch, .act .dispatcher plainEnv,
    .workerTake 0, .workerDie 0 (-9), .round .dispatcher] ++ List.replicate 8 (.act .dispatcher plainEnv)

theorem no_worker_twice_retried : ∃ (s : System ℕ) (m : Mail), m.shipped 0 = ["x"] ∧ m.shipped 1 = ["x"] ∧
    s.executor.workers = [1] ∧ ∀ w, (m.shipped w).Nodup ∧ (m.reported w).Nodup := by
  have hfacts : (playRecorded mail (fun _ _ => True) (init oneWorker {} : System ℕ) {} retryElsewhere).any (fun r =>
      decide (r.2.shipped 0 = ["x"] ∧ r.2.shipped 1 = ["x"] ∧ r.1.executor.workers = [1])) = true := by decide +kernel
  obtain ⟨⟨s, m⟩, hplay, hfacts⟩ := (Option.any_eq_true _ _).mp hfacts
  obtain ⟨hfirst, hsecond, hworkers⟩ := of_decide_eq_true hfacts
  exact ⟨s, m, hfirst, hsecond, hworkers, (no_worker_twice (Recorded.start.play hplay)).1⟩

end System

end AdaptiveExecutor
