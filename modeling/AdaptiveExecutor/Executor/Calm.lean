import AdaptiveExecutor.Executor.Workers

/-!
# Workers over whole runs

* `System.Calm` : the event runs no section that takes a task out of flight while its worker is still at it;
* `Stepped.tracked` : a calm event keeps the parent's view right; `calm_of_accurate` : and only a calm one does;
* `accurate_when_calm` : after calm steps the view is right, and one more step keeps it so exactly when it is calm;
* `accurate_fails` : a timeout in the `fail_future` mode breaks it, and so does an old result in either mode.
-/

namespace AdaptiveExecutor
open Ledger (Tidy)
open Relation (ReflTransGen)

namespace System
open Executor (Accurate Tracked)
variable {α : Type} {s s' : System α} {e : Event α}

def delivered (s : System α) : List (WorkResult α) := s.sections.flatMap Section.delivers

/-- If the event runs a section, then a calm one. -/
def Calm (s : System α) (e : Event α) : Prop := ∀ m ∈ s.nextSection e, s.executor.Calm m

instance (s : System α) (e : Event α) : Decidable (s.Calm e) :=
  inferInstanceAs (Decidable (∀ m ∈ s.nextSection e, s.executor.Calm m))

theorem tracked_begin (s : System α) (t : Thread) (body : List (Section α)) {executor : Executor α}
    (h : executor.Tracked s.accepted (body.flatMap Section.delivers ++ s.delivered) s.lost s.retrying)
    (hbody : ∀ m ∈ body, m.loses = none ∧ m.retries = none)
    (hhands : s'.hands = Function.update s.hands t (s.hands t ++ body)) :
    executor.Tracked s.accepted s'.delivered s'.lost s'.retrying := by
  obtain ⟨others, hbefore, hafter⟩ := sections_perm s t
  refine h.of_subset (fun r hr => ?_) (filterMap_begin Section.loses s' (fun m hm => (hbody m hm).1) hhands).subset
    (filterMap_begin Section.retries s' (fun m hm => (hbody m hm).2) hhands).subset
  have hr := ((hafter s' _ hhands).flatMap_right Section.delivers).subset hr
  have hold := (hbefore.flatMap_right Section.delivers).symm.subset
  rw [List.flatMap_append] at hold
  rw [List.flatMap_append, List.flatMap_append, List.append_assoc] at hr
  rcases List.mem_append.mp hr with hr | hr
  · exact List.mem_append_right _ (hold (List.mem_append_left _ hr))
  · exact (List.mem_append.mp hr).elim (List.mem_append_left _) fun hr =>
      List.mem_append_right _ (hold (List.mem_append_right _ hr))

theorem ProcessStep.tracked {w : WorkerId} {p : WorkerProcess α} {executor : Executor α} {accepted retrying : List WorkId}
    {results : List (WorkResult α)} {lost : List WorkerId} (hp : ProcessStep w (executor.slots w).process p)
    (ht : executor.Tracked accepted results lost retrying) :
    (executor.modifyProcess w fun _ => p).Tracked accepted results lost retrying := by
  cases hp with
  | take _ hidle hqueue =>
    refine ht.modifyProcess ?_ (fun r hr => .inr ⟨w, hr⟩) fun _ => .inl
    simp [Executor.unfinished, WorkerProcess.unfinished, hidle, hqueue, List.reduceOption_cons_of_some]
  | stop _ _ hqueue =>
    refine ht.modifyProcess ?_ (fun r hr => .inr ⟨w, hr⟩) fun _ => .inl
    simp [Executor.unfinished, WorkerProcess.unfinished, hqueue, List.reduceOption_cons_of_none]
  | put halive hitem hr hw => exact ht.put hitem hr hw
  | lose =>
    refine ht.modifyProcess ?_ (fun r hr => .inr ⟨w, hr⟩) fun _ => .inl
    exact (List.sublist_append_right _ _).map _
  | exit code =>
    exact ht.modifyProcess ((WorkerProcess.unfinished_exit _ code).symm ▸ .refl _)
      (fun r hr => .inr ⟨w, by rwa [WorkerProcess.resultQueue_exit] at hr⟩) fun _ => .inl

/-- **A calm event keeps the parent's view right.** -/
theorem Stepped.tracked (h : Stepped s e s') (hcalm : s.Calm e) (hs : Sound s) (hpool : s.executor.Pool s.lost)
    (ht : s.executor.Tracked s.accepted s.delivered s.lost s.retrying) :
    s'.executor.Tracked s'.accepted s'.delivered s'.lost s'.retrying := by
  cases h with
  | outside => exact ht.of_tasks rfl rfl rfl (List.Subset.refl _) rfl fun _ _ => rfl
  | @submit id r reading work profiles _ hid =>
    refine ht.of_tasks rfl rfl rfl (List.Subset.refl _) rfl fun x hx => congrArg PendingWork.workerId ?_
    refine Function.update_of_ne ?_ _ _
    rintro rfl
    exact hid (hs.issued x (List.mem_append_left _ (hs.tidy.known x (List.mem_append_right _ (List.mem_append_left _ hx)))))
  | @append id hid => exact ht.append fun h => (List.nodup_append.mp hs.fresh).2.2 id h id hid rfl
  | cancel => exact ht.of_tasks rfl rfl rfl (List.Subset.refl _) rfl fun _ _ => rfl
  | process hp => exact hp.tracked ht
  | @begin _ t body _ hand hbody =>
    refine tracked_begin s t body ?_ (fun m hm => ⟨Section.loses_of_begins (hbody m hm),
      Section.retries_of_begins (hbody m hm)⟩) (by rw [hand, List.nil_append])
    rwa [List.flatMap_eq_nil_iff.mpr fun m hm => Section.delivers_of_begins (hbody m hm), List.nil_append]
  | @deliver t w i r _ hand hr hopen =>
    have hqueue : r ∈ (s.executor.slots w).process.resultQueue := List.mem_of_getElem? hr
    refine tracked_begin s t [.processResult r] ?_ (fun m hm => ?_) (by rw [hand, List.nil_append])
    · refine ht.modifyProcess (f := fun p => { p with resultQueue := p.resultQueue.eraseIdx i }) (.refl _)
        (fun r' hr' => .inr ⟨w, List.eraseIdx_subset hr'⟩) fun r' hr' => ?_
      rcases List.mem_cons.mp hr' with rfl | hr'
      exacts [.inr ⟨w, hqueue⟩, .inl hr']
    · rw [List.mem_singleton.mp hm]
      exact ⟨rfl, rfl⟩
  | @act t env m rest r hand hrun =>
    generalize hs' : ({ s with
      executor := r.1, hands := Function.update s.hands t (r.2 ++ rest), returned := s.returned || m.returns } : System α) =
        s'
    have hhands : s'.hands = Function.update s.hands t (r.2 ++ rest) := by rw [← hs']
    have hexecutor : s'.executor = r.1 ∧ s'.accepted = s.accepted := by rw [← hs']; exact ⟨rfl, rfl⟩
    obtain ⟨held, hheld, -⟩ := filterMap_act Section.owns s' hand hhands
    obtain ⟨lost, hlost, hlost'⟩ := filterMap_act Section.loses s' hand hhands
    obtain ⟨retrying, hretrying, hretrying'⟩ := filterMap_act Section.retries s' hand hhands
    obtain ⟨results, hresults, hresults'⟩ := flatMap_act Section.delivers s' hand hhands
    have hrun' := Executor.run_tracked hrun (hcalm m (by simp [nextSection, hand])) hs.marked (hs.tidy_of_perm hheld)
      (Reshapes.perm hlost.symm hpool).1 (fun x hx => hheld.subset (s.retrying_subset_held (hretrying.symm.subset hx)))
      (ht.of_subset hresults.symm.subset hlost.symm.subset hretrying.symm.subset)
    rw [hexecutor.1, hexecutor.2]
    exact hrun'.of_subset hresults'.subset hlost'.subset hretrying'.subset
  | @shutdown wait =>
    refine tracked_begin s .shutdown (Executor.shutdownSections s.started wait) ?_
      (fun m hm => ⟨shutdownSections_loses _ wait m hm, shutdownSections_retries _ wait m hm⟩) rfl
    rwa [Section.shutdownSections_delivers]
  | @contended t w results rest hand =>
    have hresults := flatMap_contended Section.delivers
      { s with hands := Function.update s.hands t (results.map .processResult ++ rest) }
      (Section.flatMap_delivers results) hand rfl
    exact ht.of_subset hresults.subset (filterMap_contended Section.loses _ rfl (fun _ => rfl) hand rfl).subset
      (filterMap_contended Section.retries _ rfl (fun _ => rfl) hand rfl).subset
  | again => exact ht

/-- **Only a calm section** keeps the parent's view right. -/
theorem calm_of_accurate {t : Thread} {env : Env} {m : Section α} {rest body : List (Section α)} {executor : Executor α}
    (hand : s.hands t = m :: rest) (hrun : s.executor.run env m = some (executor, body)) (hs : Sound s)
    (ht : s.executor.Tracked s.accepted s.delivered s.lost s.retrying) (haccurate : executor.Accurate) :
    s.executor.Calm m := by
  intro x hx hf w hw hid hunfinished
  have hnodup : s.executor.inFlight.Nodup := hs.tidy.nodup.of_append_right.of_append_left
  have hrunning : s.executor.futures x = .running := hs.tidy.running x (List.mem_append_left _ hf)
  -- the worker stays in the pool, still at a task that has left flight
  have hbroken (hflight : executor.inFlight = s.executor.inFlight.erase x) (hw : w ∈ executor.workers)
      (hx : x ∈ executor.unfinished w) : False :=
    hnodup.not_mem_erase (hflight ▸ (haccurate.current w hw x hx).2)
  cases m with
  | processResult r =>
    obtain rfl : r.id = x := Option.some.inj hx
    obtain ⟨hexecutor, -⟩ := Executor.run_eq (r := s.executor.processResult r) hrun
    obtain ⟨-, hkeeps, hstay⟩ := Executor.clearWorker_keeps s.executor r
    have hlive : s.executor.Live s.delivered r := .inl (List.mem_flatMap.mpr
      ⟨.processResult r, mem_sections.mpr ⟨t, hand ▸ List.mem_cons_self⟩, List.mem_singleton.mpr rfl⟩)
    have hne : w ≠ r.workerId := by
      rintro rfl
      exact (ht.result r hlive hw).2 hunfinished
    obtain ⟨slots, workers, retiring, hframe⟩ := Executor.clearWorker_frame s.executor r
    have hflight : (s.executor.clearWorker r).inFlight = s.executor.inFlight := by rw [hframe]
    have hpop : executor = (s.executor.clearWorker r).popInFlight r.id := by
      rw [← hexecutor, Executor.processResult]
      split_ifs with hout
      exacts [rfl, rfl, absurd (hflight ▸ hf) hout]
    subst hpop
    exact hbroken (congrArg (List.erase · r.id) hflight) (hstay w hw hne) ((hkeeps w).symm ▸ hunfinished)
  | handleTimeout y =>
    obtain ⟨hmode, hyx⟩ := Option.ite_none_right_eq_some.mp hx
    obtain rfl := Option.some.inj hyx
    obtain ⟨hexecutor, -⟩ := Executor.run_eq (r := s.executor.handleTimeout y) hrun
    obtain ⟨hflight, hworkers, hkeeps⟩ := Executor.handleTimeout_leaves hmode hf hrunning
    subst hexecutor
    exact hbroken hflight (hworkers.symm ▸ hw) ((hkeeps w).symm ▸ hunfinished)
  | _ => cases hx

theorem init_tracked (cfg : Config) (profiles : ProfileStore) : (init cfg profiles : System α).executor.Tracked
    (init cfg profiles : System α).accepted (init cfg profiles : System α).delivered (init cfg profiles : System α).lost
      (init cfg profiles : System α).retrying := by
  have hlive (r : WorkResult α) : ¬ (init cfg profiles : System α).executor.Live (init cfg profiles : System α).delivered r := by
    rintro (hr | ⟨w, hr⟩)
    · cases hr
    · cases hr
  exact ⟨⟨fun _ h => (by cases h), fun _ h => by cases h⟩, fun _ h => (by rcases h with h | h <;> cases h),
    fun r hr => absurd hr (hlive r), fun w hw => absurd rfl hw, fun r hr => absurd hr (hlive r)⟩

theorem run_tracked {cfg : Config} {profiles : ProfileStore} (h : ReflTransGen (NextWhen Calm) (init cfg profiles) s) :
    s.executor.Tracked s.accepted s.delivered s.lost s.retrying := by
  induction h with
  | refl => exact init_tracked cfg profiles
  | tail hrun h ih =>
    obtain ⟨e, hcalm, h⟩ := h
    obtain ⟨hs, hpool⟩ := Reachable.sound ⟨cfg, profiles, run_of_when hrun⟩
    exact (step_stepped h).tracked hcalm hs hpool ih

/-- **A worker gets new work only when it is idle, as long as all steps are calm**: then every worker of the pool has at
most one unfinished item, its current one, in flight. The next step keeps this exactly when it is calm. -/
theorem accurate_when_calm {cfg : Config} {profiles : ProfileStore}
    (h : ReflTransGen (NextWhen Calm) (init cfg profiles) s) :
    s.executor.Accurate ∧ ∀ e s', s.step e = some s' → (s'.executor.Accurate ↔ s.Calm e) := by
  have ht := run_tracked h
  obtain ⟨hs, hpool⟩ := Reachable.sound ⟨cfg, profiles, run_of_when h⟩
  refine ⟨ht.accurate, fun e s' hstep => ⟨fun haccurate m hm => ?_, fun hcalm => ?_⟩⟩
  · cases e with
    | act t env =>
      simp only [step] at hstep
      split at hstep
      · cases hstep
      · rename_i m' rest hand
        obtain ⟨r, hrun, rfl⟩ := Option.map_eq_some_iff.mp hstep
        obtain rfl : m' = m := by simpa [nextSection, hand] using hm
        exact calm_of_accurate hand hrun hs ht haccurate
    | _ => cases hm
  · exact ((step_stepped hstep).tracked hcalm hs hpool ht).accurate

/-! ## Runs that are calm, and runs that are not -/

def plainReport : Report Unit := ⟨true, some (), none, ⟨1, 0, 100, 1⟩⟩

/-- The worker takes the task, puts its result, and the collector processes it. -/
def completeOne : List (Event Unit) :=
  shipOne ++ .workerTake 0 :: .workerPut 0 plainReport :: .round .collector :: List.replicate 5 (.act .collector plainEnv)

theorem accurate_when_calm_completed : ∃ s : System Unit, s.executor.workers = [0] ∧ s.executor.inFlight = [] ∧
    s.executor.Accurate ∧ ∀ e s', s.step e = some s' → (s'.executor.Accurate ↔ s.Calm e) := by
  obtain ⟨s, hs⟩ := Option.isSome_iff_exists.mp
    (show ((init oneWorker {} : System Unit).playWhen Calm completeOne).isSome = true by decide +kernel)
  have hfacts : ((init oneWorker {} : System Unit).playWhen Calm completeOne).map
      (fun s => (s.executor.workers, s.executor.inFlight)) = some ([0], []) := by decide +kernel
  rw [hs] at hfacts
  obtain ⟨hworkers, hflight⟩ := Prod.mk.inj (Option.some.inj hfacts)
  exact ⟨s, hworkers, hflight, accurate_when_calm (playWhen_run hs)⟩

/-- The task of the only worker times out, and the next one is shipped to it while it is still at the first. -/
def timeOutBusy : List (Event Unit) :=
  shipOne ++ [.submit "y" plainRequest plainReading, .append "y", .workerTake 0, .tick 301, .round .timeouts,
    .act .timeouts plainEnv, .act .timeouts plainEnv, .act .timeouts plainEnv, .round .dispatcher, .act .dispatcher plainEnv,
    .act .dispatcher plainEnv]

/-- The collector has read the result when the worker is killed; the task is retried on a new worker, and then the
result of the first attempt is processed. -/
def retryStale : List (Event Unit) :=
  shipOne ++ .workerTake 0 :: .workerPut 0 plainReport :: .round .collector ::
    List.replicate 3 (.act .collector plainEnv) ++ .workerDie 0 (-9) :: .round .dispatcher ::
      List.replicate 8 (.act .dispatcher plainEnv) ++ List.replicate 2 (.act .collector plainEnv)

theorem accurate_fails :
    (∃ s : System Unit, Reachable s ∧ s.executor.cfg.onTimeout = .failFuture ∧ ¬ s.executor.Accurate) ∧
      ∃ s : System Unit, Reachable s ∧ s.executor.cfg.onTimeout = .killWorker ∧ ¬ s.executor.Accurate := by
  constructor
  · obtain ⟨s, hs⟩ := Option.isSome_iff_exists.mp
      (show ((init oneWorker {} : System Unit).play timeOutBusy).isSome = true by decide +kernel)
    have hfacts : ((init oneWorker {} : System Unit).play timeOutBusy).map (fun s =>
        (s.executor.cfg.onTimeout, s.executor.workers, s.executor.unfinished 0)) = some (.failFuture, [0], ["x", "y"]) := by
      decide +kernel
    rw [hs] at hfacts
    obtain ⟨hmode, hworkers, hunfinished⟩ : s.executor.cfg.onTimeout = .failFuture ∧ s.executor.workers = [0] ∧
        s.executor.unfinished 0 = ["x", "y"] := by simpa using hfacts
    refine ⟨s, play_reachable hs, hmode, fun h => ?_⟩
    have hone := h.one 0 (by simp [hworkers])
    rw [hunfinished] at hone
    exact absurd hone (by decide)
  · obtain ⟨s, hs⟩ := Option.isSome_iff_exists.mp
      (show ((init { oneWorker with onTimeout := .killWorker } {} : System Unit).play retryStale).isSome = true by
        decide +kernel)
    have hfacts : ((init { oneWorker with onTimeout := .killWorker } {} : System Unit).play retryStale).map (fun s =>
        (s.executor.cfg.onTimeout, s.executor.workers, s.executor.unfinished 1, s.executor.inFlight)) =
          some (.killWorker, [1], ["x"], []) := by decide +kernel
    rw [hs] at hfacts
    obtain ⟨hmode, hworkers, hunfinished, hflight⟩ : s.executor.cfg.onTimeout = .killWorker ∧
        s.executor.workers = [1] ∧ s.executor.unfinished 1 = ["x"] ∧ s.executor.inFlight = [] := by simpa using hfacts
    refine ⟨s, play_reachable hs, hmode, fun h => ?_⟩
    have hf := (h.current 1 (by simp [hworkers]) "x" (by simp [hunfinished])).2
    rw [hflight] at hf
    cases hf

end System

end AdaptiveExecutor
