import AdaptiveExecutor.Executor.Flight

/-!
# The steps of one task

What an event does to a task, wherever the task is.

* `SameRetry`, `maybeDispatch_sameRetry` : a dispatch cycle keeps what a task is and how often it has been retried, and
  once it has been retried, its estimate;
* `maybeDispatch_keeps`, `maybeDispatch_ships` : the tasks that are not queued, and those that the cycle ships;
* `run_works` : the other sections;
* `TaskStep`, `step_task` : all events.
-/

namespace AdaptiveExecutor

/-- What a dispatch cycle keeps of a task. Only the estimate of a task that has not been retried is refreshed. -/
structure SameRetry (w w' : PendingWork) : Prop where
  fnModule : w'.fnModule = w.fnModule
  fnName : w'.fnName = w.fnName
  profileKey : w'.profileKey = w.profileKey
  retryCount : w'.retryCount = w.retryCount
  exclusive : w'.exclusive = w.exclusive
  estimate : 0 < w.retryCount → w'.estimate = w.estimate

theorem SameRetry.refl (w : PendingWork) : SameRetry w w := ⟨rfl, rfl, rfl, rfl, rfl, fun _ => rfl⟩

theorem SameRetry.trans {w w' w'' : PendingWork} (h : SameRetry w w') (h' : SameRetry w' w'') : SameRetry w w'' := by
  refine ⟨h'.fnModule.trans h.fnModule, h'.fnName.trans h.fnName, h'.profileKey.trans h.profileKey,
    h'.retryCount.trans h.retryCount, h'.exclusive.trans h.exclusive, fun hk => ?_⟩
  rw [h'.estimate (h.retryCount ▸ hk), h.estimate hk]

namespace Executor
variable {α : Type} {env : Env} {e e' : Executor α}

/-! ## Dispatch cycles -/

theorem updateObserved_sameRetry (env : Env) (now : ℚ) (w : PendingWork) : SameRetry w (updateObserved env now w) := by
  obtain ⟨_, _, _, h⟩ := updateObserved_frame env now w
  rw [h]
  exact ⟨rfl, rfl, rfl, rfl, rfl, fun _ => rfl⟩

theorem update_sameRetry (works : WorkId → PendingWork) {id : WorkId} {work : PendingWork}
    (h : SameRetry (works id) work) (x : WorkId) : SameRetry (works x) (Function.update works id work x) := by
  rw [Function.update_apply]
  split_ifs with hx
  · rwa [hx]
  · exact .refl _

theorem foldl_sameRetry {f : Executor α → WorkId → Executor α}
    (hf : ∀ e id x, SameRetry (e.works x) ((f e id).works x)) (x : WorkId) : ∀ (ids : List WorkId) (e : Executor α),
    SameRetry (e.works x) ((ids.foldl f e).works x)
  | [], _ => .refl _
  | id :: ids, e => (hf e id x).trans (foldl_sameRetry hf x ids (f e id))

theorem reestimateOne_sameRetry (now : ℚ) (e : Executor α) (id x : WorkId) :
    SameRetry (e.works x) ((e.reestimateOne now id).works x) := by
  unfold reestimateOne
  dsimp only
  split_ifs with hretried
  · exact .refl _
  · exact .refl _
  · refine update_sameRetry e.works ?_ x
    exact ⟨rfl, rfl, rfl, rfl, rfl, fun _ => rfl⟩
  · refine update_sameRetry e.works ?_ x
    exact ⟨rfl, rfl, rfl, rfl, rfl, fun h => absurd h hretried⟩

theorem prepare_sameRetry (e : Executor α) (x : WorkId) : SameRetry (e.works x) (e.prepare.works x) := by
  obtain ⟨futures, hsweep⟩ := sweepInfeasible_frame (e.reestimatePending e.clock).snapshot
    (e.reestimatePending e.clock).pending (e.reestimatePending e.clock)
  have hworks : e.prepare.works = (e.reestimatePending e.clock).works := by
    unfold prepare
    dsimp only
    rw [hsweep]
  rw [hworks]
  exact foldl_sameRetry (fun e id x => reestimateOne_sameRetry _ e id x) x e.pending e

theorem ready_sameRetry (env : Env) (e : Executor α) (x : WorkId) : SameRetry (e.works x) ((e.ready env).works x) := by
  have hplanned : SameRetry (e.works x) ((e.planned env).works x) := by
    refine (prepare_sameRetry e x).trans (foldl_sameRetry (fun e id x => ?_) x _ _)
    unfold refreshOne
    split_ifs
    · exact .refl _
    · exact update_sameRetry e.works (updateObserved_sameRetry env _ _) x
  refine hplanned.trans (foldl_sameRetry (fun e id x => ?_) x (e.planned env).pending (e.planned env))
  refine update_sameRetry e.works ?_ x
  exact ⟨rfl, rfl, rfl, rfl, rfl, fun _ => rfl⟩

theorem Handled.sameRetry {d : DispatchDecision} {fate : Fate} (h : Handled env e d fate e') (x : WorkId) :
    SameRetry (e.works x) (e'.works x) := by
  cases h with
  | left hacquire =>
    obtain ⟨_, _, _, _, rfl⟩ := acquireWorker_frame hacquire
    exact .refl _
  | dropped hacquire =>
    obtain ⟨_, _, _, _, rfl⟩ := acquireWorker_frame hacquire
    exact .refl _
  | @shipped e₁ e₂ w hacquire hstarted =>
    obtain ⟨_, _, _, _, rfl⟩ := acquireWorker_frame hacquire
    have hship : SameRetry (e₂.works x) ((e₂.ship env d.pendingId d.gpuId w).works x) := by
      refine update_sameRetry e₂.works ?_ x
      exact ⟨rfl, rfl, rfl, rfl, rfl, fun _ => rfl⟩
    rcases hstarted with ⟨-, rfl⟩ | ⟨-, -, rfl⟩
    · exact hship
    · refine SameRetry.trans (update_sameRetry e.works ?_ x) hship
      exact ⟨rfl, rfl, rfl, rfl, rfl, fun _ => rfl⟩

theorem Handling.sameRetry {ds : List (DispatchDecision × Fate)} (h : Handling env e ds e') (x : WorkId) :
    SameRetry (e.works x) (e'.works x) := by
  induction h with
  | nil => exact .refl _
  | cons h _ ih => exact (h.sameRetry x).trans ih

/-- **What a cycle keeps of every task.** -/
theorem maybeDispatch_sameRetry (h : e.maybeDispatch env = .ok e') (x : WorkId) : SameRetry (e.works x) (e'.works x) := by
  rcases maybeDispatch_planned h with ⟨-, rfl⟩ | ⟨-, rfl⟩ | ⟨hs, e₁, hhandling, -, rfl⟩
  · exact .refl _
  · exact prepare_sameRetry e x
  · exact (ready_sameRetry env e x).trans (hhandling.sameRetry x)

theorem Handling.untouched {ds : List (DispatchDecision × Fate)} (h : Handling env e ds e') {x : WorkId}
    (hx : x ∉ (ds.map Prod.fst).map DispatchDecision.pendingId) : e'.works x = e.works x := by
  induction h with
  | nil => rfl
  | cons h _ ih =>
    rw [List.map_cons, List.map_cons, List.mem_cons, not_or] at hx
    rw [ih hx.2, h.works.1 x hx.1]

theorem maybeDispatch_keeps {β : Type} {g : PendingWork → β} (hg : ∀ w, g (updateObserved env e.clock w) = g w)
    (h : e.maybeDispatch env = .ok e') (hnodup : e.pending.Nodup) {x : WorkId} (hx : x ∉ e.pending) :
    g (e'.works x) = g (e.works x) := by
  rcases maybeDispatch_planned h with ⟨-, rfl⟩ | ⟨-, rfl⟩ | ⟨hs, e₁, hhandling, hfst, rfl⟩
  · rfl
  · rw [(prepare_frame e).1 x hx]
  · have hout : x ∉ (hs.map Prod.fst).map DispatchDecision.pendingId := by
      rw [hfst]
      exact fun hd => hx ((decisions_sublist env hnodup).subset hd)
    change g (e₁.works x) = _
    rw [hhandling.untouched hout]
    exact ready_keeps hg hnodup hx

theorem maybeDispatch_clock (h : e.maybeDispatch env = .ok e') : e'.clock = e.clock := by
  rcases maybeDispatch_planned h with ⟨-, rfl⟩ | ⟨-, rfl⟩ | ⟨hs, e₁, hhandling, -, rfl⟩
  · rfl
  · obtain ⟨-, _, _, _, _, hframe⟩ := prepare_frame e
    rw [hframe]
  · change e₁.clock = e.clock
    rw [hhandling.frame.2.2.2, ready_clock]

theorem Handled.started {d : DispatchDecision} {w : WorkerId} (h : Handled env e d (.shipped w) e') :
    (e'.works d.pendingId).startedAt = some e.clock := by
  cases h with
  | @shipped e₁ e₂ _ hacquire hstarted =>
    obtain ⟨_, _, _, _, rfl⟩ := acquireWorker_frame hacquire
    have hself : (e₂.ship env d.pendingId d.gpuId w).works d.pendingId = captureBaseline env e₂.clock
        (e₂.slots w).process.pid d.gpuId { e₂.works d.pendingId with
          assignedGpuId := d.gpuId, workerId := some w, startedAt := some e₂.clock } := Function.update_self _ _ _
    rw [hself]
    rcases hstarted with ⟨-, rfl⟩ | ⟨-, -, rfl⟩ <;> rfl

theorem Handling.started {ds : List (DispatchDecision × Fate)} (h : Handling env e ds e')
    (hnodup : ((ds.map Prod.fst).map DispatchDecision.pendingId).Nodup) {x : WorkId} (hx : x ∈ fated Fate.ships ds) :
    (e'.works x).startedAt = some e.clock := by
  induction h with
  | nil => cases hx
  | @cons e e₁ e' d fate ds h hrest ih =>
    rw [List.map_cons, List.map_cons, List.nodup_cons] at hnodup
    rw [fated_cons] at hx
    rcases List.mem_append.mp hx with hx | hx
    · cases fate with
      | left => cases hx
      | dropped => cases hx
      | shipped w =>
        obtain rfl := List.mem_singleton.mp hx
        rw [hrest.untouched hnodup.1]
        exact h.started
    · rw [ih hnodup.2 hx, h.frame.2.2.2]

/-- **What a cycle ships** was queued, and starts now. -/
theorem maybeDispatch_ships (h : e.maybeDispatch env = .ok e') (hnodup : e.pending.Nodup)
    (hqueued : ∀ x ∈ e.pending, x ∉ e.inFlight) {x : WorkId} (hx : x ∈ e'.inFlight) (hnew : x ∉ e.inFlight) :
    x ∈ e.pending ∧ (e'.works x).startedAt = some e.clock := by
  rcases maybeDispatch_planned h with ⟨-, rfl⟩ | ⟨-, rfl⟩ | ⟨hs, e₁, hhandling, hfst, rfl⟩
  · exact absurd hx hnew
  · obtain ⟨-, _, _, _, _, hframe⟩ := prepare_frame e
    rw [hframe] at hx
    exact absurd hx hnew
  · have hdecided : ((hs.map Prod.fst).map DispatchDecision.pendingId).Sublist e.pending := by
      rw [hfst]
      exact decisions_sublist env hnodup
    have hfated := (hhandling.flight (hnodup.sublist hdecided) fun d hd => by
      rw [ready_inFlight]
      exact hqueued _ (hdecided.subset (List.mem_map_of_mem (List.mem_map_of_mem hd)))).1
    change x ∈ e₁.inFlight at hx
    rw [hfated, ready_inFlight] at hx
    have hx := (List.mem_append.mp hx).resolve_left hnew
    refine ⟨hdecided.subset ((fated_sublist _ hs).subset hx), ?_⟩
    rw [← ready_clock env e]
    exact hhandling.started (hnodup.sublist hdecided) hx

/-! ## The other sections -/

/-- What a section does to task `x`, apart from where it is. -/
inductive WorkStep (m : Section α) (x : WorkId) (w : PendingWork) : PendingWork → Prop
  | same (hm : m.retries ≠ some x) : WorkStep m x w w
  | ignored (hm : m.retries ≠ some x) : WorkStep m x w { w with resultIgnored := true }
  | penalized (hm : m = .penalizeEstimate x) :
    WorkStep m x w { w with estimate := penalized w.estimate, exclusive := true }
  | retried (hm : m = .requeue x) : WorkStep m x w (retried w)

/-- **Every section but a dispatch cycle**: what it does to a task, and what it puts into the queue. -/
theorem run_works {m : Section α} {body : List (Section α)} (h : e.run env m = some (e', body)) (hm : m ≠ .maybeDispatch)
    (x : WorkId) : e'.clock = e.clock ∧ (x ∈ e'.pending → x ∈ e.pending ∨ m = .requeue x) ∧
      WorkStep m x (e.works x) (e'.works x) := by
  have of_update {id : WorkId} {work : PendingWork} (hm : x ≠ id → m.retries ≠ some x)
      (h : x = id → WorkStep m x (e.works x) work) : WorkStep m x (e.works x) (Function.update e.works id work x) := by
    rw [Function.update_apply]
    split_ifs with hx
    · exact h hx
    · exact .same (hm hx)
  cases run_step h hm with
  | workers hm => exact ⟨rfl, .inl, .same (by simp [hm])⟩
  | leaves hm id _ _ _ hworks =>
    have hm : m.retries ≠ some x := by simp [hm]
    refine ⟨rfl, .inl, ?_⟩
    rcases hworks with rfl | rfl
    · exact .same hm
    · refine of_update (fun _ => hm) ?_
      rintro rfl
      exact .ignored hm
  | record | settle => exact ⟨rfl, .inl, .same nofun⟩
  | failPendingFutures =>
    obtain ⟨futures, hframe⟩ := failPendingFutures_frame e
    rw [hframe]
    exact ⟨rfl, fun hx => (by cases hx), .same nofun⟩
  | penalizeEstimate id =>
    refine ⟨rfl, .inl, of_update (fun hx hm => hx (Option.some.inj hm).symm) ?_⟩
    rintro rfl
    exact .penalized rfl
  | requeue id =>
    refine ⟨rfl, fun hx => ?_, of_update (fun hx hm => hx (Option.some.inj hm).symm) ?_⟩
    · rcases List.mem_cons.mp hx with rfl | hx
      · exact .inr rfl
      · exact .inl hx
    · rintro rfl
      exact .retried rfl

/-- The retry of a task begins when its worker, found dead, has not been stopped. -/
theorem takeLost_retries {w : WorkerId} {x : WorkId} (h : .penalizeEstimate x ∈ (e.takeLost w).2) :
    (e.slots w).currentWorkId = some x ∧ x ∈ e.inFlight ∧ (e.slots w).intentionallyStopped = false ∧
      e.shouldRetryResourceCrash (e.slots w).process.exitcode x = true := by
  unfold takeLost at h
  split at h
  · cases h
  · rename_i id hcur
    dsimp only at h
    split_ifs at h with hstopped hlost hretry
    · cases h
    · obtain rfl := Section.penalizeEstimate.inj (List.mem_singleton.mp h)
      exact ⟨hcur, hlost, Bool.eq_false_iff.mpr hstopped, hretry⟩
    · cases List.mem_singleton.mp h
    · cases h

end Executor

/-! ## Events -/

namespace System
variable {α : Type} {s s' : System α} {e : Event α} {x : WorkId}

/-- The task waits to be queued, or to be dispatched. -/
def Waiting (s : System α) (x : WorkId) : Prop := x ∈ s.submitting ∨ x ∈ s.executor.pending

theorem Sound.waiting (hs : Sound s) (hx : s.Waiting x) : x ∉ s.executor.inFlight ∧ x ∉ s.held := by
  rcases hx with hx | hx
  · have hout : x ∉ s.accepted := fun ha => (List.nodup_append.mp hs.fresh).2.2 x ha x hx rfl
    exact ⟨fun hf => hout (hs.tidy.known x (List.mem_append_right _ (List.mem_append_left _ hf))),
      fun hh => hout (hs.tidy.known x (List.mem_append_right _ (List.mem_append_right _ hh)))⟩
  · exact ⟨hs.queued_not_flight x hx, fun hh =>
      (List.nodup_append.mp hs.tidy.nodup).2.2 x hx x (List.mem_append_right _ hh) rfl⟩

theorem Sound.owns_inj (hs : Sound s) {m m' : Section α} (hm : m ∈ s.sections) (hm' : m' ∈ s.sections)
    (hx : m.owns = some x) (hx' : m'.owns = some x) : m = m' := by
  have hnodup : s.held.Nodup := hs.tidy.nodup.of_append_right.of_append_right
  have hpairs := List.pairwise_filterMap.mp hnodup
  have hsymm : Std.Symm fun a b : Section α => ∀ c, a.owns = some c → ∀ d, b.owns = some d → c ≠ d :=
    ⟨fun a b h c hc d hd hcd => h d hd c hc hcd.symm⟩
  by_contra hne
  exact hpairs.forall hm hm' hne x hx x hx' rfl

theorem Sound.issued_of_place (hs : Sound s) (hx : s.Waiting x ∨ x ∈ s.executor.inFlight ∨ x ∈ s.held) : x ∈ s.issued := by
  have known (hx : x ∈ s.executor.pending ++ (s.executor.inFlight ++ s.held)) : x ∈ s.issued :=
    hs.issued x (List.mem_append_left _ (hs.tidy.known x hx))
  rcases hx with (hx | hx) | hx | hx
  · exact hs.issued x (List.mem_append_right _ hx)
  · exact known (List.mem_append_left _ hx)
  · exact known (List.mem_append_right _ (List.mem_append_left _ hx))
  · exact known (List.mem_append_right _ (List.mem_append_right _ hx))

/-- Nothing happens to a task, but that it may leave its place, or become queued. -/
structure Stays (s : System α) (e : Event α) (s' : System α) (x : WorkId) : Prop where
  work : SameRetry (s.executor.works x) (s'.executor.works x)
  kept : x ∉ s.executor.pending → (s'.executor.works x).estimate = (s.executor.works x).estimate ∧
    (s'.executor.works x).startedAt = (s.executor.works x).startedAt
  next : ∀ m ∈ s.nextSection e, m.retries ≠ some x
  issued : x ∈ s.issued → x ∈ s'.issued
  waiting : s'.Waiting x → s.Waiting x
  flight : x ∈ s'.executor.inFlight → x ∈ s.executor.inFlight
  retrying : ∀ m ∈ s'.sections, m.retries = some x → m ∈ s.sections

/-- What an event does to task `x`. -/
inductive TaskStep (s : System α) (e : Event α) (s' : System α) (x : WorkId) : Prop
  | stays (h : Stays s e s' x)
  | submitted (hnew : x ∉ s.issued) (hnext : s.nextSection e = none) (hsubmitting : x ∈ s'.submitting)
    (hflight : s'.executor.inFlight = s.executor.inFlight) (hretry : (s'.executor.works x).retryCount = 0)
  | shipped (hnext : s.nextSection e = some .maybeDispatch) (hpending : x ∈ s.executor.pending)
    (hflight : x ∈ s'.executor.inFlight) (hwork : SameRetry (s.executor.works x) (s'.executor.works x))
    (hstarted : (s'.executor.works x).startedAt = some s.executor.clock)
  | crashed {w : WorkerId} (hnext : s.nextSection e = some (.takeLost w)) (hflight : x ∈ s.executor.inFlight)
    (hretry : s.executor.shouldRetryResourceCrash (s.executor.slots w).process.exitcode x = true)
    (hsection : .penalizeEstimate x ∈ s'.sections) (hwork : s'.executor.works x = s.executor.works x)
  | penalized (hnext : s.nextSection e = some (.penalizeEstimate x)) (hsection : .requeue x ∈ s'.sections)
    (hflight : s'.executor.inFlight = s.executor.inFlight)
    (hwork : s'.executor.works x = { s.executor.works x with
      estimate := Executor.penalized (s.executor.works x).estimate
      exclusive := true })
  | requeued (hnext : s.nextSection e = some (.requeue x)) (hpending : x ∈ s'.executor.pending)
    (hflight : s'.executor.inFlight = s.executor.inFlight)
    (hwork : s'.executor.works x = Executor.retried (s.executor.works x))

theorem submit_retryCount {id : WorkId} {r : Executor.Request} {reading : ResourceSnapshot}
    (h : s.step (.submit id r reading) = some s') (hid : id ∈ s'.issued) : (s'.executor.works id).retryCount = 0 := by
  simp only [step] at h
  split_ifs at h with hcond
  obtain rfl := Option.some.inj h
  unfold submit at hid ⊢
  dsimp only at hid ⊢
  split
  · rename_i error herror
    rw [herror] at hid
    exact absurd hid hcond.2.2
  · change (Function.update s.executor.works id _ id).retryCount = 0
    rw [Function.update_self]
    rfl

theorem Stepped.retrying (h : Stepped s e s') (hnext : s.nextSection e = none) {m : Section α} (hm : m ∈ s'.sections)
    (hr : m.retries = some x) : m ∈ s.sections := by
  refine (h.comes (p := fun m => m.retries = some x) (fun m hm hr => ?_) (fun r hr => ?_) (fun started wait m hm hr => ?_) hm
    hr).resolve_right ?_
  · rw [Section.retries_of_begins hm] at hr
    cases hr
  · cases hr
  · rw [shutdownSections_retries started wait m hm] at hr
    cases hr
  · rintro ⟨m', env, body, hnext', -⟩
    rw [hnext] at hnext'
    cases hnext'

theorem Stepped.task (h : Stepped s e s') (hnext : s.nextSection e = none)
    (hretry : ∀ id r reading, e = .submit id r reading → id ∈ s'.issued → (s'.executor.works id).retryCount = 0)
    (x : WorkId) : TaskStep s e s' x := by
  have next : ∀ m ∈ s.nextSection e, m.retries ≠ some x := by
    rw [hnext]
    intro m hm
    cases hm
  have retrying : ∀ m ∈ s'.sections, m.retries = some x → m ∈ s.sections := fun m hm hr => h.retrying hnext hm hr
  cases h with
  | outside | cancel | process | begin | deliver | shutdown | contended | again =>
    exact .stays ⟨.refl _, fun _ => ⟨rfl, rfl⟩, next, id, id, id, retrying⟩
  | @submit id r reading work profiles _ hid =>
    by_cases hx : x = id
    · subst hx
      have hissued : x ∈ s.issued ++ [x] := List.mem_append_right _ List.mem_cons_self
      have hsubmitting : x ∈ s.submitting ++ [x] := List.mem_append_right _ List.mem_cons_self
      exact .submitted hid hnext hsubmitting rfl (hretry x r reading rfl hissued)
    · have hwork : Function.update s.executor.works id work x = s.executor.works x := Function.update_of_ne hx _ _
      refine .stays ⟨?_, fun _ => ?_, next, fun hi => List.mem_append_left _ hi, ?_, fun hf => hf, retrying⟩
      · change SameRetry _ (Function.update s.executor.works id work x)
        rw [hwork]
        exact .refl _
      · change (Function.update s.executor.works id work x).estimate = _ ∧
          (Function.update s.executor.works id work x).startedAt = _
        rw [hwork]
        exact ⟨rfl, rfl⟩
      · rintro (hw | hw)
        · rcases List.mem_append.mp hw with hw | hw
          · exact .inl hw
          · exact absurd (List.mem_singleton.mp hw) hx
        · exact .inr hw
  | @append id hid =>
    refine .stays ⟨.refl _, fun _ => ⟨rfl, rfl⟩, next, fun hi => hi, ?_, fun hf => hf, retrying⟩
    rintro (hw | hw)
    · exact .inl (List.mem_of_mem_erase hw)
    · rcases List.mem_append.mp hw with hw | hw
      · exact .inr hw
      · rw [List.mem_singleton.mp hw]
        exact .inl hid
  | @act t env m rest r hand =>
    rw [nextSection, hand] at hnext
    cases hnext

section Acted
variable {t : Thread} {env : Env} {m m' : Section α} {rest body : List (Section α)}

theorem Acted.waiting (h : Acted s t env m rest body s') (hp : x ∈ s'.executor.pending → x ∈ s.executor.pending)
    (hw : s'.Waiting x) : s.Waiting x := by
  unfold Waiting at hw
  rw [h.submitting] at hw
  exact hw.imp_right hp

theorem Acted.task_dispatch (h : Acted s t env .maybeDispatch rest body s') (hs : Sound s)
    (hnext : s.nextSection e = some .maybeDispatch) (x : WorkId) : TaskStep s e s' x := by
  obtain ⟨hok, hbody⟩ := Executor.run_maybeDispatch h.run
  have hwork := Executor.maybeDispatch_sameRetry hok x
  by_cases hnew : x ∈ s'.executor.inFlight ∧ x ∉ s.executor.inFlight
  · obtain ⟨hpending, hstarted⟩ := Executor.maybeDispatch_ships hok hs.pending hs.queued_not_flight hnew.1 hnew.2
    exact .shipped hnext hpending hnew.1 hwork hstarted
  · refine .stays ⟨hwork, fun hout => ?_, fun m hm => ?_, fun hi => ?_, ?_, fun hf => ?_, fun m hm _ => ?_⟩
    · have hkeeps := Executor.maybeDispatch_keeps (g := fun w => (w.estimate, w.startedAt))
        (Executor.updateObserved_keeps (g := fun w => (w.estimate, w.startedAt)) (fun _ _ _ _ => rfl) env _) hok hs.pending
        hout
      exact Prod.mk.inj hkeeps
    · rw [hnext] at hm
      exact Option.some.inj hm ▸ nofun
    · rwa [h.issued]
    · exact h.waiting fun hp => (Executor.maybeDispatch_steps hs.pending hok).pending.subset hp
    · exact not_not.mp fun hout => hnew ⟨hf, hout⟩
    · refine (h.mem_sections hm).resolve_left ?_
      rw [hbody]
      exact List.not_mem_nil

/-- A section that has no part in the retry of the task. -/
theorem Acted.stays (h : Acted s t env m rest body s') (hs : Sound s) (hm : m ≠ .maybeDispatch)
    (hnext : s.nextSection e = some m) (hretries : m.retries ≠ some x) (hbody : ∀ m' ∈ body, m'.retries ≠ some x)
    (hwork : SameRetry (s.executor.works x) (s'.executor.works x))
    (hkept : (s'.executor.works x).estimate = (s.executor.works x).estimate ∧
      (s'.executor.works x).startedAt = (s.executor.works x).startedAt) : TaskStep s e s' x := by
  obtain ⟨-, hflight, -⟩ := Executor.run_lands h.run hm hs.flight_nodup
  refine .stays ⟨hwork, fun _ => hkept, fun m' hm' => ?_, fun hi => ?_, h.waiting fun hp => ?_,
    fun hf => hflight.subset hf, fun m' hm' hr => ?_⟩
  · rw [hnext] at hm'
    exact Option.some.inj hm' ▸ hretries
  · rwa [h.issued]
  · rcases (Executor.run_works h.run hm x).2.1 hp with hp | rfl
    · exact hp
    · exact absurd rfl hretries
  · exact (h.mem_sections hm').resolve_left fun hm' => hbody m' hm' hr

/-- A section of the retry of the task puts the next one into the hand. -/
theorem Acted.task_retry (h : Acted s t env m rest body s') (hnext : s.nextSection e = some m) (hm : m' ∈ body)
    (hr : m'.retries = some x) : TaskStep s e s' x := by
  have hrun := h.run
  have hsection := h.body_subset hm
  cases Executor.run_follows hrun m' hm with
  | @penalize w id =>
    obtain rfl := Option.some.inj hr
    obtain ⟨hexecutor, rfl⟩ := Executor.run_eq (r := s.executor.takeLost w) hrun
    obtain ⟨hcur, hflight, -, hretry⟩ := Executor.takeLost_retries hm
    refine .crashed hnext hflight hretry hsection ?_
    rw [← hexecutor]
    rcases Executor.takeLost_frame s.executor w with hframe | ⟨id', -, hframe⟩
    · rw [hframe]
    · rw [hframe]
      rfl
  | @requeue id =>
    obtain rfl := Option.some.inj hr
    obtain ⟨hexecutor, -⟩ := Executor.run_eq hrun
    refine .penalized hnext hsection ?_ ?_
    · rw [← hexecutor]
      rfl
    · rw [← hexecutor]
      exact Function.update_self id _ _
  | _ => cases hr

theorem Acted.task (h : Acted s t env m rest body s') (hs : Sound s) (hm : m ≠ .maybeDispatch)
    (hnext : s.nextSection e = some m) (x : WorkId) : TaskStep s e s' x := by
  by_cases hbody : ∀ m' ∈ body, m'.retries ≠ some x
  · have hwork := (Executor.run_works h.run hm x).2.2
    obtain ⟨work, hw⟩ : ∃ work, s'.executor.works x = work := ⟨_, rfl⟩
    rw [hw] at hwork
    cases hwork with
    | same hretries =>
      apply h.stays hs hm hnext hretries hbody
      · rw [hw]
        exact .refl _
      · rw [hw]
        exact ⟨rfl, rfl⟩
    | ignored hretries =>
      apply h.stays hs hm hnext hretries hbody
      · rw [hw]
        exact ⟨rfl, rfl, rfl, rfl, rfl, fun _ => rfl⟩
      · rw [hw]
        exact ⟨rfl, rfl⟩
    | penalized hretries =>
      subst hretries
      obtain ⟨-, rfl⟩ := Executor.run_eq h.run
      exact absurd rfl (hbody (.requeue x) List.mem_cons_self)
    | retried hretries =>
      subst hretries
      obtain ⟨hexecutor, -⟩ := Executor.run_eq h.run
      refine .requeued hnext ?_ ?_ hw
      · rw [← hexecutor]
        exact List.mem_cons_self
      · rw [← hexecutor]
        rfl
  · push Not at hbody
    obtain ⟨m', hm', hr⟩ := hbody
    exact h.task_retry hnext hm' hr

end Acted

/-- **What an event does to a task.** -/
theorem step_task (h : s.step e = some s') (hs : Sound s) (x : WorkId) : TaskStep s e s' x := by
  cases hnext : s.nextSection e with
  | none =>
    refine (step_stepped h).task hnext (fun id r reading he hid => ?_) x
    subst he
    exact submit_retryCount h hid
  | some m =>
    obtain ⟨t, env, rest, body, rfl, hacted⟩ := acted_of_next h hnext
    by_cases hm : m = .maybeDispatch
    · subst hm
      exact hacted.task_dispatch hs hnext x
    · exact hacted.task hs hm hnext x

theorem step_cfg (h : s.step e = some s') (hs : Sound s) : s'.executor.cfg = s.executor.cfg := by
  rcases (step_stepped h).lands hs with ⟨env, hok⟩ | hlands
  · obtain ⟨_, _, hcfg, _⟩ := Executor.maybeDispatch_flight hok hs.pending hs.queued_not_flight
    exact hcfg
  · exact hlands.cfg

theorem step_clock (h : s.step e = some s') : s.executor.clock ≤ s'.executor.clock := by
  cases hnext : s.nextSection e with
  | none => exact (step_outside h hnext).1
  | some m =>
    obtain ⟨t, env, rest, body, rfl, hacted⟩ := acted_of_next h hnext
    by_cases hm : m = .maybeDispatch
    · subst hm
      exact (Executor.maybeDispatch_clock (Executor.run_maybeDispatch hacted.run).1).ge
    · exact (Executor.run_works hacted.run hm "").1.ge

end System

end AdaptiveExecutor
