import AdaptiveExecutor.Executor.Attempts
import AdaptiveExecutor.Profiles.Log

/-!
# The estimates of queued tasks

A queued task carries the estimate that was computed when it was submitted or last re-estimated, with two stamps of
the profile that it was drawn from: the sample count and the floor.

* `Executor.refreshed` : one turn of the re-estimation, said of the task and the profile that it draws from;
* `maybeDispatch_basis` : a dispatch cycle changes no more of what an estimate rests on;
* `Source`, `sources` : the profile that an estimate was drawn from, as a history beside the run;
* `Sourced`, `run_sourced` : in every run the estimate of a queued task is that of its source;
* `reestimate_iff` : when a re-estimation leaves a queued task up to date.
-/

namespace AdaptiveExecutor

/-- A task without what its dispatch changes, and without the time of its last re-estimation. -/
def PendingWork.basis (w : PendingWork) : PendingWork :=
  { w with
    assignedGpuId := none
    startedAt := none
    workerId := none
    resultIgnored := false
    runningNotified := false
    workerPid := none
    rssBaselineBytes := none
    vramBaselineGb := none
    observedMemoryGb := 0
    observedVramGb := 0
    observedRefreshedAt := none
    estimateRefreshedAt := none
    profileIdentity := none }

/-- What the basis of a task says of its estimate. -/
structure SameEstimate (w w' : PendingWork) : Prop where
  fnModule : w'.fnModule = w.fnModule
  fnName : w'.fnName = w.fnName
  profileKey : w'.profileKey = w.profileKey
  memoryHint : w'.memoryHint = w.memoryHint
  vramHint : w'.vramHint = w.vramHint
  retryCount : w'.retryCount = w.retryCount
  estimate : w'.estimate = w.estimate
  count : w'.estimateSampleCount = w.estimateSampleCount
  floor : w'.estimateFloorGb = w.estimateFloorGb

theorem SameEstimate.of_basis {w w' : PendingWork} (h : w'.basis = w.basis) : SameEstimate w w' := by
  unfold PendingWork.basis at h
  simp only [PendingWork.mk.injEq] at h
  constructor <;> simp only [h]

namespace Executor
variable {α : Type} {env : Env} {e e' : Executor α} {x : WorkId}

/-! ## One re-estimation -/

/-- The profile that an estimate of the task is drawn from. -/
def draws (e : Executor α) (w : PendingWork) : LearnedProfile := (e.profiles.get w.fnModule w.fnName w.profileKey).1

/-- The task after its turn, when it draws from the profile. -/
def refreshed (interval now : ℚ) (p : LearnedProfile) (w : PendingWork) : PendingWork :=
  if 0 < w.retryCount then w
  else if w.estimateRefreshedAt.any fun last => now - last < interval then w
  else if p.sampleCount = w.estimateSampleCount ∧ p.memoryFloorGb = w.estimateFloorGb then
    { w with estimateRefreshedAt := some now }
  else
    { w with
      estimateRefreshedAt := some now
      estimate := p.estimate w.memoryHint w.vramHint
      estimateSampleCount := p.sampleCount
      estimateFloorGb := p.memoryFloorGb }

def Due (interval now : ℚ) (w : PendingWork) : Prop :=
  w.retryCount = 0 ∧ ∀ last ∈ w.estimateRefreshedAt, interval ≤ now - last

instance (interval now : ℚ) (w : PendingWork) : Decidable (Due interval now w) :=
  inferInstanceAs (Decidable (_ ∧ ∀ last ∈ w.estimateRefreshedAt, interval ≤ now - last))

/-- The stamps of the task are those of the profile. -/
def Stamped (p : LearnedProfile) (w : PendingWork) : Prop :=
  p.sampleCount = w.estimateSampleCount ∧ p.memoryFloorGb = w.estimateFloorGb

instance (p : LearnedProfile) (w : PendingWork) : Decidable (Stamped p w) := inferInstanceAs (Decidable (_ ∧ _))

theorem any_fresh_iff {interval now : ℚ} {w : PendingWork} :
    (w.estimateRefreshedAt.any fun last => now - last < interval) = true ↔
      ¬ ∀ last ∈ w.estimateRefreshedAt, interval ≤ now - last := by
  cases w.estimateRefreshedAt <;> simp

theorem refreshed_of_not_due {interval now : ℚ} {p : LearnedProfile} {w : PendingWork} (h : ¬ Due interval now w) :
    refreshed interval now p w = w := by
  unfold refreshed
  split_ifs with hretried hfresh
  · rfl
  · rfl
  · rw [any_fresh_iff, not_not] at hfresh
    exact absurd ⟨by omega, hfresh⟩ h
  · rw [any_fresh_iff, not_not] at hfresh
    exact absurd ⟨by omega, hfresh⟩ h

/-- Only the stamps decide whether the estimate of a task that is due is computed again. -/
theorem refreshed_of_due {interval now : ℚ} {p : LearnedProfile} {w : PendingWork} (h : Due interval now w) :
    refreshed interval now p w = if Stamped p w then { w with estimateRefreshedAt := some now } else
      { w with
        estimateRefreshedAt := some now
        estimate := p.estimate w.memoryHint w.vramHint
        estimateSampleCount := p.sampleCount
        estimateFloorGb := p.memoryFloorGb } := by
  have hnew : ¬ 0 < w.retryCount := by
    have hzero := h.1
    omega
  unfold refreshed
  rw [if_neg hnew, if_neg fun hfresh => any_fresh_iff.mp hfresh h.2]
  rfl

theorem reestimateOne_spec (now : ℚ) (e : Executor α) (id : WorkId) :
    e.profiles.Same (e.reestimateOne now id).profiles ∧ (e.reestimateOne now id).works id =
      refreshed e.cfg.reestimateIntervalSeconds now (e.draws (e.works id)) (e.works id) := by
  unfold reestimateOne refreshed draws
  dsimp only
  split_ifs with hretried hfresh hstamps
  · exact ⟨.refl _, rfl⟩
  · exact ⟨.refl _, rfl⟩
  · exact ⟨ProfileStore.same_get _ _ _, Function.update_self id _ e.works⟩
  · exact ⟨ProfileStore.same_get _ _ _, Function.update_self id _ e.works⟩

theorem draws_of_same (h : e.profiles.Same e'.profiles) (w : PendingWork) : e'.draws w = e.draws w := h.get _ _ _

/-- **Every queued task has its turn**, and no profile changes. -/
theorem reestimatePending_spec (e : Executor α) (now : ℚ) (hnodup : e.pending.Nodup) :
    e.profiles.Same (e.reestimatePending now).profiles ∧ ∀ x ∈ e.pending, (e.reestimatePending now).works x =
      refreshed e.cfg.reestimateIntervalSeconds now (e.draws (e.works x)) (e.works x) := by
  have turns : ∀ (ids : List WorkId) (e : Executor α), ids.Nodup →
      e.profiles.Same (ids.foldl (reestimateOne now) e).profiles ∧
        (∀ x ∉ ids, (ids.foldl (reestimateOne now) e).works x = e.works x) ∧
        ∀ x ∈ ids, (ids.foldl (reestimateOne now) e).works x =
          refreshed e.cfg.reestimateIntervalSeconds now (e.draws (e.works x)) (e.works x) := by
    intro ids
    induction ids with
    | nil => exact fun e _ => ⟨.refl _, fun _ _ => rfl, fun x hx => by cases hx⟩
    | cons id ids ih =>
      intro e hids
      obtain ⟨hid, hids⟩ := List.nodup_cons.mp hids
      obtain ⟨hsame, hself⟩ := reestimateOne_spec now e id
      obtain ⟨hother, works, profiles, hframe⟩ := reestimateOne_frame now e id
      obtain ⟨ihsame, ihother, ihself⟩ := ih (e.reestimateOne now id) hids
      have hcfg : (e.reestimateOne now id).cfg = e.cfg := by rw [hframe]
      refine ⟨hsame.trans ihsame, fun x hx => ?_, fun x hx => ?_⟩
      · rw [List.mem_cons, not_or] at hx
        exact (ihother x hx.2).trans (hother x hx.1)
      · rcases List.mem_cons.mp hx with rfl | hmem
        · exact (ihother x hid).trans hself
        · have hne : x ≠ id := by
            rintro rfl
            exact hid hmem
          have hturn := ihself x hmem
          rwa [hcfg, hother x hne, draws_of_same hsame] at hturn
  obtain ⟨hsame, -, hself⟩ := turns e.pending e hnodup
  exact ⟨hsame, hself⟩

/-! ## Dispatch cycles -/

theorem update_basis (works : WorkId → PendingWork) {id : WorkId} {work : PendingWork}
    (h : work.basis = (works id).basis) (x : WorkId) : (Function.update works id work x).basis = (works x).basis := by
  rw [Function.update_apply]
  split_ifs with hx
  · rw [hx, h]
  · rfl

theorem Handled.basis {d : DispatchDecision} {fate : Fate} (h : Handled env e d fate e') (x : WorkId) :
    (e'.works x).basis = (e.works x).basis := by
  cases h with
  | left hacquire =>
    obtain ⟨_, _, _, _, rfl⟩ := acquireWorker_frame hacquire
    rfl
  | dropped hacquire =>
    obtain ⟨_, _, _, _, rfl⟩ := acquireWorker_frame hacquire
    rfl
  | @shipped e₁ e₂ w hacquire hstarted =>
    obtain ⟨_, _, _, _, rfl⟩ := acquireWorker_frame hacquire
    have hship : ((e₂.ship env d.pendingId d.gpuId w).works x).basis = (e₂.works x).basis := by
      refine update_basis e₂.works ?_ x
      rfl
    rcases hstarted with ⟨-, rfl⟩ | ⟨-, -, rfl⟩
    · exact hship
    · refine hship.trans (update_basis e.works ?_ x)
      rfl

theorem Handling.basis {ds : List (DispatchDecision × Fate)} (h : Handling env e ds e') (x : WorkId) :
    (e'.works x).basis = (e.works x).basis := by
  induction h with
  | nil => rfl
  | cons h _ ih => exact ih.trans (h.basis x)

theorem prepare_reestimates (e : Executor α) : e.prepare.works = (e.reestimatePending e.clock).works ∧
    e.prepare.profiles = (e.reestimatePending e.clock).profiles := by
  obtain ⟨futures, hsweep⟩ := sweepInfeasible_frame (e.reestimatePending e.clock).snapshot
    (e.reestimatePending e.clock).pending (e.reestimatePending e.clock)
  unfold prepare
  dsimp only
  rw [hsweep]
  exact ⟨rfl, rfl⟩

theorem ready_basis (env : Env) (e : Executor α) (x : WorkId) :
    ((e.ready env).works x).basis = ((e.reestimatePending e.clock).works x).basis := by
  obtain ⟨works, hplanned, hkeeps⟩ := refreshObservations_frame env e.prepare e.prepare.clock
  obtain ⟨works', next, hready, hstamped⟩ := ready_frame env e
  have hobserved : (works x).basis = (e.prepare.works x).basis :=
    hkeeps PendingWork.basis (updateObserved_keeps (fun _ _ _ _ => rfl) env _) x
  have hstamp : (works' x).basis = ((e.planned env).works x).basis := by
    rw [hstamped]
    split_ifs <;> rfl
  rw [hready]
  change (works' x).basis = _
  rw [hstamp, planned, hplanned, ← (prepare_reestimates e).1]
  exact hobserved

/-- **A cycle re-estimates**, and changes nothing else that an estimate rests on. -/
theorem maybeDispatch_basis (h : e.maybeDispatch env = .ok e') (hnodup : e.pending.Nodup) :
    e.profiles.Same e'.profiles ∧ ∀ x, (e'.works x).basis = ((e.reestimatePending e.clock).works x).basis := by
  obtain ⟨hsame, -⟩ := reestimatePending_spec e e.clock hnodup
  obtain ⟨hworks, hprofiles⟩ := prepare_reestimates e
  rcases maybeDispatch_planned h with ⟨hempty, rfl⟩ | ⟨-, rfl⟩ | ⟨hs, e₁, hhandling, -, rfl⟩
  · have hnone : e'.reestimatePending e'.clock = e' := by
      rw [reestimatePending, hempty]
      rfl
    exact ⟨.refl _, fun x => by rw [hnone]⟩
  · rw [hprofiles, hworks]
    exact ⟨hsame, fun x => rfl⟩
  · obtain ⟨_, _, hready, -⟩ := ready_frame env e
    obtain ⟨_, profiles, _, _, hplanned, hplannedProfiles, -⟩ := planned_frame env e
    refine ⟨?_, fun x => (hhandling.basis x).trans (ready_basis env e x)⟩
    change e.profiles.Same e₁.profiles
    rw [hhandling.frame.2.1, hready]
    change e.profiles.Same (e.planned env).profiles
    rw [hplanned]
    change e.profiles.Same profiles
    rwa [← hplannedProfiles, hprofiles]

def recomputes (e : Executor α) (x : WorkId) : Bool :=
  decide (Due e.cfg.reestimateIntervalSeconds e.clock (e.works x)) && !decide (Stamped (e.draws (e.works x)) (e.works x))

end Executor

/-! ## Sources -/

structure Source where
  key : String := ""
  profile : LearnedProfile := {}
  /-- An observation has since pushed another one out of the window of that profile. -/
  slid : Bool := false

namespace LearnedProfile

/-- The window has moved: there are other observations in it, and no more of them. -/
def Slides (before after : LearnedProfile) : Prop :=
  after.observations ≠ before.observations ∧ after.sampleCount ≤ before.sampleCount

instance (before after : LearnedProfile) : Decidable (before.Slides after) := inferInstanceAs (Decidable (_ ∧ _))

theorem estimate_congr {p q : LearnedProfile} (hobs : q.observations = p.observations)
    (hfloor : q.memoryFloorGb = p.memoryFloorGb) (memoryHint vramHint : Option ℚ) :
    q.estimate memoryHint vramHint = p.estimate memoryHint vramHint := by
  unfold estimate sampleCount
  simp only [hobs, hfloor]

end LearnedProfile

theorem ProfileStore.get_eq_profile (store : ProfileStore) (m f : String) (k : Option String) :
    (store.get m f k).1 = store.profile (store.estimationIdentity m f k).1 := by
  unfold get estimationIdentity
  cases hkeyed : store.keyed m f k with
  | none => rfl
  | some entry =>
    obtain ⟨key, p⟩ := entry
    cases k with
    | none => cases hkeyed
    | some k =>
      rw [keyed_eq] at hkeyed
      split_ifs at hkeyed with hobs
      obtain ⟨rfl, rfl⟩ := Prod.mk.inj (Option.some.inj hkeyed)
      rfl

namespace System
open Executor (Due Stamped refreshed)
variable {α : Type} {s s' : System α} {e : Event α} {x : WorkId}

/-- The event computes the estimate of the task: it is submitted, or a cycle finds its stamps outdated. -/
def estimates (s : System α) (e : Event α) (x : WorkId) : Bool :=
  match e with
  | .submit y _ _ => decide (y = x)
  | _ =>
    match s.nextSection e with
    | some .maybeDispatch => decide (x ∈ s.executor.pending) && s.executor.recomputes x
    | _ => false

/-- The source that the event reads for the task `w`. -/
def source (s : System α) (w : PendingWork) : Source where
  key := (s.executor.profiles.estimationIdentity w.fnModule w.fnName w.profileKey).1
  profile := s.executor.draws w

def sources : History α (WorkId → Source) where
  start := fun _ => {}
  next s e s' d x :=
    if s.estimates e x then s.source (s'.executor.works x)
    else { d x with
      slid := (d x).slid ||
        decide ((s.executor.profiles.profile (d x).key).Slides (s'.executor.profiles.profile (d x).key)) }

/-! ## Tasks that wait -/

/-- What an event does to a task that waits after it and has not been retried. -/
inductive WaitStep (s : System α) (e : Event α) (s' : System α) (x : WorkId) : Prop
  | submitted {r : Executor.Request} {reading : ResourceSnapshot} (he : e = .submit x r reading)
    (hwork : s'.executor.works x = Executor.newWork s.executor.clock r
      (s.executor.profiles.get r.fnModule r.fnName r.profileKey).1)
    (hprofiles : s'.executor.profiles = (s.executor.profiles.get r.fnModule r.fnName r.profileKey).2)
  | kept (hw : s.Waiting x) (hno : s.estimates e x = false)
    (hbasis : (s'.executor.works x).basis = (s.executor.works x).basis)
  | cycled {env : Env} (hw : s.Waiting x) (he : ∀ y r reading, e ≠ .submit y r reading)
    (hnext : s.nextSection e = some .maybeDispatch) (hok : s.executor.maybeDispatch env = .ok s'.executor)

theorem estimates_of_not_cycle (he : ∀ r reading, e ≠ .submit x r reading) (hnext : s.nextSection e ≠ some .maybeDispatch) :
    s.estimates e x = false := by
  unfold estimates
  split
  · rename_i y r reading
    refine decide_eq_false ?_
    rintro rfl
    exact he r reading rfl
  · split
    · rename_i hcycle
      exact absurd hcycle hnext
    · rfl

theorem submit_waits {r : Executor.Request} {reading : ResourceSnapshot} (h : s.step (.submit x r reading) = some s')
    (hs : Sound s) (hw : s'.Waiting x) : WaitStep s (.submit x r reading) s' x := by
  simp only [step] at h
  split_ifs at h with hcond
  obtain rfl := Option.some.inj h
  have hnew : ¬ s.Waiting x := fun hold => hcond.2.2 (hs.issued_of_place (.inl hold))
  unfold submit at hw ⊢
  dsimp only at hw ⊢
  split at hw
  · exact absurd hw hnew
  · exact .submitted rfl (Function.update_self x _ _) rfl

theorem Stepped.waits (h : Stepped s e s') (hnext : s.nextSection e = none) (he : ∀ r reading, e ≠ .submit x r reading)
    (hw : s'.Waiting x) : WaitStep s e s' x := by
  have hno : s.estimates e x = false := by
    apply estimates_of_not_cycle he
    rw [hnext]
    exact fun h => by cases h
  cases h with
  | outside | cancel | process | begin | deliver | contended | shutdown | again => exact .kept hw hno rfl
  | @submit y r reading work profiles =>
    have hx : x ≠ y := by
      rintro rfl
      exact he r reading rfl
    refine .kept ?_ hno ?_
    · refine hw.imp_left fun hw => ?_
      exact (List.mem_append.mp hw).resolve_right fun hw => hx (List.mem_singleton.mp hw)
    · change (Function.update s.executor.works y work x).basis = _
      rw [Function.update_of_ne hx]
  | @append y hy =>
    refine .kept ?_ hno rfl
    rcases hw with hw | hw
    · exact .inl (List.mem_of_mem_erase hw)
    · rcases List.mem_append.mp hw with hw | hw
      · exact .inr hw
      · rw [List.mem_singleton.mp hw]
        exact .inl hy
  | @act t env m rest r hand =>
    rw [nextSection, hand] at hnext
    cases hnext

/-- **What an event does to a task that waits** and has not been retried. -/
theorem step_waits (h : s.step e = some s') (hs : Sound s) (hw : s'.Waiting x)
    (hzero : (s'.executor.works x).retryCount = 0) : WaitStep s e s' x := by
  cases hnext : s.nextSection e with
  | none =>
    by_cases he : ∃ r reading, e = .submit x r reading
    · obtain ⟨r, reading, rfl⟩ := he
      exact submit_waits h hs hw
    · exact (step_stepped h).waits hnext (fun r reading heq => he ⟨r, reading, heq⟩) hw
  | some m =>
    obtain ⟨t, env, rest, body, rfl, hacted⟩ := acted_of_next h hnext
    by_cases hm : m = .maybeDispatch
    · subst hm
      have hok := (Executor.run_maybeDispatch hacted.run).1
      exact .cycled (hacted.waiting (fun hp => (Executor.maybeDispatch_steps hs.pending hok).pending.subset hp) hw)
        (fun _ _ _ heq => by cases heq) hnext hok
    · have hno : s.estimates (.act t env) x = false := by
        refine estimates_of_not_cycle (fun _ _ heq => by cases heq) fun heq => hm ?_
        rw [hnext] at heq
        exact Option.some.inj heq
      obtain ⟨-, hpending, hwork⟩ := Executor.run_works hacted.run hm x
      have hrequeue : m ≠ .requeue x := by
        rintro rfl
        obtain ⟨hexecutor, -⟩ := Executor.run_eq hacted.run
        rw [← hexecutor] at hzero
        have hretried : (s.executor.requeue x).works x = Executor.retried (s.executor.works x) :=
          Function.update_self x _ _
        rw [hretried] at hzero
        cases hzero
      have hwaits : s.Waiting x := hacted.waiting (fun hp => (hpending hp).resolve_right hrequeue) hw
      obtain ⟨work, hwork'⟩ : ∃ work, s'.executor.works x = work := ⟨_, rfl⟩
      rw [hwork'] at hwork
      refine .kept hwaits hno ?_
      rw [hwork']
      cases hwork with
      | same => rfl
      | ignored => rfl
      | penalized hpenalize =>
        -- a task that is being retried does not wait
        have howned : x ∈ s.held := mem_held (mem_of_nextSection hnext) (by rw [hpenalize]; rfl)
        exact absurd howned (hs.waiting hwaits).2
      | retried hretried => exact absurd hretried hrequeue

/-! ## Runs -/

/-- **The estimate of the task is that of its source**, and so are the stamps. As long as the window of the source has
not slid, the profile has got observations or has the same ones. -/
structure Sourced (s : System α) (x : WorkId) (d : Source) : Prop where
  estimate : (s.executor.works x).estimate =
    d.profile.estimate (s.executor.works x).memoryHint (s.executor.works x).vramHint
  count : (s.executor.works x).estimateSampleCount = d.profile.sampleCount
  floor : (s.executor.works x).estimateFloorGb = d.profile.memoryFloorGb
  window : d.slid = false → d.profile.sampleCount < (s.executor.profiles.profile d.key).sampleCount ∨
    (s.executor.profiles.profile d.key).observations = d.profile.observations

theorem Sourced.kept {d : WorkId → Source} (h : Sourced s x (d x)) (hno : s.estimates e x = false)
    (hwork : SameEstimate (s.executor.works x) (s'.executor.works x)) : Sourced s' x (sources.next s e s' d x) := by
  have hnext : sources.next s e s' d x = { d x with
      slid := (d x).slid ||
        decide ((s.executor.profiles.profile (d x).key).Slides (s'.executor.profiles.profile (d x).key)) } := by
    unfold sources
    dsimp only
    rw [hno]
    rfl
  rw [hnext]
  refine ⟨?_, ?_, ?_, fun hslid => ?_⟩
  · rw [hwork.estimate, hwork.memoryHint, hwork.vramHint]
    exact h.estimate
  · rw [hwork.count]
    exact h.count
  · rw [hwork.floor]
    exact h.floor
  · obtain ⟨hbefore, hstep⟩ := Bool.or_eq_false_iff.mp hslid
    have hstep := of_decide_eq_false hstep
    unfold LearnedProfile.Slides at hstep
    rw [not_and_or, not_not, not_le] at hstep
    dsimp only
    rcases hstep with hsame | hmore
    · unfold LearnedProfile.sampleCount
      rw [hsame]
      exact h.window hbefore
    · left
      rcases h.window hbefore with hlt | hobs
      · exact hlt.trans hmore
      · unfold LearnedProfile.sampleCount at hmore ⊢
        rwa [hobs] at hmore

theorem Sourced.read {w : PendingWork} (hsame : s.executor.profiles.Same s'.executor.profiles)
    (hestimate : (s'.executor.works x).estimate =
      (s.executor.draws w).estimate (s'.executor.works x).memoryHint (s'.executor.works x).vramHint)
    (hcount : (s'.executor.works x).estimateSampleCount = (s.executor.draws w).sampleCount)
    (hfloor : (s'.executor.works x).estimateFloorGb = (s.executor.draws w).memoryFloorGb) : Sourced s' x (s.source w) := by
  refine ⟨hestimate, hcount, hfloor, fun _ => .inr ?_⟩
  have hprofile : s'.executor.profiles.profile (s.source w).key = s.executor.profiles.profile (s.source w).key := hsame _
  rw [hprofile, source, Executor.draws, ProfileStore.get_eq_profile]

theorem estimates_of_cycle (he : ∀ y r reading, e ≠ .submit y r reading) (hnext : s.nextSection e = some .maybeDispatch) :
    s.estimates e x = (decide (x ∈ s.executor.pending) && s.executor.recomputes x) := by
  unfold estimates
  split
  · exact absurd rfl (he _ _ _)
  · rw [hnext]

theorem sources_read {d : WorkId → Source} (h : s.estimates e x = true) :
    sources.next s e s' d x = s.source (s'.executor.works x) := if_pos h

/-- A dispatch cycle gives a task a new source exactly when it computes its estimate. -/
theorem Sourced.cycled {env : Env} {d : WorkId → Source} (he : ∀ y r reading, e ≠ .submit y r reading)
    (hnext : s.nextSection e = some .maybeDispatch) (hok : s.executor.maybeDispatch env = .ok s'.executor)
    (hs : Sound s) (h : (s.executor.works x).retryCount = 0 → Sourced s x (d x))
    (hzero : (s'.executor.works x).retryCount = 0) : Sourced s' x (sources.next s e s' d x) := by
  obtain ⟨hsame, hbasis⟩ := Executor.maybeDispatch_basis hok hs.pending
  have hbasis := hbasis x
  have of_same (hwork : (s'.executor.works x).basis = (s.executor.works x).basis) (hno : s.estimates e x = false) :
      Sourced s' x (sources.next s e s' d x) := by
    have hwork := SameEstimate.of_basis hwork
    exact (h (hwork.retryCount ▸ hzero)).kept hno hwork
  have hreads := estimates_of_cycle (x := x) he hnext
  by_cases hx : x ∈ s.executor.pending
  · rw [(Executor.reestimatePending_spec s.executor s.executor.clock hs.pending).2 x hx] at hbasis
    by_cases hdue : Due s.executor.cfg.reestimateIntervalSeconds s.executor.clock (s.executor.works x)
    · rw [Executor.refreshed_of_due hdue] at hbasis
      by_cases hstamped : Stamped (s.executor.draws (s.executor.works x)) (s.executor.works x)
      · rw [if_pos hstamped] at hbasis
        exact of_same hbasis (by rw [hreads]; simp [Executor.recomputes, hstamped])
      · rw [if_neg hstamped] at hbasis
        have hwork := SameEstimate.of_basis hbasis
        have hdraws : s.executor.draws (s'.executor.works x) = s.executor.draws (s.executor.works x) := by
          unfold Executor.draws
          rw [hwork.fnModule, hwork.fnName, hwork.profileKey]
        rw [sources_read (by rw [hreads]; simp [Executor.recomputes, hx, hdue, hstamped])]
        apply Sourced.read hsame
        · rw [hdraws, hwork.memoryHint, hwork.vramHint]
          exact hwork.estimate
        · rw [hdraws]
          exact hwork.count
        · rw [hdraws]
          exact hwork.floor
    · rw [Executor.refreshed_of_not_due hdue] at hbasis
      exact of_same hbasis (by rw [hreads]; simp [Executor.recomputes, hdue])
  · rw [(Executor.reestimatePending_frame s.executor s.executor.clock).1 x hx] at hbasis
    exact of_same hbasis (by rw [hreads]; simp [hx])

/-- **Every event keeps the sources of the tasks that wait** and have not been retried. -/
theorem step_sourced {d : WorkId → Source} (h : s.step e = some s') (hs : Sound s)
    (hsourced : s.Waiting x → (s.executor.works x).retryCount = 0 → Sourced s x (d x)) (hw : s'.Waiting x)
    (hzero : (s'.executor.works x).retryCount = 0) : Sourced s' x (sources.next s e s' d x) := by
  cases step_waits h hs hw hzero with
  | @submitted r reading he hwork hprofiles =>
    subst he
    have hreads : s.estimates (.submit x r reading) x = true := decide_eq_true rfl
    rw [sources_read hreads]
    have hsame : s.executor.profiles.Same s'.executor.profiles := by
      rw [hprofiles]
      exact ProfileStore.same_get _ _ _
    apply Sourced.read hsame
    · rw [hwork]
      rfl
    · rw [hwork]
      rfl
    · rw [hwork]
      rfl
  | kept hw hno hbasis =>
    have hwork := SameEstimate.of_basis hbasis
    exact (hsourced hw (hwork.retryCount ▸ hzero)).kept hno hwork
  | cycled hw he hnext hok => exact .cycled he hnext hok hs (hsourced hw) hzero

theorem run_sourced {p : System α → Event α → Prop} {cfg : Config} {profiles : ProfileStore} {d : WorkId → Source}
    (h : Recorded sources p (init cfg profiles) s d) (x : WorkId) (hw : s.Waiting x)
    (hzero : (s.executor.works x).retryCount = 0) : Sourced s x (d x) := by
  induction h with
  | start =>
    rcases hw with hw | hw
    · cases hw
    · cases hw
  | next h _ hstep ih => exact step_sourced hstep h.reachable.sound.1 ih hw hzero

end System

namespace Executor
variable {α : Type} {e : Executor α} {x : WorkId}

/-- What submitting the function of the task again would give, with the same profile key and hints. -/
def resubmitted (e : Executor α) (now : ℚ) (x : WorkId) : PendingWork :=
  let w := e.works x
  newWork now ⟨w.fnModule, w.fnName, w.memoryHint, w.vramHint, w.profileKey⟩
    (e.profiles.get w.fnModule w.fnName w.profileKey).1

/-- The estimate of the task is the one that it would get if it were submitted now. -/
def UpToDate (e : Executor α) (now : ℚ) (x : WorkId) : Prop := (e.works x).estimate = (e.resubmitted now x).estimate

/-- The skip test is all that keeps a task that is due from being up to date. -/
theorem upToDate_iff {now : ℚ} (hnodup : e.pending.Nodup) (hx : x ∈ e.pending)
    (hdue : Due e.cfg.reestimateIntervalSeconds now (e.works x)) : (e.reestimatePending now).UpToDate now x ↔
      (Stamped (e.draws (e.works x)) (e.works x) →
        (e.works x).estimate = (e.draws (e.works x)).estimate (e.works x).memoryHint (e.works x).vramHint) := by
  obtain ⟨hsame, hturn⟩ := reestimatePending_spec e now hnodup
  have hturn := hturn x hx
  rw [refreshed_of_due hdue] at hturn
  have hfresh : ((e.reestimatePending now).resubmitted now x).estimate = (e.draws ((e.reestimatePending now).works x)).estimate
      ((e.reestimatePending now).works x).memoryHint ((e.reestimatePending now).works x).vramHint := by
    rw [← draws_of_same hsame]
    rfl
  unfold UpToDate
  rw [hfresh, hturn]
  by_cases hstamped : Stamped (e.draws (e.works x)) (e.works x)
  · rw [if_pos hstamped]
    exact ⟨fun h _ => h, fun h => h hstamped⟩
  · rw [if_neg hstamped]
    exact ⟨fun _ h => absurd h hstamped, fun _ => rfl⟩

end Executor

/-- A profile with the stamps of the source is the source itself: the task still draws from the same key, and nothing
has been pushed out of the window. -/
def Source.Told (d current : Source) : Prop :=
  current.profile.sampleCount = d.profile.sampleCount → current.profile.memoryFloorGb = d.profile.memoryFloorGb →
    current.key = d.key ∧ d.slid = false

instance (d current : Source) : Decidable (d.Told current) := inferInstanceAs (Decidable (_ → _ → _ ∧ _))

namespace System
open Executor (Due Stamped UpToDate)
variable {α : Type} {s : System α} {x : WorkId}

/-- **When a re-estimation leaves a queued task up to date**: whenever the sample count and the floor tell the profile
that it draws from now from the one that its estimate was drawn from; and if they do not, exactly when the two
profiles happen to give the same estimate. -/
theorem reestimate_iff {cfg : Config} {profiles : ProfileStore} {d : WorkId → Source}
    (h : Recorded sources (fun _ _ => True) (init cfg profiles) s d) {now : ℚ} (hx : x ∈ s.executor.pending)
    (hdue : Due s.executor.cfg.reestimateIntervalSeconds now (s.executor.works x)) :
    let current := s.source (s.executor.works x)
    ((d x).Told current → (s.executor.reestimatePending now).UpToDate now x) ∧
      ((s.executor.reestimatePending now).UpToDate now x ↔
        (current.profile.sampleCount = (d x).profile.sampleCount →
          current.profile.memoryFloorGb = (d x).profile.memoryFloorGb →
          (d x).profile.estimate (s.executor.works x).memoryHint (s.executor.works x).vramHint =
            current.profile.estimate (s.executor.works x).memoryHint (s.executor.works x).vramHint)) := by
  intro current
  have hsourced := run_sourced h x (.inr hx) hdue.1
  have hiff : (s.executor.reestimatePending now).UpToDate now x ↔
      (current.profile.sampleCount = (d x).profile.sampleCount →
        current.profile.memoryFloorGb = (d x).profile.memoryFloorGb →
        (d x).profile.estimate (s.executor.works x).memoryHint (s.executor.works x).vramHint =
          current.profile.estimate (s.executor.works x).memoryHint (s.executor.works x).vramHint) := by
    rw [Executor.upToDate_iff h.reachable.sound.1.pending hx hdue, hsourced.estimate, ← and_imp]
    unfold Executor.Stamped
    rw [hsourced.count, hsourced.floor]
    rfl
  refine ⟨fun htold => hiff.mpr fun hcount hfloor => ?_, hiff⟩
  obtain ⟨hkey, hslid⟩ := htold hcount hfloor
  have hcurrent : current.profile = s.executor.profiles.profile (d x).key := by
    rw [← hkey]
    exact ProfileStore.get_eq_profile _ _ _ _
  apply LearnedProfile.estimate_congr
  · rw [hcurrent] at hcount ⊢
    rcases hsourced.window hslid with hmore | hobs
    · omega
    · exact hobs.symm
  · exact hfloor.symm

/-- Two tasks of one function and key: the first runs and uses `memoryGb`, which is recorded while the second waits. -/
def siblings (key : Option String) (memoryGb : ℚ) : List (Event Unit) :=
  [.submit "x" ⟨"m", "f", none, none, key⟩ plainReading, .append "x", .round .dispatcher, .act .dispatcher plainEnv,
    .act .dispatcher plainEnv, .submit "y" ⟨"m", "f", none, none, key⟩ plainReading, .append "y", .workerTake 0,
    .workerPut 0 ⟨true, some (), none, usedMemory memoryGb⟩, .round .collector] ++
      List.replicate 6 (.act .collector plainEnv)

theorem reestimate_iff_sibling : ∃ s : System Unit, "y" ∈ s.executor.pending ∧
    (s.executor.reestimatePending 1).UpToDate 1 "y" := by
  have hfacts : (playRecorded sources (fun _ _ => True) (init oneWorker {} : System Unit) (fun _ => {})
      (siblings none 8)).any (fun r => decide ("y" ∈ r.1.executor.pending ∧
        Due r.1.executor.cfg.reestimateIntervalSeconds 1 (r.1.executor.works "y") ∧
          (r.2 "y").Told (r.1.source (r.1.executor.works "y")))) = true := by decide +kernel
  obtain ⟨⟨s, d⟩, hplay, hfacts⟩ := (Option.any_eq_true _ _).mp hfacts
  obtain ⟨hx, hdue, htold⟩ := of_decide_eq_true hfacts
  exact ⟨s, hx, (reestimate_iff (Recorded.start.play hplay) hx hdue).1 htold⟩

/-- The function has one observation, of 1 GB, when two tasks of it are submitted under a key. The first uses 10 GB; now
the bucket of the key has one observation too, and the second task keeps the estimate of 1.45 GB. -/
theorem reestimate_misses : ∃ s : System Unit, Reachable s ∧ "y" ∈ s.executor.pending ∧
    Due s.executor.cfg.reestimateIntervalSeconds 1 (s.executor.works "y") ∧
      ¬ (s.executor.reestimatePending 1).UpToDate 1 "y" := by
  have hfacts : ((init oneWorker ⟨[("m:f", { observations := [usedMemory 1] })]⟩ : System Unit).play
      (siblings (some "k") 10)).any (fun s => decide ("y" ∈ s.executor.pending ∧
        Due s.executor.cfg.reestimateIntervalSeconds 1 (s.executor.works "y") ∧
          ((s.executor.reestimatePending 1).works "y").estimate.memoryGb ≠
            ((s.executor.reestimatePending 1).resubmitted 1 "y").estimate.memoryGb)) = true := by decide +kernel
  obtain ⟨s, hplay, hfacts⟩ := (Option.any_eq_true _ _).mp hfacts
  obtain ⟨hx, hdue, hmemory⟩ := of_decide_eq_true hfacts
  exact ⟨s, play_reachable hplay, hx, hdue, fun h => hmemory (congrArg ResourceEstimate.memoryGb h)⟩

end System

end AdaptiveExecutor
