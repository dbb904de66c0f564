import AdaptiveExecutor.Executor.Drain
import AdaptiveExecutor.Executor.Tasks

/-!
# Overdue tasks

The timeout thread reads the clock, collects the tasks that were overdue then under the lock, and handles one after
another, each under the lock again. Meanwhile a task may crash, go back to the queue and be shipped again.

* `Scan`, `scans` : the last scan of the timeout thread, and the tasks shipped since;
* `TimesOut`, `step_timeout` : the event that lets a task time out, and nothing else does;
* `Watching` : what is in the hand of the timeout thread has been selected by the last scan;
* `Scan.Fits`, `run_fits` : the tasks in flight were started before the scan, or have been shipped since;
* `step_held`, `no_overrun_missed` : what had overrun when the clock was read and is still in flight is in the hand of a
  thread, so when the timeout thread is through, nothing of it is left.
-/

namespace AdaptiveExecutor

namespace Section
variable {α : Type}

def scans : Section α → Bool
  | .readClock | .scanTimeouts _ => true
  | _ => false

/-- The ends of a timeout: the future receives `TimeoutError`, and the worker is killed. -/
def timeout : Section α → Bool
  | .settle _ (.exception (.timedOut _ _)) | .escalateKill _ => true
  | _ => false

theorem timeout_of_begins {m : Section α} (h : m.begins = true) : m.timeout = false := by
  cases m <;> first | rfl | cases h

end Section

namespace Executor
variable {α : Type} {env : Env} {e e' : Executor α} {m m' : Section α} {body : List (Section α)}

theorem takeLost_timeout (e : Executor α) (w : WorkerId) : ∀ m ∈ (e.takeLost w).2, m.timeout = false := by
  unfold takeLost
  intro m hm
  split at hm
  · cases hm
  · dsimp only at hm
    split_ifs at hm
    · cases hm
    · rw [List.mem_singleton.mp hm]
      rfl
    · rw [List.mem_singleton.mp hm]
      rfl
    · cases hm

theorem handleTimeout_body (e : Executor α) {x : WorkId} (hm : m ∈ (e.handleTimeout x).2) :
    x ∈ e.inFlight ∧ (e.futures x).done = false := by
  unfold handleTimeout at hm
  split_ifs at hm with hcond
  · cases hm
  · rwa [not_or, not_not, Bool.not_eq_true] at hcond

/-- **Only `_handle_timeout` ends in a timeout**, of a task in flight whose future is not done. -/
theorem run_timeout (h : e.run env m = some (e', body)) (hm : m' ∈ body) (htimeout : m'.timeout = true) :
    ∃ x ∈ m.timesOut, x ∈ e.inFlight ∧ (e.futures x).done = false := by
  cases run_follows h m' hm with
  | @result r =>
    unfold WorkResult.outcome at htimeout
    split_ifs at htimeout
    · cases htimeout
    · cases htimeout
  | @crashed w id outcome =>
    obtain ⟨-, rfl⟩ := run_eq (r := e.takeLost w) h
    rw [takeLost_timeout e w _ hm] at htimeout
    cases htimeout
  | @kill id w =>
    obtain ⟨-, rfl⟩ := run_eq (r := e.handleTimeout id) h
    exact ⟨id, rfl, handleTimeout_body e hm⟩
  | @timedOut id outcome =>
    obtain ⟨-, rfl⟩ := run_eq (r := e.handleTimeout id) h
    exact ⟨id, rfl, handleTimeout_body e hm⟩
  | _ => cases htimeout

end Executor

structure Scan where
  /-- What the clock said when it was read for the scan. -/
  time : ℚ := 0
  selected : List WorkId := []
  /-- The tasks that have been shipped since then. -/
  shipped : List WorkId := []

namespace System
variable {α : Type} {s s' : System α} {e : Event α} {scan : Scan} {x : WorkId}

/-- `_handle_timeout` is called by somebody else than the timeout thread. -/
def callsTimeout : Event α → Bool
  | .call _ (.handleTimeout _) => true
  | _ => false

def scans : History α Scan where
  start := {}
  next s e s' scan :=
    match s.nextSection e with
    | some (.scanTimeouts now) => { time := now, selected := s.executor.overdue now }
    | _ => { scan with shipped := scan.shipped ++ s'.executor.inFlight.filter fun x => x ∉ s.executor.inFlight }

theorem scans_scan {now : ℚ} (hnext : s.nextSection e = some (.scanTimeouts now)) :
    scans.next s e s' scan = { time := now, selected := s.executor.overdue now } := by
  simp only [scans, hnext]

theorem scans_other (hnext : ∀ now, s.nextSection e ≠ some (.scanTimeouts now)) :
    scans.next s e s' scan =
      { scan with shipped := scan.shipped ++ s'.executor.inFlight.filter fun x => x ∉ s.executor.inFlight } := by
  simp only [scans]

/-- The attempt in flight was started more than the timeout before the scan. -/
def Overran (s : System α) (scan : Scan) (x : WorkId) : Prop :=
  ∃ startedAt ∈ (s.executor.works x).startedAt, s.executor.cfg.taskTimeoutSeconds < scan.time - startedAt

def TimesOut (s : System α) (e : Event α) (x : WorkId) : Prop :=
  (∃ m ∈ s.nextSection e, m.timesOut = some x) ∧ x ∈ s.executor.inFlight ∧ (s.executor.futures x).done = false

instance (s : System α) (scan : Scan) (x : WorkId) : Decidable (s.Overran scan x) :=
  inferInstanceAs (Decidable (∃ startedAt ∈ (s.executor.works x).startedAt,
    s.executor.cfg.taskTimeoutSeconds < scan.time - startedAt))

instance (s : System α) (e : Event α) (x : WorkId) : Decidable (s.TimesOut e x) :=
  inferInstanceAs (Decidable ((∃ m ∈ s.nextSection e, m.timesOut = some x) ∧ x ∈ s.executor.inFlight ∧
    (s.executor.futures x).done = false))

/-! ## What ends in a timeout -/

theorem shutdownSections_timeout (started wait : Bool) :
    ∀ m ∈ (Executor.shutdownSections started wait : List (Section α)), m.timeout = false ∧ m.timesOut = none ∧ m.scans = false := by
  cases started <;> cases wait <;> simp [Executor.shutdownSections, Section.timeout, Section.timesOut, Section.scans]

/-- **Whoever gets `TimeoutError`, and whoever is killed for it**, is in the hand of a thread after a timeout. -/
theorem Stepped.timeout (h : Stepped s e s') {m : Section α} (hm : m ∈ s'.sections) (htimeout : m.timeout = true) :
    m ∈ s.sections ∨ ∃ x, s.TimesOut e x := by
  refine (h.comes (p := fun m => m.timeout = true) (fun m hm ht => ?_) (fun r ht => ?_) (fun started wait m hm ht => ?_) hm
    htimeout).imp_right ?_
  · rw [Section.timeout_of_begins hm] at ht
    cases ht
  · cases ht
  · rw [(shutdownSections_timeout started wait m hm).1] at ht
    cases ht
  · rintro ⟨m', env, body, hnext, hrun, hbody⟩
    obtain ⟨x, hx, hactive⟩ := Executor.run_timeout hrun hbody htimeout
    exact ⟨x, ⟨m', hnext, hx⟩, hactive⟩

/-! ## What the timeout thread holds -/

/-- The timeout thread is about to scan, or holds what its last scan has selected; the other threads do neither. -/
def Watching (selected : List WorkId) (t : Thread) (hand : List (Section α)) : Prop :=
  (t = .timeouts ∧ ∃ m, m.scans = true ∧ hand = [m]) ∨
    ∀ m ∈ hand, m.scans = false ∧ ∀ x ∈ m.timesOut, t = .timeouts ∧ x ∈ selected

theorem Watching.of_update {selected : List WorkId} {t : Thread} {hand : List (Section α)}
    (hw : ∀ t, Watching selected t (s.hands t)) (h : Watching selected t hand) (t' : Thread) :
    Watching selected t' (Function.update s.hands t hand t') :=
  (Function.forall_update_iff s.hands (Watching selected)).mpr ⟨h, fun t _ => hw t⟩ t'

/-- The events that run no section. -/
theorem step_watching_none (h : s.step e = some s') (hnext : s.nextSection e = none) (hcall : callsTimeout e = false)
    {selected : List WorkId} (hw : ∀ t, Watching selected t (s.hands t)) (t : Thread) :
    Watching selected t (s'.hands t) := by
  cases e with
  | act t' env =>
    simp only [step, List.head?_eq_none_iff.mp hnext] at h
    cases h
  | submit id r reading =>
    simp only [step] at h
    split_ifs at h
    obtain rfl := Option.some.inj h
    unfold submit
    dsimp only
    split <;> exact hw t
  | round t' =>
    simp only [step] at h
    split at h
    · rename_i body hand hbody
      obtain rfl := Option.some.inj h
      refine Watching.of_update hw ?_ t
      cases t' <;> simp only [loopBody] at hbody <;> try split_ifs at hbody
      · obtain rfl := Option.some.inj hbody
        exact .inr (by simp [Section.scans, Section.timesOut])
      · obtain rfl := Option.some.inj hbody
        exact .inr (by simp [Section.scans, Section.timesOut])
      · obtain rfl := Option.some.inj hbody
        exact .inl ⟨rfl, .readClock, rfl, rfl⟩
      · cases hbody
    · cases h
  | call t' m =>
    simp only [step] at h
    split at h
    · split_ifs at h with hcond
      obtain rfl := Option.some.inj h
      refine Watching.of_update hw (.inr (List.forall_mem_singleton.mpr ?_)) t
      cases m with
      | handleTimeout => cases hcall
      | maybeDispatch | checkWorkers => exact ⟨rfl, fun x hx => by cases hx⟩
      | _ => cases hcond.2
    · cases h
  | deliver t' w i =>
    simp only [step] at h
    split at h
    · split_ifs at h
      obtain rfl := Option.some.inj h
      refine Watching.of_update hw (.inr (List.forall_mem_singleton.mpr ?_)) t
      exact ⟨rfl, fun x hx => by cases hx⟩
    · cases h
  | contended t' =>
    simp only [step] at h
    split at h
    · rename_i w results rest hand
      split_ifs at h
      obtain rfl := Option.some.inj h
      rcases hw t' with ⟨-, m, hscans, hand'⟩ | hold
      · rw [(List.cons.inj (hand.symm.trans hand')).1.symm] at hscans
        cases hscans
      rw [hand] at hold
      refine Watching.of_update hw (.inr fun m hm => ?_) t
      rcases List.mem_append.mp hm with hm | hm
      · obtain ⟨r, -, rfl⟩ := List.mem_map.mp hm
        exact ⟨rfl, fun x hx => by cases hx⟩
      · exact hold m (List.mem_cons_of_mem _ hm)
    · cases h
  | shutdown wait =>
    simp only [step] at h
    split_ifs at h <;> obtain rfl := Option.some.inj h
    · exact hw t
    refine Watching.of_update hw (.inr fun m hm => ?_) t
    rcases List.mem_append.mp hm with hm | hm
    · exact (hw .shutdown).resolve_left (fun h => by cases h.1) m hm
    · obtain ⟨-, htimes, hscans⟩ := shutdownSections_timeout s.started wait m hm
      refine ⟨hscans, fun x hx => ?_⟩
      rw [htimes] at hx
      cases hx
  | _ =>
    simp only [step] at h
    repeat' split at h
    all_goals first | (obtain rfl := Option.some.inj h; exact hw t) | cases h

theorem step_watching (h : s.step e = some s') (hcall : callsTimeout e = false)
    (hw : ∀ t, Watching scan.selected t (s.hands t)) : ∀ t, Watching (scans.next s e s' scan).selected t (s'.hands t) := by
  cases hnext : s.nextSection e with
  | none =>
    rw [scans_other (fun now hnow => by rw [hnext] at hnow; cases hnow)]
    exact step_watching_none h hnext hcall hw
  | some m =>
    obtain ⟨t, env, rest, body, rfl, hacted⟩ := acted_of_next h hnext
    have hhand := hw t
    rw [hacted.hand] at hhand
    cases hscans : m.scans with
    | true =>
      -- the hand holds nothing but the scan, so nothing is left of an earlier one
      obtain ⟨rfl, m', -, hrest⟩ := hhand.resolve_right fun h => by
        rw [(h _ List.mem_cons_self).1] at hscans
        cases hscans
      obtain rfl : rest = [] := (List.cons.inj hrest).2
      cases m with
      | readClock =>
        rw [scans_other (fun now hnow => by rw [hnext] at hnow; cases hnow)]
        obtain ⟨-, rfl⟩ := Executor.run_eq hacted.run
        rw [hacted.hands]
        exact Watching.of_update hw (.inl ⟨rfl, _, rfl, rfl⟩)
      | scanTimeouts now =>
        rw [scans_scan hnext]
        obtain ⟨-, rfl⟩ := Executor.run_eq hacted.run
        rw [hacted.hands]
        refine (Function.forall_update_iff s.hands (Watching (s.executor.overdue now))).mpr
          ⟨.inr fun m hm => ?_, fun t' ht => ?_⟩
        · rw [List.append_nil] at hm
          obtain ⟨x, hx, rfl⟩ := List.mem_map.mp hm
          exact ⟨rfl, fun y hy => ⟨rfl, Option.some.inj hy ▸ hx⟩⟩
        · have hother := (hw t').resolve_left fun h => ht h.1
          exact .inr fun m hm => ⟨(hother m hm).1, fun x hx => absurd ((hother m hm).2 x hx).1 ht⟩
      | _ => cases hscans
    | false =>
      have hold := hhand.resolve_left fun ⟨_, m', hm', hand⟩ => by
        rw [(List.cons.inj hand).1, hm'] at hscans
        cases hscans
      rw [scans_other (fun now hnow => by
        obtain rfl := Option.some.inj (hnext.symm.trans hnow)
        cases hscans), hacted.hands]
      refine Watching.of_update hw (.inr fun m' hm' => ?_)
      rcases List.mem_append.mp hm' with hm' | hm'
      · cases Executor.run_follows hacted.run m' hm' with
        | scan | overdue => cases hscans
        | _ => exact ⟨rfl, fun x hx => by cases hx⟩
      · exact hold m' (List.mem_cons_of_mem m hm')

/-! ## The tasks in flight -/

theorem step_started (h : s.step e = some s') (hs : Sound s) (hx : x ∈ s'.executor.inFlight) :
    x ∈ s.executor.inFlight ∧ (s'.executor.works x).startedAt = (s.executor.works x).startedAt ∨
      x ∉ s.executor.inFlight ∧ (s'.executor.works x).startedAt = some s.executor.clock := by
  cases step_task h hs x with
  | stays hstays =>
    have hold := hstays.flight hx
    exact .inl ⟨hold, (hstays.kept fun hp => hs.queued_not_flight x hp hold).2⟩
  | submitted hnew _ _ hflight =>
    rw [hflight] at hx
    exact absurd hx (hs.not_flight_of_new hnew)
  | shipped _ hpending _ _ hstarted => exact .inr ⟨hs.queued_not_flight x hpending, hstarted⟩
  | crashed _ _ _ hsection =>
    exact absurd (mem_held hsection rfl) (((step_stepped h).sound hs).not_held_of_flight hx)
  | penalized hnext _ hflight =>
    rw [hflight] at hx
    exact absurd (mem_held (mem_of_nextSection hnext) rfl) (hs.not_held_of_flight hx)
  | requeued hnext _ hflight =>
    rw [hflight] at hx
    exact absurd (mem_held (mem_of_nextSection hnext) rfl) (hs.not_held_of_flight hx)

theorem Stepped.scanning (h : Stepped s e s') {now : ℚ} (hm : .scanTimeouts now ∈ s'.sections) :
    .scanTimeouts now ∈ s.sections ∨ now = s.executor.clock := by
  refine (h.comes (p := fun m => m = .scanTimeouts now) (fun m hm hp => ?_) (fun r hp => ?_) (fun started wait m hm hp => ?_) hm
    rfl).imp_right ?_
  · rw [hp] at hm
    cases hm
  · cases hp
  · have hscans := (shutdownSections_timeout started wait m hm).2.2
    rw [hp] at hscans
    cases hscans
  · rintro ⟨m', env, body, -, hrun, hbody⟩
    cases Executor.run_follows hrun _ hbody with
    | scan =>
      obtain ⟨-, rfl⟩ := Executor.run_eq hrun
      exact Section.scanTimeouts.inj (List.mem_singleton.mp hbody)

/-- The attempts in flight, as the last scan has found them: those that it has selected overran, and those shipped since
are younger than it. -/
structure Fits (s : System α) (scan : Scan) : Prop where
  time : scan.time ≤ s.executor.clock
  reading : ∀ now, .scanTimeouts now ∈ s.sections → now ≤ s.executor.clock
  selected : ∀ x ∈ s.executor.inFlight, x ∈ scan.selected → x ∉ scan.shipped → s.Overran scan x
  shipped : ∀ x ∈ s.executor.inFlight, x ∈ scan.shipped →
    ∃ startedAt ∈ (s.executor.works x).startedAt, scan.time ≤ startedAt

theorem step_fits (h : s.step e = some s') (hs : Sound s) (hfits : Fits s scan) : Fits s' (scans.next s e s' scan) := by
  have hreading : ∀ now, .scanTimeouts now ∈ s'.sections → now ≤ s'.executor.clock := fun now hm => by
    rcases (step_stepped h).scanning hm with hm | rfl
    · exact (hfits.reading now hm).trans (step_clock h)
    · exact step_clock h
  by_cases hscan : ∃ now, s.nextSection e = some (.scanTimeouts now)
  · obtain ⟨now, hnext⟩ := hscan
    obtain ⟨t, env, rest, body, rfl, hacted⟩ := acted_of_next h hnext
    obtain ⟨hexecutor, -⟩ := Executor.run_eq hacted.run
    rw [scans_scan hnext]
    refine ⟨?_, hreading, fun x _ hselected _ => ?_, fun x _ hx => by cases hx⟩
    · rw [← hexecutor]
      exact hfits.reading now (mem_of_nextSection hnext)
    · obtain ⟨startedAt, hstarted, hover⟩ := (Option.any_eq_true _ _).mp (List.mem_filter.mp hselected).2
      unfold Overran
      rw [← hexecutor]
      exact ⟨startedAt, hstarted, of_decide_eq_true hover⟩
  · rw [scans_other (not_exists.mp hscan)]
    refine ⟨hfits.time.trans (step_clock h), hreading, fun x hx hselected hout => ?_, fun x hx hin => ?_⟩
    · rw [List.mem_append, not_or] at hout
      rcases step_started h hs hx with ⟨hold, hstarted⟩ | ⟨hnew, -⟩
      · have hover := hfits.selected x hold hselected hout.1
        unfold Overran at hover ⊢
        rwa [hstarted, step_cfg h hs]
      · exact absurd (List.mem_filter.mpr ⟨hx, decide_eq_true hnew⟩) hout.2
    · rcases step_started h hs hx with ⟨hold, hstarted⟩ | ⟨-, hstarted⟩
      · rw [hstarted]
        rcases List.mem_append.mp hin with hin | hin
        · exact hfits.shipped x hold hin
        · exact absurd hold (of_decide_eq_true (List.mem_filter.mp hin).2)
      · exact ⟨s.executor.clock, hstarted, hfits.time⟩

section
variable {cfg : Config} {profiles : ProfileStore}

theorem run_watching (h : Recorded scans (fun _ e => callsTimeout e = false) (init cfg profiles) s scan) (t : Thread) :
    Watching scan.selected t (s.hands t) := by
  induction h generalizing t with
  | start => exact .inr fun m hm => by cases hm
  | next _ hcall hstep ih => exact step_watching hstep hcall ih t

theorem run_fits (h : Recorded scans (fun _ e => callsTimeout e = false) (init cfg profiles) s scan) : Fits s scan := by
  induction h with
  | start => exact ⟨le_rfl, fun now hm => (by cases hm), fun x hx => (by cases hx), fun x hx => (by cases hx)⟩
  | next hrun _ hstep ih => exact step_fits hstep hrun.reachable.sound.1 ih

/-- **What times out**: in a run in which only the timeout thread handles timeouts, a future receives `TimeoutError`, or
a worker is killed for it, only after the timeout of a task that the last scan has selected; and the attempt in flight
has overrun the timeout at that scan exactly when the task has not been shipped again since. -/
theorem timed_out_iff (h : Recorded scans (fun _ e => callsTimeout e = false) (init cfg profiles) s scan) :
    (∀ e s', s.step e = some s' → ∀ m ∈ s'.sections, m.timeout = true → m ∈ s.sections ∨ ∃ x, s.TimesOut e x) ∧
      ∀ e x, s.TimesOut e x → x ∈ scan.selected ∧ (x ∉ scan.shipped → s.Overran scan x) ∧
        (0 ≤ s.executor.cfg.taskTimeoutSeconds → s.Overran scan x → x ∉ scan.shipped) := by
  have hfits := run_fits h
  refine ⟨fun e s' hstep m hm htimeout => (step_stepped hstep).timeout hm htimeout, fun e x htimes => ?_⟩
  obtain ⟨⟨m, hnext, hm⟩, hflight, -⟩ := htimes
  obtain ⟨t, env, rest, rfl, hand⟩ := act_of_nextSection hnext
  have hselected : x ∈ scan.selected := by
    have hhand := run_watching h t
    rw [hand] at hhand
    rcases hhand with ⟨-, m', hscans, hscan⟩ | hhand
    · rw [← (List.cons.inj hscan).1] at hscans
      cases m <;> simp_all [Section.scans, Section.timesOut]
    · exact ((hhand m List.mem_cons_self).2 x hm).2
  refine ⟨hselected, hfits.selected x hflight hselected, fun htimeout hover hshipped => ?_⟩
  obtain ⟨startedAt, hstarted, hlate⟩ := hover
  obtain ⟨startedAt', hstarted', hle⟩ := hfits.shipped x hflight hshipped
  obtain rfl := Option.some.inj (hstarted.symm.trans hstarted')
  linarith

end

def scanOne : List (Event Unit) :=
  shipOne ++ [.tick 301, .round .timeouts, .act .timeouts plainEnv, .act .timeouts plainEnv]

theorem timed_out_iff_scan : ∃ (s : System Unit) (scan : Scan), s.TimesOut (.act .timeouts plainEnv) "x" ∧
    s.Overran scan "x" := by
  have hfacts : (playRecorded scans (fun _ e => callsTimeout e = false) (init oneWorker {} : System Unit) {}
      scanOne).any (fun r => decide (r.1.TimesOut (.act .timeouts plainEnv) "x" ∧ "x" ∉ r.2.shipped)) = true := by
    decide +kernel
  obtain ⟨⟨s, scan⟩, hplay, hfacts⟩ := (Option.any_eq_true _ _).mp hfacts
  obtain ⟨htimes, hout⟩ := of_decide_eq_true hfacts
  exact ⟨s, scan, htimes, ((timed_out_iff (Recorded.start.play hplay)).2 _ _ htimes).2.1 hout⟩

/-- Between the scan and the timeout, the worker of the task is killed, and the task is shipped again. -/
def shipAgain : List (Event Unit) :=
  scanOne ++ .workerDie 0 (-9) :: .round .dispatcher :: List.replicate 8 (.act .dispatcher plainEnv)

theorem younger_times_out : ∃ (s : System Unit) (scan : Scan),
    Recorded scans (fun _ e => callsTimeout e = false) (init oneWorker {}) s scan ∧
      s.TimesOut (.act .timeouts plainEnv) "x" ∧ ¬ s.Overran scan "x" := by
  have hfacts : (playRecorded scans (fun _ e => callsTimeout e = false) (init oneWorker {} : System Unit) {}
      shipAgain).any (fun r => decide (r.1.TimesOut (.act .timeouts plainEnv) "x" ∧ ¬ r.1.Overran r.2 "x")) = true := by
    decide +kernel
  obtain ⟨⟨s, scan⟩, hplay, hfacts⟩ := (Option.any_eq_true _ _).mp hfacts
  exact ⟨s, scan, Recorded.start.play hplay, of_decide_eq_true hfacts⟩

/-! ## No overrun is missed -/

/-- What a thread holds it still holds after an event, unless it is the section that is run, or a queue that is read no
further. -/
theorem Stepped.section_kept (h : Stepped s e s') {m : Section α} (hreads : m.reads = none) (hm : m ∈ s.sections) :
    m ∈ s'.sections ∨ s.nextSection e = some m := by
  obtain ⟨t, hm⟩ := mem_sections.mp hm
  cases h.handStep t with
  | same hand' =>
    left
    rw [← hand'] at hm
    exact mem_sections.mpr ⟨t, hm⟩
  | begins _ hidle =>
    rw [hidle] at hm
    cases hm
  | @act env m₀ rest body he hand _ hand' =>
    rw [hand] at hm
    rcases List.mem_cons.mp hm with rfl | hm
    · right
      rw [he]
      change (s.hands t).head? = _
      rw [hand]
      rfl
    · left
      refine mem_sections.mpr ⟨t, ?_⟩
      rw [hand']
      exact List.mem_append_right body hm
  | contended _ hand _ hand' =>
    left
    rw [hand] at hm
    rcases List.mem_cons.mp hm with rfl | hm
    · cases hreads
    · refine mem_sections.mpr ⟨t, ?_⟩
      rw [hand']
      exact List.mem_append_right _ hm
  | shutdown _ _ hand' =>
    left
    refine mem_sections.mpr ⟨t, ?_⟩
    rw [hand']
    exact List.mem_append_left _ hm

theorem handleTimeout_gone {e : Executor α} (hnodup : e.inFlight.Nodup) (hf : (e.futures x).done = false) :
    x ∉ (e.handleTimeout x).1.inFlight := by
  have herase : x ∉ e.inFlight.erase x := hnodup.not_mem_erase
  unfold Executor.handleTimeout
  split_ifs with hcond
  · rcases hcond with hout | hdone
    · exact hout
    · rw [hf] at hdone
      cases hdone
  · dsimp only
    repeat' split
    all_goals exact herase

/-- **What had overrun at the time of the last scan and is still in flight** is in the hand of the thread that handles it. -/
theorem step_held (h : s.step e = some s') (hs : Sound s) (hfits : Fits s scan)
    (htimeout : 0 ≤ s.executor.cfg.taskTimeoutSeconds)
    (hheld : ∀ x ∈ s.executor.inFlight, s.Overran scan x → .handleTimeout x ∈ s.sections) :
    ∀ x ∈ s'.executor.inFlight, s'.Overran (scans.next s e s' scan) x → .handleTimeout x ∈ s'.sections := by
  intro x hx hover
  have hstepped := step_stepped h
  by_cases hscan : ∃ now, s.nextSection e = some (.scanTimeouts now)
  · obtain ⟨now, hnext⟩ := hscan
    obtain ⟨t, env, rest, body, rfl, hacted⟩ := acted_of_next h hnext
    obtain ⟨hexecutor, rfl⟩ := Executor.run_eq hacted.run
    rw [scans_scan hnext] at hover
    obtain ⟨startedAt, hstarted, hlate⟩ := hover
    rw [← hexecutor] at hx hstarted hlate
    refine hacted.body_subset (List.mem_map_of_mem (List.mem_filter.mpr ⟨hx, ?_⟩))
    exact (Option.any_eq_true _ _).mpr ⟨startedAt, hstarted, decide_eq_true hlate⟩
  · rw [scans_other (not_exists.mp hscan)] at hover
    obtain ⟨startedAt, hstarted, hlate⟩ := hover
    rw [step_cfg h hs] at hlate
    rcases step_started h hs hx with ⟨hold, hsame⟩ | ⟨-, hnow⟩
    · rw [hsame] at hstarted
      refine (hstepped.section_kept rfl (hheld x hold ⟨startedAt, hstarted, hlate⟩)).resolve_right fun hnext => ?_
      -- it is handled now, so it is not in flight any more
      obtain ⟨t, env, rest, body, rfl, hacted⟩ := acted_of_next h hnext
      obtain ⟨hexecutor, -⟩ := Executor.run_eq (r := s.executor.handleTimeout x) hacted.run
      have hrunning : s.executor.futures x = .running := hs.tidy.running x (List.mem_append_left _ hold)
      rw [← hexecutor] at hx
      exact handleTimeout_gone hs.flight_nodup (by rw [hrunning]; rfl) hx
    · obtain rfl := Option.some.inj (hstarted.symm.trans hnow)
      have hle := hfits.time
      linarith

section
variable {cfg : Config} {profiles : ProfileStore}

/-- **No overrun is missed**: in a run in which only the timeout thread handles timeouts, once that thread is through
with its round, every attempt in flight is one that had not overrun the timeout when the round read the clock. -/
theorem no_overrun_missed (h : Recorded scans (fun _ e => callsTimeout e = false) (init cfg profiles) s scan)
    (htimeout : 0 ≤ cfg.taskTimeoutSeconds) (hrest : s.hands .timeouts = []) :
    ∀ x ∈ s.executor.inFlight, ∃ startedAt, (s.executor.works x).startedAt = some startedAt ∧
      scan.time - startedAt ≤ cfg.taskTimeoutSeconds := by
  have hrun : s.executor.cfg = cfg ∧ (∀ x ∈ s.executor.inFlight, (s.executor.works x).startedAt.isSome = true) ∧
      ∀ x ∈ s.executor.inFlight, s.Overran scan x → .handleTimeout x ∈ s.sections := by
    clear hrest
    induction h with
    | start => exact ⟨rfl, fun x hx => (by cases hx), fun x hx => (by cases hx)⟩
    | @next s s' scan e hrecorded _ hstep ih =>
      obtain ⟨hcfg, hstarted, hheld⟩ := ih
      have hs := hrecorded.reachable.sound.1
      refine ⟨(step_cfg hstep hs).trans hcfg, fun x hx => ?_, ?_⟩
      · rcases step_started hstep hs hx with ⟨hold, hsame⟩ | ⟨-, hnow⟩
        · rw [hsame]
          exact hstarted x hold
        · rw [hnow]
          rfl
      · exact step_held hstep hs (run_fits hrecorded) (hcfg ▸ htimeout) hheld
  obtain ⟨hcfg, hstarted, hheld⟩ := hrun
  intro x hx
  obtain ⟨startedAt, hstart⟩ := Option.isSome_iff_exists.mp (hstarted x hx)
  refine ⟨startedAt, hstart, not_lt.mp fun hlate => ?_⟩
  obtain ⟨t, hm⟩ := mem_sections.mp (hheld x hx ⟨startedAt, hstart, hcfg ▸ hlate⟩)
  rcases run_watching h t with ⟨-, m, hscans, hscan⟩ | hhand
  · rw [hscan] at hm
    rw [← List.mem_singleton.mp hm] at hscans
    cases hscans
  · obtain ⟨rfl, -⟩ := (hhand _ hm).2 x rfl
    rw [hrest] at hm
    cases hm

end

/-- The timeout thread is through with the only task, and another one has been shipped. -/
def shipAnother : List (Event Unit) :=
  scanOne ++ [.act .timeouts plainEnv, .act .timeouts plainEnv, .submit "y" plainRequest plainReading, .append "y",
    .call .dispatcher .maybeDispatch, .act .dispatcher plainEnv]

theorem no_overrun_missed_another : ∃ (s : System Unit) (scan : Scan), s.executor.inFlight = ["y"] ∧ scan.time = 301 ∧
    ∀ x ∈ s.executor.inFlight, ∃ startedAt, (s.executor.works x).startedAt = some startedAt ∧
      scan.time - startedAt ≤ oneWorker.taskTimeoutSeconds := by
  have hfacts : (playRecorded scans (fun _ e => callsTimeout e = false) (init oneWorker {} : System Unit) {}
      shipAnother).any (fun r => decide (r.1.executor.inFlight = ["y"] ∧ r.2.time = 301 ∧
        r.1.hands .timeouts = [])) = true := by
    decide +kernel
  obtain ⟨⟨s, scan⟩, hplay, hfacts⟩ := (Option.any_eq_true _ _).mp hfacts
  obtain ⟨hflight, htime, hrest⟩ := of_decide_eq_true hfacts
  exact ⟨s, scan, hflight, htime, no_overrun_missed (Recorded.start.play hplay) (by decide +kernel) hrest⟩

end System

end AdaptiveExecutor
