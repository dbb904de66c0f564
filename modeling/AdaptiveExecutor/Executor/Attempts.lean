import Mathlib.Tactic.Linarith
import AdaptiveExecutor.Executor.Exclusive
import AdaptiveExecutor.Executor.Tasks

/-!
# The attempts of a task

A task whose worker has been killed for its memory is retried, alone and with its estimate doubled.

* `Attempt`, `attempts` : how often a task has been shipped and retried, and under which estimates;
* `Bounded`, `step_bounded` : what holds of a task in each of its places, and every event keeps it;
* `run_bounded` : in every run.
-/

namespace AdaptiveExecutor

structure Attempt where
  shipped : Nat := 0
  retries : Nat := 0
  /-- The memory estimate with which it was last shipped. -/
  admitted : ℚ := 0
  /-- The memory estimate with which the first attempt that crashed had been shipped. -/
  firstCrash : ℚ := 0

namespace Attempt

def ship (a : Attempt) (memoryGb : ℚ) : Attempt := { a with shipped := a.shipped + 1, admitted := memoryGb }

/-- The crash of an attempt: before any retry, it is the first. -/
def crash (a : Attempt) : Attempt := if a.retries = 0 then { a with firstCrash := a.admitted } else a

def retry (a : Attempt) : Attempt := { a with retries := a.retries + 1 }

variable {a : Attempt}

theorem retries_crash : a.crash.retries = a.retries := by
  unfold crash
  split_ifs <;> rfl

theorem shipped_crash : a.crash.shipped = a.shipped := by
  unfold crash
  split_ifs <;> rfl

theorem firstCrash_crash (h : a.retries = 0) : a.crash.firstCrash = a.admitted := by
  rw [crash, if_pos h]

theorem admitted_crash : a.crash.admitted = a.admitted := by
  unfold crash
  split_ifs <;> rfl

theorem crash_of_retried (h : 0 < a.retries) : a.crash = a := if_neg h.ne'

end Attempt

namespace Section
variable {α : Type}

/-- What a section does to the history of a task. -/
def records (m : Section α) (x : WorkId) (a : Attempt) : Attempt :=
  match m with
  | .penalizeEstimate y => if y = x then a.crash else a
  | .requeue y => if y = x then a.retry else a
  | _ => a

theorem records_of_retries {m : Section α} {x : WorkId} (h : m.retries ≠ some x) (a : Attempt) : m.records x a = a := by
  cases m with
  | penalizeEstimate y => exact if_neg fun hy => h (congrArg some hy)
  | requeue y => exact if_neg fun hy => h (congrArg some hy)
  | _ => rfl

theorem admitted_records (m : Section α) (x : WorkId) (a : Attempt) : (m.records x a).admitted = a.admitted := by
  cases m with
  | penalizeEstimate y =>
    unfold records
    dsimp only
    split_ifs
    · exact Attempt.admitted_crash
    · rfl
  | requeue y =>
    unfold records
    dsimp only
    split_ifs <;> rfl
  | _ => rfl

end Section

namespace System
variable {α : Type} {s s' : System α} {e : Event α} {x : WorkId} {a : Attempt}

def attempts : History α (WorkId → Attempt) where
  start := fun _ => {}
  next s e s' a x :=
    if x ∈ s'.executor.inFlight ∧ x ∉ s.executor.inFlight then (a x).ship (s'.executor.works x).estimate.memoryGb
    else (s.nextSection e).elim (a x) fun m => m.records x (a x)

theorem attempts_same {attempt : WorkId → Attempt} (hflight : x ∈ s'.executor.inFlight → x ∈ s.executor.inFlight)
    (hnext : ∀ m ∈ s.nextSection e, m.retries ≠ some x) : attempts.next s e s' attempt x = attempt x := by
  have hold : ¬ (x ∈ s'.executor.inFlight ∧ x ∉ s.executor.inFlight) := fun h => h.2 (hflight h.1)
  have hnext' : (s.nextSection e).elim (attempt x) (fun m => m.records x (attempt x)) = attempt x := by
    cases hm : s.nextSection e with
    | none => rfl
    | some m => exact Section.records_of_retries (hnext m hm) _
  exact (if_neg hold).trans hnext'

theorem attempts_ship {attempt : WorkId → Attempt} (hflight : x ∈ s'.executor.inFlight) (hnew : x ∉ s.executor.inFlight) :
    attempts.next s e s' attempt x = (attempt x).ship (s'.executor.works x).estimate.memoryGb := if_pos ⟨hflight, hnew⟩

theorem attempts_records {attempt : WorkId → Attempt} {m : Section α}
    (hflight : s'.executor.inFlight = s.executor.inFlight) (hnext : s.nextSection e = some m) :
    attempts.next s e s' attempt x = m.records x (attempt x) := by
  have hold : ¬ (x ∈ s'.executor.inFlight ∧ x ∉ s.executor.inFlight) := fun h => h.2 (hflight ▸ h.1)
  refine (if_neg hold).trans ?_
  rw [hnext]
  rfl

theorem attempts_admitted {attempt : WorkId → Attempt} (hout : x ∉ s'.executor.inFlight) :
    (attempts.next s e s' attempt x).admitted = (attempt x).admitted := by
  have hold : ¬ (x ∈ s'.executor.inFlight ∧ x ∉ s.executor.inFlight) := fun h => hout h.1
  refine (congrArg Attempt.admitted (if_neg hold)).trans ?_
  cases s.nextSection e with
  | none => rfl
  | some m => exact m.admitted_records x (attempt x)

/-- **The attempts of a task**, in each of its places: they are as many as the retries, one more while one runs or has
just crashed, and the retries are within the setting. -/
structure Bounded (s : System α) (x : WorkId) (a : Attempt) : Prop where
  count : a.retries = (s.executor.works x).retryCount
  shipped : a.shipped ≤ 1 + s.executor.cfg.maxResourceCrashRetries.toNat
  new : x ∉ s.issued → a.shipped = 0 ∧ a.retries = 0
  waiting : s.Waiting x → a.shipped ≤ a.retries ∧ a.retries ≤ s.executor.cfg.maxResourceCrashRetries.toNat
  flight : x ∈ s.executor.inFlight → (s.executor.works x).estimate.memoryGb = a.admitted ∧
    a.shipped ≤ a.retries + 1 ∧ a.retries ≤ s.executor.cfg.maxResourceCrashRetries.toNat
  crashed : .penalizeEstimate x ∈ s.sections → (s.executor.works x).estimate.memoryGb = a.admitted ∧
    a.shipped ≤ a.retries + 1 ∧ a.retries + 1 ≤ s.executor.cfg.maxResourceCrashRetries.toNat
  penalized : .requeue x ∈ s.sections → (s.executor.works x).exclusive = true ∧
    2 ^ (a.retries + 1) * a.firstCrash ≤ (s.executor.works x).estimate.memoryGb ∧
      a.shipped ≤ a.retries + 1 ∧ a.retries + 1 ≤ s.executor.cfg.maxResourceCrashRetries.toNat
  retried : 0 < a.retries → (s.executor.works x).exclusive = true ∧
    2 ^ a.retries * a.firstCrash ≤ (s.executor.works x).estimate.memoryGb

theorem Bounded.stays (h : Bounded s x a) (hstays : Stays s e s' x) (hs : Sound s)
    (hcfg : s'.executor.cfg = s.executor.cfg) : Bounded s' x a := by
  have heldKept {m : Section α} (hm : m ∈ s.sections) (hx : m.owns = some x) :
      (s'.executor.works x).estimate = (s.executor.works x).estimate :=
    (hstays.kept fun hp => (hs.waiting (.inr hp)).2 (mem_held hm hx)).1
  refine ⟨h.count.trans hstays.work.retryCount.symm, ?_, fun hnew => h.new fun hi => hnew (hstays.issued hi), fun hw => ?_,
    fun hf => ?_, fun hm => ?_, fun hm => ?_, fun hk => ?_⟩
  · rw [hcfg]
    exact h.shipped
  · rw [hcfg]
    exact h.waiting (hstays.waiting hw)
  · have hf := hstays.flight hf
    rw [hcfg, (hstays.kept fun hp => hs.queued_not_flight x hp hf).1]
    exact h.flight hf
  · have hm := hstays.retrying _ hm rfl
    rw [hcfg, heldKept hm rfl]
    exact h.crashed hm
  · have hm := hstays.retrying _ hm rfl
    rw [hcfg, heldKept hm rfl, hstays.work.exclusive]
    exact h.penalized hm
  · rw [hstays.work.exclusive, hstays.work.estimate (h.count ▸ hk)]
    exact h.retried hk

section Places
variable (hs : Sound s) (hcount : a.retries = (s.executor.works x).retryCount)
  (hretried : 0 < a.retries → (s.executor.works x).exclusive = true ∧
    2 ^ a.retries * a.firstCrash ≤ (s.executor.works x).estimate.memoryGb)
include hs hcount hretried

theorem Bounded.of_waiting (hw : s.Waiting x) (hshipped : a.shipped ≤ a.retries)
    (hretries : a.retries ≤ s.executor.cfg.maxResourceCrashRetries.toNat) : Bounded s x a := by
  obtain ⟨hout, hheld⟩ := hs.waiting hw
  exact ⟨hcount, by omega, fun hnew => absurd (hs.issued_of_place (.inl hw)) hnew, fun _ => ⟨hshipped, hretries⟩,
    fun hf => absurd hf hout, fun hm => absurd (mem_held hm rfl) hheld, fun hm => absurd (mem_held hm rfl) hheld, hretried⟩

theorem Bounded.of_flight (hf : x ∈ s.executor.inFlight) (hadmitted : (s.executor.works x).estimate.memoryGb = a.admitted)
    (hshipped : a.shipped ≤ a.retries + 1) (hretries : a.retries ≤ s.executor.cfg.maxResourceCrashRetries.toNat) :
    Bounded s x a := by
  have hheld := hs.not_held_of_flight hf
  exact ⟨hcount, by omega, fun hnew => absurd (hs.issued_of_place (.inr (.inl hf))) hnew,
    fun hw => absurd hf (hs.waiting hw).1, fun _ => ⟨hadmitted, hshipped, hretries⟩,
    fun hm => absurd (mem_held hm rfl) hheld, fun hm => absurd (mem_held hm rfl) hheld, hretried⟩

/-- A task that is on its way back to the queue, not penalized yet or already. -/
theorem Bounded.of_held {m : Section α} (hm : m ∈ s.sections) (howns : m.owns = some x)
    (hshipped : a.shipped ≤ a.retries + 1) (hretries : a.retries + 1 ≤ s.executor.cfg.maxResourceCrashRetries.toNat)
    (hcrashed : m = .penalizeEstimate x → (s.executor.works x).estimate.memoryGb = a.admitted)
    (hpenalized : m = .requeue x → (s.executor.works x).exclusive = true ∧
      2 ^ (a.retries + 1) * a.firstCrash ≤ (s.executor.works x).estimate.memoryGb) : Bounded s x a := by
  have hheld := mem_held hm howns
  refine ⟨hcount, by omega, fun hnew => absurd (hs.issued_of_place (.inr (.inr hheld))) hnew,
    fun hw => absurd hheld (hs.waiting hw).2, fun hf => absurd hheld (hs.not_held_of_flight hf), fun hm' => ?_,
    fun hm' => ?_, hretried⟩
  · exact ⟨hcrashed (hs.owns_inj hm hm' howns rfl), hshipped, hretries⟩
  · obtain ⟨hexclusive, hle⟩ := hpenalized (hs.owns_inj hm hm' howns rfl)
    exact ⟨hexclusive, hle, hshipped, hretries⟩

end Places

theorem retries_lt (hcount : a.retries = (s.executor.works x).retryCount) {exitcode : Option Int}
    (hretry : s.executor.shouldRetryResourceCrash exitcode x = true) :
    a.retries + 1 ≤ s.executor.cfg.maxResourceCrashRetries.toNat := by
  unfold Executor.shouldRetryResourceCrash at hretry
  have hlt := of_decide_eq_true (Bool.and_eq_true_iff.mp hretry).1
  rw [← hcount] at hlt
  omega

theorem memoryGb_penalized (estimate : ResourceEstimate) : 2 * estimate.memoryGb ≤ (Executor.penalized estimate).memoryGb := by
  have hle : estimate.memoryGb * 2 ≤ max (1 / 10) (estimate.memoryGb * 2) := le_max_right _ _
  rwa [mul_comm]

/-- **Every event keeps the bounds of a task.** -/
theorem step_bounded (h : s.step e = some s') (hs : Sound s) {attempt : WorkId → Attempt}
    (ha : Bounded s x (attempt x)) : Bounded s' x (attempts.next s e s' attempt x) := by
  have hs' : Sound s' := (step_stepped h).sound hs
  have hcfg := step_cfg h hs
  cases step_task h hs x with
  | stays hstays =>
    rw [attempts_same hstays.flight hstays.next]
    exact ha.stays hstays hs hcfg
  | submitted hnew hnext hsubmitting hflight hretry =>
    rw [attempts_same (hflight ▸ id) (by simp [hnext])]
    obtain ⟨hshipped, hretries⟩ := ha.new hnew
    refine .of_waiting hs' (hretries.trans hretry.symm) (fun hk => ?_) (.inl hsubmitting) ?_ ?_
    · rw [hretries] at hk
      exact absurd hk (lt_irrefl 0)
    · rw [hshipped, hretries]
    · rw [hretries]
      exact Nat.zero_le _
  | shipped hnext hpending hflight hwork hstarted =>
    rw [attempts_ship hflight (hs.queued_not_flight x hpending)]
    obtain ⟨hshipped, hretries⟩ := ha.waiting (.inr hpending)
    refine .of_flight hs' (ha.count.trans hwork.retryCount.symm) (fun hk => ?_) hflight rfl (Nat.succ_le_succ hshipped) ?_
    · rw [hwork.exclusive, hwork.estimate (ha.count ▸ hk)]
      exact ha.retried hk
    · rw [hcfg]
      exact hretries
  | crashed hnext hflight hretry hsection hwork =>
    rw [attempts_same (fun _ => hflight) (by simp [hnext, Section.retries])]
    obtain ⟨hadmitted, hshipped, -⟩ := ha.flight hflight
    refine .of_held hs' ?_ ?_ hsection rfl hshipped ?_ (fun _ => ?_) fun hm => by cases hm
    · rw [hwork]
      exact ha.count
    · rw [hwork]
      exact ha.retried
    · rw [hcfg]
      exact retries_lt ha.count hretry
    · rw [hwork]
      exact hadmitted
  | penalized hnext hsection hflight hwork =>
    rw [attempts_records hflight hnext, Section.records, if_pos rfl]
    obtain ⟨hadmitted, hshipped, hretries⟩ := ha.crashed (mem_of_nextSection hnext)
    have hdouble := memoryGb_penalized (s.executor.works x).estimate
    refine .of_held hs' ?_ (fun hk => ?_) hsection rfl ?_ ?_ (fun hm => by cases hm) fun _ => ?_
    · rw [hwork, Attempt.retries_crash]
      exact ha.count
    · rw [Attempt.retries_crash] at hk
      obtain ⟨-, hle⟩ := ha.retried hk
      have hnonneg := (s.executor.works x).estimate.memory_nonneg
      rw [hwork, Attempt.crash_of_retried hk]
      refine ⟨rfl, ?_⟩
      dsimp only
      linarith
    · rw [Attempt.shipped_crash, Attempt.retries_crash]
      exact hshipped
    · rw [hcfg, Attempt.retries_crash]
      exact hretries
    · rw [hwork, Attempt.retries_crash]
      refine ⟨rfl, ?_⟩
      rcases Nat.eq_zero_or_pos (attempt x).retries with hk | hk
      · rw [Attempt.firstCrash_crash hk, hk, ← hadmitted, zero_add, pow_one]
        exact hdouble
      · obtain ⟨-, hle⟩ := ha.retried hk
        rw [Attempt.crash_of_retried hk, pow_succ', mul_assoc]
        linarith
  | requeued hnext hpending hflight hwork =>
    rw [attempts_records hflight hnext, Section.records, if_pos rfl]
    obtain ⟨hexclusive, hle, hshipped, hretries⟩ := ha.penalized (mem_of_nextSection hnext)
    refine .of_waiting hs' ?_ (fun _ => ?_) (.inr hpending) hshipped ?_
    · rw [hwork]
      exact congrArg (· + 1) ha.count
    · rw [hwork]
      exact ⟨hexclusive, hle⟩
    · rw [hcfg]
      exact hretries

section
variable {cfg : Config} {profiles : ProfileStore} {attempt : WorkId → Attempt}

theorem run_bounded {p : System α → Event α → Prop} (h : Recorded attempts p (init cfg profiles) s attempt) (x : WorkId) :
    Bounded s x (attempt x) := by
  induction h with
  | start =>
    have hnone (m : Section α) (hm : m ∈ (init cfg profiles : System α).sections) : False := by cases hm
    exact ⟨rfl, Nat.zero_le _, fun _ => ⟨rfl, rfl⟩, fun _ => ⟨le_rfl, Nat.zero_le _⟩, fun hf => (by cases hf),
      fun hm => (hnone _ hm).elim, fun hm => (hnone _ hm).elim, fun hk => absurd hk (lt_irrefl 0)⟩
  | next hrun _ hstep ih => exact step_bounded hstep hrun.reachable.sound.1 ih

theorem run_cfg {p : System α → Event α → Prop} (h : Recorded attempts p (init cfg profiles) s attempt) :
    s.executor.cfg = cfg := by
  induction h with
  | start => rfl
  | next hrun _ hstep ih => exact (step_cfg hstep hrun.reachable.sound.1).trans ih

/-- **Crash retries are bounded and never weakened**: in every run a task is shipped at most once more than it may be
retried (a negative setting allows no retry), and after its `k`-th retry it is exclusive, and its memory estimate is at
least `2 ^ k` times that under which its first crashed attempt had been admitted. -/
theorem retries_bounded (h : Recorded attempts (fun _ _ => True) (init cfg profiles) s attempt) (x : WorkId) :
    (attempt x).shipped ≤ 1 + cfg.maxResourceCrashRetries.toNat ∧
      (0 < (attempt x).retries → (s.executor.works x).exclusive = true ∧
        2 ^ (attempt x).retries * (attempt x).firstCrash ≤ (s.executor.works x).estimate.memoryGb) := by
  have hbounded := run_bounded h x
  have hshipped := hbounded.shipped
  rw [run_cfg h] at hshipped
  exact ⟨hshipped, hbounded.retried⟩

end

theorem retries_bounded_once : ∃ s : System Unit, (s.executor.works "x").exclusive = true ∧
    ∃ firstCrash : ℚ, 0 < firstCrash ∧ 2 ^ 1 * firstCrash ≤ (s.executor.works "x").estimate.memoryGb := by
  have hfacts : (playRecorded attempts (fun _ _ => True) (init oneWorker {} : System Unit) (fun _ => {}) retryOne).any
      (fun r => decide ((r.2 "x").retries = 1 ∧ 0 < (r.2 "x").firstCrash)) = true := by decide +kernel
  obtain ⟨⟨s, attempt⟩, hplay, hfacts⟩ := (Option.any_eq_true _ _).mp hfacts
  obtain ⟨hretries, hfirst⟩ := of_decide_eq_true hfacts
  obtain ⟨hexclusive, hle⟩ := (retries_bounded (Recorded.start.play hplay) "x").2 (by rw [hretries]; exact Nat.one_pos)
  rw [hretries] at hle
  exact ⟨s, hexclusive, (attempt "x").firstCrash, hfirst, hle⟩

end System

end AdaptiveExecutor
