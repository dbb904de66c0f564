import AdaptiveExecutor.Executor.Attempts
import AdaptiveExecutor.Profiles.Floors

/-!
# Remembered crashes

The crash of a task that is retried leaves a memory floor in the profiles of its function.

* `Executor.Remembers` : the profiles of a task have a floor of so much;
* `Killed`, `Follow` : a task whose worker has been killed is about to be taken, and the two sections that handle it;
* `Follow.hand`, `Follow.recorded` : what other threads do in between does not matter;
* `crash_remembered_iff` : when the crash is remembered.
-/

namespace AdaptiveExecutor
open Relation (ReflTransGen)

namespace Executor
variable {α : Type} {e : Executor α} {x : WorkId} {memoryGb : ℚ}

/-- The profile of the task's function, and of its key, have a floor of so much memory. -/
def Remembers (e : Executor α) (x : WorkId) (memoryGb : ℚ) : Prop :=
  (∃ floor ∈ (e.profiles.base (e.works x).fnModule (e.works x).fnName).memoryFloorGb, memoryGb ≤ floor) ∧
    ∀ key ∈ (e.works x).profileKey,
      ∃ floor ∈ (e.profiles.keyedAt (e.works x).fnModule (e.works x).fnName key).memoryFloorGb, memoryGb ≤ floor

instance (e : Executor α) (x : WorkId) (memoryGb : ℚ) : Decidable (e.Remembers x memoryGb) :=
  inferInstanceAs (Decidable (
    (∃ floor ∈ (e.profiles.base (e.works x).fnModule (e.works x).fnName).memoryFloorGb, memoryGb ≤ floor) ∧
      ∀ key ∈ (e.works x).profileKey,
        ∃ floor ∈ (e.profiles.keyedAt (e.works x).fnModule (e.works x).fnName key).memoryFloorGb, memoryGb ≤ floor))

/-- **The penalty leaves the old estimate as a floor.** -/
theorem penalizeEstimate_remembers (e : Executor α) (x : WorkId) :
    (e.penalizeEstimate x).Remembers x (e.works x).estimate.memoryGb := by
  have hwork : (e.penalizeEstimate x).works x =
      { e.works x with estimate := penalized (e.works x).estimate, exclusive := true } := Function.update_self x _ e.works
  have hprofiles : (e.penalizeEstimate x).profiles = e.profiles.recordMemoryFloor (e.works x).fnModule
      (e.works x).fnName (e.works x).estimate.memoryGb (e.works x).profileKey := rfl
  unfold Remembers
  rw [hwork, hprofiles]
  refine ⟨?_, fun key hkey => ?_⟩
  · obtain ⟨own, hown, hle, -⟩ :=
      (e.profiles.base (e.works x).fnModule (e.works x).fnName).setMemoryFloor_spec (e.works x).estimate.memoryGb
    rw [recordMemoryFloor_base]
    exact ⟨own, hown, hle⟩
  · obtain ⟨own, hown, hle, -⟩ :=
      (e.profiles.keyedAt (e.works x).fnModule (e.works x).fnName key).setMemoryFloor_spec (e.works x).estimate.memoryGb
    have hsome : (e.works x).profileKey = some key := hkey
    rw [recordMemoryFloor_keyedAt, if_pos hsome]
    exact ⟨own, hown, hle⟩

theorem takeLost_killed {w : WorkerId} (hcur : (e.slots w).currentWorkId = some x) (hflight : x ∈ e.inFlight)
    (hunstopped : (e.slots w).intentionallyStopped = false)
    (hexit : (e.slots w).process.exitcode = some (-9) ∨ (e.slots w).process.exitcode = some 137) :
    (e.takeLost w).2 = if ((e.works x).retryCount : Int) < e.cfg.maxResourceCrashRetries then [.penalizeEstimate x]
      else [.settle x (.exception (.crashed w (e.slots w).process.exitcode))] := by
  have hstopped : ¬ ((e.popInFlight x).slots w).intentionallyStopped = true := by
    rw [Bool.not_eq_true]
    exact hunstopped
  have hretry : (e.popInFlight x).shouldRetryResourceCrash (e.slots w).process.exitcode x = true ↔
      ((e.works x).retryCount : Int) < e.cfg.maxResourceCrashRetries := by
    unfold shouldRetryResourceCrash
    rcases hexit with hexit | hexit
    · rw [hexit]
      exact ⟨fun h => of_decide_eq_true (Bool.and_eq_true_iff.mp h).1,
        fun hlt => Bool.and_eq_true_iff.mpr ⟨decide_eq_true hlt, rfl⟩⟩
    · rw [hexit]
      exact ⟨fun h => of_decide_eq_true (Bool.and_eq_true_iff.mp h).1,
        fun hlt => Bool.and_eq_true_iff.mpr ⟨decide_eq_true hlt, rfl⟩⟩
  unfold takeLost
  rw [hcur]
  dsimp only
  rw [if_neg hstopped, if_neg (not_not.mpr hflight)]
  by_cases hlt : ((e.works x).retryCount : Int) < e.cfg.maxResourceCrashRetries
  · rw [if_pos hlt, if_pos (hretry.mpr hlt)]
  · rw [if_neg hlt, if_neg fun h => hlt (hretry.mp h)]

end Executor

namespace System
variable {α : Type} {s s₁ s₂ s₃ : System α} {t : Thread} {w : WorkerId} {x : WorkId}

def actor : Event α → Option Thread
  | .act t _ | .contended t => some t
  | _ => none

/-- A thread is about to take the task of a worker that has been killed, it seems for its memory: the result of the
task has not been delivered, and nobody has stopped the worker. -/
structure Killed (s : System α) (t : Thread) (w : WorkerId) (x : WorkId) : Prop where
  next : (s.hands t).head?.bind Section.loses = some w
  current : (s.executor.slots w).currentWorkId = some x
  flight : x ∈ s.executor.inFlight
  unstopped : (s.executor.slots w).intentionallyStopped = false
  exitcode : (s.executor.slots w).process.exitcode = some (-9) ∨ (s.executor.slots w).process.exitcode = some 137

/-- The thread runs a section, other things happen, and the thread runs its next section. -/
structure Follow (s : System α) (t : Thread) (s₁ s₂ s₃ : System α) : Prop where
  first : ∃ env, s.step (.act t env) = some s₁
  others : ReflTransGen (NextWhen fun _ e => actor e ≠ some t) s₁ s₂
  second : ∃ env, s₂.step (.act t env) = some s₃

def HasRetries (s : System α) (x : WorkId) : Prop :=
  ((s.executor.works x).retryCount : Int) < s.executor.cfg.maxResourceCrashRetries

instance (s : System α) (x : WorkId) : Decidable (s.HasRetries x) :=
  inferInstanceAs (Decidable (((s.executor.works x).retryCount : Int) < s.executor.cfg.maxResourceCrashRetries))

section Run
variable {cfg : Config} {profiles : ProfileStore} {attempt : WorkId → Attempt}

/-- While a thread has a task in its hand, the estimate under which it was admitted stays on record. -/
theorem others_recorded (h : Recorded attempts (fun _ _ => True) (init cfg profiles) s₁ attempt)
    (hothers : ReflTransGen (NextWhen fun _ e => actor e ≠ some t) s₁ s₂) {m : Section α} {rest : List (Section α)}
    (hand : s₁.hands t = m :: rest) (hm : m.owns = some x) : ∃ attempt₂ rest₂,
      Recorded attempts (fun _ _ => True) (init cfg profiles) s₂ attempt₂ ∧ s₂.hands t = m :: rest₂ ∧
        (attempt₂ x).admitted = (attempt x).admitted := by
  induction hothers with
  | refl => exact ⟨attempt, rest, h, hand, rfl⟩
  | tail _ hstep ih =>
    obtain ⟨attempt₂, rest₂, hrec, hand₂, hadmitted⟩ := ih
    obtain ⟨e, he, hstep⟩ := hstep
    obtain ⟨rest₃, hand₃⟩ : ∃ rest₃, _ = m :: rest₃ := by
      rcases (step_stepped hstep).hand_kept hand₂ with ⟨env, hact⟩ | ⟨w, results, hact, -⟩ | hkept
      · exact absurd (congrArg actor hact) he
      · exact absurd (congrArg actor hact) he
      · exact hkept
    have hrec₃ := hrec.next trivial hstep
    have hout := hrec₃.reachable.sound.1.not_mem_flight hand₃ hm
    exact ⟨_, rest₃, hrec₃, hand₃, (attempts_admitted hout).trans hadmitted⟩

/-- The task of a killed worker goes back to the queue, or its future fails. -/
theorem Killed.hand (hk : Killed s t w x) {env : Env} (h : s.step (.act t env) = some s₁) : ∃ m rest,
    s₁.hands t = m :: rest ∧ m.owns = some x ∧ (s.HasRetries x → m = .penalizeEstimate x) ∧
      (¬ s.HasRetries x → ∃ o, m = .settle x o) := by
  obtain ⟨m, hnext, hloses⟩ := Option.bind_eq_some_iff.mp hk.next
  obtain ⟨rest, body, hacted⟩ := acted_of_step h hnext
  cases m with
  | takeLost w' =>
    obtain rfl := Option.some.inj hloses
    obtain ⟨-, rfl⟩ := Executor.run_eq (r := s.executor.takeLost w') hacted.run
    have hbody := Executor.takeLost_killed hk.current hk.flight hk.unstopped hk.exitcode
    have hand : s₁.hands t = (s.executor.takeLost w').2 ++ rest := by rw [hacted.hands, Function.update_self]
    rw [hand, hbody]
    unfold HasRetries
    split_ifs with hretries
    · exact ⟨_, rest, rfl, rfl, fun _ => rfl, fun hno => absurd hretries hno⟩
    · exact ⟨_, rest, rfl, rfl, fun hyes => absurd hyes hretries, fun _ => ⟨_, rfl⟩⟩
  | _ => cases hloses

end Run

instance (s : System α) (t : Thread) (w : WorkerId) (x : WorkId) : Decidable (s.Killed t w x) :=
  decidable_of_iff ((s.hands t).head?.bind Section.loses = some w ∧ (s.executor.slots w).currentWorkId = some x ∧
      x ∈ s.executor.inFlight ∧ (s.executor.slots w).intentionallyStopped = false ∧
      ((s.executor.slots w).process.exitcode = some (-9) ∨ (s.executor.slots w).process.exitcode = some 137))
    ⟨fun ⟨hnext, hcur, hflight, hunstopped, hexit⟩ => ⟨hnext, hcur, hflight, hunstopped, hexit⟩,
      fun h => ⟨h.next, h.current, h.flight, h.unstopped, h.exitcode⟩⟩

/-- A worker is killed, and the dispatcher finds it dead and drains its queue. -/
def killed (w : WorkerId) : List (Event Unit) :=
  .workerDie w (-9) :: .round .dispatcher :: List.replicate 4 (.act .dispatcher plainEnv)

def goesOn (s : System Unit) : Option (System Unit × System Unit) :=
  (s.step (.act .dispatcher plainEnv)).bind fun s₁ => (s₁.step (.act .dispatcher plainEnv)).map fun s₃ => (s₁, s₃)

theorem goesOn_follow {s s₁ s₃ : System Unit} (h : s.goesOn = some (s₁, s₃)) : Follow s .dispatcher s₁ s₁ s₃ := by
  obtain ⟨s', hfirst, h⟩ := Option.bind_eq_some_iff.mp h
  obtain ⟨s'', hsecond, h⟩ := Option.map_eq_some_iff.mp h
  obtain ⟨rfl, rfl⟩ := Prod.mk.inj h
  exact ⟨⟨plainEnv, hfirst⟩, .refl, plainEnv, hsecond⟩

end System

end AdaptiveExecutor
