import AdaptiveExecutor.Backfill.Lockstep
import AdaptiveExecutor.Scheduling.Plan

/-!
# A plan, task by task

`_Planner.run` gives every queued task one turn, in the order of the queue: in front admission, in the scan behind a
blocked head, or after the end of the cycle.

* `Stage`, `Course` : how far a plan has come; `Course.machine` : the turn of a task;
* `planDispatch_decisions` : the decisions of a plan are the answers of the turns;
* `PassesOver`, `take_decisions_of_passesOver` : when some of the tasks make no difference to the others.
-/

namespace AdaptiveExecutor
open Lockstep (Machine)

/-- What a plan does with the next task of the queue. -/
inductive Stage
  | front
  /-- Behind a blocked head, with its reservation. -/
  | behind (head : PendingEntry) (reservation : WithTop ℚ)
  /-- An exclusive task runs, has been admitted, or is the blocked head. -/
  | ended

structure Course where
  planner : Planner
  stage : Stage

namespace Course
variable (c : Course) (task : PendingEntry)

def test : Option (Option GpuId × Int × Option Bool) :=
  match c.stage with
  | .front =>
    if c.planner.canaryBlocked task then none
    else (c.planner.cap.fits task c.planner.pools.toRoom c.planner.pools.rr).map fun r => (r.1, r.2, none)
  | .behind head reservation => (c.planner.offer head reservation task).map fun r => (r.1, r.2.1, some r.2.2)
  | .ended => none

def stageAfter (admitted : Bool) : Stage :=
  match c.stage with
  | .front =>
    if task.exclusive then .ended else if admitted then .front else .behind task (c.planner.reservation task)
  | stage => stage

def next : Course :=
  match c.test task with
  | none => ⟨c.planner, c.stageAfter task false⟩
  | some (gpuId, rr, releases) => ⟨c.planner.admitTask task gpuId rr releases, c.stageAfter task true⟩

def machine : Machine Course PendingEntry (Option GpuId) where
  answer c task := (c.test task).map (·.1)
  next := next

def decisions (c : Course) (tasks : List PendingEntry) : List DispatchDecision :=
  (machine.outputs PendingEntry.id tasks c).map fun o => ⟨o.1, o.2⟩

end Course

namespace Planner
variable (p : Planner)

def course : Course := ⟨p, if p.occupants.any (·.exclusive) then .ended else .front⟩

variable {p}

theorem gpuOptions_queue (queue : List PendingEntry) (vramGb : ℚ) :
    gpuOptions { p with queue := queue } vramGb = p.gpuOptions vramGb := by
  have hloop : ∀ offsets, gpuOptionsLoop { p with queue := queue } vramGb offsets = p.gpuOptionsLoop vramGb offsets := by
    intro offsets
    induction offsets with
    | nil => rfl
    | cons offset offsets ih =>
      unfold gpuOptionsLoop
      rw [ih]
  exact hloop _

theorem offer_queue (queue : List PendingEntry) (head : PendingEntry) (reservation : WithTop ℚ) (task : PendingEntry) :
    offer { p with queue := queue } head reservation task = p.offer head reservation task := by
  unfold offer placeBackfill
  rw [gpuOptions_queue]
  rfl

end Planner

namespace Course

variable {c : Course} {task : PendingEntry} {tasks : List PendingEntry}

theorem decisions_none (h : c.test task = none) :
    c.decisions (task :: tasks) = decisions ⟨c.planner, c.stageAfter task false⟩ tasks := by
  have hnext : c.next task = ⟨c.planner, c.stageAfter task false⟩ := by rw [next, h]
  rw [decisions, Machine.outputs_cons, decisions, ← hnext]
  change ((((c.test task).map _).map _).toList ++ _).map _ = _
  rw [h]
  rfl

theorem decisions_some {gpuId : Option GpuId} {rr : Int} {releases : Option Bool}
    (h : c.test task = some (gpuId, rr, releases)) : c.decisions (task :: tasks) =
      ⟨task.id, gpuId⟩ :: decisions ⟨c.planner.admitTask task gpuId rr releases, c.stageAfter task true⟩ tasks := by
  have hnext : c.next task = ⟨c.planner.admitTask task gpuId rr releases, c.stageAfter task true⟩ := by rw [next, h]
  rw [decisions, Machine.outputs_cons, decisions, ← hnext]
  change ((((c.test task).map _).map _).toList ++ _).map _ = _
  rw [h]
  rfl

theorem decisions_ended (p : Planner) : ∀ tasks : List PendingEntry, decisions ⟨p, .ended⟩ tasks = []
  | [] => rfl
  | _ :: tasks => (decisions_none rfl).trans (decisions_ended p tasks)

/-- A task that is passed over behind a blocked head, or after the end, changes nothing. -/
theorem next_eq_self (hstage : c.stage ≠ .front) (htest : c.test task = none) : c.next task = c := by
  obtain ⟨planner, stage⟩ := c
  rw [next, htest]
  cases stage with
  | front => exact absurd rfl hstage
  | behind | ended => rfl

/-- Up to the `n`-th decision on a live task, every task that is not live, but has a live one behind it, has its turn
behind a blocked head or after the end, and is passed over. -/
def PassesOver (live : String → Bool) : List PendingEntry → Nat → Course → Prop
  | [], _, _ => True
  | _ :: _, 0, _ => True
  | task :: tasks, n + 1, c =>
    if live task.id then PassesOver live tasks (if (c.test task).isSome then n else n + 1) (c.next task)
    else (∃ t ∈ tasks, live t.id = true) → (c.stage ≠ .front ∧ c.test task = none) ∧ PassesOver live tasks (n + 1) c

instance decidablePassesOver (live : String → Bool) : ∀ (tasks : List PendingEntry) (n : Nat) (c : Course),
    Decidable (PassesOver live tasks n c)
  | [], _, _ => .isTrue trivial
  | _ :: _, 0, _ => .isTrue trivial
  | task :: tasks, n + 1, c =>
    have := decidablePassesOver live tasks (if (c.test task).isSome then n else n + 1) (c.next task)
    have := decidablePassesOver live tasks (n + 1) c
    have : Decidable (c.stage ≠ .front) := match c.stage with
      | .front => .isFalse fun h => h rfl
      | .behind _ _ | .ended => .isTrue nofun
    inferInstanceAs (Decidable (if live task.id then _ else _))

theorem silent_of_passesOver (live : String → Bool) : ∀ {tasks : List PendingEntry} {n : Nat} {c : Course},
    PassesOver live tasks n c → machine.Silent PendingEntry.id live tasks n c
  | [], _, _, _ => trivial
  | _ :: _, 0, _, _ => trivial
  | task :: tasks, n + 1, c, h => by
    have hanswer : (machine.answer c task).isSome = (c.test task).isSome := Option.isSome_map
    cases hlive : live task.id with
    | true =>
      rw [PassesOver, if_pos hlive] at h
      rw [Machine.silent_live hlive, hanswer]
      exact silent_of_passesOver live h
    | false =>
      rw [PassesOver, if_neg (by rw [hlive]; exact Bool.false_ne_true)] at h
      rw [Machine.silent_dead hlive]
      exact fun hbehind => ⟨next_eq_self (h hbehind).1.1 (h hbehind).1.2, silent_of_passesOver live (h hbehind).2⟩

/-- **Tasks that are passed over** make no difference to the first `n` decisions on the others. -/
theorem take_decisions_of_passesOver {live : String → Bool} {n : Nat} (h : PassesOver live tasks n c) :
    ((c.decisions tasks).filter fun d => live d.pendingId).take n =
      (c.decisions (tasks.filter fun task => live task.id)).take n := by
  have houtputs := Machine.take_outputs_of_silent (silent_of_passesOver live h)
  unfold decisions
  rw [List.filter_map, ← List.map_take, ← List.map_take, ← houtputs]
  rfl

theorem admitTask_decisions (p : Planner) (task : PendingEntry) (gpuId : Option GpuId) (rr : Int) (releases : Option Bool) :
    (p.admitTask task gpuId rr releases).admitted.map Admission.decision =
      p.admitted.map Admission.decision ++ [⟨task.id, gpuId⟩] := List.map_append

theorem backfill_decisions (head : PendingEntry) (reservation : WithTop ℚ) : ∀ (tasks : List PendingEntry) (p : Planner),
    (p.backfill head reservation tasks).admitted.map Admission.decision =
      p.admitted.map Admission.decision ++ decisions ⟨p, .behind head reservation⟩ tasks
  | [], p => (List.append_nil _).symm
  | task :: tasks, p => by
    unfold Planner.backfill
    cases ho : p.offer head reservation task with
    | none =>
      have htest : test ⟨p, .behind head reservation⟩ task = none := congrArg (Option.map _) ho
      rw [decisions_none htest]
      exact backfill_decisions head reservation tasks p
    | some o =>
      have htest : test ⟨p, .behind head reservation⟩ task = some (o.1, o.2.1, some o.2.2) := congrArg (Option.map _) ho
      rw [decisions_some htest, List.append_cons, ← admitTask_decisions]
      exact backfill_decisions head reservation tasks _

theorem decisions_queue (queue : List PendingEntry) : ∀ (tasks : List PendingEntry) (p : Planner) (stage : Stage),
    decisions ⟨{ p with queue := queue }, stage⟩ tasks = decisions ⟨p, stage⟩ tasks
  | [], _, _ => rfl
  | task :: tasks, p, stage => by
    have hsame : test ⟨{ p with queue := queue }, stage⟩ task = test ⟨p, stage⟩ task := by
      cases stage with
      | front | ended => rfl
      | behind head reservation => exact congrArg (Option.map _) (Planner.offer_queue queue head reservation task)
    have hstage (admitted : Bool) :
        stageAfter ⟨{ p with queue := queue }, stage⟩ task admitted = stageAfter ⟨p, stage⟩ task admitted := by
      cases stage <;> rfl
    cases htest : test ⟨p, stage⟩ task with
    | none =>
      rw [decisions_none htest, decisions_none (hsame.trans htest), hstage]
      exact decisions_queue queue tasks p _
    | some r =>
      rw [decisions_some htest, decisions_some (hsame.trans htest), hstage]
      exact congrArg _ (decisions_queue queue tasks (p.admitTask task r.1 r.2.1 r.2.2) _)

theorem front_decisions : ∀ (tasks : List PendingEntry) (p : Planner),
    (if (p.frontLoop tasks).2 then (p.frontLoop tasks).1.backfillRest else (p.frontLoop tasks).1).admitted.map
        Admission.decision = p.admitted.map Admission.decision ++ decisions ⟨p, .front⟩ tasks
  | [], p => (List.append_nil _).symm
  | task :: tasks, p => by
    have hblocked (hloop : p.frontLoop (task :: tasks) = ({ p with queue := task :: tasks }, true))
        (htest : test ⟨p, .front⟩ task = none) :
        (if (p.frontLoop (task :: tasks)).2 then (p.frontLoop (task :: tasks)).1.backfillRest
          else (p.frontLoop (task :: tasks)).1).admitted.map Admission.decision =
          p.admitted.map Admission.decision ++ decisions ⟨p, .front⟩ (task :: tasks) := by
      rw [hloop, if_pos rfl, decisions_none htest, ← decisions_queue (task :: tasks)]
      unfold Planner.backfillRest stageAfter
      dsimp only
      by_cases hexclusive : task.exclusive = true
      · rw [if_pos hexclusive, if_pos hexclusive, decisions_ended, List.append_nil]
      · rw [if_neg hexclusive, if_neg hexclusive]
        exact backfill_decisions task _ tasks { p with queue := task :: tasks }
    by_cases hcanary : p.canaryBlocked task = true
    · refine hblocked ?_ (if_pos hcanary)
      rw [Planner.frontLoop, if_pos hcanary]
    · have htest : test ⟨p, .front⟩ task = (p.cap.fits task p.pools.toRoom p.pools.rr).map fun r => (r.1, r.2, none) :=
        if_neg hcanary
      cases hfits : p.cap.fits task p.pools.toRoom p.pools.rr with
      | none =>
        rw [hfits] at htest
        refine hblocked ?_ htest
        rw [Planner.frontLoop, if_neg hcanary, hfits]
      | some r =>
        obtain ⟨gpuId, rr⟩ := r
        rw [hfits] at htest
        rw [decisions_some htest, List.append_cons, ← admitTask_decisions p task gpuId rr none]
        have hloop : p.frontLoop (task :: tasks) =
            if task.exclusive then ({ p.admitTask task gpuId rr none with queue := tasks }, false)
            else (p.admitTask task gpuId rr none).frontLoop tasks := by
          rw [Planner.frontLoop, if_neg hcanary, hfits]
        rw [hloop]
        unfold stageAfter
        dsimp only
        by_cases hexclusive : task.exclusive = true
        · rw [if_pos hexclusive, if_pos hexclusive, decisions_ended, List.append_nil]
          rfl
        · rw [if_neg hexclusive, if_neg hexclusive]
          exact front_decisions tasks _

end Course

/-- **The decisions of a run** are the answers of the turns. -/
theorem Planner.run_decisions (p : Planner) :
    p.run.admitted.map Admission.decision = p.admitted.map Admission.decision ++ p.course.decisions p.queue := by
  by_cases hexclusive : p.occupants.any (·.exclusive) = true
  · have hfront : p.front = (p, false) := if_pos hexclusive
    rw [Planner.run, hfront, Planner.course, if_pos hexclusive, Course.decisions_ended, List.append_nil]
    rfl
  · have hfront : p.front = p.frontLoop p.queue := if_neg hexclusive
    rw [Planner.run, hfront, Planner.course, if_neg hexclusive]
    exact Course.front_decisions p.queue p

theorem planDispatch_decisions (pending : List PendingEntry) (running : List RunningEntry) (cap : Capacity) :
    (planDispatch pending running cap).decisions = (Planner.init pending running cap).course.decisions pending :=
  (Planner.init pending running cap).run_decisions

end AdaptiveExecutor
