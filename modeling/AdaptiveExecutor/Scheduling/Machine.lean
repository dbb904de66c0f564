import AdaptiveExecutor.Scheduling.Safety

/-!
# A machine driven by plans

The state between two dispatch cycles as `_build_dispatch_plan` reads it, with every decision executed.

* `RunningTask.remaining` : `_running_remaining_seconds`; over tasks that have not overrun it says the same as
  the expected end (`due_remaining_iff`);
* `Machine.planner`, `Machine.execute` : what a cycle reads, and its decisions carried out;
* `execute_room`, `execute_running`, `execute_pending_head` : what the machine is afterwards.
-/

namespace AdaptiveExecutor
open Backfill Planner

structure Host where
  gpuRoundRobin : List GpuId
  maxWorkers : Int
  snapshotPresent : Bool

/-- A task in flight: what it has committed, since when it runs, and how long it is expected to. -/
structure RunningTask where
  id : String
  memoryGb : ℚ
  vramGb : ℚ
  gpuId : Option GpuId
  exclusive : Bool
  profileIdentity : Option String
  startedAt : ℚ
  expected : Option ℚ
  deriving DecidableEq

namespace RunningTask

/-- `_running_remaining_seconds`. -/
def remaining (o : RunningTask) (now : ℚ) : Option ℚ :=
  match o.expected with
  | none => none
  | some expected =>
    let elapsed := now - o.startedAt
    if expected ≤ elapsed then none else some (expected - elapsed)

def entry (now : ℚ) (o : RunningTask) : RunningEntry where
  id := o.id
  memoryGb := o.memoryGb
  vramGb := o.vramGb
  gpuId := o.gpuId
  remainingSeconds := o.remaining now
  exclusive := o.exclusive
  profileIdentity := o.profileIdentity

def load (o : RunningTask) : Load := loadOn o.memoryGb o.vramGb o.gpuId

theorem foldl_give : ∀ (os : List RunningTask) (r : Room),
    os.foldl (fun r o => r.give o.memoryGb o.vramGb o.gpuId) r = (os.map load).sum +ᵥ r
  | [], r => by simp
  | o :: os, r => by
    rw [List.foldl_cons, foldl_give os, Room.give_eq, List.map_cons, List.sum_cons, add_comm, add_vadd]
    rfl

theorem foldl_take : ∀ (os : List RunningTask) (r : Room),
    os.foldl (fun r o => r.take o.memoryGb o.vramGb o.gpuId) r = -(os.map load).sum +ᵥ r
  | [], r => by simp
  | o :: os, r => by
    rw [List.foldl_cons, foldl_take os, Room.take_eq, List.map_cons, List.sum_cons, neg_add_rev, vadd_vadd]
    rfl

/-- The time by which the task is expected to be over. -/
def expectedEnd (o : RunningTask) : Option ℚ := o.expected.map (o.startedAt + ·)

/-- A task that is due is due by its expected end; an overrun one is never due. -/
theorem due_of_remaining {o : RunningTask} {now s : ℚ} (h : Due (o.remaining now) (s : WithTop ℚ)) :
    Due o.expectedEnd ((now + s : ℚ) : WithTop ℚ) := by
  unfold remaining at h
  unfold expectedEnd
  cases he : o.expected with
  | none => simp [he] at h
  | some expected =>
    simp only [he] at h
    split_ifs at h
    · simp at h
    · simp only [due_some, WithTop.coe_le_coe, Option.map_some] at h ⊢
      linarith

theorem due_remaining_iff {o : RunningTask} {now s : ℚ} (h : ∀ e, o.expectedEnd = some e → now < e) :
    Due (o.remaining now) (s : WithTop ℚ) ↔ Due o.expectedEnd ((now + s : ℚ) : WithTop ℚ) := by
  refine ⟨due_of_remaining, fun hdue => ?_⟩
  unfold remaining
  unfold expectedEnd at h hdue
  cases he : o.expected with
  | none => simp [he] at hdue
  | some expected =>
    simp only [he, Option.map_some, Option.some.injEq, forall_eq', due_some, WithTop.coe_le_coe] at h hdue
    simp only
    rw [if_neg (by linarith), due_some, WithTop.coe_le_coe]
    linarith

end RunningTask

structure Machine where
  memoryFreeGb : Free
  gpuFreeVramGb : GpuFree
  nextGpuIndex : Int
  pending : List PendingEntry
  running : List RunningTask

/-- The decided task, started `now`. -/
def PendingEntry.start (now : ℚ) (gpuId : Option GpuId) (task : PendingEntry) : RunningTask where
  id := task.id
  memoryGb := task.memoryGb
  vramGb := task.vramGb
  gpuId := gpuId
  exclusive := task.exclusive
  profileIdentity := task.profileIdentity
  startedAt := now
  expected := task.durationP90Seconds

/-- The task of an admission, started `now`. -/
def Admission.start (now : ℚ) (a : Admission) : RunningTask := a.task.start now a.gpuId

@[simp] theorem Admission.start_load (now : ℚ) (a : Admission) : (a.start now).load = a.load := rfl

namespace Machine

/-- The free amounts, and a slot in use for each running task. -/
def room (m : Machine) : Room := ⟨m.memoryFreeGb, m.gpuFreeVramGb, m.running.length⟩

def capacity (host : Host) (m : Machine) : Capacity where
  memoryFreeGb := m.memoryFreeGb
  gpuFreeVramGb := m.gpuFreeVramGb
  gpuRoundRobin := host.gpuRoundRobin
  nextGpuIndex := m.nextGpuIndex
  maxWorkers := host.maxWorkers
  runningCount := m.running.length
  snapshotPresent := host.snapshotPresent

/-- The tests of `_fits` read nothing of the capacity that a cycle changes. -/
theorem admits_capacity {host : Host} (m m' : Machine) {task : PendingEntry} {r : Room}
    (h : (m.capacity host).Admits task r) : (m'.capacity host).Admits task r :=
  ⟨h.alone, h.slots, h.effective, h.memory, h.gpu⟩

/-- The planner of a cycle at `now`. -/
def planner (host : Host) (now : ℚ) (m : Machine) : Planner :=
  init m.pending (m.running.map (RunningTask.entry now)) (m.capacity host)

def started (now : ℚ) (ds : List DispatchDecision) (m : Machine) : List RunningTask :=
  ds.filterMap fun d => (taskOf m.pending d).map (PendingEntry.start now d.gpuId)

/-- Every decision of a plan carried out: the tasks leave the queue and hold their estimates. -/
def execute (now : ℚ) (plan : DispatchPlan) (m : Machine) : Machine :=
  let started := m.started now plan.decisions
  let room := started.foldl (fun r o => r.take o.memoryGb o.vramGb o.gpuId) m.room
  { memoryFreeGb := room.memoryFree
    gpuFreeVramGb := room.gpuFree
    nextGpuIndex := plan.nextGpuIndex
    pending := m.pending.filter fun task => task.id ∉ plan.decisions.map DispatchDecision.pendingId
    running := m.running ++ started }

def dispatch (host : Host) (now : ℚ) (m : Machine) : Machine := m.execute now (m.planner host now).run.plan

/-- What every caller keeps: distinct queued ids and estimates that are not negative. -/
structure Valid (m : Machine) : Prop where
  ids : (m.pending.map PendingEntry.id).Nodup
  pending : ∀ task ∈ m.pending, 0 ≤ task.memoryGb ∧ 0 ≤ task.vramGb
  running : ∀ o ∈ m.running, 0 ≤ o.memoryGb ∧ 0 ≤ o.vramGb

theorem Valid.nonneg {m : Machine} (hm : m.Valid) (host : Host) (now : ℚ) : (m.planner host now).NonnegEstimates :=
  ⟨hm.pending, List.forall_mem_map.mpr hm.running⟩

theorem Valid.load_nonneg {m : Machine} (hm : m.Valid) : ∀ o ∈ m.running, 0 ≤ o.load :=
  fun o ho => loadOn_nonneg (hm.running o ho).1 (hm.running o ho).2 o.gpuId

/-! ## Carrying out a plan -/

section Execute
variable {m : Machine} {host : Host} {now : ℚ} {p' : Planner} {cs : List Admission}
variable (hids : (m.pending.map PendingEntry.id).Nodup) (h : Admissions (m.planner host now) cs p')
  (hsub : (cs.map Admission.task).Sublist m.pending)
include h

theorem plan_decisions : p'.plan.decisions = cs.map Admission.decision := by
  change p'.admitted.map _ = _
  rw [h.admitted_eq]
  rfl

theorem execute_pending : (m.execute now p'.plan).pending =
    m.pending.filter fun task => task.id ∉ cs.map fun a => a.task.id := by
  unfold execute
  rw [plan_decisions h, List.map_map]
  rfl

include hids hsub

theorem started_eq : m.started now p'.plan.decisions = cs.map (Admission.start now) := by
  have hmem : ∀ a ∈ cs, a.task ∈ m.pending := fun a ha => hsub.subset (List.mem_map_of_mem ha)
  rw [plan_decisions h, started]
  clear h hsub
  induction cs with
  | nil => rfl
  | cons a cs ih =>
    obtain ⟨ha, hcs⟩ := List.forall_mem_cons.mp hmem
    rw [List.map_cons, List.filterMap_cons, taskOf_decision hids ha, ih hcs]
    rfl

theorem execute_running : (m.execute now p'.plan).running = m.running ++ cs.map (Admission.start now) := by
  rw [← started_eq hids h hsub]
  rfl

theorem execute_room : (m.execute now p'.plan).room = p'.pools.toRoom := by
  have hload : (cs.map (Admission.start now)).map RunningTask.load = cs.map Admission.load := by
    rw [List.map_map]; rfl
  have hroom : (m.started now p'.plan.decisions).foldl (fun r o => r.take o.memoryGb o.vramGb o.gpuId) m.room =
      p'.pools.toRoom := by
    rw [RunningTask.foldl_take, started_eq hids h hsub, hload, h.room]
    change _ = _ +ᵥ (⟨_, _, ((m.running.length : ℕ) : ℤ)⟩ : Room)
    rfl
  have hslots : ((m.running ++ m.started now p'.plan.decisions).length : ℤ) = p'.pools.slots := by
    rw [started_eq hids h hsub, h.slots, List.length_append, List.length_map]
    push_cast
    rfl
  have hmemory := congrArg Room.memoryFree hroom
  have hgpu := congrArg Room.gpuFree hroom
  exact Room.ext hmemory (congrFun hgpu) hslots

theorem execute_valid (hm : m.Valid) : (m.execute now p'.plan).Valid := by
  refine ⟨?_, fun task ht => ?_, fun o ho => ?_⟩
  · exact hids.sublist (List.filter_sublist.map _)
  · exact hm.pending task (List.mem_of_mem_filter ht)
  · rw [execute_running hids h hsub] at ho
    rcases List.mem_append.mp ho with ho | ho
    · exact hm.running o ho
    · obtain ⟨a, ha, rfl⟩ := List.mem_map.mp ho
      exact hm.pending a.task (hsub.subset (List.mem_map_of_mem ha))

end Execute

section Left
variable {m : Machine} {host : Host} {now : ℚ} {p' : Planner} {as bs : List Admission} {head : PendingEntry}
variable {rest : List PendingEntry} (hids : (m.pending.map PendingEntry.id).Nodup)
  (hqueue : m.pending = as.map Admission.task ++ head :: rest) (hback : (bs.map Admission.task).Sublist rest)
include hids hqueue hback

/-- A task is not decided when what was decided is from before it and from behind it. -/
theorem left_not_decided : head.id ∉ (as ++ bs).map fun a => a.task.id := by
  rw [hqueue, List.map_append, List.map_cons, List.nodup_append, List.nodup_cons] at hids
  obtain ⟨-, ⟨hhead, -⟩, hdisj⟩ := hids
  rw [List.map_append, List.mem_append]
  rintro (hf | hb)
  · refine hdisj head.id ?_ head.id List.mem_cons_self rfl
    rwa [List.map_map]
  · refine hhead ((hback.map PendingEntry.id).subset ?_)
    rwa [List.map_map]

theorem execute_first (h : Admissions (m.planner host now) (as ++ bs) p') :
    ∃ rest', (m.execute now p'.plan).pending = head :: rest' := by
  have hnot := left_not_decided hids hqueue hback
  rw [execute_pending h, hqueue, List.filter_append, List.filter_cons_of_pos (by simpa using hnot),
    List.filter_eq_nil_iff.mpr ?_]
  · exact ⟨_, rfl⟩
  · intro task ht
    obtain ⟨a, ha, rfl⟩ := List.mem_map.mp ht
    rw [decide_eq_true_eq, not_not]
    exact List.mem_map_of_mem (f := fun a : Admission => a.task.id) (List.mem_append_left bs ha)

end Left

end Machine

end AdaptiveExecutor
