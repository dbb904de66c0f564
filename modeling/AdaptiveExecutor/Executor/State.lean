import AdaptiveExecutor.Accounting
import AdaptiveExecutor.Ledger.Moves
import AdaptiveExecutor.Profiles

/-!
# The state of the executor

The objects of `AdaptiveExecutor` and the worker processes. A `PendingWork` is named by its work id and a
`WorkerSlot` by its worker id, so the maps `works`, `futures` and `slots` are the heap, and a queue or a dict that
holds references is a list of names.

* `PendingWork`, `WorkerSlot`, `WorkerProcess` : a task, the parent's view of a worker, and the worker itself;
* `Executor` : `self`, after `start`;
* `modifyWork`, `modifySlot`, `settle`, `popInFlight`, `retireWorker` : what the methods do to it.
-/

namespace AdaptiveExecutor
open Ledger (Future)

abbrev WorkId := String

abbrev WorkerId := Nat

/-! ## Configuration and surroundings -/

inductive OnTimeout
  | failFuture
  | killWorker
  deriving DecidableEq

structure Config where
  maxWorkers : Int
  gpuIds : List GpuId
  memoryHeadroomGb : ℚ := 2
  vramHeadroomGb : ℚ := 1
  taskTimeoutSeconds : ℚ := 300
  onTimeout : OnTimeout := .failFuture
  maxResourceCrashRetries : Int := 1
  workerRecycleAfterTasks : Option Int := some 50
  observationRefreshSeconds : ℚ := 1 / 10
  reestimateIntervalSeconds : ℚ := 1 / 10

structure GPUSnapshot where
  vramUsedGb : ℚ
  vramTotalGb : ℚ
  deriving DecidableEq

structure ResourceSnapshot where
  memoryUsedGb : ℚ
  memoryTotalGb : ℚ
  gpus : List (GpuId × GPUSnapshot)
  deriving DecidableEq

inductive KillOutcome
  | terminated
  | killed
  | failed
  deriving DecidableEq

/-- What the surroundings answer: the RSS and the VRAM of a process, the pid of a new one (`none` when its start
raises), and how a kill ends. -/
structure Env where
  rssBytes : Int → Option Int
  processVramGb : Int → GpuId → Option ℚ
  spawnPid : WorkerId → Option Int
  kill : KillOutcome

/-! ## Outcomes -/

inductive ResourceKind
  | memory
  | vram
  deriving DecidableEq

structure InfeasibleTaskError where
  kind : ResourceKind
  estimateGb : ℚ
  capacityGb : ℚ
  retryCount : Nat
  deriving DecidableEq

inductive TaskError (α : Type)
  /-- `RuntimeError("Executor shut down before task was dispatched")` -/
  | shutDown
  | infeasible (error : InfeasibleTaskError)
  /-- `TimeoutError("Task … timed out after …s")` -/
  | timedOut (id : WorkId) (afterSeconds : ℚ)
  /-- `RuntimeError("Worker … crashed with exit code …")` -/
  | crashed (workerId : WorkerId) (exitcode : Option Int)
  /-- The exception of the task function. -/
  | raised (exception : Option α)
  deriving DecidableEq

inductive Outcome (α : Type)
  | result (value : Option α)
  | exception (error : TaskError α)
  deriving DecidableEq

/-! ## Tasks -/

structure WorkItem where
  id : WorkId
  fnModule : String
  fnName : String
  gpuId : Option GpuId
  deriving DecidableEq

structure WorkResult (α : Type) where
  id : WorkId
  workerId : WorkerId
  success : Bool
  result : Option α
  exception : Option α
  observation : ResourceObservation
  deriving DecidableEq

def WorkResult.outcome {α : Type} (r : WorkResult α) : Outcome α :=
  if r.success then .result r.result else .exception (.raised r.exception)

/-- A task of the parent. Its item's id is its name, and its future is `Executor.futures` at that name. -/
structure PendingWork where
  fnModule : String
  fnName : String
  estimate : ResourceEstimate
  assignedGpuId : Option GpuId := none
  startedAt : Option ℚ := none
  workerId : Option WorkerId := none
  retryCount : Nat := 0
  exclusive : Bool := false
  resultIgnored : Bool := false
  runningNotified : Bool := false
  workerPid : Option Int := none
  rssBaselineBytes : Option Int := none
  vramBaselineGb : Option ℚ := none
  observedMemoryGb : ℚ := 0
  observedVramGb : ℚ := 0
  observedRefreshedAt : Option ℚ := none
  profileKey : Option String := none
  memoryHint : Option ℚ := none
  vramHint : Option ℚ := none
  estimateSampleCount : Nat := 0
  estimateRefreshedAt : Option ℚ := none
  estimateFloorGb : Option ℚ := none
  profileIdentity : Option String := none

instance : Inhabited PendingWork := ⟨{ fnModule := "", fnName := "", estimate := ({} : LearnedProfile).estimate none none }⟩

/-! ## Workers -/

/-- A worker process and its two queues. A `none` in the work queue is the stop sentinel. -/
structure WorkerProcess (α : Type) where
  pid : Int := 0
  alive : Bool := true
  /-- It has taken a sentinel: its loop is over, and it is about to exit. -/
  leaving : Bool := false
  exitcode : Option Int := none
  workQueue : List (Option WorkItem) := []
  executing : Option WorkItem := none
  resultQueue : List (WorkResult α) := []

/-- The items shipped to the worker for which it has not yet put a result. -/
def WorkerProcess.unfinished {α : Type} (p : WorkerProcess α) : List WorkId :=
  (p.executing.toList ++ p.workQueue.reduceOption).map WorkItem.id

/-- The process exits with the code, unless it has exited before. -/
def WorkerProcess.exit {α : Type} (p : WorkerProcess α) (code : Int) : WorkerProcess α :=
  if p.alive then { p with alive := false, exitcode := some code } else p

structure WorkerSlot (α : Type) where
  process : WorkerProcess α := {}
  pinnedGpuId : Option GpuId := none
  currentWorkId : Option WorkId := none
  intentionallyStopped : Bool := false
  tasksCompleted : Int := 0
  queuePoisoned : Bool := false
  queueDiscarded : Bool := false

/-! ## The executor -/

structure Executor (α : Type) where
  cfg : Config
  works : WorkId → PendingWork := fun _ => default
  futures : WorkId → Future (Outcome α) := fun _ => .pending
  pending : List WorkId := []
  inFlight : List WorkId := []
  slots : WorkerId → WorkerSlot α := fun _ => {}
  workers : List WorkerId := []
  retiring : List WorkerId := []
  nextGpuIndex : Int := 0
  nextWorkerId : WorkerId := 0
  profiles : ProfileStore := {}
  clock : ℚ := 0
  /-- `monitor.current`. -/
  snapshot : Option ResourceSnapshot := none
  accepting : Bool := true
  shutdown : Bool := false
  threadsShouldStop : Bool := false

/-- `ks` after the assignment `d[k] = …` to a dict with keys `ks`. -/
def insertKey {κ : Type} [DecidableEq κ] (ks : List κ) (k : κ) : List κ := if k ∈ ks then ks else ks ++ [k]

theorem mem_insertKey {κ : Type} [DecidableEq κ] {ks : List κ} {k x : κ} : x ∈ insertKey ks k ↔ x ∈ ks ∨ x = k := by
  unfold insertKey
  split_ifs with h
  · exact ⟨.inl, fun hx => hx.elim id fun hx => hx ▸ h⟩
  · rw [List.mem_append, List.mem_singleton]

namespace Executor
variable {α : Type} (s : Executor α)

def modifyWork (id : WorkId) (f : PendingWork → PendingWork) : Executor α :=
  { s with works := Function.update s.works id (f (s.works id)) }

def modifySlot (w : WorkerId) (f : WorkerSlot α → WorkerSlot α) : Executor α :=
  { s with slots := Function.update s.slots w (f (s.slots w)) }

def modifyProcess (w : WorkerId) (f : WorkerProcess α → WorkerProcess α) : Executor α :=
  s.modifySlot w fun slot => { slot with process := f slot.process }

/-- `_settle_future_result` and `_settle_future_exception`. -/
def settle (id : WorkId) (outcome : Outcome α) : Executor α :=
  { s with futures := Function.update s.futures id ((s.futures id).settle outcome) }

/-- `self.in_flight.pop(id, None)`. -/
def popInFlight (id : WorkId) : Executor α := { s with inFlight := s.inFlight.erase id }

/-- `self.workers.pop(w, None)` and `self._retiring.append(w)`. -/
def evict (w : WorkerId) : Executor α := { s with workers := s.workers.erase w, retiring := s.retiring ++ [w] }

def retireWorker (w : WorkerId) : Executor α :=
  (s.modifySlot w fun slot =>
    { slot with
      intentionallyStopped := true
      process := { slot.process with workQueue := slot.process.workQueue ++ [none] } }).evict w

theorem modifyWork_works (id : WorkId) (f : PendingWork → PendingWork) (x : WorkId) :
    (s.modifyWork id f).works x = if x = id then f (s.works id) else s.works x := Function.update_apply _ _ _ _

theorem modifySlot_slots (w : WorkerId) (f : WorkerSlot α → WorkerSlot α) (x : WorkerId) :
    (s.modifySlot w f).slots x = if x = w then f (s.slots w) else s.slots x := Function.update_apply _ _ _ _

theorem modifyWork_keeps {β : Type} (g : PendingWork → β) {f : PendingWork → PendingWork} (hf : ∀ w, g (f w) = g w)
    (id x : WorkId) : g ((s.modifyWork id f).works x) = g (s.works x) := by
  rw [modifyWork_works]
  split_ifs with hx
  · rw [hf, hx]
  · rfl

theorem modifySlot_keeps {β : Type} (g : WorkerSlot α → β) {f : WorkerSlot α → WorkerSlot α} (hf : ∀ w, g (f w) = g w)
    (w x : WorkerId) : g ((s.modifySlot w f).slots x) = g (s.slots x) := by
  rw [modifySlot_slots]
  split_ifs with hx
  · rw [hf, hx]
  · rfl

theorem foldl_modifySlot (f : WorkerSlot α → WorkerSlot α) : ∀ (ws : List WorkerId) (s : Executor α),
    ∃ slots, ws.foldl (fun s w => s.modifySlot w f) s = { s with slots := slots } ∧
      ∀ {β : Type} (g : WorkerSlot α → β), (∀ slot, g (f slot) = g slot) → ∀ w, g (slots w) = g (s.slots w)
  | [], s => ⟨s.slots, rfl, fun _ _ _ => rfl⟩
  | w :: ws, s => by
    obtain ⟨slots, h, hkeeps⟩ := foldl_modifySlot f ws (s.modifySlot w f)
    exact ⟨slots, h, fun g hg x => (hkeeps g hg x).trans (modifySlot_keeps s g hg w x)⟩

def shouldRecycle (w : WorkerId) : Bool :=
  match s.cfg.workerRecycleAfterTasks with
  | none => false
  | some n => !(s.slots w).intentionallyStopped && decide (n ≤ (s.slots w).tasksCompleted)

end Executor

end AdaptiveExecutor
