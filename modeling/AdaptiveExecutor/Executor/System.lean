import AdaptiveExecutor.Executor.Dispatch

/-!
# Threads, workers and callers

The executor as a system of interleaved sections. A method of a thread runs as a list of sections (`Section`), each of
which is a piece of the source that one lock, or no lock, covers; what is left of it is in the hand of the thread.

* `Executor.run` : one section, and the sections that follow it;
* `Thread`, `System`, `Event`, `System.step` : the threads, the worker processes, the callers and the clock;
* `System.Reachable` : the states of all runs.

A dispatch cycle that raises, because a worker cannot be started, is no step of these runs: `Executor/Phases.lean`
follows it to where it raises. An item that cannot be pickled is, for the parent, one that its worker takes and whose
result is lost. A call of `shutdown` that finds another one under way is taken to begin when that one has set `_shutdown`:
it returns at once.
-/

namespace AdaptiveExecutor
open Ledger (Future)

/-! ## Sections -/

inductive Section (α : Type)
  /-- `_sweep_result_queues`: the snapshot of the pool. -/
  | sweep
  | readQueue (w : WorkerId)
  /-- `_read_queue`: one `get_nowait()`, with the results read before. -/
  | getNowait (w : WorkerId) (results : List (WorkResult α))
  | processResult (r : WorkResult α)
  | record (id : WorkId) (observation : ResourceObservation)
  /-- The settling of a future by the one that took its task out of `in_flight`. -/
  | settle (id : WorkId) (outcome : Outcome α)
  | discardQueue (w : WorkerId)
  | checkWorkers
  /-- `_handle_dead_worker`: the task of the dead worker leaves `in_flight`. -/
  | takeLost (w : WorkerId)
  | penalizeEstimate (id : WorkId)
  | requeue (id : WorkId)
  | maybeDispatch
  | readClock
  /-- `_check_timeouts`: the tasks that were overdue at the time read. -/
  | scanTimeouts (now : ℚ)
  | handleTimeout (id : WorkId)
  | escalateKill (w : WorkerId)
  | shutUnstarted
  | stopAccepting
  | failPendingFutures
  /-- `_wait_for_in_flight`: the test under the lock. -/
  | testInFlight
  | stopThreads
  | stopAllWorkers
  /-- `_stop_all_workers`: the last drain of one worker. -/
  | finalDrain (w : WorkerId)
  | pruneRetiring
  | leave (wait : Bool)

/-- A `shutdown` that waits returns. -/
def Section.returns {α : Type} : Section α → Bool
  | .leave wait => wait
  | _ => false

namespace Executor
variable {α : Type}

/-- `_drain_queue` and `_discard_queue`. -/
def drainAndDiscard (w : WorkerId) : List (Section α) := [.readQueue w, .discardQueue w]

/-- `_read_queue`: a poisoned or discarded queue is not read. -/
def readQueue (s : Executor α) (w : WorkerId) : List (Section α) :=
  if (s.slots w).queuePoisoned || (s.slots w).queueDiscarded then [] else [.getNowait w []]

/-- One `get_nowait()`. At the end of the queue, and when the queue has been closed, what was read is processed. -/
def getNowait (s : Executor α) (w : WorkerId) (results : List (WorkResult α)) : Executor α × List (Section α) :=
  match (s.slots w).process.resultQueue with
  | [] => (s, results.map .processResult)
  | r :: rest =>
    if (s.slots w).queueDiscarded then (s, results.map .processResult)
    else (s.modifyProcess w fun p => { p with resultQueue := rest }, [.getNowait w (results ++ [r])])

/-- `_process_result`: the worker of the result is free again, and recycled when it is due. -/
def clearWorker (s : Executor α) (r : WorkResult α) : Executor α :=
  if r.workerId ∈ s.workers ∧ (s.slots r.workerId).currentWorkId = some r.id then
    let s := s.modifySlot r.workerId fun slot =>
      { slot with currentWorkId := none, tasksCompleted := slot.tasksCompleted + 1 }
    if s.shouldRecycle r.workerId then s.retireWorker r.workerId else s
  else s

def processResult (s : Executor α) (r : WorkResult α) : Executor α × List (Section α) :=
  let s := s.clearWorker r
  if r.id ∉ s.inFlight then (s, [])
  else if (s.works r.id).resultIgnored then (s.popInFlight r.id, [])
  else (s.popInFlight r.id, [.record r.id r.observation, .settle r.id r.outcome])

def record (s : Executor α) (id : WorkId) (observation : ResourceObservation) : Executor α :=
  let w := s.works id
  { s with profiles := s.profiles.record w.fnModule w.fnName observation w.profileKey }

/-- `_check_workers`: the dead leave the pool, and the retired ones that have exited are reaped. -/
def checkWorkers (s : Executor α) : Executor α × List (Section α) :=
  let alive := fun w => (s.slots w).process.alive
  let dead := s.workers.filter fun w => !alive w
  let reaped := s.retiring.filter fun w => !alive w
  ({ s with workers := s.workers.filter alive, retiring := s.retiring.filter alive },
    reaped.flatMap drainAndDiscard ++ dead.flatMap fun w => drainAndDiscard w ++ [.takeLost w])

def shouldRetryResourceCrash (s : Executor α) (exitcode : Option Int) (id : WorkId) : Bool :=
  decide (((s.works id).retryCount : Int) < s.cfg.maxResourceCrashRetries) &&
    match exitcode with
    | none => false
    | some code => decide (code = -9 ∨ code = 137)

/-- `_handle_dead_worker`, from the taking of the lost task on. -/
def takeLost (s : Executor α) (w : WorkerId) : Executor α × List (Section α) :=
  match (s.slots w).currentWorkId with
  | none => (s, [])
  | some id =>
    let lost := id ∈ s.inFlight
    let exitcode := (s.slots w).process.exitcode
    let s := s.popInFlight id
    if (s.slots w).intentionallyStopped then (s, [])
    else if ¬ lost then (s, [])
    else if s.shouldRetryResourceCrash exitcode id then (s, [.penalizeEstimate id])
    else (s, [.settle id (.exception (.crashed w exitcode))])

def penalized (e : ResourceEstimate) : ResourceEstimate where
  memoryGb := max (1 / 10) (e.memoryGb * 2)
  vramGb := max 0 (e.vramGb * 2)
  cpuCores := max 1 e.cpuCores
  confidence := e.confidence
  durationP90Seconds := none
  memory_nonneg := le_max_of_le_left (by norm_num)
  vram_nonneg := le_max_left _ _

def penalizeEstimate (s : Executor α) (id : WorkId) : Executor α :=
  let w := s.works id
  { s.modifyWork id fun w => { w with estimate := penalized w.estimate, exclusive := true } with
    profiles := s.profiles.recordMemoryFloor w.fnModule w.fnName w.estimate.memoryGb w.profileKey }

def retried (w : PendingWork) : PendingWork :=
  { w with
    retryCount := w.retryCount + 1
    assignedGpuId := none
    workerId := none
    startedAt := none
    resultIgnored := false
    workerPid := none
    rssBaselineBytes := none
    vramBaselineGb := none
    observedMemoryGb := 0
    observedVramGb := 0
    observedRefreshedAt := none }

def requeue (s : Executor α) (id : WorkId) : Executor α :=
  { s.modifyWork id retried with pending := id :: s.pending }

/-- `_check_timeouts`: the tasks in flight for longer than the timeout. -/
def overdue (s : Executor α) (now : ℚ) : List WorkId :=
  s.inFlight.filter fun id => (s.works id).startedAt.any fun startedAt => s.cfg.taskTimeoutSeconds < now - startedAt

def handleTimeout (s : Executor α) (id : WorkId) : Executor α × List (Section α) :=
  if id ∉ s.inFlight ∨ (s.futures id).done then (s, [])
  else
    let timedOut : Section α := .settle id (.exception (.timedOut id s.cfg.taskTimeoutSeconds))
    match s.cfg.onTimeout, (s.works id).workerId with
    | .killWorker, some w =>
      if w ∈ s.workers then
        (((s.modifySlot w fun slot =>
            { slot with intentionallyStopped := true, queuePoisoned := true, currentWorkId := none }).evict w).popInFlight
          id, [.escalateKill w, timedOut])
      else (s.popInFlight id, [timedOut])
    | _, workerId =>
      let s := (s.modifyWork id fun w => { w with resultIgnored := true }).popInFlight id
      match workerId with
      | none => (s, [timedOut])
      | some w =>
        if w ∈ s.workers ∧ (s.slots w).currentWorkId = some id then
          (s.modifySlot w fun slot => { slot with currentWorkId := none }, [timedOut])
        else (s, [timedOut])

def escalateKill (env : Env) (s : Executor α) (w : WorkerId) : Executor α :=
  match env.kill with
  | .terminated => s.modifyProcess w (·.exit (-15))
  | .killed => s.modifyProcess w (·.exit (-9))
  | .failed => s

def failPendingFutures (s : Executor α) : Executor α :=
  { s.pending.foldl (fun s id => s.settle id (.exception .shutDown)) s with pending := [] }

/-- `_stop_all_workers`: every worker of the pool is stopped, and all workers are joined and drained. -/
def stopAllWorkers (s : Executor α) : Executor α × List (Section α) :=
  (s.workers.foldl (fun s w => s.modifySlot w fun slot =>
      { slot with
        intentionallyStopped := true
        process := { slot.process with workQueue := slot.process.workQueue ++ [none] } }) s,
    (s.workers ++ s.retiring).map .finalDrain ++ [.pruneRetiring])

/-- One section, and the sections that follow it; `none` when it raises. -/
def run (env : Env) (s : Executor α) : Section α → Option (Executor α × List (Section α))
  | .sweep => some (s, s.workers.map .readQueue)
  | .readQueue w => some (s, s.readQueue w)
  | .getNowait w results => some (s.getNowait w results)
  | .processResult r => some (s.processResult r)
  | .record id observation => some (s.record id observation, [])
  | .settle id outcome => some (s.settle id outcome, [])
  | .discardQueue w => some (s.modifySlot w fun slot => { slot with queueDiscarded := true }, [])
  | .checkWorkers => some s.checkWorkers
  | .takeLost w => some (s.takeLost w)
  | .penalizeEstimate id => some (s.penalizeEstimate id, [.requeue id])
  | .requeue id => some (s.requeue id, [])
  | .maybeDispatch =>
    match s.maybeDispatch env with
    | .error _ => none
    | .ok s => some (s, [])
  | .readClock => some (s, [.scanTimeouts s.clock])
  | .scanTimeouts now => some (s, (s.overdue now).map .handleTimeout)
  | .handleTimeout id => some (s.handleTimeout id)
  | .escalateKill w => some (s.escalateKill env w, [])
  | .shutUnstarted => some ({ s with accepting := false, shutdown := true }, [])
  | .stopAccepting => some ({ s with accepting := false }, [])
  | .failPendingFutures => some (s.failPendingFutures, [])
  | .testInFlight => some (s, if s.inFlight = [] then [] else [.checkWorkers, .testInFlight])
  | .stopThreads => some ({ s with shutdown := true, threadsShouldStop := true }, [])
  | .stopAllWorkers => some s.stopAllWorkers
  | .finalDrain w =>
    some (s, if (s.slots w).process.alive then [.discardQueue w] else drainAndDiscard w)
  | .pruneRetiring => some ({ s with retiring := s.retiring.filter fun w => (s.slots w).process.alive }, [])
  | .leave _ => some (s, [])

/-- `shutdown(wait)`, when it does not return at once. -/
def shutdownSections (started wait : Bool) : List (Section α) :=
  if started then
    [.stopAccepting, .failPendingFutures] ++ (if wait then [.checkWorkers, .testInFlight] else []) ++
      [.stopThreads, .stopAllWorkers, .leave wait]
  else [.shutUnstarted, .leave wait]

end Executor

/-! ## The system -/

/-- The background threads, and the caller of `shutdown`. -/
inductive Thread
  | collector
  | dispatcher
  | timeouts
  | shutdown
  deriving DecidableEq

def Thread.all : List Thread := [.collector, .dispatcher, .timeouts, .shutdown]

structure System (α : Type) where
  executor : Executor α
  hands : Thread → List (Section α) := fun _ => []
  /-- The work ids drawn so far. -/
  issued : List WorkId := []
  /-- The submits that have passed the check of `_accepting` and not yet appended their task. -/
  submitting : List WorkId := []
  /-- The submits that have returned their future. -/
  accepted : List WorkId := []
  started : Bool := false
  /-- A call of `shutdown` has begun, and one that waits has returned. -/
  stopping : Bool := false
  returned : Bool := false

namespace System
variable {α : Type}

structure Report (α : Type) where
  success : Bool
  result : Option α
  exception : Option α
  observation : ResourceObservation

inductive Event (α : Type)
  | tick (now : ℚ)
  | start
  | poll (snapshot : ResourceSnapshot)
  /-- `submit` up to the lock, with a fresh id and the snapshot that is read when the monitor has none. -/
  | submit (id : WorkId) (r : Executor.Request) (reading : ResourceSnapshot)
  | append (id : WorkId)
  | cancel (id : WorkId)
  /-- A worker takes the next item, or the sentinel, from its work queue. -/
  | workerTake (w : WorkerId)
  | workerPut (w : WorkerId) (report : Report α)
  /-- A worker puts a result that never gets into its queue: it cannot be pickled, or the worker dies before it is written. -/
  | workerLose (w : WorkerId) (report : Report α)
  | workerDie (w : WorkerId) (exitcode : Int)
  /-- A background thread begins the next round of its loop. -/
  | round (t : Thread)
  /-- A method is called directly in a thread that does nothing else, as the tests and the simulation do. -/
  | call (t : Thread) (m : Section α)
  /-- `_process_result` is called directly, with the result at any place of a worker's queue. -/
  | deliver (t : Thread) (w : WorkerId) (i : Nat)
  | act (t : Thread) (env : Env)
  /-- A `get_nowait()` finds the reader lock of the queue taken by another thread, and raises `Empty`. -/
  | contended (t : Thread)
  | shutdown (wait : Bool)

def loopBody (s : Executor α) : Thread → Option (List (Section α))
  | .collector => if s.threadsShouldStop ∧ s.inFlight = [] then none else some [.sweep]
  | .dispatcher => if s.threadsShouldStop then none else some [.checkWorkers, .maybeDispatch]
  | .timeouts => if s.threadsShouldStop then none else some [.readClock]
  | .shutdown => none

/-- The methods that may be called directly, `_process_result` apart. -/
def callable : Section α → Bool
  | .maybeDispatch | .checkWorkers | .handleTimeout _ => true
  | _ => false

/-- `submit` up to the lock. An infeasible task leaves the executor started, and what reading its profile does. -/
def submit (s : System α) (id : WorkId) (r : Executor.Request) (reading : ResourceSnapshot) : System α :=
  let e := s.executor
  let (profile, store) := e.profiles.get r.fnModule r.fnName r.profileKey
  let work := Executor.newWork e.clock r profile
  match Executor.infeasibleEstimate e.cfg work.estimate (some (e.snapshot.getD reading)) 0 with
  | some _ => { s with executor := { e with profiles := store }, started := true }
  | none =>
    { s with
      executor := { e with
        profiles := store
        works := Function.update e.works id work
        futures := Function.update e.futures id .pending }
      issued := s.issued ++ [id]
      submitting := s.submitting ++ [id]
      started := true }

/-- Another thread may be in a `get_nowait()` on the queue of the worker. -/
def readElsewhere (s : System α) (t : Thread) (w : WorkerId) : Bool :=
  Thread.all.any fun t' => decide (t' ≠ t) && (s.hands t').head?.any fun
    | .getNowait v _ => decide (v = w)
    | _ => false

def step (s : System α) : Event α → Option (System α)
  | .tick now => if s.executor.clock ≤ now then some { s with executor := { s.executor with clock := now } } else none
  | .start => if s.executor.shutdown then none else some { s with started := true }
  | .poll snapshot => some { s with executor := { s.executor with snapshot := some snapshot } }
  | .submit id r reading =>
    if s.executor.shutdown = false ∧ s.executor.accepting = true ∧ id ∉ s.issued then some (s.submit id r reading)
    else none
  | .append id =>
    if id ∈ s.submitting then
      some { s with
        executor := { s.executor with pending := s.executor.pending ++ [id] }
        submitting := s.submitting.erase id
        accepted := s.accepted ++ [id] }
    else none
  | .cancel id =>
    if id ∈ s.accepted then
      some { s with
        executor := { s.executor with
          futures := Function.update s.executor.futures id (s.executor.futures id).cancel } }
    else none
  | .workerTake w =>
    let p := (s.executor.slots w).process
    if p.alive = true ∧ p.leaving = false ∧ p.executing = none then
      match p.workQueue with
      | [] => none
      | none :: rest => some { s with
          executor := s.executor.modifyProcess w fun p => { p with workQueue := rest, leaving := true } }
      | some item :: rest => some { s with
          executor := s.executor.modifyProcess w fun p => { p with workQueue := rest, executing := some item } }
    else none
  | .workerPut w report =>
    let p := (s.executor.slots w).process
    match p.executing with
    | none => none
    | some item =>
      if p.alive = true then
        let r : WorkResult α := ⟨item.id, w, report.success, report.result, report.exception, report.observation⟩
        some { s with
          executor := s.executor.modifyProcess w fun p =>
            { p with executing := none, resultQueue := p.resultQueue ++ [r] } }
      else none
  | .workerLose w _ =>
    let p := (s.executor.slots w).process
    if p.alive = true ∧ p.executing ≠ none then
      some { s with executor := s.executor.modifyProcess w fun p => { p with executing := none } }
    else none
  | .workerDie w exitcode => some { s with executor := s.executor.modifyProcess w (·.exit exitcode) }
  | .round t =>
    match s.hands t, loopBody s.executor t with
    | [], some body => some { s with hands := Function.update s.hands t body }
    | _, _ => none
  | .call t m =>
    match s.hands t with
    | [] => if t ≠ .shutdown ∧ callable m = true then some { s with hands := Function.update s.hands t [m] } else none
    | _ :: _ => none
  | .deliver t w i =>
    match s.hands t, (s.executor.slots w).process.resultQueue[i]? with
    | [], some r =>
      if t ≠ .shutdown ∧ (s.executor.slots w).queueDiscarded = false then
        some { s with
          executor := s.executor.modifyProcess w fun p => { p with resultQueue := p.resultQueue.eraseIdx i }
          hands := Function.update s.hands t [.processResult r] }
      else none
    | _, _ => none
  | .act t env =>
    match s.hands t with
    | [] => none
    | m :: rest =>
      (s.executor.run env m).map fun r =>
        { s with
          executor := r.1
          hands := Function.update s.hands t (r.2 ++ rest)
          returned := s.returned || m.returns }
  | .contended t =>
    match s.hands t with
    | .getNowait w results :: rest =>
      if s.readElsewhere t w then
        some { s with hands := Function.update s.hands t (results.map .processResult ++ rest) }
      else none
    | _ => none
  | .shutdown wait =>
    if s.executor.shutdown then some { s with returned := s.returned || wait }
    else if s.stopping = false then
      some { s with
        hands := Function.update s.hands .shutdown (s.hands .shutdown ++ Executor.shutdownSections s.started wait)
        stopping := true }
    else none

def init (cfg : Config) (profiles : ProfileStore) : System α := { executor := { cfg := cfg, profiles := profiles } }

def Next (s s' : System α) : Prop := ∃ e, s.step e = some s'

/-- The states of the runs of an executor, from any profile store that has been loaded. -/
def Reachable (s : System α) : Prop := ∃ cfg profiles, Relation.ReflTransGen Next (init cfg profiles) s

end System

end AdaptiveExecutor
