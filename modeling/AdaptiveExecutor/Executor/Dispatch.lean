import AdaptiveExecutor.Executor.State

/-!
# Submission and dispatch

`submit` and `_maybe_dispatch` with everything that they call, one definition for each method.

* `infeasibleEstimate`, `newWork` : what `submit` computes;
* `reestimatePending`, `sweepInfeasible`, `refreshObservations`, `buildDispatchPlan` : what a cycle
  reads;
* `acquireWorker`, `handshake`, `dispatchLoop`, `maybeDispatch` : what it does.
-/

namespace AdaptiveExecutor
open Ledger (Future)

/-- The result of a method that may raise: the exception leaves the state behind that it found. -/
abbrev Raising (σ β : Type) := Except σ β

namespace Executor
variable {α : Type}

/-! ## Estimates -/

/-- `_infeasible_estimate`: the error, if the estimate can never fit. -/
def infeasibleEstimate (cfg : Config) (estimate : ResourceEstimate) (snapshot : Option ResourceSnapshot)
    (retryCount : Nat) : Option InfeasibleTaskError :=
  match snapshot with
  | none => none
  | some snapshot =>
    let memoryCapacity := snapshot.memoryTotalGb - cfg.memoryHeadroomGb
    if 0 < snapshot.memoryTotalGb ∧ memoryCapacity < estimate.memoryGb then
      some ⟨.memory, estimate.memoryGb, memoryCapacity, retryCount⟩
    else
      match snapshot.gpus.map fun g => g.2.vramTotalGb with
      | [] => none
      | g :: gs =>
        let vramCapacity := gs.foldl max g - cfg.vramHeadroomGb
        if 0 < estimate.vramGb ∧ vramCapacity < estimate.vramGb then
          some ⟨.vram, estimate.vramGb, vramCapacity, retryCount⟩
        else none

structure Request where
  fnModule : String
  fnName : String
  memoryHint : Option ℚ := none
  vramHint : Option ℚ := none
  profileKey : Option String := none

/-- The `PendingWork` that `submit` makes from the profile that it has read. -/
def newWork (now : ℚ) (r : Request) (profile : LearnedProfile) : PendingWork where
  fnModule := r.fnModule
  fnName := r.fnName
  estimate := profile.estimate r.memoryHint r.vramHint
  profileKey := r.profileKey
  memoryHint := r.memoryHint
  vramHint := r.vramHint
  estimateSampleCount := profile.sampleCount
  estimateRefreshedAt := some now
  estimateFloorGb := profile.memoryFloorGb

/-- One turn of `_reestimate_pending`. -/
def reestimateOne (now : ℚ) (s : Executor α) (id : WorkId) : Executor α :=
  let w := s.works id
  if 0 < w.retryCount then s
  else if w.estimateRefreshedAt.any fun last => now - last < s.cfg.reestimateIntervalSeconds then s
  else
    let (profile, store) := s.profiles.get w.fnModule w.fnName w.profileKey
    let s := { s with profiles := store }
    if profile.sampleCount = w.estimateSampleCount ∧ profile.memoryFloorGb = w.estimateFloorGb then
      s.modifyWork id fun w => { w with estimateRefreshedAt := some now }
    else
      s.modifyWork id fun w =>
        { w with
          estimateRefreshedAt := some now
          estimate := profile.estimate w.memoryHint w.vramHint
          estimateSampleCount := profile.sampleCount
          estimateFloorGb := profile.memoryFloorGb }

def reestimatePending (s : Executor α) (now : ℚ) : Executor α := s.pending.foldl (reestimateOne now) s

/-- The infeasibility sweep over the queued tasks: those that can never fit are settled, the others are kept. -/
def sweepInfeasible (snapshot : Option ResourceSnapshot) : List WorkId → Executor α → Executor α × List WorkId
  | [], s => (s, [])
  | id :: rest, s =>
    match infeasibleEstimate s.cfg (s.works id).estimate snapshot (s.works id).retryCount with
    | none =>
      let (s, feasible) := sweepInfeasible snapshot rest s
      (s, id :: feasible)
    | some error => sweepInfeasible snapshot rest (s.settle id (.exception (.infeasible error)))

/-! ## Observed usage -/

def updateObserved (env : Env) (now : ℚ) (w : PendingWork) : PendingWork :=
  let w := { w with observedRefreshedAt := some now }
  match w.workerPid with
  | none => w
  | some pid =>
    let w := match w.rssBaselineBytes with
      | none => w
      | some baseline =>
        { w with observedMemoryGb := match env.rssBytes pid with
            | none => 0
            | some current => max 0 (((current - baseline : Int) : ℚ) / 1000000000) }
    match w.assignedGpuId, w.vramBaselineGb with
    | some gpuId, some baseline =>
      { w with observedVramGb := match env.processVramGb pid gpuId with
          | none => 0
          | some current => max 0 (current - baseline) }
    | _, _ => w

/-- One turn of `_refresh_observations`. -/
def refreshOne (env : Env) (now : ℚ) (s : Executor α) (id : WorkId) : Executor α :=
  if (s.works id).observedRefreshedAt.any fun last => now - last < s.cfg.observationRefreshSeconds then s
  else s.modifyWork id (updateObserved env now)

def refreshObservations (env : Env) (s : Executor α) (now : ℚ) : Executor α := s.inFlight.foldl (refreshOne env now) s

/-- `_capture_baseline`, on the worker with process id `pid`. -/
def captureBaseline (env : Env) (now : ℚ) (pid : Int) (gpuId : Option GpuId) (w : PendingWork) : PendingWork :=
  { w with
    workerPid := some pid
    observedMemoryGb := 0
    observedVramGb := 0
    observedRefreshedAt := some now
    rssBaselineBytes := env.rssBytes pid
    vramBaselineGb := gpuId.bind (env.processVramGb pid) }

/-! ## The plan -/

def runningRemainingSeconds (now : ℚ) (w : PendingWork) : Option ℚ :=
  match w.estimate.durationP90Seconds, w.startedAt with
  | some expected, some startedAt =>
    let elapsed := now - startedAt
    if expected ≤ elapsed then none else some (expected - elapsed)
  | _, _ => none

def runningEntry (s : Executor α) (now : ℚ) (id : WorkId) : RunningEntry :=
  let w := s.works id
  { id := id
    memoryGb := committedGb w.estimate.memoryGb w.observedMemoryGb
    vramGb := committedGb w.estimate.vramGb w.observedVramGb
    gpuId := w.assignedGpuId
    remainingSeconds := runningRemainingSeconds now w
    exclusive := w.exclusive
    profileIdentity := w.profileIdentity }

/-- The identity and the number of observations that `_pending_entry` reads for a task. -/
def identityOf (s : Executor α) (id : WorkId) : String × Nat :=
  s.profiles.estimationIdentity (s.works id).fnModule (s.works id).fnName (s.works id).profileKey

def pendingEntry (s : Executor α) (id : WorkId) : PendingEntry :=
  let w := s.works id
  { id := id
    memoryGb := w.estimate.memoryGb
    vramGb := w.estimate.vramGb
    cpuCores := w.estimate.cpuCores
    durationP90Seconds := w.estimate.durationP90Seconds
    exclusive := w.exclusive
    profileIdentity := some (s.identityOf id).1
    cold := decide ((s.identityOf id).2 = 0) && !(w.memoryHint.isSome || w.vramHint.isSome) }

/-- `_pending_entry` stamps the identity on the task. -/
def stampIdentity (s : Executor α) (id : WorkId) : Executor α :=
  s.modifyWork id fun w => { w with profileIdentity := some (s.identityOf id).1 }

/-- The free memory: all of it when there is no snapshot yet. -/
def memoryFree (s : Executor α) : Free :=
  match s.snapshot with
  | none => ⊤
  | some snapshot =>
    ((snapshot.memoryTotalGb - snapshot.memoryUsedGb - s.cfg.memoryHeadroomGb -
      totalCommittedGb (s.inFlight.map fun id => ((s.works id).estimate.memoryGb, (s.works id).observedMemoryGb)) :
        ℚ) : Free)

def gpuFree (s : Executor α) : GpuFree := fun g =>
  if g ∈ s.cfg.gpuIds then
    match s.snapshot with
    | none => some ⊤
    | some snapshot => (snapshot.gpus.lookup g).map fun gpu =>
        ((gpu.vramTotalGb - gpu.vramUsedGb - s.cfg.vramHeadroomGb -
          committedVramPerGpu (s.inFlight.map fun id =>
            ⟨(s.works id).assignedGpuId, (s.works id).estimate.vramGb, (s.works id).observedVramGb⟩) g : ℚ) : Free)
  else none

def capacity (s : Executor α) : Capacity where
  memoryFreeGb := s.memoryFree
  gpuFreeVramGb := s.gpuFree
  gpuRoundRobin := s.cfg.gpuIds
  nextGpuIndex := s.nextGpuIndex
  maxWorkers := s.cfg.maxWorkers
  runningCount := s.inFlight.length
  snapshotPresent := s.snapshot.isSome

/-- The plan of `_build_dispatch_plan`, once the observations are refreshed. -/
def dispatchPlan (s : Executor α) (now : ℚ) : DispatchPlan :=
  planDispatch (s.pending.map s.pendingEntry) (s.inFlight.map (s.runningEntry now)) s.capacity

/-! ## Workers for a decision -/

def idle (s : Executor α) (w : WorkerId) : Bool :=
  (s.slots w).currentWorkId.isNone && !(s.slots w).intentionallyStopped && (s.slots w).process.alive

def spawnWorker (env : Env) (s : Executor α) (pinnedGpuId : Option GpuId) : Raising (Executor α) (Executor α × WorkerId) :=
  let w := s.nextWorkerId
  let s := { s with nextWorkerId := w + 1 }
  match env.spawnPid w with
  | none => .error s
  | some pid =>
    .ok ({ s with
      slots := Function.update s.slots w { process := { pid := pid }, pinnedGpuId := pinnedGpuId }
      workers := insertKey s.workers w }, w)

/-- `_get_or_spawn_idle_worker`: the worker, if there is one. -/
def acquireWorker (env : Env) (s : Executor α) (pinnedGpuId : Option GpuId) :
    Raising (Executor α) (Executor α × Option WorkerId) :=
  match s.workers.find? fun w => decide ((s.slots w).pinnedGpuId = pinnedGpuId) && s.idle w with
  | some w => .ok (s, some w)
  | none =>
    if s.cfg.maxWorkers ≤ s.workers.length then
      match s.workers.find? s.idle with
      | none => .ok (s, none)
      | some victim => ((s.retireWorker victim).spawnWorker env pinnedGpuId).map fun r => (r.1, some r.2)
    else (s.spawnWorker env pinnedGpuId).map fun r => (r.1, some r.2)

/-! ## The cycle -/

def ship (env : Env) (s : Executor α) (id : WorkId) (gpuId : Option GpuId) (w : WorkerId) : Executor α :=
  let s := s.modifyWork id fun work => captureBaseline env s.clock (s.slots w).process.pid gpuId
    { work with assignedGpuId := gpuId, workerId := some w, startedAt := some s.clock }
  let s := { s with inFlight := insertKey s.inFlight id }
  s.modifySlot w fun slot =>
    { slot with
      currentWorkId := some id
      process := { slot.process with
        workQueue := slot.process.workQueue ++ [some ⟨id, (s.works id).fnModule, (s.works id).fnName, gpuId⟩] } }

/-- One decision, once its worker is there: the running handshake, and the task is shipped, or dropped when its
future turns out to be cancelled. -/
def handshake (env : Env) (s : Executor α) (id : WorkId) (gpuId : Option GpuId) (w : WorkerId) :
    Raising (Executor α) (Executor α) :=
  if (s.works id).runningNotified then .ok (s.ship env id gpuId w)
  else
    match (s.futures id).setRunningOrNotifyCancel with
    | none => .error s
    | some (future, won) =>
      let s := { s with futures := Function.update s.futures id future }
      if won then .ok ((s.modifyWork id fun work => { work with runningNotified := true }).ship env id gpuId w)
      else .ok s

/-- The loop over the decisions. `removed` are the tasks dispatched or found cancelled so far; the queue itself only
changes after the loop. -/
def dispatchLoop (env : Env) : List DispatchDecision → Executor α → List WorkId →
    Raising (Executor α) (Executor α × List WorkId)
  | [], s, removed => .ok (s, removed)
  | d :: ds, s, removed =>
    if d.pendingId ∈ s.pending then
      match s.acquireWorker env d.gpuId with
      | .error s => .error s
      | .ok (s, none) => dispatchLoop env ds s removed
      | .ok (s, some w) =>
        match s.handshake env d.pendingId d.gpuId w with
        | .error s => .error s
        | .ok s => dispatchLoop env ds s (d.pendingId :: removed)
    else dispatchLoop env ds s removed

/-- The first part of a cycle: estimates refreshed, and infeasible tasks failed. -/
def prepare (s : Executor α) : Executor α :=
  let s := s.reestimatePending s.clock
  let (s, feasible) := sweepInfeasible s.snapshot s.pending s
  { s with pending := feasible }

/-- The second part: observations refreshed, identities stamped, and the plan. -/
def buildDispatchPlan (env : Env) (s : Executor α) : Executor α × DispatchPlan :=
  let s := s.refreshObservations env s.clock
  let plan := s.dispatchPlan s.clock
  ({ s.pending.foldl stampIdentity s with nextGpuIndex := plan.nextGpuIndex }, plan)

def maybeDispatch (env : Env) (s : Executor α) : Raising (Executor α) (Executor α) :=
  if s.pending = [] then .ok s
  else
    let s := s.prepare
    if s.pending = [] then .ok s
    else
      let (s, plan) := s.buildDispatchPlan env
      if plan.decisions = [] then .ok s
      else
        (s.dispatchLoop env plan.decisions []).map fun r =>
          { r.1 with pending := r.1.pending.filter fun id => id ∉ r.2 }

end Executor

end AdaptiveExecutor
