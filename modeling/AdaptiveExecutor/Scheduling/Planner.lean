import Mathlib.Algebra.Order.Floor.Ring
import Mathlib.Data.List.Sort
import Mathlib.Data.Rat.Floor
import AdaptiveExecutor.Backfill.Release

/-!
# The dispatch planner

`plan_dispatch` and its `_Planner`, one definition for each method. Amounts are rationals, as the
floats are, but added and divided exactly: where the source rounds, a test that is a tie or almost one
can come out the other way. A free amount may also be `math.inf` (`⊤`), and so may a reservation.

* inputs and outputs : `PendingEntry`, `RunningEntry`, `Capacity`, `DispatchDecision`, `DispatchPlan`;
* `Room` : the triple (memory, per-GPU VRAM, slots) that `_fits` is asked about, `Pools` with the
  round-robin index;
* `Planner.front` : front admission; `Planner.backfill` : the scan behind a blocked head;
  `Planner.run`, `planDispatch` : one cycle.

The planner keeps each call of `_admit` (`Admission`), of which the source keeps the decision.
-/

namespace AdaptiveExecutor
open Backfill (Due firstFit)

abbrev GpuId := Int

/-- A free amount in GB, `⊤` for `math.inf`. -/
abbrev Free := WithTop ℚ

/-- A `dict[int, float]` of free VRAM. -/
abbrev GpuFree := GpuId → Option Free

/-! ## Inputs and outputs -/

/-- A queued task awaiting dispatch. An unknown duration is `none`. -/
structure PendingEntry where
  id : String
  memoryGb : ℚ
  vramGb : ℚ
  cpuCores : ℚ
  durationP90Seconds : Option ℚ
  exclusive : Bool := false
  profileIdentity : Option String := none
  cold : Bool := false
  deriving DecidableEq

/-- A task holding resources. `remainingSeconds` is `none` when the release time is unknown. -/
structure RunningEntry where
  id : String
  memoryGb : ℚ
  vramGb : ℚ
  gpuId : Option GpuId
  remainingSeconds : Option ℚ
  exclusive : Bool := false
  profileIdentity : Option String := none
  deriving DecidableEq

structure Capacity where
  memoryFreeGb : Free
  gpuFreeVramGb : GpuFree
  gpuRoundRobin : List GpuId
  nextGpuIndex : Int
  maxWorkers : Int
  runningCount : Int
  snapshotPresent : Bool

structure DispatchDecision where
  pendingId : String
  gpuId : Option GpuId
  deriving DecidableEq

structure DispatchPlan where
  decisions : List DispatchDecision
  nextGpuIndex : Int
  deriving DecidableEq

/-! ## Rooms -/

/-- What `_fits` is asked about: free memory, free VRAM for each GPU, worker slots in use. -/
structure Room where
  memoryFree : Free
  gpuFree : GpuFree
  slots : Int

structure Pools extends Room where
  rr : Int

/-- `gpu_free[gpu_id] += x`, when `gpu_id` is not `None` and in the dict. -/
def GpuFree.add (gpuFree : GpuFree) (gpuId : Option GpuId) (x : ℚ) : GpuFree :=
  match gpuId with
  | none => gpuFree
  | some g => fun g' => if g' = g then (gpuFree g').map ((x : Free) + ·) else gpuFree g'

def Room.take (r : Room) (memoryGb vramGb : ℚ) (gpuId : Option GpuId) : Room where
  memoryFree := ((-memoryGb : ℚ) : Free) + r.memoryFree
  gpuFree := r.gpuFree.add gpuId (-vramGb)
  slots := r.slots + 1

def Room.give (r : Room) (memoryGb vramGb : ℚ) (gpuId : Option GpuId) : Room where
  memoryFree := (memoryGb : Free) + r.memoryFree
  gpuFree := r.gpuFree.add gpuId vramGb
  slots := r.slots - 1

/-! ## Admission primitives -/

namespace Capacity
variable (cap : Capacity)

/-- The cpu-cores derived cap. Under `max 1` truncation is the floor; the source takes it of the rounded quotient, which
for 9 workers and 1.8 cores is 5, and not of the exact one. -/
def effectiveMax (task : PendingEntry) : Int :=
  if !cap.snapshotPresent then cap.maxWorkers
  else if 1 < task.cpuCores then max 1 ⌊(cap.maxWorkers : ℚ) / task.cpuCores⌋
  else cap.maxWorkers

/-- The index `(rr + offset) % n` into the GPU ring. -/
def ringIndex (rr : Int) (offset : Nat) : Int := (rr + offset) % cap.gpuRoundRobin.length

/-- `order[idx]`. -/
def ringGpu (idx : Int) : GpuId := cap.gpuRoundRobin.getD idx.toNat 0

/-- The loop of `_pick_gpu` over the offsets that are left. -/
def pickGpuLoop (vramGb : ℚ) (gpuFree : GpuFree) (rr : Int) : List Nat → Option GpuId × Int
  | [] => (none, rr)
  | offset :: rest =>
    let idx := cap.ringIndex rr offset
    let gpuId := cap.ringGpu idx
    match gpuFree gpuId with
    | none => pickGpuLoop vramGb gpuFree rr rest
    | some free =>
      if vramGb < free then (some gpuId, (idx + 1) % cap.gpuRoundRobin.length)
      else pickGpuLoop vramGb gpuFree rr rest

def pickGpu (vramGb : ℚ) (gpuFree : GpuFree) (rr : Int) : Option GpuId × Int :=
  cap.pickGpuLoop vramGb gpuFree rr (List.range cap.gpuRoundRobin.length)

/-- Whether `task` is admissible in the room: the GPU and the next index, `none` for `False`. -/
def fits (task : PendingEntry) (r : Room) (rr : Int) : Option (Option GpuId × Int) :=
  if task.exclusive ∧ 0 < r.slots then none
  else if cap.maxWorkers ≤ r.slots then none
  else if cap.effectiveMax task ≤ r.slots then none
  else if r.memoryFree ≤ task.memoryGb then none
  else if 0 < task.vramGb then
    match cap.pickGpu task.vramGb r.gpuFree rr with
    | (none, _) => none
    | (some gpuId, rr') => some (some gpuId, rr')
  else some (none, rr)

end Capacity

/-- The arguments of one call of `_admit`. `releasesBeforeReservation` is `none` for a front admission,
`some true` for rule (b) and `some false` for rule (a). -/
structure Admission where
  task : PendingEntry
  gpuId : Option GpuId
  releasesBeforeReservation : Option Bool
  deriving DecidableEq

def Admission.decision (a : Admission) : DispatchDecision := ⟨a.task.id, a.gpuId⟩

def Admission.occupant (a : Admission) : RunningEntry where
  id := a.task.id
  memoryGb := a.task.memoryGb
  vramGb := a.task.vramGb
  gpuId := a.gpuId
  remainingSeconds := a.task.durationP90Seconds

structure Planner where
  cap : Capacity
  queue : List PendingEntry
  occupants : List RunningEntry
  pools : Pools
  admitted : List Admission
  heldIdentities : List String

namespace Planner

/-- `_Planner.__init__`. -/
def init (pending : List PendingEntry) (running : List RunningEntry) (cap : Capacity) : Planner where
  cap := cap
  queue := pending
  occupants := running
  pools :=
    { memoryFree := cap.memoryFreeGb
      gpuFree := cap.gpuFreeVramGb
      slots := cap.runningCount
      rr := cap.nextGpuIndex }
  admitted := []
  heldIdentities := running.filterMap (·.profileIdentity)

variable (p : Planner)

def plan : DispatchPlan := ⟨p.admitted.map Admission.decision, p.pools.rr⟩

/-- A cold task whose identity is running or planned may not start. -/
def canaryBlocked (task : PendingEntry) : Bool :=
  task.cold && match task.profileIdentity with
    | none => false
    | some identity => decide (identity ∈ p.heldIdentities)

/-- `_admit` with the round-robin index that its caller has just stored. -/
def admitTask (task : PendingEntry) (gpuId : Option GpuId) (rr : Int) (releases : Option Bool) : Planner :=
  { p with
    admitted := p.admitted ++ [⟨task, gpuId, releases⟩]
    pools := { p.pools.toRoom.take task.memoryGb task.vramGb gpuId with rr := rr }
    heldIdentities := task.profileIdentity.toList ++ p.heldIdentities
    occupants := match releases with
      | none => p.occupants ++ [Admission.occupant ⟨task, gpuId, none⟩]
      | some _ => p.occupants }

/-! ## Reservation -/

def releaseTimes : List ℚ := (p.occupants.filterMap (·.remainingSeconds)).dedup.insertionSort (· ≤ ·)

/-- The live pools projected to time `t`: occupants due by `t` have freed their resources and slots. -/
def stateAt (t : WithTop ℚ) : Room :=
  p.occupants.foldl (fun r o => if Due o.remainingSeconds t then r.give o.memoryGb o.vramGb o.gpuId else r)
    p.pools.toRoom

/-- The earliest time the head is expected to be admissible. -/
def computeReservation (head : PendingEntry) : WithTop ℚ :=
  firstFit (fun t => (p.cap.fits head (p.stateAt t) p.pools.rr).isSome) p.releaseTimes

/-! ## Backfill -/

def fitsNongpu (task : PendingEntry) : Bool :=
  if task.exclusive ∧ 0 < p.pools.slots then false
  else if p.cap.maxWorkers ≤ p.pools.slots then false
  else if p.cap.effectiveMax task ≤ p.pools.slots then false
  else if p.pools.memoryFree ≤ task.memoryGb then false
  else true

/-- The loop of `_gpu_options` over the offsets that are left. -/
def gpuOptionsLoop (vramGb : ℚ) : List Nat → List (GpuId × Int)
  | [] => []
  | offset :: rest =>
    let idx := p.cap.ringIndex p.pools.rr offset
    let gpuId := p.cap.ringGpu idx
    match p.pools.gpuFree gpuId with
    | none => gpuOptionsLoop vramGb rest
    | some free =>
      if vramGb < free then (gpuId, (idx + 1) % p.cap.gpuRoundRobin.length) :: gpuOptionsLoop vramGb rest
      else gpuOptionsLoop vramGb rest

/-- The GPUs with room for `vramGb` now, in round-robin order, each with the next index if chosen. -/
def gpuOptions (vramGb : ℚ) : List (GpuId × Int) :=
  p.gpuOptionsLoop vramGb (List.range p.cap.gpuRoundRobin.length)

/-- Does the head still fit at its reservation while `candidate` holds its resources for good? -/
def headStillFitsWithHold (head candidate : PendingEntry) (candidateGpu : Option GpuId)
    (reservation : WithTop ℚ) : Bool :=
  (p.cap.fits head ((p.stateAt reservation).take candidate.memoryGb candidate.vramGb candidateGpu)
    p.pools.rr).isSome

/-- Choose a GPU, if needed, on which the candidate delays the head by neither rule. -/
def placeBackfill (head candidate : PendingEntry) (reservation : WithTop ℚ)
    (finishesBeforeReservation : Bool) : Option (Option GpuId × Int × Bool) :=
  let options : List (Option GpuId × Int) :=
    if candidate.vramGb ≤ 0 then [(none, p.pools.rr)]
    else (p.gpuOptions candidate.vramGb).map fun o => (some o.1, o.2)
  options.findSome? fun o =>
    -- rule (b): any GPU with room; rule (a): only one that the head can do without
    if finishesBeforeReservation then some (o.1, o.2, true)
    else if p.headStillFitsWithHold head candidate o.1 reservation then some (o.1, o.2, false)
    else none

/-- What one turn of the scan decides about a candidate, `none` when it is left in the queue. -/
def offer (head : PendingEntry) (reservation : WithTop ℚ) (candidate : PendingEntry) :
    Option (Option GpuId × Int × Bool) :=
  if p.canaryBlocked candidate then none
  else if !p.fitsNongpu candidate then none
  else p.placeBackfill head candidate reservation
    (decide (reservation ≠ ⊤) && decide (Due candidate.durationP90Seconds reservation))

/-- `_backfill` over the rest of the queue. -/
def backfill (p : Planner) (head : PendingEntry) (reservation : WithTop ℚ) : List PendingEntry → Planner
  | [] => p
  | candidate :: rest =>
    match p.offer head reservation candidate with
    | none => backfill p head reservation rest
    | some (gpuId, rr, releases) =>
      backfill (p.admitTask candidate gpuId rr (some releases)) head reservation rest

/-! ## One cycle -/

/-- The loop of front admission. The flag is `true` when it stops at a blocked head (`break`), `false`
when the cycle is over: the queue is drained, or an exclusive task has been admitted. -/
def frontLoop (p : Planner) : List PendingEntry → Planner × Bool
  | [] => ({ p with queue := [] }, false)
  | head :: rest =>
    if p.canaryBlocked head then ({ p with queue := head :: rest }, true)
    else match p.cap.fits head p.pools.toRoom p.pools.rr with
      | none => ({ p with queue := head :: rest }, true)
      | some (gpuId, rr) =>
        if head.exclusive then ({ p.admitTask head gpuId rr none with queue := rest }, false)
        else frontLoop (p.admitTask head gpuId rr none) rest

/-- Steps 0 and 1 of `run`: nothing while an exclusive task is in flight, else front admission. -/
def front : Planner × Bool :=
  if p.occupants.any (·.exclusive) then (p, false) else p.frontLoop p.queue

/-- The reservation that `run` scans with. It is infinite for a canary-blocked head. -/
def reservation (head : PendingEntry) : WithTop ℚ :=
  if p.canaryBlocked head then ⊤ else p.computeReservation head

/-- Step 2 of `run`: the head is blocked, backfill the rest. -/
def backfillRest : Planner :=
  match p.queue with
  | [] => p
  | head :: rest => if head.exclusive then p else p.backfill head (p.reservation head) rest

/-- `run`, up to the returned plan. -/
def run : Planner := if p.front.2 then p.front.1.backfillRest else p.front.1

end Planner

def cycle (pending : List PendingEntry) (running : List RunningEntry) (cap : Capacity) : Planner :=
  (Planner.init pending running cap).run

def planDispatch (pending : List PendingEntry) (running : List RunningEntry) (cap : Capacity) :
    DispatchPlan :=
  (cycle pending running cap).plan

end AdaptiveExecutor
