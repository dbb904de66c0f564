import Mathlib.Algebra.BigOperators.Field
import Mathlib.Algebra.Order.BigOperators.Group.Finset
import AdaptiveExecutor.Executor.State

/-!
# The resource monitor

What `psutil` and NVML answer, errors included, and what `ResourceMonitor` makes of it.

* `Nvml`, `Readings` : the answers of a machine to the calls of one reading;
* `ResourceMonitor` : `snapshot`, `perProcessVramGb` and `deviceVramUsedGb`;
* `Lists` : a list of compute processes that tells what every process uses;
* `sumVram_eq`, `perProcessVramGb_eq` : from such a list, a reading is what the given processes use together;
-/

namespace AdaptiveExecutor

/-! ## Answers -/

abbrev Handle := Nat

/-- A process that NVML lists for a device; a driver need not tell what it uses. -/
structure ComputeProcess where
  pid : Int
  usedGpuMemory : Option Nat
  deriving DecidableEq

/-- What becomes of a call by name: the bindings do not have it, it raises an NVML error, or it answers. -/
inductive Call (β : Type)
  | missing
  | raises
  | returns (answer : β)

structure DeviceMemory where
  used : Nat
  total : Nat

/-- What NVML answers. An error is `none`. -/
structure Nvml where
  memoryInfo : Handle → Option DeviceMemory
  utilizationRates : Handle → Option Nat
  computeRunningProcessesV3 : Handle → Call (List ComputeProcess)
  computeRunningProcessesV2 : Handle → Call (List ComputeProcess)
  computeRunningProcesses : Handle → Call (List ComputeProcess)

/-- What the machine answers to the calls of one reading, each of which is made once. -/
structure Readings where
  memoryUsed : Nat
  memoryTotal : Nat
  /-- `psutil.Process(pid).memory_info().rss` -/
  rss : Int → Option Nat
  /-- `psutil.Process(pid).children(recursive=True)` -/
  children : Int → Option (List Int)
  nvml : Nvml

def gb (bytes : Nat) : ℚ := (bytes : ℚ) / 1000000000

/-- The process with its descendants, or alone when they cannot be listed. -/
def Readings.processTree (h : Readings) (pid : Int) : Finset Int := insert pid ((h.children pid).getD []).toFinset

/-- The loop over the names of a query: the first that the bindings have decides. -/
def firstAnswer {β : Type} : List (Call β) → Option β
  | [] => none
  | .missing :: calls => firstAnswer calls
  | .raises :: _ => none
  | .returns answer :: _ => some answer

/-- `_compute_running_processes`. -/
def Nvml.runningProcesses (n : Nvml) (handle : Handle) : Option (List ComputeProcess) :=
  firstAnswer [n.computeRunningProcessesV3 handle, n.computeRunningProcessesV2 handle, n.computeRunningProcesses handle]

/-- The sum over the listed processes that are among `pids`. -/
def sumVram (pids : Finset Int) (procs : List ComputeProcess) : ℚ :=
  procs.foldl (fun total proc =>
    if proc.pid ∉ pids then total
    else match proc.usedGpuMemory with
      | none => total
      | some used => total + gb used) 0

/-! ## The monitor -/

structure ResourceMonitor where
  gpuHandles : List (GpuId × Handle) := []
  current : Option ResourceSnapshot := none

namespace ResourceMonitor

def snapshot (m : ResourceMonitor) (h : Readings) : ResourceSnapshot where
  memoryUsedGb := gb h.memoryUsed
  memoryTotalGb := gb h.memoryTotal
  gpus := m.gpuHandles.filterMap fun (i, handle) =>
    match h.nvml.memoryInfo handle, h.nvml.utilizationRates handle with
    | some info, some _ => some (i, ⟨gb info.used, gb info.total⟩)
    | _, _ => none

def handleFor (m : ResourceMonitor) (deviceId : GpuId) : Option Handle := m.gpuHandles.lookup deviceId

def deviceVramUsedGb (m : ResourceMonitor) (h : Readings) (deviceId : GpuId) : Option ℚ :=
  ((m.current.getD (m.snapshot h)).gpus.lookup deviceId).map (·.vramUsedGb)

def perProcessVramGb (m : ResourceMonitor) (h : Readings) (deviceId : GpuId) (pids : Finset Int) : Option ℚ :=
  match m.handleFor deviceId with
  | none => none
  | some handle => (h.nvml.runningProcesses handle).map (sumVram pids)

end ResourceMonitor

/-! ## Readings of a list that tells what every process uses -/

/-- Every process that uses the device is listed once, with what it uses. -/
structure Lists (procs : List ComputeProcess) (usage : Int → Nat) : Prop where
  nodup : (procs.map ComputeProcess.pid).Nodup
  used : ∀ proc ∈ procs, proc.usedGpuMemory.getD 0 = usage proc.pid
  complete : ∀ pid, usage pid ≠ 0 → pid ∈ procs.map ComputeProcess.pid

variable {pids pids' : Finset Int} {procs : List ComputeProcess} {usage usage' : Int → Nat} {h h' : Readings}
  {m : ResourceMonitor} {deviceId : GpuId}

@[simp] theorem gb_zero : gb 0 = 0 := by simp [gb]

theorem gb_add (a b : Nat) : gb (a + b) = gb a + gb b := by
  unfold gb
  rw [Nat.cast_add, add_div]

theorem sumVram_filter (pids : Finset Int) (procs : List ComputeProcess) :
    sumVram pids procs = gb (((procs.filter fun proc => proc.pid ∈ pids).map fun proc => proc.usedGpuMemory.getD 0).sum) := by
  have turns : ∀ (procs : List ComputeProcess) (total : ℚ), procs.foldl (fun total proc =>
      if proc.pid ∉ pids then total
      else match proc.usedGpuMemory with
        | none => total
        | some used => total + gb used) total =
      total + gb (((procs.filter fun proc => proc.pid ∈ pids).map fun proc => proc.usedGpuMemory.getD 0).sum) := by
    intro procs
    induction procs with
    | nil => simp
    | cons proc procs ih =>
      intro total
      rw [List.foldl_cons, ih]
      by_cases hpid : proc.pid ∈ pids
      · rw [List.filter_cons_of_pos (by simpa using hpid), if_neg (not_not.mpr hpid), List.map_cons, List.sum_cons, gb_add]
        cases proc.usedGpuMemory with
        | none => simp
        | some used => simp only [Option.getD_some, add_assoc]
      · rw [List.filter_cons_of_neg (by simpa using hpid), if_pos hpid]
  have hsum := turns procs 0
  rwa [zero_add] at hsum

/-- **A reading** of such a list is what the given processes use together. -/
theorem sumVram_eq (hlist : Lists procs usage) (pids : Finset Int) : sumVram pids procs = gb (∑ pid ∈ pids, usage pid) := by
  have hmap : (procs.filter fun proc => proc.pid ∈ pids).map (fun proc => proc.usedGpuMemory.getD 0) =
      ((procs.map ComputeProcess.pid).filter fun pid => pid ∈ pids).map usage := by
    rw [List.filter_map, List.map_map]
    apply List.map_congr_left
    intro proc hproc
    exact hlist.used proc (List.mem_of_mem_filter hproc)
  have hlisted : (((procs.map ComputeProcess.pid).filter fun pid => pid ∈ pids).map usage).sum =
      ∑ pid ∈ ((procs.map ComputeProcess.pid).filter fun pid => pid ∈ pids).toFinset, usage pid :=
    (List.sum_toFinset usage (hlist.nodup.filter _)).symm
  have hunlisted : ∑ pid ∈ ((procs.map ComputeProcess.pid).filter fun pid => pid ∈ pids).toFinset, usage pid =
      ∑ pid ∈ pids, usage pid := by
    apply Finset.sum_subset
    · intro pid hpid
      simpa using (List.mem_filter.mp (List.mem_toFinset.mp hpid)).2
    · intro pid hpid hnot
      by_contra hused
      apply hnot
      rw [List.mem_toFinset, List.mem_filter]
      exact ⟨hlist.complete pid hused, by simpa using hpid⟩
  rw [sumVram_filter, hmap, hlisted, hunlisted]

/-- The per-process query of the device answers, and tells what every process uses. -/
def ResourceMonitor.Tells (m : ResourceMonitor) (h : Readings) (deviceId : GpuId) (usage : Int → Nat) : Prop :=
  ∃ handle procs, m.handleFor deviceId = some handle ∧ h.nvml.runningProcesses handle = some procs ∧ Lists procs usage

theorem ResourceMonitor.Tells.perProcessVramGb_eq (htells : m.Tells h deviceId usage) (pids : Finset Int) :
    m.perProcessVramGb h deviceId pids = some (gb (∑ pid ∈ pids, usage pid)) := by
  obtain ⟨handle, procs, hhandle, hprocs, hlist⟩ := htells
  unfold perProcessVramGb
  rw [hhandle]
  dsimp only
  rw [hprocs, Option.map_some, sumVram_eq hlist]

/-- The process 7 uses `rss` bytes of memory and `own` of the GPU, the process 8 `other` of the GPU. -/
def oneGpuReadings (rss own other : Nat) : Readings where
  memoryUsed := 8000000000
  memoryTotal := 16000000000
  rss := fun _ => some rss
  children := fun _ => some []
  nvml :=
    { memoryInfo := fun _ => some ⟨own + other, 16000000000⟩
      utilizationRates := fun _ => some 0
      computeRunningProcessesV3 := fun _ => .missing
      computeRunningProcessesV2 := fun _ => .returns [⟨7, some own⟩, ⟨8, some other⟩]
      computeRunningProcesses := fun _ => .raises }

end AdaptiveExecutor
