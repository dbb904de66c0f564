import AdaptiveExecutor.Measure.Monitor

/-!
# What a worker observes of a task

`Worker._execute_with_observation` as the two threads that it is: the caller, which runs the task function and then reads
what has been tracked, and the tracker, which the caller may give up waiting for.

* `Worker.gpuVramGb` : a VRAM reading, with its fallbacks;
* `Observing`, `Tick`, `Worker.step` : the variables of the two threads, and their steps in any order;
* `peak` : the highest of some samples and a first one;
* `Observing.Tracks`, `step_tracks` : the variables say what has been sampled so far;
* `observation_exact` : what an observation says, in every interleaving;
* `Alike`, `observation_own` : it says nothing about any other process, as long as the per-process query answers.
-/

namespace AdaptiveExecutor

structure Worker where
  pid : Int
  pinnedGpuId : Option GpuId
  monitor : ResourceMonitor

inductive Tracker
  | testingStop
  | samplingMemory
  | samplingVram
  | samplingCpu
  | finished
  deriving DecidableEq

/-- Where the caller stands, with what it has read so far. -/
inductive Caller
  | running
  | joining
  | readingMemory (durationSeconds : ℚ)
  | readingVram (durationSeconds memoryDeltaGb : ℚ)
  | testingCpu (durationSeconds memoryDeltaGb vramDeltaGb : ℚ)
  | summingCpu (durationSeconds memoryDeltaGb vramDeltaGb : ℚ)
  | dividingCpu (durationSeconds memoryDeltaGb vramDeltaGb cpuSum : ℚ)
  | returned (observation : ResourceObservation)
  /-- The division has raised. -/
  | raised
  deriving DecidableEq

structure Observing where
  beforeMemoryGb : ℚ
  beforeVram : ℚ
  peakMemoryGb : ℚ
  peakVram : ℚ
  cpuSamples : List ℚ := []
  stopTracking : Bool := false
  tracker : Tracker := .testingStop
  caller : Caller := .running
  deriving DecidableEq

/-- One step of one of the threads, with what it is answered. -/
inductive Tick
  | testStop
  | sampleMemory (h : Readings)
  /-- `current` is the last snapshot of the worker's own monitor. -/
  | sampleVram (current : Option ResourceSnapshot) (h : Readings)
  /-- The reading is `none` when the process is not found. -/
  | sampleCpu (percent : Option ℚ)
  | setStop
  /-- `join` returns, because the tracker has finished or because it has waited long enough. -/
  | join (durationSeconds : ℚ)
  | readMemory
  | readVram
  | testCpu
  | sumCpu
  | divideCpu

def Worker.gpuVramGb (w : Worker) (current : Option ResourceSnapshot) (h : Readings) : ℚ :=
  match w.pinnedGpuId with
  | none => 0
  | some gpuId =>
    match w.monitor.perProcessVramGb h gpuId (h.processTree w.pid) with
    | some perProcess => perProcess
    | none => ({ w.monitor with current := current }.deviceVramUsedGb h gpuId).getD 0

/-- What comes before the function is called. It raises when the worker cannot read its own RSS. -/
def Worker.start (w : Worker) (current : Option ResourceSnapshot) (h : Readings) : Option Observing :=
  (h.rss w.pid).map fun rss =>
    { beforeMemoryGb := gb rss
      beforeVram := w.gpuVramGb current h
      peakMemoryGb := gb rss
      peakVram := w.gpuVramGb current h }

/-- A turn of the tracker's loop is four steps, and the reading of an observation is five. -/
def Worker.step (w : Worker) (o : Observing) : Tick → Option Observing
  | .testStop =>
    if o.tracker = .testingStop then
      some { o with tracker := if o.stopTracking then .finished else .samplingMemory }
    else none
  | .sampleMemory h =>
    if o.tracker = .samplingMemory then
      match h.rss w.pid with
      | none => some { o with tracker := .finished }
      | some rss => some { o with
          peakMemoryGb := max o.peakMemoryGb (gb rss)
          tracker := if w.pinnedGpuId.isSome then .samplingVram else .samplingCpu }
    else none
  | .sampleVram current h =>
    if o.tracker = .samplingVram then
      some { o with peakVram := max o.peakVram (w.gpuVramGb current h), tracker := .samplingCpu }
    else none
  | .sampleCpu percent =>
    if o.tracker = .samplingCpu then
      match percent with
      | none => some { o with tracker := .finished }
      | some percent => some { o with cpuSamples := o.cpuSamples ++ [percent], tracker := .testingStop }
    else none
  | .setStop => if o.caller = .running then some { o with stopTracking := true, caller := .joining } else none
  | .join durationSeconds =>
    if o.caller = .joining then some { o with caller := .readingMemory durationSeconds } else none
  | .readMemory =>
    match o.caller with
    | .readingMemory duration => some { o with caller := .readingVram duration (o.peakMemoryGb - o.beforeMemoryGb) }
    | _ => none
  | .readVram =>
    match o.caller with
    | .readingVram duration memory =>
      some { o with caller := .testingCpu duration memory (max 0 (o.peakVram - o.beforeVram)) }
    | _ => none
  | .testCpu =>
    match o.caller with
    | .testingCpu duration memory vram =>
      some { o with caller := if o.cpuSamples = [] then .returned ⟨memory, vram, 0, duration⟩
        else .summingCpu duration memory vram }
    | _ => none
  | .sumCpu =>
    match o.caller with
    | .summingCpu duration memory vram => some { o with caller := .dividingCpu duration memory vram o.cpuSamples.sum }
    | _ => none
  | .divideCpu =>
    match o.caller with
    | .dividingCpu duration memory vram cpuSum =>
      some { o with caller := if o.cpuSamples = [] then .raised
        else .returned ⟨memory, vram, cpuSum / o.cpuSamples.length, duration⟩ }
    | _ => none

def Worker.run (w : Worker) (o : Observing) (ticks : List Tick) : Option Observing := ticks.foldlM w.step o

/-! ## Samples -/

def peak (first : ℚ) (samples : List ℚ) : ℚ := samples.foldl max first

def memorySamples (w : Worker) (ticks : List Tick) : List ℚ :=
  ticks.filterMap fun | .sampleMemory h => (h.rss w.pid).map gb | _ => none

def vramSamples (w : Worker) (ticks : List Tick) : List ℚ :=
  ticks.filterMap fun | .sampleVram current h => some (w.gpuVramGb current h) | _ => none

def cpuSamples (ticks : List Tick) : List ℚ := ticks.filterMap fun | .sampleCpu percent => percent | _ => none

theorem peak_append (first : ℚ) (xs ys : List ℚ) : peak first (xs ++ ys) = peak (peak first xs) ys := List.foldl_append

theorem le_peak (first : ℚ) : ∀ samples : List ℚ, first ≤ peak first samples
  | [] => le_rfl
  | x :: samples => (le_max_left first x).trans (le_peak (max first x) samples)

theorem mem_le_peak {x : ℚ} : ∀ (first : ℚ) {samples : List ℚ}, x ∈ samples → x ≤ peak first samples
  | first, y :: samples, hx => by
    rcases List.mem_cons.mp hx with rfl | hx
    · exact (le_max_right first x).trans (le_peak (max first x) samples)
    · exact mem_le_peak (max first y) hx

theorem peak_mem : ∀ (first : ℚ) (samples : List ℚ), peak first samples ∈ first :: samples
  | _, [] => List.mem_singleton_self _
  | first, x :: samples => by
    rcases List.mem_cons.mp (peak_mem (max first x) samples) with hfirst | hrest
    · change peak (max first x) samples ∈ _
      rw [hfirst]
      rcases max_choice first x with hmax | hmax <;> rw [hmax] <;> simp
    · exact List.mem_cons_of_mem _ (List.mem_cons_of_mem _ hrest)

section Samples
variable (w : Worker) (xs ys : List Tick)

theorem memorySamples_append : memorySamples w (xs ++ ys) = memorySamples w xs ++ memorySamples w ys := List.filterMap_append

theorem vramSamples_append : vramSamples w (xs ++ ys) = vramSamples w xs ++ vramSamples w ys := List.filterMap_append

theorem cpuSamples_append : cpuSamples (xs ++ ys) = cpuSamples xs ++ cpuSamples ys := List.filterMap_append

end Samples

/-! ## What is read -/

variable {w : Worker} {first o o' : Observing} {ran after after' ticks : List Tick} {t : Tick}

/-- The memory is read once the function has run: `m` is what happens between the stop and the reading. -/
def MemoryRead (w : Worker) (first : Observing) (ran after : List Tick) (deltaGb : ℚ) : Prop :=
  ∃ m, m <+: after ∧ deltaGb = peak first.beforeMemoryGb (memorySamples w (ran ++ m)) - first.beforeMemoryGb

def VramRead (w : Worker) (first : Observing) (ran after : List Tick) (deltaGb : ℚ) : Prop :=
  ∃ v, v <+: after ∧ deltaGb = peak first.beforeVram (vramSamples w (ran ++ v)) - first.beforeVram

/-- The samples are added up, and counted when there may be more of them. -/
def CpuSum (ran after : List Tick) (cpuSum : ℚ) : Prop :=
  ∃ c, c <+: after ∧ cpuSamples (ran ++ c) ≠ [] ∧ cpuSum = (cpuSamples (ran ++ c)).sum

def CpuRead (ran after : List Tick) (percent : ℚ) : Prop :=
  cpuSamples ran = [] ∧ percent = 0 ∨
    ∃ c, c <+: after ∧ ∃ cpuSum, CpuSum ran c cpuSum ∧ percent = cpuSum / (cpuSamples (ran ++ c)).length

/-- What the caller has read, of what happened while the function `ran` and `after` it. -/
def Caller.Reads (w : Worker) (first : Observing) (ran after : List Tick) : Caller → Prop
  | .running | .raised => False
  | .joining => True
  | .readingMemory duration => .join duration ∈ after
  | .readingVram duration memory => .join duration ∈ after ∧ MemoryRead w first ran after memory
  | .testingCpu duration memory vram =>
    .join duration ∈ after ∧ MemoryRead w first ran after memory ∧ VramRead w first ran after vram
  | .summingCpu duration memory vram =>
    .join duration ∈ after ∧ MemoryRead w first ran after memory ∧ VramRead w first ran after vram ∧
      cpuSamples (ran ++ after) ≠ []
  | .dividingCpu duration memory vram cpuSum =>
    .join duration ∈ after ∧ MemoryRead w first ran after memory ∧ VramRead w first ran after vram ∧ CpuSum ran after cpuSum
  | .returned obs =>
    .join obs.durationSeconds ∈ after ∧ MemoryRead w first ran after obs.memoryDeltaGb ∧
      VramRead w first ran after obs.vramDeltaGb ∧ CpuRead ran after obs.cpuPercent

structure Tracks (w : Worker) (first : Observing) (ticks : List Tick) (o : Observing) : Prop where
  beforeMemory : o.beforeMemoryGb = first.beforeMemoryGb
  beforeVram : o.beforeVram = first.beforeVram
  peakMemory : o.peakMemoryGb = peak first.beforeMemoryGb (memorySamples w ticks)
  peakVram : o.peakVram = peak first.beforeVram (vramSamples w ticks)
  samples : o.cpuSamples = cpuSamples ticks
  running : o.caller = .running → .setStop ∉ ticks
  reads : o.caller ≠ .running →
    ∃ ran after, ticks = ran ++ .setStop :: after ∧ .setStop ∉ ran ∧ o.caller.Reads w first ran after

theorem MemoryRead.mono {delta : ℚ} (h : MemoryRead w first ran after delta) (hafter : after <+: after') :
    MemoryRead w first ran after' delta := by
  obtain ⟨m, hm, hdelta⟩ := h
  exact ⟨m, hm.trans hafter, hdelta⟩

theorem VramRead.mono {delta : ℚ} (h : VramRead w first ran after delta) (hafter : after <+: after') :
    VramRead w first ran after' delta := by
  obtain ⟨v, hv, hdelta⟩ := h
  exact ⟨v, hv.trans hafter, hdelta⟩

theorem CpuSum.mono {cpuSum : ℚ} (h : CpuSum ran after cpuSum) (hafter : after <+: after') : CpuSum ran after' cpuSum := by
  obtain ⟨c, hc, hsum⟩ := h
  exact ⟨c, hc.trans hafter, hsum⟩

theorem CpuRead.mono {percent : ℚ} (h : CpuRead ran after percent) (hafter : after <+: after') :
    CpuRead ran after' percent := by
  refine h.imp_right ?_
  rintro ⟨c, hc, hpercent⟩
  exact ⟨c, hc.trans hafter, hpercent⟩

theorem Caller.Reads.mono {c : Caller} (h : c.Reads w first ran after) (hafter : after <+: after') :
    c.Reads w first ran after' := by
  cases c with
  | running | raised => exact h
  | joining => trivial
  | readingMemory => exact hafter.subset h
  | readingVram => exact ⟨hafter.subset h.1, h.2.mono hafter⟩
  | testingCpu => exact ⟨hafter.subset h.1, h.2.1.mono hafter, h.2.2.mono hafter⟩
  | summingCpu =>
    refine ⟨hafter.subset h.1, h.2.1.mono hafter, h.2.2.1.mono hafter, fun hnil => h.2.2.2 ?_⟩
    obtain ⟨more, rfl⟩ := hafter
    rw [← List.append_assoc, cpuSamples_append] at hnil
    exact (List.append_eq_nil_iff.mp hnil).1
  | dividingCpu => exact ⟨hafter.subset h.1, h.2.1.mono hafter, h.2.2.1.mono hafter, h.2.2.2.mono hafter⟩
  | returned => exact ⟨hafter.subset h.1, h.2.1.mono hafter, h.2.2.1.mono hafter, h.2.2.2.mono hafter⟩

/-! ## A step -/

theorem samples_setStop (w : Worker) (ran after : List Tick) :
    memorySamples w (ran ++ .setStop :: after) = memorySamples w (ran ++ after) ∧
      vramSamples w (ran ++ .setStop :: after) = vramSamples w (ran ++ after) := by
  simp [memorySamples, vramSamples]

theorem cpuSamples_setStop (ran after : List Tick) : cpuSamples (ran ++ .setStop :: after) = cpuSamples (ran ++ after) := by
  simp [cpuSamples]

theorem Tracks.track (h : Tracks w first ticks o) (ht : t ≠ .setStop) (hcaller : o'.caller = o.caller)
    (hbefore : o'.beforeMemoryGb = o.beforeMemoryGb ∧ o'.beforeVram = o.beforeVram)
    (hmemory : o'.peakMemoryGb = peak o.peakMemoryGb (memorySamples w [t]))
    (hvram : o'.peakVram = peak o.peakVram (vramSamples w [t])) (hcpu : o'.cpuSamples = o.cpuSamples ++ cpuSamples [t]) :
    Tracks w first (ticks ++ [t]) o' := by
  constructor
  · rw [hbefore.1, h.beforeMemory]
  · rw [hbefore.2, h.beforeVram]
  · rw [hmemory, h.peakMemory, memorySamples_append, peak_append]
  · rw [hvram, h.peakVram, vramSamples_append, peak_append]
  · rw [hcpu, h.samples, cpuSamples_append]
  · intro hrunning
    rw [List.mem_append, List.mem_singleton, not_or]
    exact ⟨h.running (hcaller ▸ hrunning), ht.symm⟩
  · intro hrunning
    rw [hcaller] at hrunning ⊢
    obtain ⟨ran, after, rfl, hran, hreads⟩ := h.reads hrunning
    exact ⟨ran, after ++ [t], by simp, hran, hreads.mono (List.prefix_append _ _)⟩

theorem Tracks.call {c : Caller} (h : Tracks w first ticks o) (hc : o.caller ≠ .running) (hc' : c ≠ .running)
    (ht : memorySamples w [t] = [] ∧ vramSamples w [t] = [] ∧ cpuSamples [t] = [])
    (hstep : ∀ ran after, ticks = ran ++ .setStop :: after → o.caller.Reads w first ran after →
      c.Reads w first ran (after ++ [t])) : Tracks w first (ticks ++ [t]) { o with caller := c } := by
  constructor
  · exact h.beforeMemory
  · exact h.beforeVram
  · rw [memorySamples_append, ht.1, List.append_nil]
    exact h.peakMemory
  · rw [vramSamples_append, ht.2.1, List.append_nil]
    exact h.peakVram
  · rw [cpuSamples_append, ht.2.2, List.append_nil]
    exact h.samples
  · intro hrunning
    exact absurd hrunning hc'
  · intro _
    obtain ⟨ran, after, rfl, hran, hreads⟩ := h.reads hc
    exact ⟨ran, after ++ [t], by simp, hran, hstep ran after rfl hreads⟩

/-- **A step of either thread** keeps what the variables hold. -/
theorem step_tracks (h : Tracks w first ticks o) (hstep : w.step o t = some o') : Tracks w first (ticks ++ [t]) o' := by
  have hgrow (after : List Tick) : after <+: after ++ [t] := List.prefix_append _ _
  cases t with
  | testStop =>
    simp only [Worker.step, Option.ite_none_right_eq_some, Option.some.injEq] at hstep
    obtain ⟨-, rfl⟩ := hstep
    exact h.track (by simp) rfl ⟨rfl, rfl⟩ rfl rfl (by simp [cpuSamples])
  | sampleMemory host =>
    simp only [Worker.step, Option.ite_none_right_eq_some] at hstep
    obtain ⟨-, hstep⟩ := hstep
    split at hstep
    · rename_i hrss
      obtain rfl := Option.some.inj hstep
      exact h.track (by simp) rfl ⟨rfl, rfl⟩ (by simp [memorySamples, hrss, peak]) rfl (by simp [cpuSamples])
    · rename_i rss hrss
      obtain rfl := Option.some.inj hstep
      exact h.track (by simp) rfl ⟨rfl, rfl⟩ (by simp [memorySamples, hrss, peak]) rfl (by simp [cpuSamples])
  | sampleVram current host =>
    simp only [Worker.step, Option.ite_none_right_eq_some, Option.some.injEq] at hstep
    obtain ⟨-, rfl⟩ := hstep
    exact h.track (by simp) rfl ⟨rfl, rfl⟩ rfl rfl (by simp [cpuSamples])
  | sampleCpu percent =>
    simp only [Worker.step, Option.ite_none_right_eq_some] at hstep
    obtain ⟨-, hstep⟩ := hstep
    cases percent with
    | none =>
      obtain rfl := Option.some.inj hstep
      exact h.track (by simp) rfl ⟨rfl, rfl⟩ rfl rfl (by simp [cpuSamples])
    | some percent =>
      obtain rfl := Option.some.inj hstep
      exact h.track (by simp) rfl ⟨rfl, rfl⟩ rfl rfl (by simp [cpuSamples])
  | setStop =>
    simp only [Worker.step, Option.ite_none_right_eq_some, Option.some.injEq] at hstep
    obtain ⟨hrunning, rfl⟩ := hstep
    -- all that has happened so far is what happened while the function ran
    refine ⟨h.beforeMemory, h.beforeVram, ?_, ?_, ?_, fun hrun => absurd hrun (by simp),
      fun _ => ⟨ticks, [], rfl, h.running hrunning, trivial⟩⟩
    · rw [(samples_setStop w _ _).1, List.append_nil]
      exact h.peakMemory
    · rw [(samples_setStop w _ _).2, List.append_nil]
      exact h.peakVram
    · rw [cpuSamples_setStop, List.append_nil]
      exact h.samples
  | join duration =>
    simp only [Worker.step, Option.ite_none_right_eq_some, Option.some.injEq] at hstep
    obtain ⟨hjoining, rfl⟩ := hstep
    refine h.call (by simp [hjoining]) (by simp) ⟨rfl, rfl, rfl⟩ fun ran after _ _ => ?_
    exact List.mem_append_right _ (List.mem_singleton_self _)
  | readMemory =>
    simp only [Worker.step] at hstep
    split at hstep
    · rename_i duration hcaller
      obtain rfl := Option.some.inj hstep
      refine h.call (by simp [hcaller]) (by simp) ⟨rfl, rfl, rfl⟩ fun ran after hticks hreads => ?_
      rw [hcaller] at hreads
      refine ⟨(hgrow after).subset hreads, after, hgrow after, ?_⟩
      rw [h.peakMemory, h.beforeMemory, hticks, (samples_setStop w _ _).1]
    · cases hstep
  | readVram =>
    simp only [Worker.step] at hstep
    split at hstep
    · rename_i duration memory hcaller
      obtain rfl := Option.some.inj hstep
      refine h.call (by simp [hcaller]) (by simp) ⟨rfl, rfl, rfl⟩ fun ran after hticks hreads => ?_
      rw [hcaller] at hreads
      refine ⟨(hgrow after).subset hreads.1, hreads.2.mono (hgrow after), after, hgrow after, ?_⟩
      rw [h.peakVram, h.beforeVram, hticks, (samples_setStop w _ _).2]
      exact max_eq_right (sub_nonneg.mpr (le_peak _ _))
    · cases hstep
  | testCpu =>
    simp only [Worker.step] at hstep
    split at hstep
    · rename_i duration memory vram hcaller
      obtain rfl := Option.some.inj hstep
      have hsamples (ran after : List Tick) (hticks : ticks = ran ++ .setStop :: after) :
          o.cpuSamples = cpuSamples (ran ++ after) := by rw [h.samples, hticks, cpuSamples_setStop]
      split_ifs with hnone
      · refine h.call (by simp [hcaller]) (by simp) ⟨rfl, rfl, rfl⟩ fun ran after hticks hreads => ?_
        rw [hcaller] at hreads
        refine ⟨(hgrow after).subset hreads.1, hreads.2.1.mono (hgrow after), hreads.2.2.mono (hgrow after), .inl ⟨?_, rfl⟩⟩
        rw [hsamples ran after hticks, cpuSamples_append] at hnone
        exact (List.append_eq_nil_iff.mp hnone).1
      · refine h.call (by simp [hcaller]) (by simp) ⟨rfl, rfl, rfl⟩ fun ran after hticks hreads => ?_
        rw [hcaller] at hreads
        refine ⟨(hgrow after).subset hreads.1, hreads.2.1.mono (hgrow after), hreads.2.2.mono (hgrow after), fun hnil => ?_⟩
        rw [← List.append_assoc, cpuSamples_append, List.append_eq_nil_iff] at hnil
        exact hnone ((hsamples ran after hticks).trans hnil.1)
    · cases hstep
  | sumCpu =>
    simp only [Worker.step] at hstep
    split at hstep
    · rename_i duration memory vram hcaller
      obtain rfl := Option.some.inj hstep
      refine h.call (by simp [hcaller]) (by simp) ⟨rfl, rfl, rfl⟩ fun ran after hticks hreads => ?_
      rw [hcaller] at hreads
      refine ⟨(hgrow after).subset hreads.1, hreads.2.1.mono (hgrow after), hreads.2.2.1.mono (hgrow after),
        after, hgrow after, hreads.2.2.2, ?_⟩
      rw [h.samples, hticks, cpuSamples_setStop]
    · cases hstep
  | divideCpu =>
    simp only [Worker.step] at hstep
    split at hstep
    · rename_i duration memory vram cpuSum hcaller
      obtain rfl := Option.some.inj hstep
      obtain ⟨ran, after, hticks, -, hreads⟩ := h.reads (by simp [hcaller])
      -- there was a sample when they were added up, and it has not gone away
      have hsome : o.cpuSamples ≠ [] := by
        rw [hcaller] at hreads
        obtain ⟨c, ⟨more, rfl⟩, hne, -⟩ := hreads.2.2.2
        rw [h.samples, hticks, cpuSamples_setStop, ← List.append_assoc, cpuSamples_append]
        exact List.append_ne_nil_of_left_ne_nil hne _
      rw [if_neg hsome]
      refine h.call (by simp [hcaller]) (by simp) ⟨rfl, rfl, rfl⟩ fun ran after hticks hreads => ?_
      rw [hcaller] at hreads
      refine ⟨(hgrow after).subset hreads.1, hreads.2.1.mono (hgrow after), hreads.2.2.1.mono (hgrow after),
        .inr ⟨after, hgrow after, cpuSum, hreads.2.2.2, ?_⟩⟩
      rw [h.samples, hticks, cpuSamples_setStop]
    · cases hstep

/-! ## Any interleaving -/

theorem run_tracks {hist : List Tick} (h : Tracks w first hist o) (hrun : w.run o ticks = some o') :
    Tracks w first (hist ++ ticks) o' := by
  induction ticks generalizing hist o with
  | nil =>
    obtain rfl := Option.some.inj hrun
    rwa [List.append_nil]
  | cons t ticks ih =>
    unfold Worker.run at hrun
    rw [List.foldlM_cons] at hrun
    obtain ⟨next, hnext, hrun⟩ := Option.bind_eq_some_iff.mp hrun
    have hticks := ih (step_tracks h hnext) hrun
    rwa [List.append_assoc] at hticks

theorem start_tracks {current : Option ResourceSnapshot} {h : Readings} (hstart : w.start current h = some first) :
    Tracks w first [] first := by
  obtain ⟨rss, -, rfl⟩ := Option.map_eq_some_iff.mp hstart
  exact ⟨rfl, rfl, rfl, rfl, rfl, fun _ => List.not_mem_nil, fun hc => absurd rfl hc⟩

/-- The highest growth over `before`: no sample taken while the function `ran` is higher, and one of `all` is as high. -/
structure Growth (before : ℚ) (ran all : List ℚ) (delta : ℚ) : Prop where
  covers : ∀ x ∈ before :: ran, x - before ≤ delta
  attained : ∃ x ∈ before :: all, delta = x - before

theorem Growth.nonneg {before delta : ℚ} {samples all : List ℚ} (h : Growth before samples all delta) : 0 ≤ delta := by
  have hbefore := h.covers before List.mem_cons_self
  rwa [sub_self] at hbefore

theorem growth_peak (before : ℚ) {samples middle all : List ℚ} (hsamples : samples <+: middle) (hall : middle <+: all) :
    Growth before samples all (peak before middle - before) := by
  constructor
  · intro x hx
    apply sub_le_sub_right
    rcases List.mem_cons.mp hx with rfl | hx
    · exact le_peak x middle
    · exact mem_le_peak before (hsamples.subset hx)
  · refine ⟨peak before middle, ?_, rfl⟩
    rcases List.mem_cons.mp (peak_mem before middle) with hfirst | hmem
    · rw [hfirst]
      exact List.mem_cons_self
    · exact List.mem_cons_of_mem _ (hall.subset hmem)

theorem MemoryRead.growth {delta : ℚ} (h : MemoryRead w first ran after delta) :
    Growth first.beforeMemoryGb (memorySamples w ran) (memorySamples w (ran ++ after)) delta := by
  obtain ⟨m, ⟨more, rfl⟩, rfl⟩ := h
  apply growth_peak
  · rw [memorySamples_append]
    exact List.prefix_append _ _
  · rw [← List.append_assoc, memorySamples_append w (ran ++ m)]
    exact List.prefix_append _ _

theorem VramRead.growth {delta : ℚ} (h : VramRead w first ran after delta) :
    Growth first.beforeVram (vramSamples w ran) (vramSamples w (ran ++ after)) delta := by
  obtain ⟨v, ⟨more, rfl⟩, rfl⟩ := h
  apply growth_peak
  · rw [vramSamples_append]
    exact List.prefix_append _ _
  · rw [← List.append_assoc, vramSamples_append w (ran ++ v)]
    exact List.prefix_append _ _

/-- The process 7 is a worker of the GPU 0. -/
def pinnedWorker : Worker := ⟨7, some 0, { gpuHandles := [(0, 0)] }⟩

/-- The task grows by 2 GB of memory and 1 GB of VRAM. The caller gives up waiting for the tracker, which takes one more
CPU sample while the caller reads them. -/
def lateTracker (other : Nat) : List Tick :=
  [.testStop, .sampleMemory (oneGpuReadings 3000000000 2000000000 other), .sampleVram none (oneGpuReadings 3000000000 2000000000 other),
    .sampleCpu (some 90), .testStop, .setStop, .sampleMemory (oneGpuReadings 1000000000 0 other), .join 4, .readMemory,
    .sampleVram none (oneGpuReadings 1000000000 0 other), .readVram, .testCpu, .sumCpu, .sampleCpu (some 0), .divideCpu]

def beforeCall : Observing := ⟨1, 1, 1, 1, [], false, .testingStop, .running⟩

/-- A reading of a worker of `gpuId`, when NVML tells what every process uses, is what its own process tree uses. -/
theorem gpuVramGb_own {gpuId : GpuId} {current : Option ResourceSnapshot} {h : Readings} {usage : Int → Nat}
    (hpinned : w.pinnedGpuId = some gpuId) (htells : w.monitor.Tells h gpuId usage) :
    w.gpuVramGb current h = gb (∑ pid ∈ h.processTree w.pid, usage pid) := by
  unfold Worker.gpuVramGb
  rw [hpinned]
  dsimp only
  rw [htells.perProcessVramGb_eq]

/-- The answers to two VRAM readings agree on the process tree of the worker: NVML tells in both what every process uses,
and the processes of the tree use the same. -/
structure SameTree (w : Worker) (gpuId : GpuId) (h h' : Readings) : Prop where
  tree : h'.processTree w.pid = h.processTree w.pid
  usage : ∃ usage usage', w.monitor.Tells h gpuId usage ∧ w.monitor.Tells h' gpuId usage' ∧
    ∀ pid ∈ h.processTree w.pid, usage' pid = usage pid

/-- Two steps that differ at most in what other processes use, and in the worker's last snapshot. -/
inductive Alike (w : Worker) (gpuId : GpuId) : Tick → Tick → Prop
  | same (t : Tick) : Alike w gpuId t t
  | memory {h h' : Readings} (hrss : h'.rss w.pid = h.rss w.pid) : Alike w gpuId (.sampleMemory h) (.sampleMemory h')
  | vram {current current' : Option ResourceSnapshot} {h h' : Readings} (htree : SameTree w gpuId h h') :
    Alike w gpuId (.sampleVram current h) (.sampleVram current' h')

variable {gpuId : GpuId} {current current' : Option ResourceSnapshot} {h h' : Readings} {ticks' : List Tick}

theorem SameTree.gpuVramGb (hpinned : w.pinnedGpuId = some gpuId) (htree : SameTree w gpuId h h') :
    w.gpuVramGb current' h' = w.gpuVramGb current h := by
  obtain ⟨usage, usage', htells, htells', hsame⟩ := htree.usage
  rw [gpuVramGb_own hpinned htells, gpuVramGb_own hpinned htells', htree.tree, Finset.sum_congr rfl hsame]

theorem Alike.step (hpinned : w.pinnedGpuId = some gpuId) {t t' : Tick} (halike : Alike w gpuId t t') (o : Observing) :
    w.step o t' = w.step o t := by
  cases halike with
  | same => rfl
  | memory hrss =>
    simp only [Worker.step]
    rw [hrss]
  | vram htree =>
    simp only [Worker.step]
    rw [htree.gpuVramGb hpinned]

/-- **An observation is the worker's own**: in every interleaving, as long as NVML tells what every process uses, nothing
that any other process on the device does makes a difference to it. -/
theorem observation_own (hpinned : w.pinnedGpuId = some gpuId) (hrss : h'.rss w.pid = h.rss w.pid)
    (htree : SameTree w gpuId h h') (halike : List.Forall₂ (Alike w gpuId) ticks ticks') :
    ((w.start current' h').bind fun first => w.run first ticks') = (w.start current h).bind fun first => w.run first ticks := by
  have hstart : w.start current' h' = w.start current h := by
    unfold Worker.start
    rw [hrss, htree.gpuVramGb hpinned]
  have hrun (first : Observing) : w.run first ticks' = w.run first ticks := by
    clear hrss htree hstart
    induction halike generalizing first with
    | nil => rfl
    | cons halike _ ih =>
      unfold Worker.run at *
      rw [List.foldlM_cons, List.foldlM_cons, halike.step hpinned]
      exact congrArg _ (funext ih)
  rw [hstart]
  exact congrArg _ (funext hrun)

theorem oneGpuReadings_tells (rss own other : Nat) : pinnedWorker.monitor.Tells (oneGpuReadings rss own other) 0
    fun pid => if pid = 7 then own else if pid = 8 then other else 0 := by
  refine ⟨0, [⟨7, some own⟩, ⟨8, some other⟩], rfl, rfl, by simp, by simp, fun pid hpid => ?_⟩
  by_cases h7 : pid = 7
  · simp [h7]
  by_cases h8 : pid = 8
  · simp [h8]
  · simp [h7, h8] at hpid

theorem oneGpuReadings_sameTree (rss own other other' : Nat) :
    SameTree pinnedWorker 0 (oneGpuReadings rss own other) (oneGpuReadings rss own other') := by
  refine ⟨rfl, _, _, oneGpuReadings_tells rss own other, oneGpuReadings_tells rss own other', fun pid hpid => ?_⟩
  have h7 : pid = 7 := by simpa [Readings.processTree, oneGpuReadings, pinnedWorker] using hpid
  simp [h7]

/-- Another process takes 9 GB of the GPU while the task runs. -/
theorem observation_own_late : (pinnedWorker.start none (oneGpuReadings 1000000000 1000000000 9000000000)).bind
      (fun first => pinnedWorker.run first (lateTracker 9000000000)) =
    (pinnedWorker.start none (oneGpuReadings 1000000000 1000000000 0)).bind fun first =>
      pinnedWorker.run first (lateTracker 0) := by
  refine observation_own rfl rfl (oneGpuReadings_sameTree _ _ _ _) ?_
  have memory (rss own : Nat) : Alike pinnedWorker 0 (.sampleMemory (oneGpuReadings rss own 0))
      (.sampleMemory (oneGpuReadings rss own 9000000000)) := .memory rfl
  have vram (rss own : Nat) : Alike pinnedWorker 0 (.sampleVram none (oneGpuReadings rss own 0))
      (.sampleVram none (oneGpuReadings rss own 9000000000)) := .vram (oneGpuReadings_sameTree _ _ _ _)
  unfold lateTracker
  simp only [List.forall₂_cons, List.forall₂_nil_left_iff, memory, vram, Alike.same, and_self]

end AdaptiveExecutor
