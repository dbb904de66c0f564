import AdaptiveExecutor.Executor.Exclusive

/-!
# Feasible and admissible

`_infeasible_estimate` looks at the totals of the machine, the plan at what is free of them.

* `infeasibleEstimate_some`, `infeasibleEstimate_none` : what the check has found;
* `memoryFree_le`, `gpuFree_le` : what is free is never more than the totals leave above the headroom;
* `infeasible_not_decided` : so no plan decides a task that the check turns down;
* `idle_admits_iff`, `idle_decides_iff` : exactly which of the tasks that it lets through an idle machine starts.
-/

namespace AdaptiveExecutor

namespace ResourceSnapshot

/-- The same machine, with whatever is in use on it. -/
structure SameTotals (snapshot snapshot' : ResourceSnapshot) : Prop where
  memory : snapshot'.memoryTotalGb = snapshot.memoryTotalGb
  gpus : (snapshot'.gpus.map fun g => (g.1, g.2.vramTotalGb)) = snapshot.gpus.map fun g => (g.1, g.2.vramTotalGb)

structure NonnegUse (snapshot : ResourceSnapshot) : Prop where
  memory : 0 ≤ snapshot.memoryUsedGb
  gpus : ∀ g ∈ snapshot.gpus, 0 ≤ g.2.vramUsedGb

structure Idle (snapshot : ResourceSnapshot) : Prop where
  memory : snapshot.memoryUsedGb = 0
  gpus : ∀ g ∈ snapshot.gpus, g.2.vramUsedGb = 0

variable {snapshot snapshot' : ResourceSnapshot}

theorem SameTotals.mem_gpus (h : SameTotals snapshot snapshot') {g : GpuId} {gpu : GPUSnapshot}
    (hmem : (g, gpu) ∈ snapshot'.gpus) : ∃ gpu₀, (g, gpu₀) ∈ snapshot.gpus ∧ gpu₀.vramTotalGb = gpu.vramTotalGb := by
  have hpair : (g, gpu.vramTotalGb) ∈ snapshot.gpus.map fun g => (g.1, g.2.vramTotalGb) := by
    rw [← h.gpus]
    exact List.mem_map_of_mem hmem
  obtain ⟨⟨g₀, gpu₀⟩, hmem₀, heq⟩ := List.mem_map.mp hpair
  obtain ⟨rfl, htotal⟩ := Prod.mk.inj heq
  exact ⟨gpu₀, hmem₀, htotal⟩

theorem mem_gpus {g : GpuId} {gpu : GPUSnapshot} (h : snapshot.gpus.lookup g = some gpu) : (g, gpu) ∈ snapshot.gpus := by
  obtain ⟨before, after, hsplit, -⟩ := List.lookup_eq_some_iff.mp h
  rw [hsplit]
  exact List.mem_append_right before List.mem_cons_self

end ResourceSnapshot

namespace Executor
open ResourceSnapshot (SameTotals NonnegUse Idle mem_gpus)
variable {α : Type} {env : Env} {e : Executor α} {cfg : Config} {estimate : ResourceEstimate}
variable {snapshot : ResourceSnapshot} {retryCount : Nat} {x : WorkId}

/-! ## The check -/

/-- An infeasible estimate is above what the totals leave: the memory, or the VRAM of every GPU. -/
theorem infeasibleEstimate_some {error : InfeasibleTaskError}
    (h : infeasibleEstimate cfg estimate (some snapshot) retryCount = some error) :
    snapshot.memoryTotalGb - cfg.memoryHeadroomGb < estimate.memoryGb ∨ (0 < estimate.vramGb ∧
      ∀ g ∈ snapshot.gpus, g.2.vramTotalGb - cfg.vramHeadroomGb < estimate.vramGb) := by
  unfold infeasibleEstimate at h
  dsimp only at h
  split_ifs at h with hmemory
  · exact .inl hmemory.2
  · split at h
    · cases h
    · rename_i total totals htotals
      split_ifs at h with hvram
      refine .inr ⟨hvram.1, fun g hg => ?_⟩
      have hmax : (snapshot.gpus.map fun g => g.2.vramTotalGb).max? = some (totals.foldl max total) := by
        rw [htotals]
        exact List.max?_cons'
      have hle := (List.max?_eq_some_iff.mp hmax).2 g.2.vramTotalGb (List.mem_map_of_mem hg)
      linarith [hvram.2]

theorem infeasibleEstimate_none (h : infeasibleEstimate cfg estimate (some snapshot) retryCount = none)
    (hknown : 0 < snapshot.memoryTotalGb) : estimate.memoryGb ≤ snapshot.memoryTotalGb - cfg.memoryHeadroomGb := by
  unfold infeasibleEstimate at h
  dsimp only at h
  split_ifs at h with hmemory
  exact not_lt.mp fun hlt => hmemory ⟨hknown, hlt⟩

/-! ## What is free -/

theorem memoryFree_le (hsnapshot : e.snapshot = some snapshot) (huse : NonnegUse snapshot) :
    e.memoryFree ≤ ((snapshot.memoryTotalGb - e.cfg.memoryHeadroomGb : ℚ) : AdaptiveExecutor.Free) := by
  unfold memoryFree
  rw [hsnapshot]
  dsimp only
  rw [WithTop.coe_le_coe]
  have hcommitted := totalCommittedGb_nonneg
    (e.inFlight.map fun id => ((e.works id).estimate.memoryGb, (e.works id).observedMemoryGb))
  linarith [huse.memory]

theorem gpuFree_le (hsnapshot : e.snapshot = some snapshot) (huse : NonnegUse snapshot) {g : GpuId}
    {f : AdaptiveExecutor.Free} (h : e.gpuFree g = some f) : ∃ gpu, (g, gpu) ∈ snapshot.gpus ∧
      f ≤ ((gpu.vramTotalGb - e.cfg.vramHeadroomGb : ℚ) : AdaptiveExecutor.Free) := by
  unfold gpuFree at h
  rw [hsnapshot] at h
  dsimp only at h
  split_ifs at h
  obtain ⟨gpu, hgpu, rfl⟩ := Option.map_eq_some_iff.mp h
  have hmem := mem_gpus hgpu
  refine ⟨gpu, hmem, WithTop.coe_le_coe.mpr ?_⟩
  have hcommitted := committedVramPerGpu_nonneg (e.inFlight.map fun id =>
    ⟨(e.works id).assignedGpuId, (e.works id).estimate.vramGb, (e.works id).observedVramGb⟩) g
  linarith [huse.gpus _ hmem]

/-! ## The plan -/

theorem dispatchPlan_admits {now : ℚ} (hx : x ∈ (e.dispatchPlan now).decisions.map DispatchDecision.pendingId) :
    e.capacity.Admits (e.pendingEntry x) ⟨e.memoryFree, e.gpuFree, e.inFlight.length⟩ := by
  obtain ⟨d, hd, rfl⟩ := List.mem_map.mp hx
  obtain ⟨a, ha, rfl⟩ := List.mem_map.mp hd
  have hadmits := cycle_admits (e.nonnegEstimates now) ha
  obtain ⟨as, bs, h⟩ := Planner.run_spec (Planner.init (e.pending.map e.pendingEntry)
    (e.inFlight.map (e.runningEntry now)) e.capacity)
  have hqueued : a.task ∈ e.pending.map e.pendingEntry :=
    h.sublist.subset (List.mem_map_of_mem (cycle_admitted h ▸ ha))
  obtain ⟨id, -, hid⟩ := List.mem_map.mp hqueued
  rw [← hid] at hadmits
  change e.capacity.Admits (e.pendingEntry a.task.id) _
  rw [← hid]
  exact hadmits

/-- The observations that are refreshed before the plan are of tasks in flight, and no part of a queued task. -/
theorem buildDispatchPlan_frame (env : Env) (e : Executor α) : ∃ works,
    (e.buildDispatchPlan env).2 = { e with works := works : Executor α }.dispatchPlan e.clock ∧
      ∀ x, (works x).estimate = (e.works x).estimate := by
  obtain ⟨works, hframe, hkeeps⟩ := refreshObservations_frame env e e.clock
  refine ⟨works, ?_, ?_⟩
  · change (e.refreshObservations env e.clock).dispatchPlan _ = _
    rw [hframe]
  · apply hkeeps PendingWork.estimate
    intro w
    exact updateObserved_keeps (fun _ _ _ _ => rfl) env e.clock w

/-- **A task failed as infeasible could never have been dispatched**: on the same machine, whatever is in use and in
flight and wherever the task stands in the queue, no plan decides it. -/
theorem infeasible_not_decided {checked : ResourceSnapshot} {error : InfeasibleTaskError}
    (herror : infeasibleEstimate e.cfg estimate (some checked) retryCount = some error)
    (htotals : SameTotals checked snapshot) (huse : NonnegUse snapshot) (hsnapshot : e.snapshot = some snapshot)
    (hestimate : (e.works x).estimate = estimate) :
    x ∉ (e.buildDispatchPlan env).2.decisions.map DispatchDecision.pendingId := by
  obtain ⟨works, hplan, hkeeps⟩ := buildDispatchPlan_frame env e
  rw [hplan]
  intro hx
  have hadmits := dispatchPlan_admits hx
  have hsame : (works x).estimate = estimate := (hkeeps x).trans hestimate
  rcases infeasibleEstimate_some herror with hmemory | ⟨hvram, hgpus⟩
  · have hlt : ((works x).estimate.memoryGb : AdaptiveExecutor.Free) < _ :=
      hadmits.memory.trans_le (memoryFree_le (e := { e with works := works }) hsnapshot huse)
    rw [WithTop.coe_lt_coe, htotals.memory, hsame] at hlt
    exact lt_asymm hlt hmemory
  · have hneeds : 0 < (works x).estimate.vramGb := hsame ▸ hvram
    obtain ⟨g, -, f, hf, hlt⟩ := hadmits.gpu hneeds
    obtain ⟨gpu, hmem, hle⟩ := gpuFree_le (e := { e with works := works }) hsnapshot huse hf
    obtain ⟨gpu₀, hmem₀, htotal⟩ := htotals.mem_gpus hmem
    have hbelow : ((works x).estimate.vramGb : AdaptiveExecutor.Free) < _ := hlt.trans_le hle
    rw [WithTop.coe_lt_coe, ← htotal, hsame] at hbelow
    exact lt_asymm hbelow (hgpus _ hmem₀)

def sixteenGb : ResourceSnapshot := ⟨5, 16, []⟩

def oneQueued (cfg : Config) (estimate : ResourceEstimate) (snapshot : ResourceSnapshot) : Executor Unit where
  cfg := cfg
  works := fun _ => { fnModule := "m", fnName := "f", estimate := estimate }
  pending := ["x"]
  snapshot := some snapshot

/-- A hint of 10 GB is an estimate of 15 GB, and 14 GB are usable. -/
theorem infeasible_not_decided_hint : "x" ∉ ((oneQueued System.oneWorker (({} : LearnedProfile).estimate (some 10) none)
    sixteenGb).buildDispatchPlan System.plainEnv).2.decisions.map DispatchDecision.pendingId :=
  infeasible_not_decided (show infeasibleEstimate System.oneWorker _ (some ⟨0, 16, []⟩) 0 = some ⟨.memory, 15, 14, 0⟩ by
    decide +kernel) (show SameTotals _ sixteenGb from ⟨rfl, rfl⟩) ⟨by decide +kernel, by decide⟩ rfl rfl

/-! ## On an idle machine -/

/-- Nothing holds the canary back, so the only task of the queue is decided when it is admissible. -/
theorem idle_decides_of_admits (hflight : e.inFlight = []) (hpending : e.pending = [x]) (now : ℚ)
    (h : e.capacity.Admits (e.pendingEntry x) ⟨e.memoryFree, e.gpuFree, e.inFlight.length⟩) :
    x ∈ (e.dispatchPlan now).decisions.map DispatchDecision.pendingId := by
  let p := Planner.init (e.pending.map e.pendingEntry) (e.inFlight.map (e.runningEntry now)) e.capacity
  have hqueue : p.queue = [e.pendingEntry x] := congrArg (List.map e.pendingEntry) hpending
  have hoccupants : ∀ o ∈ p.occupants, o.exclusive = false := by
    intro o ho
    change o ∈ e.inFlight.map (e.runningEntry now) at ho
    rw [hflight] at ho
    cases ho
  have hcanary : p.canaryBlocked (e.pendingEntry x) = false := by
    have hheld : p.heldIdentities = [] := by
      change (e.inFlight.map (e.runningEntry now)).filterMap _ = []
      rw [hflight]
      rfl
    unfold Planner.canaryBlocked
    rw [hheld]
    simp [pendingEntry]
  obtain ⟨a, ha, htask⟩ := Planner.front_of_admits hoccupants hqueue hcanary h
  obtain ⟨as, bs, hspec⟩ := Planner.run_spec p
  have hadmitted : a ∈ (cycle (e.pending.map e.pendingEntry) (e.inFlight.map (e.runningEntry now)) e.capacity).admitted := by
    rw [cycle_admitted hspec]
    rw [hspec.front.admitted_eq] at ha
    exact List.mem_append_left bs ha
  have hid : a.decision.pendingId = x := congrArg PendingEntry.id htask
  exact hid ▸ List.mem_map_of_mem (List.mem_map_of_mem hadmitted)

section Idle
variable (hflight : e.inFlight = []) (hsnapshot : e.snapshot = some snapshot) (hidle : Idle snapshot)
include hflight hsnapshot hidle

theorem idle_memoryFree :
    e.memoryFree = ((snapshot.memoryTotalGb - e.cfg.memoryHeadroomGb : ℚ) : AdaptiveExecutor.Free) := by
  unfold memoryFree
  rw [hsnapshot, hflight]
  dsimp only
  rw [hidle.memory]
  simp [totalCommittedGb]

theorem idle_gpuFree {g : GpuId} (hg : g ∈ e.cfg.gpuIds) : e.gpuFree g = (snapshot.gpus.lookup g).map fun gpu =>
    ((gpu.vramTotalGb - e.cfg.vramHeadroomGb : ℚ) : AdaptiveExecutor.Free) := by
  unfold gpuFree
  rw [if_pos hg, hsnapshot, hflight]
  dsimp only
  cases hgpu : snapshot.gpus.lookup g with
  | none => rfl
  | some gpu =>
    have hused : gpu.vramUsedGb = 0 := hidle.gpus (g, gpu) (mem_gpus hgpu)
    simp [committedVramPerGpu, hused]

/-- What an idle machine has room for: less than all of the memory, and less than all of a listed GPU. -/
theorem idle_admits_iff : e.capacity.Admits (e.pendingEntry x) ⟨e.memoryFree, e.gpuFree, e.inFlight.length⟩ ↔
    1 ≤ e.cfg.maxWorkers ∧ (e.works x).estimate.memoryGb < snapshot.memoryTotalGb - e.cfg.memoryHeadroomGb ∧
      (0 < (e.works x).estimate.vramGb → ∃ g ∈ e.cfg.gpuIds, ∃ gpu, snapshot.gpus.lookup g = some gpu ∧
        (e.works x).estimate.vramGb < gpu.vramTotalGb - e.cfg.vramHeadroomGb) := by
  have hslots : (e.inFlight.length : Int) = 0 := by rw [hflight]; rfl
  have hroom (g : GpuId) (hg : g ∈ e.cfg.gpuIds) : HasRoom e.gpuFree (e.works x).estimate.vramGb g ↔
      ∃ gpu, snapshot.gpus.lookup g = some gpu ∧
        (e.works x).estimate.vramGb < gpu.vramTotalGb - e.cfg.vramHeadroomGb := by
    unfold HasRoom
    rw [idle_gpuFree hflight hsnapshot hidle hg]
    simp only [Option.map_eq_some_iff, exists_exists_and_eq_and, WithTop.coe_lt_coe]
  rw [idle_memoryFree hflight hsnapshot hidle, hslots]
  constructor
  · intro h
    refine ⟨h.slots, WithTop.coe_lt_coe.mp h.memory, fun hvram => ?_⟩
    obtain ⟨g, hg, hfree⟩ := h.gpu hvram
    exact ⟨g, hg, (hroom g hg).mp hfree⟩
  · rintro ⟨hmax, hmemory, hvram⟩
    refine ⟨fun _ => le_rfl, hmax, ?_, WithTop.coe_lt_coe.mpr hmemory, fun hneeds => ?_⟩
    · change 0 < e.capacity.effectiveMax (e.pendingEntry x)
      unfold Capacity.effectiveMax
      split_ifs
      · exact hmax
      · exact lt_of_lt_of_le Int.one_pos (le_max_left _ _)
      · exact hmax
    · obtain ⟨g, hg, hfree⟩ := hvram hneeds
      exact ⟨g, hg, (hroom g hg).mpr hfree⟩

end Idle

/-- **What passes the feasibility check runs on an idle machine, but for the boundary and the GPU list**: it is decided
exactly when there may be a worker, its memory is not all that there is, and the GPU with the room for it is listed. -/
theorem idle_decides_iff (hpending : e.pending = [x]) (hflight : e.inFlight = []) (hsnapshot : e.snapshot = some snapshot)
    (hidle : Idle snapshot) (hknown : 0 < snapshot.memoryTotalGb)
    (hfeasible : infeasibleEstimate e.cfg (e.works x).estimate (some snapshot) retryCount = none) :
    (e.buildDispatchPlan env).2.decisions.map DispatchDecision.pendingId = [x] ↔
      1 ≤ e.cfg.maxWorkers ∧ (e.works x).estimate.memoryGb ≠ snapshot.memoryTotalGb - e.cfg.memoryHeadroomGb ∧
        (0 < (e.works x).estimate.vramGb → ∃ g ∈ e.cfg.gpuIds, ∃ gpu, snapshot.gpus.lookup g = some gpu ∧
          (e.works x).estimate.vramGb < gpu.vramTotalGb - e.cfg.vramHeadroomGb) := by
  obtain ⟨works, hplan, hkeeps⟩ := buildDispatchPlan_frame env e
  let e' : Executor α := { e with works := works }
  have hle := infeasibleEstimate_none hfeasible hknown
  have hsub : ((e'.dispatchPlan e.clock).decisions.map DispatchDecision.pendingId).Sublist [x] := by
    rw [← hpending]
    exact dispatchPlan_sublist e' e.clock
  have hadmits := idle_admits_iff (e := e') (x := x) hflight hsnapshot hidle
  change _ ↔ 1 ≤ e.cfg.maxWorkers ∧ (works x).estimate.memoryGb < _ ∧ (0 < (works x).estimate.vramGb → _) at hadmits
  rw [hkeeps x] at hadmits
  rw [hplan, ne_iff_lt_iff_le.mpr hle, ← hadmits]
  constructor
  · intro h
    exact dispatchPlan_admits (h ▸ List.mem_singleton_self x)
  · intro h
    have hmem := idle_decides_of_admits (e := e') hflight hpending e.clock h
    rcases List.sublist_singleton.mp hsub with hnil | hone
    · rw [hnil] at hmem
      cases hmem
    · exact hone

def fourteenGb : ResourceSnapshot := ⟨0, 14, [(0, ⟨0, 8⟩), (1, ⟨0, 24⟩)]⟩

theorem fourteenGb_idle : Idle fourteenGb := ⟨rfl, by decide +kernel⟩

/-- A hint of 4 GB is an estimate of 6 GB. -/
theorem idle_decides_iff_hint :
    let e := oneQueued System.oneWorker (({} : LearnedProfile).estimate (some 4) none) fourteenGb
    (e.buildDispatchPlan System.plainEnv).2.decisions.map DispatchDecision.pendingId = ["x"] :=
  (idle_decides_iff rfl rfl rfl fourteenGb_idle (by decide +kernel) (show infeasibleEstimate System.oneWorker _ _ 0 = none by
    decide +kernel)).mpr
    ⟨by decide, by decide +kernel, fun h => absurd h (by decide +kernel)⟩

/-- A hint of 8 GB is an estimate of the 12 GB that are usable, and nothing is decided. Nor is it for 8 GB of VRAM
when only the GPU of 8 GB is listed. -/
theorem idle_not_decided :
    let boundary := oneQueued System.oneWorker (({} : LearnedProfile).estimate (some 8) none) fourteenGb
    let unlisted := oneQueued { System.oneWorker with gpuIds := [0] } (({} : LearnedProfile).estimate (some 1) (some 8)) fourteenGb
    Idle fourteenGb ∧ 0 < fourteenGb.memoryTotalGb ∧
      (boundary.pending = ["x"] ∧ boundary.inFlight = [] ∧
        infeasibleEstimate boundary.cfg (boundary.works "x").estimate boundary.snapshot 0 = none ∧
        (boundary.buildDispatchPlan System.plainEnv).2.decisions = []) ∧
      unlisted.pending = ["x"] ∧ unlisted.inFlight = [] ∧
        infeasibleEstimate unlisted.cfg (unlisted.works "x").estimate unlisted.snapshot 0 = none ∧
        (unlisted.buildDispatchPlan System.plainEnv).2.decisions = [] :=
  ⟨fourteenGb_idle, by decide +kernel, ⟨rfl, rfl, by decide +kernel, by decide +kernel⟩, rfl, rfl,
    by decide +kernel, by decide +kernel⟩

end Executor

end AdaptiveExecutor
