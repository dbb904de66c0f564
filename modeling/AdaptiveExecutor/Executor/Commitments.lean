import Mathlib.Algebra.Order.BigOperators.Group.List
import AdaptiveExecutor.Executor.Exclusive

/-!
# Committed estimates

What the tasks in flight have been promised, as long as the monitor snapshot stays what it is and no usage is observed.

* `memoryInFlight`, `vramInFlight` : the estimates in flight;
* `Covered` : they fit into what the snapshot leaves above the headroom;
* `maybeDispatch_covered` : a dispatch cycle keeps it, since the plan is made against what is committed;
* `committed_within` : it holds in every run.
-/

namespace AdaptiveExecutor
open Relation (ReflTransGen)

namespace Executor
variable {α : Type} {env : Env} {e e' : Executor α} {snapshot : ResourceSnapshot}

def memoryInFlight (e : Executor α) : ℚ := (e.inFlight.map fun x => (e.works x).estimate.memoryGb).sum

/-- The VRAM estimates of the tasks in flight on `g`. -/
def vramInFlight (e : Executor α) (g : GpuId) : ℚ :=
  ((e.inFlight.filter fun x => (e.works x).assignedGpuId = some g).map fun x => (e.works x).estimate.vramGb).sum

/-- The estimates in flight fit into what the snapshot leaves above the headroom. -/
structure Covered (e : Executor α) (snapshot : ResourceSnapshot) : Prop where
  memory : e.inFlight ≠ [] →
    e.memoryInFlight ≤ snapshot.memoryTotalGb - snapshot.memoryUsedGb - e.cfg.memoryHeadroomGb
  vram : ∀ x ∈ e.inFlight, ∀ g, (e.works x).assignedGpuId = some g → ∃ gpu, snapshot.gpus.lookup g = some gpu ∧
    e.vramInFlight g ≤ gpu.vramTotalGb - gpu.vramUsedGb - e.cfg.vramHeadroomGb
  slots : e.inFlight ≠ [] → (e.inFlight.length : Int) ≤ e.cfg.maxWorkers

/-- No usage of a task in flight has been observed. -/
def Uncredited (e : Executor α) : Prop :=
  ∀ x ∈ e.inFlight, (e.works x).observedMemoryGb = 0 ∧ (e.works x).observedVramGb = 0

/-! ## Tasks leave flight -/

/-- Those that stay in flight have the estimates and the GPUs that they had. -/
structure SameEstimates (e e' : Executor α) : Prop where
  cfg : e'.cfg = e.cfg
  flight : e'.inFlight.Sublist e.inFlight
  estimate : ∀ x ∈ e'.inFlight, (e'.works x).estimate = (e.works x).estimate
  gpu : ∀ x ∈ e'.inFlight, (e'.works x).assignedGpuId = (e.works x).assignedGpuId

theorem sum_le_of_sublist {β : Type} {f : β → ℚ} (hf : ∀ x, 0 ≤ f x) {xs ys : List β} (h : xs.Sublist ys) :
    (xs.map f).sum ≤ (ys.map f).sum := by
  apply (h.map f).sum_le_sum
  intro y hy
  obtain ⟨x, -, rfl⟩ := List.mem_map.mp hy
  exact hf x

theorem SameEstimates.memory_le (h : SameEstimates e e') : e'.memoryInFlight ≤ e.memoryInFlight := by
  have hsame : e'.memoryInFlight = (e'.inFlight.map fun x => (e.works x).estimate.memoryGb).sum := by
    unfold memoryInFlight
    rw [List.map_congr_left fun x hx => congrArg ResourceEstimate.memoryGb (h.estimate x hx)]
  rw [hsame]
  exact sum_le_of_sublist (fun x => (e.works x).estimate.memory_nonneg) h.flight

theorem SameEstimates.vram_le (h : SameEstimates e e') (g : GpuId) : e'.vramInFlight g ≤ e.vramInFlight g := by
  have hfilter : (e'.inFlight.filter fun x => (e'.works x).assignedGpuId = some g) =
      e'.inFlight.filter fun x => (e.works x).assignedGpuId = some g := by
    apply List.filter_congr
    intro x hx
    rw [h.gpu x hx]
  have hsame : e'.vramInFlight g =
      ((e'.inFlight.filter fun x => (e.works x).assignedGpuId = some g).map fun x => (e.works x).estimate.vramGb).sum := by
    unfold vramInFlight
    rw [hfilter]
    rw [List.map_congr_left fun x hx =>
      congrArg ResourceEstimate.vramGb (h.estimate x (List.mem_of_mem_filter hx))]
  rw [hsame]
  exact sum_le_of_sublist (fun x => (e.works x).estimate.vram_nonneg) (h.flight.filter _)

theorem Covered.of_same (hc : Covered e snapshot) (h : SameEstimates e e') : Covered e' snapshot := by
  have hne (hne : e'.inFlight ≠ []) : e.inFlight ≠ [] := by
    intro hnil
    exact hne (List.sublist_nil.mp (hnil ▸ h.flight))
  refine ⟨fun hflight => ?_, fun x hx g hg => ?_, fun hflight => ?_⟩
  · rw [h.cfg]
    exact h.memory_le.trans (hc.memory (hne hflight))
  · obtain ⟨gpu, hgpu, hle⟩ := hc.vram x (h.flight.subset hx) g (h.gpu x hx ▸ hg)
    refine ⟨gpu, hgpu, ?_⟩
    rw [h.cfg]
    exact (h.vram_le g).trans hle
  · rw [h.cfg]
    have hlen := h.flight.length_le
    have hmax := hc.slots (hne hflight)
    omega

/-! ## A dispatch cycle -/

theorem committedGb_unobserved {estimateGb : ℚ} (h : 0 ≤ estimateGb) : committedGb estimateGb 0 = estimateGb := by
  unfold committedGb
  dsimp only
  split_ifs with hpos
  · exact sub_zero _
  · rw [sub_zero] at hpos
    linarith

theorem Uncredited.totalCommitted (h : Uncredited e) : totalCommittedGb (e.inFlight.map fun id =>
    ((e.works id).estimate.memoryGb, (e.works id).observedMemoryGb)) = e.memoryInFlight := by
  unfold totalCommittedGb memoryInFlight
  rw [List.map_map]
  congr 1
  apply List.map_congr_left
  intro x hx
  change committedGb (e.works x).estimate.memoryGb (e.works x).observedMemoryGb = _
  rw [(h x hx).1, committedGb_unobserved (e.works x).estimate.memory_nonneg]

theorem Uncredited.committedVram (h : Uncredited e) (g : GpuId) : committedVramPerGpu (e.inFlight.map fun id =>
    ⟨(e.works id).assignedGpuId, (e.works id).estimate.vramGb, (e.works id).observedVramGb⟩) g = e.vramInFlight g := by
  unfold committedVramPerGpu vramInFlight
  rw [List.filter_map, List.map_map]
  congr 1
  apply List.map_congr_left
  intro x hx
  change committedGb (e.works x).estimate.vramGb (e.works x).observedVramGb = _
  rw [(h x (List.mem_of_mem_filter hx)).2, committedGb_unobserved (e.works x).estimate.vram_nonneg]

theorem Uncredited.memoryFree (h : Uncredited e) (hsnapshot : e.snapshot = some snapshot) : e.memoryFree =
    ((snapshot.memoryTotalGb - snapshot.memoryUsedGb - e.cfg.memoryHeadroomGb - e.memoryInFlight : ℚ) :
      AdaptiveExecutor.Free) := by
  unfold Executor.memoryFree
  rw [hsnapshot, h.totalCommitted]

theorem Uncredited.gpuFree (h : Uncredited e) (hsnapshot : e.snapshot = some snapshot) {g : GpuId}
    {f : AdaptiveExecutor.Free} (hfree : e.gpuFree g = some f) : ∃ gpu, snapshot.gpus.lookup g = some gpu ∧
      f = ((gpu.vramTotalGb - gpu.vramUsedGb - e.cfg.vramHeadroomGb - e.vramInFlight g : ℚ) : AdaptiveExecutor.Free) := by
  unfold Executor.gpuFree at hfree
  split_ifs at hfree
  rw [hsnapshot] at hfree
  obtain ⟨gpu, hgpu, rfl⟩ := Option.map_eq_some_iff.mp hfree
  refine ⟨gpu, hgpu, ?_⟩
  rw [h.committedVram]

section Append
variable {xs : List WorkId} (hflight : e'.inFlight = e.inFlight ++ xs)
  (hsame : ∀ x ∈ e.inFlight, (e'.works x).estimate = (e.works x).estimate ∧
    (e'.works x).assignedGpuId = (e.works x).assignedGpuId)
include hflight hsame

theorem memoryInFlight_append :
    e'.memoryInFlight = e.memoryInFlight + (xs.map fun x => (e'.works x).estimate.memoryGb).sum := by
  have hold : (e.inFlight.map fun x => (e'.works x).estimate.memoryGb).sum = e.memoryInFlight := by
    rw [memoryInFlight, List.map_congr_left fun x hx => congrArg ResourceEstimate.memoryGb (hsame x hx).1]
  rw [memoryInFlight, hflight, List.map_append, List.sum_append, hold]

theorem vramInFlight_append (g : GpuId) : e'.vramInFlight g = e.vramInFlight g +
    ((xs.filter fun x => (e'.works x).assignedGpuId = some g).map fun x => (e'.works x).estimate.vramGb).sum := by
  have hgpu : (e.inFlight.filter fun x => (e'.works x).assignedGpuId = some g) =
      e.inFlight.filter fun x => (e.works x).assignedGpuId = some g := by
    apply List.filter_congr
    intro x hx
    rw [(hsame x hx).2]
  have hold : ((e.inFlight.filter fun x => (e'.works x).assignedGpuId = some g).map fun x =>
      (e'.works x).estimate.vramGb).sum = e.vramInFlight g := by
    rw [hgpu, vramInFlight, List.map_congr_left fun x hx =>
      congrArg ResourceEstimate.vramGb (hsame x (List.mem_of_mem_filter hx)).1]
  rw [vramInFlight, hflight, List.filter_append, List.map_append, List.sum_append, hold]

end Append

section Cycle
variable {hs : List (DispatchDecision × Fate)} (hsub : (hs.map Prod.fst).Sublist (e.decisions env))
  (hshipped : ∀ d ∈ hs, ∀ w, d.2 = .shipped w →
    Dispatched d.1.gpuId w ((e.ready env).works d.1.pendingId) (e'.works d.1.pendingId))

theorem ready_estimate (x : WorkId) : ((e.ready env).works x).estimate = ((e.planned env).works x).estimate := by
  obtain ⟨works, next, hready, hworks⟩ := ready_frame env e
  rw [hready]
  change (works x).estimate = _
  rw [hworks]
  split_ifs <;> rfl

include hshipped in
theorem shipped_estimate {x : WorkId} (hx : x ∈ fated Fate.ships hs) :
    (e'.works x).estimate = ((e.planned env).works x).estimate := by
  obtain ⟨d, hd, rfl, w, hw⟩ := of_fated_ships hx
  rw [(hshipped d hd w hw).estimate, ready_estimate]

theorem admitted_ids (env : Env) (e : Executor α) : (e.planner env).admitted.map (fun a => a.task.id) = e.decided env := by
  rw [← decisions_ids, decisions_eq, List.map_map]
  rfl

theorem admitted_memory (env : Env) (e : Executor α) :
    (((e.planner env).admitted.map Admission.task).map PendingEntry.memoryGb) =
      (e.decided env).map fun x => ((e.planned env).works x).estimate.memoryGb := by
  rw [← admitted_ids, List.map_map, List.map_map]
  apply List.map_congr_left
  intro a ha
  change a.task.memoryGb = ((e.planned env).works a.task.id).estimate.memoryGb
  rw [(planner_admitted ha).1]
  rfl

include hsub hshipped in
theorem shipped_memory_le : ((fated Fate.ships hs).map fun x => (e'.works x).estimate.memoryGb).sum ≤
    (((e.planner env).admitted.map Admission.task).map PendingEntry.memoryGb).sum := by
  rw [admitted_memory, List.map_congr_left fun x hx => congrArg ResourceEstimate.memoryGb (shipped_estimate hshipped hx)]
  apply sum_le_of_sublist
  · intro x
    exact ((e.planned env).works x).estimate.memory_nonneg
  · rw [← decisions_ids]
    exact (fated_sublist _ hs).trans (hsub.map _)

include hsub hshipped in
theorem shipped_vram_le (g : GpuId) :
    (((fated Fate.ships hs).filter fun x => (e'.works x).assignedGpuId = some g).map fun x =>
        (e'.works x).estimate.vramGb).sum ≤
      ((((e.planner env).admitted.filter fun a => a.gpuId = some g).map Admission.task).map PendingEntry.vramGb).sum := by
  have hadmitted : (((e.planner env).admitted.filter fun a => a.gpuId = some g).map Admission.task).map PendingEntry.vramGb =
      ((e.decisions env).filter fun d => d.gpuId = some g).map fun d =>
        ((e.planned env).works d.pendingId).estimate.vramGb := by
    rw [decisions_eq, List.filter_map, List.map_map, List.map_map]
    apply List.map_congr_left
    intro a ha
    change a.task.vramGb = ((e.planned env).works a.task.id).estimate.vramGb
    rw [(planner_admitted (List.mem_of_mem_filter ha)).1]
    rfl
  have hgpu : ((fated Fate.ships hs).filter fun x => (e'.works x).assignedGpuId = some g) =
      ((hs.filter fun d => d.2.ships).filter fun d => d.1.gpuId = some g).map fun d => d.1.pendingId := by
    unfold fated
    rw [List.filter_map]
    congr 1
    apply List.filter_congr
    intro d hd
    obtain ⟨hd, w, hw⟩ := fated_ships hd
    change decide ((e'.works d.1.pendingId).assignedGpuId = some g) = _
    rw [(hshipped d hd w hw).assignedGpuId]
  have hestimate : ((fated Fate.ships hs).filter fun x => (e'.works x).assignedGpuId = some g).map (fun x =>
      (e'.works x).estimate.vramGb) = (((hs.filter fun d => d.2.ships).map Prod.fst).filter fun d => d.gpuId = some g).map
        fun d => ((e.planned env).works d.pendingId).estimate.vramGb := by
    rw [List.map_congr_left fun x hx =>
      congrArg ResourceEstimate.vramGb (shipped_estimate hshipped (List.mem_of_mem_filter hx)), hgpu, List.filter_map,
      List.map_map, List.map_map]
    rfl
  rw [hadmitted, hestimate]
  apply sum_le_of_sublist
  · intro d
    exact ((e.planned env).works d.pendingId).estimate.vram_nonneg
  · exact ((List.filter_sublist.map _).trans hsub).filter _

include hshipped in
theorem shipped_elsewhere {g : GpuId} (hnone : ¬ ∃ d ∈ hs, (∃ w, d.2 = .shipped w) ∧ d.1.gpuId = some g) :
    ((fated Fate.ships hs).filter fun x => (e'.works x).assignedGpuId = some g) = [] := by
  rw [List.filter_eq_nil_iff]
  intro x hx
  obtain ⟨d, hd, rfl, w, hw⟩ := of_fated_ships hx
  rw [(hshipped d hd w hw).assignedGpuId, decide_eq_true_eq]
  exact fun hdg => hnone ⟨d, hd, ⟨w, hw⟩, hdg⟩

end Cycle

theorem planner_within (env : Env) (e : Executor α) (h : (e.planner env).admitted ≠ []) :
    (((((e.planner env).admitted.map Admission.task).map PendingEntry.memoryGb).sum : ℚ) : AdaptiveExecutor.Free) <
        (e.planned env).memoryFree ∧
      ((e.planned env).inFlight.length : Int) + (e.planner env).admitted.length ≤ (e.planned env).cfg.maxWorkers :=
  cycle_within h

theorem planner_within_gpu {a : Admission} (ha : a ∈ (e.planner env).admitted) {g : GpuId} (hg : a.gpuId = some g) :
    ∃ f, (e.planned env).gpuFree g = some f ∧
      ((((((e.planner env).admitted.filter fun a => a.gpuId = some g).map Admission.task).map
        PendingEntry.vramGb).sum : ℚ) : AdaptiveExecutor.Free) < f :=
  cycle_within_gpu ha hg

/-- **A dispatch cycle keeps the estimates covered**: what it admits fits beside what is committed, and without observed
usage all estimates in flight are. -/
theorem maybeDispatch_covered (h : e.maybeDispatch env = .ok e') (hnodup : e.pending.Nodup)
    (hqueued : ∀ x ∈ e.pending, x ∉ e.inFlight) (hsnapshot : e.snapshot = some snapshot) (hun : Uncredited e')
    (hc : Covered e snapshot) : Covered e' snapshot := by
  obtain ⟨hs, hsub, hcfg, -, -, hflight, hold, hrefreshed, hshipped⟩ := maybeDispatch_flight h hnodup hqueued
  have hsame : ∀ x ∈ e.inFlight, (e'.works x).estimate = (e.works x).estimate ∧
      (e'.works x).assignedGpuId = (e.works x).assignedGpuId := fun x hx =>
    ⟨hold (·.estimate) (updateObserved_keeps (fun _ _ _ _ => rfl) env e.clock) x hx,
      hold (·.assignedGpuId) (updateObserved_keeps (fun _ _ _ _ => rfl) env e.clock) x hx⟩
  by_cases hnone : fated Fate.ships hs = []
  · rw [hnone, List.append_nil] at hflight
    refine hc.of_same ⟨hcfg, ?_, fun x hx => ?_, fun x hx => ?_⟩
    · rw [hflight]
    · exact (hsame x (hflight ▸ hx)).1
    · exact (hsame x (hflight ▸ hx)).2
  -- what is in flight was committed in full when the plan was made
  have hworks : ∀ x ∈ e.inFlight, e'.works x = (e.planned env).works x := hrefreshed fun hnil => hnone (by rw [hnil]; rfl)
  obtain ⟨works, profiles, futures, pending, hplanned, -⟩ := planned_frame env e
  have hcfg' : (e.planned env).cfg = e.cfg := by rw [hplanned]
  have hflight' : (e.planned env).inFlight = e.inFlight ++ [] := by rw [hplanned, List.append_nil]
  have hsnapshot' : (e.planned env).snapshot = some snapshot := by rw [hplanned]; exact hsnapshot
  have hunplanned : Uncredited (e.planned env) := fun x hx => by
    rw [hflight', List.append_nil] at hx
    rw [← hworks x hx]
    exact hun x (hflight ▸ List.mem_append_left _ hx)
  have hplannedSame : ∀ x ∈ e.inFlight, ((e.planned env).works x).estimate = (e.works x).estimate ∧
      ((e.planned env).works x).assignedGpuId = (e.works x).assignedGpuId := fun x hx => hworks x hx ▸ hsame x hx
  have hadmitted : (e.planner env).admitted ≠ [] := fun hnil => by
    rw [decisions_eq, hnil] at hsub
    exact hnone (by rw [List.map_eq_nil_iff.mp (List.sublist_nil.mp hsub)]; rfl)
  refine ⟨fun _ => ?_, fun x hx g hg => ?_, fun _ => ?_⟩
  · have hfree := (planner_within env e hadmitted).1
    have hship := shipped_memory_le hsub hshipped
    rw [hunplanned.memoryFree hsnapshot', WithTop.coe_lt_coe, hcfg', memoryInFlight_append hflight' hplannedSame,
      List.map_nil, List.sum_nil] at hfree
    rw [memoryInFlight_append hflight hsame, hcfg]
    linarith
  · have hsplit := vramInFlight_append hflight hsame g
    by_cases hship : ∃ d ∈ hs, (∃ w, d.2 = .shipped w) ∧ d.1.gpuId = some g
    · obtain ⟨d, hd, -, hdg⟩ := hship
      have hmem := hsub.subset (List.mem_map_of_mem hd)
      rw [decisions_eq] at hmem
      obtain ⟨a, ha, hda⟩ := List.mem_map.mp hmem
      obtain ⟨f, hfree, hlt⟩ := planner_within_gpu ha (g := g) (by rw [← hdg, ← hda]; rfl)
      obtain ⟨gpu, hgpu, rfl⟩ := hunplanned.gpuFree hsnapshot' hfree
      have hshipped := shipped_vram_le hsub hshipped g
      rw [WithTop.coe_lt_coe, hcfg', vramInFlight_append hflight' hplannedSame, List.filter_nil, List.map_nil,
        List.sum_nil] at hlt
      refine ⟨gpu, hgpu, ?_⟩
      rw [hsplit, hcfg]
      linarith
    · have hempty := shipped_elsewhere hshipped hship
      rw [hempty, List.map_nil, List.sum_nil, add_zero] at hsplit
      rw [hflight, List.mem_append] at hx
      rcases hx with hx | hx
      · rw [hsplit, hcfg]
        exact hc.vram x hx g ((hsame x hx).2 ▸ hg)
      · have hx : x ∈ (fated Fate.ships hs).filter fun x => (e'.works x).assignedGpuId = some g :=
          List.mem_filter.mpr ⟨hx, decide_eq_true hg⟩
        rw [hempty] at hx
        cases hx
  · have hmax := (planner_within env e hadmitted).2
    rw [hflight', List.append_nil, hcfg'] at hmax
    have hlen : (fated Fate.ships hs).length ≤ (e.planner env).admitted.length := by
      have hle := ((fated_sublist Fate.ships hs).trans (hsub.map _)).length_le
      rwa [decisions_eq, List.length_map, List.length_map] at hle
    rw [hflight, hcfg, List.length_append]
    push_cast
    omega

instance (e : Executor α) : Decidable e.Uncredited :=
  inferInstanceAs (Decidable (∀ x ∈ e.inFlight, (e.works x).observedMemoryGb = 0 ∧ (e.works x).observedVramGb = 0))

end Executor

/-! ## Runs -/

namespace System
open Executor (Covered Uncredited)
variable {α : Type} {cfg : Config} {profiles : ProfileStore} {snapshot : ResourceSnapshot} {s s' : System α} {e : Event α}

def initWith (cfg : Config) (profiles : ProfileStore) (snapshot : ResourceSnapshot) : System α :=
  { init cfg profiles with executor := { (init cfg profiles : System α).executor with snapshot := some snapshot } }

/-- After the event the monitor shows the snapshot, and no usage has been observed. -/
def Fixed (snapshot : ResourceSnapshot) (s : System α) (e : Event α) : Prop :=
  ∀ s' ∈ s.step e, s'.executor.snapshot = some snapshot ∧ s'.executor.Uncredited

instance (snapshot : ResourceSnapshot) (s : System α) (e : Event α) : Decidable (s.Fixed snapshot e) :=
  inferInstanceAs (Decidable (∀ s' ∈ s.step e, s'.executor.snapshot = some snapshot ∧ s'.executor.Uncredited))

theorem run_fixed (h : ReflTransGen (NextWhen (Fixed snapshot)) (initWith cfg profiles snapshot) s) :
    Reachable s ∧ s.executor.snapshot = some snapshot := by
  have hpoll : Next (init cfg profiles : System α) (initWith cfg profiles snapshot) := ⟨.poll snapshot, rfl⟩
  refine ⟨⟨cfg, profiles, .head hpoll (run_of_when h)⟩, ?_⟩
  cases h with
  | refl => rfl
  | tail _ h =>
    obtain ⟨e, hfixed, h⟩ := h
    exact (hfixed s h).1

/-- **Committed estimates stay within the usable capacity**: in every run with a fixed snapshot and without observed
usage, the memory estimates in flight, and the VRAM estimates in flight on every GPU that has been given a task, fit
into what the snapshot leaves above the headroom, and no more tasks are in flight than there may be workers. -/
theorem committed_within (h : ReflTransGen (NextWhen (Fixed snapshot)) (initWith cfg profiles snapshot) s) :
    s.executor.Covered snapshot := by
  induction h with
  | refl => exact ⟨fun h => absurd rfl h, fun _ hx => (by cases hx), fun h => absurd rfl h⟩
  | @tail s s' hrun h ih =>
    obtain ⟨e, hfixed, h⟩ := h
    obtain ⟨hreach, hsnapshot⟩ := run_fixed hrun
    have hs := hreach.sound.1
    rcases (step_stepped h).lands hs with ⟨env, hok⟩ | ⟨hcfg, hflight, hworks⟩
    · exact Executor.maybeDispatch_covered hok hs.pending hs.queued_not_flight hsnapshot (hfixed s' h).2 ih
    · refine ih.of_same ⟨hcfg, hflight, fun x hx => ?_, fun x hx => ?_⟩
      · rw [hworks x hx nofun]
      · rw [hworks x hx nofun]

/-- 16 GB, of which one is in use, and a GPU of 8 GB with half a GB free. -/
def busyGpu : ResourceSnapshot := ⟨1, 16, [(0, ⟨15 / 2, 8⟩)]⟩

theorem committed_within_shipped : ∃ s : System Unit, s.executor.inFlight = ["x"] ∧ s.executor.memoryInFlight = 3 / 2 ∧
    s.executor.Covered plainReading := by
  obtain ⟨s, hs⟩ := Option.isSome_iff_exists.mp (show ((initWith oneWorker {} plainReading : System Unit).playWhen
    (Fixed plainReading) shipOne).isSome = true by decide +kernel)
  have hfacts : ((initWith oneWorker {} plainReading : System Unit).playWhen (Fixed plainReading) shipOne).map (fun s =>
      (s.executor.inFlight, s.executor.memoryInFlight)) = some (["x"], 3 / 2) := by decide +kernel
  rw [hs] at hfacts
  obtain ⟨hflight, hmemory⟩ := Prod.mk.inj (Option.some.inj hfacts)
  exact ⟨s, hflight, hmemory, committed_within (playWhen_run hs)⟩

/-- A task without VRAM is in flight; the GPU that nobody uses has less free than the headroom. -/
theorem committed_idle_gpu : ∃ s : System Unit,
    ReflTransGen (NextWhen (Fixed busyGpu)) (initWith { oneWorker with gpuIds := [0] } {} busyGpu) s ∧
      s.executor.inFlight ≠ [] ∧ ∃ gpu, busyGpu.gpus.lookup 0 = some gpu ∧
        ¬ s.executor.vramInFlight 0 ≤ gpu.vramTotalGb - gpu.vramUsedGb - s.executor.cfg.vramHeadroomGb := by
  obtain ⟨s, hs⟩ := Option.isSome_iff_exists.mp (show ((initWith { oneWorker with gpuIds := [0] } {} busyGpu :
    System Unit).playWhen (Fixed busyGpu) shipOne).isSome = true by decide +kernel)
  have hfacts : ((initWith { oneWorker with gpuIds := [0] } {} busyGpu : System Unit).playWhen (Fixed busyGpu)
      shipOne).map (fun s => (s.executor.inFlight, s.executor.vramInFlight 0, s.executor.cfg.vramHeadroomGb)) =
        some (["x"], 0, 1) := by decide +kernel
  rw [hs] at hfacts
  obtain ⟨hflight, hvram, hheadroom⟩ : s.executor.inFlight = ["x"] ∧ s.executor.vramInFlight 0 = 0 ∧
      s.executor.cfg.vramHeadroomGb = 1 := by simpa using hfacts
  refine ⟨s, playWhen_run hs, ?_, ⟨15 / 2, 8⟩, rfl, ?_⟩
  · rw [hflight]
    exact List.cons_ne_nil _ _
  · rw [hvram, hheadroom]
    norm_num

end System

end AdaptiveExecutor
