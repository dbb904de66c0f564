import Mathlib.Algebra.Order.BigOperators.Group.List
import AdaptiveExecutor.Scheduling.Planner

/-!
# Committed resources

A running task commits the part of its estimate that the monitor snapshot does not show yet.

* `committedGb`, `totalCommittedGb`, `committedVramPerGpu` : as the source computes them;
* `committedGb_nonneg`, `committedGb_le` : never negative, never more than the estimate;
* `totalCommittedGb_nonneg`, `committedVramPerGpu_nonneg` : so are the sums.
-/

namespace AdaptiveExecutor

/-- Unrealized remainder of `estimateGb` given already-realized `observedGb`. -/
def committedGb (estimateGb observedGb : ℚ) : ℚ :=
  let remainder := estimateGb - observedGb
  if 0 < remainder then remainder else 0

/-- One running task's usage of one GPU dimension; `gpuId` is `none` for an unpinned task. -/
structure ResourceUsage where
  gpuId : Option GpuId
  estimateGb : ℚ
  observedGb : ℚ

def totalCommittedGb (pairs : List (ℚ × ℚ)) : ℚ := (pairs.map fun p => committedGb p.1 p.2).sum

/-- Committed VRAM remainder of `gpuId`. The source leaves a GPU without tasks out of its dict, and its caller reads
`0.0` for it. -/
def committedVramPerGpu (usages : List ResourceUsage) (gpuId : GpuId) : ℚ :=
  ((usages.filter fun u => u.gpuId = some gpuId).map fun u => committedGb u.estimateGb u.observedGb).sum

theorem committedGb_nonneg (estimateGb observedGb : ℚ) : 0 ≤ committedGb estimateGb observedGb := by
  unfold committedGb
  dsimp only
  split_ifs with h
  exacts [h.le, le_rfl]

theorem totalCommittedGb_nonneg (pairs : List (ℚ × ℚ)) : 0 ≤ totalCommittedGb pairs := by
  apply List.sum_nonneg
  intro x hx
  obtain ⟨p, -, rfl⟩ := List.mem_map.mp hx
  exact committedGb_nonneg p.1 p.2

theorem committedVramPerGpu_nonneg (usages : List ResourceUsage) (gpuId : GpuId) :
    0 ≤ committedVramPerGpu usages gpuId := by
  apply List.sum_nonneg
  intro x hx
  obtain ⟨u, -, rfl⟩ := List.mem_map.mp hx
  exact committedGb_nonneg u.estimateGb u.observedGb

theorem committedGb_le {estimateGb observedGb : ℚ} (he : 0 ≤ estimateGb) (ho : 0 ≤ observedGb) :
    committedGb estimateGb observedGb ≤ estimateGb := by
  unfold committedGb
  dsimp only
  split_ifs
  · linarith
  · exact he

end AdaptiveExecutor
