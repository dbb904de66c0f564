import AdaptiveExecutor.Scheduling.Head

/-!
# The reservation

* `reservation_threshold` : the head fits in the projection from its reservation on and never before, and the longer
  the tasks in its way take, the later it is;
* `front_of_unreachable`, `unreachable_blocks` : behind a head that no release lets in, the plan is the FIFO prefix.
-/

namespace AdaptiveExecutor
open Backfill

/-- The same task, with a remaining time that is longer or unknown. -/
structure RunningEntry.Slips (o o' : RunningEntry) : Prop where
  same : o' = { o with remainingSeconds := o'.remainingSeconds }
  later : ∀ d', o'.remainingSeconds = some d' → ∃ d, o.remainingSeconds = some d ∧ d ≤ d'

theorem RunningEntry.Slips.load {o o' : RunningEntry} (h : o.Slips o') : o.load = o'.load := by
  rw [h.same]
  rfl

theorem RunningEntry.Slips.due {o o' : RunningEntry} (h : o.Slips o') {t : WithTop ℚ} (hdue : Due o'.remainingSeconds t) :
    Due o.remainingSeconds t := by
  obtain ⟨d', hd', hle⟩ := hdue
  obtain ⟨d, hd, hdd'⟩ := h.later d' hd'
  exact ⟨d, hd, (WithTop.coe_le_coe.mpr hdd').trans hle⟩

namespace Planner
variable {p : Planner} {head : PendingEntry} {occupants' : List RunningEntry}

theorem nonnegOccupants_of (h : ∀ o ∈ p.occupants, 0 ≤ o.memoryGb ∧ 0 ≤ o.vramGb) : p.NonnegOccupants :=
  fun o ho => loadOn_nonneg (h o ho).1 (h o ho).2 o.gpuId

theorem stateAt_slips (hp : p.NonnegOccupants) (h : List.Forall₂ RunningEntry.Slips p.occupants occupants')
    (t : WithTop ℚ) : ({ p with occupants := occupants' } : Planner).stateAt t ≤ p.stateAt t := by
  rw [stateAt_eq, stateAt_eq]
  refine IsOrderedVAdd.vadd_le_vadd_right _ _ (released_le_of_later _ _ hp ?_) _
  exact h.imp fun o o' hslips => ⟨hslips.load, hslips.due⟩

theorem nonnegOccupants_slips (hp : p.NonnegOccupants) (h : List.Forall₂ RunningEntry.Slips p.occupants occupants') :
    ({ p with occupants := occupants' } : Planner).NonnegOccupants := by
  have hloads : occupants'.map RunningEntry.load = p.occupants.map RunningEntry.load := by
    refine (List.forall₂_eq_eq_eq.le _ _ ?_).symm
    rw [List.forall₂_map_left_iff, List.forall₂_map_right_iff]
    exact h.imp fun _ _ hslips => hslips.load
  intro o' ho'
  have hload : o'.load ∈ p.occupants.map RunningEntry.load := hloads ▸ List.mem_map_of_mem ho'
  obtain ⟨o, ho, hsame⟩ := List.mem_map.mp hload
  rw [← hsame]
  exact hp o ho

end Planner

open Planner

/-- **The reservation is an exact threshold.** A head that does not fit now fits in the projection to `t` exactly when `t`
is at least its reservation, never when that is infinite. When tasks turn out to take longer, or for an unknown time, it
does not come earlier. -/
theorem reservation_threshold {p : Planner} {head : PendingEntry}
    (hoccupants : ∀ o ∈ p.occupants, 0 ≤ o.memoryGb ∧ 0 ≤ o.vramGb)
    (hnow : p.cap.fits head p.pools.toRoom p.pools.rr = none) :
    (∀ t : WithTop ℚ, (p.cap.fits head (p.stateAt t) p.pools.rr).isSome = true ↔
      p.computeReservation head ≠ ⊤ ∧ p.computeReservation head ≤ t) ∧
    ∀ occupants', List.Forall₂ RunningEntry.Slips p.occupants occupants' →
      p.computeReservation head ≤ ({ p with occupants := occupants' } : Planner).computeReservation head := by
  have hp := nonnegOccupants_of hoccupants
  have hno : ¬ p.cap.Admits head p.pools.toRoom := by
    rw [← Capacity.fits_isSome_iff p.pools.rr, hnow]
    exact Bool.false_ne_true
  refine ⟨fun t => ?_, fun occupants' hslips => ?_⟩
  · rw [Capacity.fits_isSome_iff]
    exact computeReservation_le_iff hp hno t
  · by_cases hinf : ({ p with occupants := occupants' } : Planner).computeReservation head = ⊤
    · rw [hinf]
      exact le_top
    · -- at the later reservation the head fits, and so it does with the tasks that have not slipped
      have hfits := (computeReservation_le_iff (nonnegOccupants_slips hp hslips) hno _).mpr ⟨hinf, le_rfl⟩
      have hroom := p.cap.admits_mono head (stateAt_slips hp hslips _) hfits
      exact ((computeReservation_le_iff hp hno _).mp hroom).2

/-- A task of 8 GB waits for 6 GB, first for ten seconds and then for ever. -/
theorem reservation_threshold_overrun :
    let p := init [] [cpuRunning "r" 6 (some 10)] (cpuHost 4 4 1)
    (∀ t : WithTop ℚ, (p.cap.fits (cpuTask "head" 8 none) (p.stateAt t) p.pools.rr).isSome = true ↔
      p.computeReservation (cpuTask "head" 8 none) ≠ ⊤ ∧ p.computeReservation (cpuTask "head" 8 none) ≤ t) ∧
    ∀ occupants', List.Forall₂ RunningEntry.Slips p.occupants occupants' →
      p.computeReservation (cpuTask "head" 8 none) ≤
        ({ p with occupants := occupants' } : Planner).computeReservation (cpuTask "head" 8 none) :=
  reservation_threshold (by decide) (by decide +kernel)

/-! ## A reservation that is never reached -/

namespace Planner
variable {p : Planner} {as bs : List Admission} {head : PendingEntry} {rest : List PendingEntry}

/-- A head that fits at no time does not fit when all releases have come. -/
theorem not_admits_top (hp : p.NonnegOccupants) (hnever : ∀ t : ℚ, ¬ p.cap.Admits head (p.stateAt t)) :
    ¬ p.cap.Admits head (p.stateAt ⊤) := by
  intro hfits
  rw [stateAt_eq] at hfits
  rcases released_eq_at_release RunningEntry.load RunningEntry.remainingSeconds p.occupants ⊤ with h | ⟨d, -, -, h⟩
  · -- nothing is released: then it fits now, and all the more at any time
    rw [project, h, zero_vadd] at hfits
    exact hnever 0 (p.cap.admits_mono head (pools_le_stateAt hp _) hfits)
  · refine hnever d ?_
    rw [stateAt_eq, project, h]
    exact hfits

theorem front_of_unreachable (hnn : p.NonnegEstimates) (h : RunSpec p as bs) (hq : p.front.1.queue = head :: rest)
    (hc : p.front.1.canaryBlocked head = false) (hnever : ∀ t : ℚ, ¬ p.cap.Admits head (p.front.1.stateAt t)) :
    bs = [] := by
  have hp := h.front_nonneg hnn
  rw [← h.front.cap_eq] at hnever
  have htop := not_admits_top hp hnever
  refine h.backs_eq_nil hnn hq ?_ (by rwa [← h.front.cap_eq])
  rw [reservation, if_neg (by rw [hc]; exact Bool.false_ne_true)]
  by_contra hfin
  have hnow : ¬ p.front.1.cap.Admits head p.front.1.pools.toRoom := fun hnow =>
    hnever 0 (Capacity.admits_mono _ head (pools_le_stateAt hp _) hnow)
  exact htop ((computeReservation_le_iff hp hnow ⊤).mpr ⟨hfin, le_top⟩)

end Planner

/-- **An unreachable reservation blocks all backfill.** If nothing that the tasks running and front-admitted release lets
the first task in that front admission leaves, then the plan is that of front admission: the tasks before it, in order. -/
theorem unreachable_blocks {pending : List PendingEntry} {running : List RunningEntry} {cap : Capacity}
    (hpending : ∀ task ∈ pending, 0 ≤ task.memoryGb ∧ 0 ≤ task.vramGb)
    (hrunning : ∀ o ∈ running, 0 ≤ o.memoryGb ∧ 0 ≤ o.vramGb) {head : PendingEntry} {rest : List PendingEntry}
    (hq : (init pending running cap).front.1.queue = head :: rest)
    (hc : (init pending running cap).front.1.canaryBlocked head = false)
    (hnever : ∀ t : ℚ, cap.fits head ((init pending running cap).front.1.stateAt t)
      (init pending running cap).front.1.pools.rr = none) :
    planDispatch pending running cap = (init pending running cap).front.1.plan ∧
      ∃ done, pending = done ++ head :: rest ∧
        (planDispatch pending running cap).decisions.map DispatchDecision.pendingId = done.map PendingEntry.id := by
  have hnn : (init pending running cap).NonnegEstimates := ⟨hpending, hrunning⟩
  obtain ⟨as, bs, h⟩ := run_spec (init pending running cap)
  have hbs : bs = [] := by
    refine front_of_unreachable hnn h hq hc fun t hfits => ?_
    rw [← Capacity.fits_isSome_iff (init pending running cap).front.1.pools.rr] at hfits
    exact absurd (hnever t) (Option.isSome_iff_ne_none.mp hfits)
  have hplan : planDispatch pending running cap = (init pending running cap).front.1.plan := by
    have hrun := h.back
    rw [hbs] at hrun
    show (init pending running cap).run.plan = _
    generalize (init pending running cap).run = final at hrun
    cases hrun
    rfl
  refine ⟨hplan, as.map Admission.task, ?_, ?_⟩
  · rw [← hq]
    exact h.queue
  · rw [hplan]
    show ((init pending running cap).front.1.admitted.map Admission.decision).map DispatchDecision.pendingId = _
    rw [h.front.admitted_eq, List.map_map, List.map_map]
    rfl

/-- A head of 40 GB is never let in on a host of 10 GB, and keeps a task of 1 GB waiting. -/
theorem unreachable_blocks_large :
    let pending := [cpuTask "first" 1 none, cpuTask "head" 40 none, cpuTask "small" 1 (some 1)]
    planDispatch pending [cpuRunning "r" 6 (some 10)] (cpuHost 4 4 1) =
        (init pending [cpuRunning "r" 6 (some 10)] (cpuHost 4 4 1)).front.1.plan ∧
      ∃ done, pending = done ++ [cpuTask "head" 40 none, cpuTask "small" 1 (some 1)] ∧
        (planDispatch pending [cpuRunning "r" 6 (some 10)] (cpuHost 4 4 1)).decisions.map DispatchDecision.pendingId =
          done.map PendingEntry.id := by
  refine unreachable_blocks (by decide) (by decide) (by decide +kernel) (by decide +kernel) fun t => ?_
  -- it does not fit when everything has been released either
  have hp : (init [cpuTask "first" 1 none, cpuTask "head" 40 none, cpuTask "small" 1 (some 1)]
      [cpuRunning "r" 6 (some 10)] (cpuHost 4 4 1)).front.1.NonnegOccupants :=
    nonnegOccupants_of (by decide +kernel)
  rw [← Option.not_isSome_iff_eq_none, Capacity.fits_isSome_iff]
  intro hfits
  have htop := (cpuHost 4 4 1).admits_mono _ (stateAt_mono hp le_top) hfits
  rw [← Capacity.fits_isSome_iff 0] at htop
  revert htop
  decide +kernel

end AdaptiveExecutor
