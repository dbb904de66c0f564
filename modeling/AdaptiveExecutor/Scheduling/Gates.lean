import AdaptiveExecutor.Scheduling.Plan

/-!
# Two gates

`_fits` lets front admission through, `_fits_nongpu` and `_gpu_options` let the scan through, with a loop round the ring
of their own.

* `pickGpuLoop_eq` : the first loop finds the first of the GPUs that the second lists;
* `fits_eq_gates`, `gates_agree` : the two gates agree, in their answers too;
* `mem_gpuOptions_iff` : the GPUs that the second loop lists;
* `Places`, `offer_isSome_iff` : what a turn of the scan takes to admit its candidate.
-/

namespace AdaptiveExecutor

namespace Planner
variable {p : Planner} {task : PendingEntry} {vramGb : ℚ}

/-! ## The ring -/

/-- The loop of `_pick_gpu` stops at the first GPU that the loop of `_gpu_options` collects. -/
theorem pickGpuLoop_eq (p : Planner) (vramGb : ℚ) : ∀ offsets : List Nat,
    p.cap.pickGpuLoop vramGb p.pools.gpuFree p.pools.rr offsets =
      (p.gpuOptionsLoop vramGb offsets).head?.elim (none, p.pools.rr) fun o => (some o.1, o.2)
  | [] => rfl
  | offset :: rest => by
    unfold Capacity.pickGpuLoop gpuOptionsLoop
    dsimp only
    cases p.pools.gpuFree (p.cap.ringGpu (p.cap.ringIndex p.pools.rr offset)) with
    | none => exact pickGpuLoop_eq p vramGb rest
    | some free =>
      by_cases hroom : (vramGb : Free) < free
      · simp only [hroom, if_true]
        rfl
      · simp only [hroom, if_false]
        exact pickGpuLoop_eq p vramGb rest

theorem pickGpu_eq (p : Planner) (vramGb : ℚ) : p.cap.pickGpu vramGb p.pools.gpuFree p.pools.rr =
    (p.gpuOptions vramGb).head?.elim (none, p.pools.rr) fun o => (some o.1, o.2) :=
  pickGpuLoop_eq p vramGb (List.range p.cap.gpuRoundRobin.length)

theorem mem_gpuOptions_iff {g : GpuId} : (∃ rr, (g, rr) ∈ p.gpuOptions vramGb) ↔
    g ∈ p.cap.gpuRoundRobin ∧ HasRoom p.pools.gpuFree vramGb g := by
  constructor
  · rintro ⟨rr, h⟩
    exact mem_gpuOptions h
  · rintro ⟨hg, free, hfree, hroom⟩
    obtain ⟨i, hi, rfl⟩ := p.cap.exists_offset p.pools.rr hg
    have key : ∀ offsets : List Nat, i ∈ offsets →
        ∃ rr, (p.cap.ringGpu (p.cap.ringIndex p.pools.rr i), rr) ∈ p.gpuOptionsLoop vramGb offsets := by
      intro offsets
      induction offsets with
      | nil => intro h; cases h
      | cons j rest ih =>
        intro h
        unfold gpuOptionsLoop
        dsimp only
        rcases List.mem_cons.mp h with rfl | h
        · rw [hfree]
          dsimp only
          rw [if_pos hroom]
          exact ⟨_, List.mem_cons_self⟩
        · obtain ⟨rr, hrr⟩ := ih h
          split
          · exact ⟨rr, hrr⟩
          · split_ifs
            · exact ⟨rr, List.mem_cons_of_mem _ hrr⟩
            · exact ⟨rr, hrr⟩
    exact key _ (List.mem_range.mpr hi)

/-! ## The gates -/

theorem fits_eq_gates (p : Planner) (task : PendingEntry) : p.cap.fits task p.pools.toRoom p.pools.rr =
    if p.fitsNongpu task then
      if 0 < task.vramGb then (p.gpuOptions task.vramGb).head?.map fun o => (some o.1, o.2) else some (none, p.pools.rr)
    else none := by
  unfold Capacity.fits fitsNongpu
  by_cases halone : task.exclusive = true ∧ 0 < p.pools.slots
  · rw [if_pos halone, if_pos halone]
    rfl
  rw [if_neg halone, if_neg halone]
  by_cases hmax : p.cap.maxWorkers ≤ p.pools.slots
  · rw [if_pos hmax, if_pos hmax]
    rfl
  rw [if_neg hmax, if_neg hmax]
  by_cases heffective : p.cap.effectiveMax task ≤ p.pools.slots
  · rw [if_pos heffective, if_pos heffective]
    rfl
  rw [if_neg heffective, if_neg heffective]
  by_cases hmemory : p.pools.memoryFree ≤ task.memoryGb
  · rw [if_pos hmemory, if_pos hmemory]
    rfl
  rw [if_neg hmemory, if_neg hmemory, if_pos rfl, pickGpu_eq]
  cases (p.gpuOptions task.vramGb).head? with
  | none => rfl
  | some o => rfl

/-- **The two gates agree.** `_fits` succeeds in the live pools exactly when `_fits_nongpu` does and the task needs no
VRAM or has a GPU option, and what it returns for a task with VRAM is the first of the options. -/
theorem gates_agree (p : Planner) (task : PendingEntry) :
    ((p.cap.fits task p.pools.toRoom p.pools.rr).isSome = true ↔
      p.fitsNongpu task = true ∧ (task.vramGb ≤ 0 ∨ p.gpuOptions task.vramGb ≠ [])) ∧
    ∀ gpuId rr, 0 < task.vramGb → p.cap.fits task p.pools.toRoom p.pools.rr = some (gpuId, rr) →
      ∃ g, gpuId = some g ∧ (p.gpuOptions task.vramGb).head? = some (g, rr) := by
  rw [fits_eq_gates]
  constructor
  · by_cases hpass : p.fitsNongpu task = true
    · rw [if_pos hpass]
      by_cases hvram : 0 < task.vramGb
      · rw [if_pos hvram, Option.isSome_map, List.isSome_head?]
        simp [hpass, not_le.mpr hvram]
      · rw [if_neg hvram]
        simp [hpass, not_lt.mp hvram]
    · rw [if_neg hpass]
      simp [hpass]
  · intro gpuId rr hvram h
    split_ifs at h
    obtain ⟨o, ho, hanswer⟩ := Option.map_eq_some_iff.mp h
    obtain ⟨rfl, rfl⟩ := Prod.mk.inj hanswer
    exact ⟨o.1, rfl, ho⟩

/-- A ring with a GPU that is absent and one that comes twice. -/
def ringHost : Capacity where
  memoryFreeGb := (16 : ℚ)
  gpuFreeVramGb := fun g => if g = 1 then some (8 : ℚ) else none
  gpuRoundRobin := [5, 1, 1]
  nextGpuIndex := -3
  maxWorkers := 4
  runningCount := 0
  snapshotPresent := true

def vramTask : PendingEntry where
  id := "vram"
  memoryGb := 1
  vramGb := 4
  cpuCores := 1
  durationP90Seconds := none

theorem gates_agree_ring : ∃ g, some 1 = some g ∧ ((init [] [] ringHost).gpuOptions 4).head? = some (g, 2) :=
  (gates_agree (init [] [] ringHost) vramTask).2 (some 1) 2 (by decide) (by decide +kernel)

/-! ## A turn of the scan -/

/-- What `candidate` can be placed on: a GPU of the ring with room for it, or no GPU if it needs none. -/
def Places (p : Planner) (candidate : PendingEntry) (gpuId : Option GpuId) : Prop :=
  if 0 < candidate.vramGb then ∃ g ∈ p.cap.gpuRoundRobin, HasRoom p.pools.gpuFree candidate.vramGb g ∧ gpuId = some g
  else gpuId = none

theorem places_vram {candidate : PendingEntry} (hvram : 0 < candidate.vramGb) (gpuId : Option GpuId) :
    p.Places candidate gpuId ↔ ∃ rr, (gpuId, rr) ∈ (p.gpuOptions candidate.vramGb).map fun o => (some o.1, o.2) := by
  unfold Places
  rw [if_pos hvram]
  constructor
  · rintro ⟨g, hring, hroom, rfl⟩
    obtain ⟨rr, hg⟩ := mem_gpuOptions_iff.mpr ⟨hring, hroom⟩
    exact ⟨rr, List.mem_map.mpr ⟨_, hg, rfl⟩⟩
  · rintro ⟨rr, h⟩
    obtain ⟨⟨g, rr'⟩, hg, hanswer⟩ := List.mem_map.mp h
    obtain ⟨rfl, rfl⟩ := Prod.mk.inj hanswer
    obtain ⟨hring, hroom⟩ := mem_gpuOptions_iff.mp ⟨rr', hg⟩
    exact ⟨g, hring, hroom, rfl⟩

/-- A candidate that fits in the live pools passes the gate, and has a place. -/
theorem gates_pass (h : (p.cap.fits task p.pools.toRoom p.pools.rr).isSome = true) :
    p.fitsNongpu task = true ∧ ∃ gpuId, p.Places task gpuId := by
  obtain ⟨⟨gpuId, rr⟩, hfits⟩ := Option.isSome_iff_exists.mp h
  obtain ⟨hadmits, hgpu, hnone⟩ := Capacity.fits_some hfits
  refine ⟨fitsNongpu_iff.mpr ⟨hadmits.alone, hadmits.slots, hadmits.effective, hadmits.memory⟩, gpuId, ?_⟩
  unfold Places
  split_ifs with hvram
  · obtain ⟨g, hring, hg, hroom⟩ := hgpu hvram
    exact ⟨g, hring, hroom, hg⟩
  · exact hnone hvram

theorem placeBackfill_isSome_iff {head candidate : PendingEntry} {reservation : WithTop ℚ} {finishes : Bool} :
    (p.placeBackfill head candidate reservation finishes).isSome = true ↔ ∃ gpuId, p.Places candidate gpuId ∧
      (finishes = true ∨ p.headStillFitsWithHold head candidate gpuId reservation = true) := by
  have hrule (gpuId : Option GpuId) (rr : Int) : ((if finishes then some (gpuId, rr, true)
      else if p.headStillFitsWithHold head candidate gpuId reservation then some (gpuId, rr, false)
      else none).isSome = true) ↔
        (finishes = true ∨ p.headStillFitsWithHold head candidate gpuId reservation = true) := by
    split_ifs with hs hh
    · simp [hs]
    · simp [hh]
    · simp [hs, hh]
  unfold placeBackfill
  rw [List.findSome?_isSome_iff]
  simp only [hrule]
  by_cases hvram : 0 < candidate.vramGb
  · rw [if_neg (not_le.mpr hvram)]
    simp only [places_vram hvram]
    constructor
    · rintro ⟨o, ho, hpasses⟩
      exact ⟨o.1, ⟨o.2, ho⟩, hpasses⟩
    · rintro ⟨gpuId, ⟨rr, ho⟩, hpasses⟩
      exact ⟨(gpuId, rr), ho, hpasses⟩
  · rw [if_pos (not_lt.mp hvram)]
    unfold Places
    simp only [if_neg hvram, List.mem_singleton]
    constructor
    · rintro ⟨o, rfl, hpasses⟩
      exact ⟨none, rfl, hpasses⟩
    · rintro ⟨gpuId, rfl, hpasses⟩
      exact ⟨(none, p.pools.rr), rfl, hpasses⟩

/-- The candidate is over by a reservation that is finite. -/
def Short (candidate : PendingEntry) (reservation : WithTop ℚ) : Prop :=
  reservation ≠ ⊤ ∧ Backfill.Due candidate.durationP90Seconds reservation

/-- **What a turn takes**: the canary and the gate let the candidate pass, and it is short, or there is a place for it
that the head can do without. -/
theorem offer_isSome_iff {head candidate : PendingEntry} {reservation : WithTop ℚ} :
    (p.offer head reservation candidate).isSome = true ↔ p.canaryBlocked candidate = false ∧
      p.fitsNongpu candidate = true ∧ ∃ gpuId, p.Places candidate gpuId ∧
        (Short candidate reservation ∨ p.headStillFitsWithHold head candidate gpuId reservation = true) := by
  have hshort : (decide (reservation ≠ ⊤) && decide (Backfill.Due candidate.durationP90Seconds reservation)) = true ↔
      Short candidate reservation := by
    rw [Bool.and_eq_true, decide_eq_true_eq, decide_eq_true_eq]
    rfl
  unfold offer
  cases hcanary : p.canaryBlocked candidate with
  | true => simp
  | false =>
    cases hgate : p.fitsNongpu candidate with
    | false => simp
    | true =>
      rw [if_neg Bool.false_ne_true, if_neg (by simp), placeBackfill_isSome_iff]
      simp only [hshort, true_and]

end Planner

end AdaptiveExecutor
