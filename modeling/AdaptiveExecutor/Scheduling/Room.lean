import Mathlib.Algebra.Group.Action.Basic
import Mathlib.Algebra.Group.Pi.Lemmas
import Mathlib.Algebra.Order.Monoid.Prod
import Mathlib.Algebra.Order.Pi
import Mathlib.Algebra.Order.Group.Int
import Mathlib.Algebra.Order.Monoid.WithTop
import Mathlib.Algebra.Order.Ring.Rat
import Mathlib.Data.List.GetD
import AdaptiveExecutor.Scheduling.Planner

/-!
# Rooms as an ordered action, and what `_fits` tests

A `Load` (memory, VRAM for each GPU, slots) acts on a `Room` by giving it back, so `take` and `give` of the
planner are the actions of `-loadOn` and `loadOn`, and the projection of the planner is the library's
`Backfill.project`.

* `HasRoom`, `Capacity.Admits` : what the tests ask, with no round-robin index;
* `fits_isSome_iff`, `fits_gpu` : `_fits` answers `Admits` and returns a listed GPU with room;
* `mem_gpuOptions`, `fitsNongpu_iff` : the same for the tests of the scan;
* `admits_mono` : more room never hurts;
* `stateAt_eq`, `reservation_le_iff` : the projection, and the reservation as its exact threshold.
-/

namespace AdaptiveExecutor
open Backfill

/-! ## Loads -/

abbrev Load := ℚ × (GpuId → ℚ) × ℤ

/-- What a task holds while it runs on `gpuId`. -/
def loadOn (memoryGb vramGb : ℚ) (gpuId : Option GpuId) : Load :=
  (memoryGb, fun g => if gpuId = some g then vramGb else 0, 1)

theorem loadOn_nonneg {memoryGb vramGb : ℚ} (hm : 0 ≤ memoryGb) (hv : 0 ≤ vramGb) (gpuId : Option GpuId) :
    0 ≤ loadOn memoryGb vramGb gpuId := by
  refine ⟨hm, fun g => ?_, Int.one_nonneg⟩
  change 0 ≤ if gpuId = some g then vramGb else 0
  split_ifs
  exacts [hv, le_rfl]

def RunningEntry.load (o : RunningEntry) : Load := loadOn o.memoryGb o.vramGb o.gpuId

def Admission.load (a : Admission) : Load := loadOn a.task.memoryGb a.task.vramGb a.gpuId

/-! ## The action -/

@[ext] theorem Room.ext {r s : Room} (hm : r.memoryFree = s.memoryFree) (hg : ∀ g, r.gpuFree g = s.gpuFree g)
    (hs : r.slots = s.slots) : r = s := by
  cases r; cases s
  obtain rfl : _ = _ := hm
  obtain rfl : _ = _ := hs
  rw [Room.mk.injEq]
  exact ⟨rfl, funext hg, rfl⟩

instance : VAdd Load Room where
  vadd l r :=
    { memoryFree := (l.1 : Free) + r.memoryFree
      gpuFree := fun g => (r.gpuFree g).map ((l.2.1 g : Free) + ·)
      slots := r.slots - l.2.2 }

@[simp] theorem vadd_memoryFree (l : Load) (r : Room) : (l +ᵥ r).memoryFree = (l.1 : Free) + r.memoryFree := rfl

@[simp] theorem vadd_gpuFree (l : Load) (r : Room) (g : GpuId) :
    (l +ᵥ r).gpuFree g = (r.gpuFree g).map ((l.2.1 g : Free) + ·) := rfl

@[simp] theorem vadd_slots (l : Load) (r : Room) : (l +ᵥ r).slots = r.slots - l.2.2 := rfl

instance : AddAction Load Room where
  zero_vadd r := by
    ext
    · simp
    · simp
    · simp
  add_vadd l l' r := by
    ext
    · simp [add_assoc]
    · simp [Function.comp_def, add_assoc]
    · simp only [vadd_slots, Prod.snd_add]; ring

theorem Room.give_eq (r : Room) (memoryGb vramGb : ℚ) (gpuId : Option GpuId) :
    r.give memoryGb vramGb gpuId = loadOn memoryGb vramGb gpuId +ᵥ r := by
  ext g
  · rfl
  · cases gpuId with
    | none => simp [Room.give, GpuFree.add, loadOn]
    | some g₀ =>
      by_cases h : g = g₀
      · simp [Room.give, GpuFree.add, loadOn, h]
      · simp [Room.give, GpuFree.add, loadOn, h, Ne.symm h]
  · rfl

theorem loadOn_neg (memoryGb vramGb : ℚ) (gpuId : Option GpuId) :
    -loadOn memoryGb vramGb gpuId = (-memoryGb, (fun g => if gpuId = some g then -vramGb else 0), -1) := by
  ext g
  · rfl
  · by_cases h : gpuId = some g <;> simp [loadOn, h]
  · rfl

theorem Room.take_eq (r : Room) (memoryGb vramGb : ℚ) (gpuId : Option GpuId) :
    r.take memoryGb vramGb gpuId = -loadOn memoryGb vramGb gpuId +ᵥ r := by
  rw [loadOn_neg]
  ext g
  · rfl
  · cases gpuId with
    | none => simp [Room.take, GpuFree.add]
    | some g₀ =>
      by_cases h : g = g₀
      · simp [Room.take, GpuFree.add, h]
      · simp [Room.take, GpuFree.add, h, Ne.symm h]
  · simp [Room.take]

/-! ## The order -/

/-- More room: more memory, every GPU still present with more VRAM, fewer slots in use. -/
instance : Preorder Room where
  le r s := r.memoryFree ≤ s.memoryFree ∧
    (∀ g f, r.gpuFree g = some f → ∃ f', s.gpuFree g = some f' ∧ f ≤ f') ∧ s.slots ≤ r.slots
  le_refl r := ⟨le_rfl, fun _ f h => ⟨f, h, le_rfl⟩, le_rfl⟩
  le_trans r s u hrs hsu := by
    refine ⟨hrs.1.trans hsu.1, fun g f h => ?_, hsu.2.2.trans hrs.2.2⟩
    obtain ⟨f', h', hle⟩ := hrs.2.1 g f h
    obtain ⟨f'', h'', hle'⟩ := hsu.2.1 g f' h'
    exact ⟨f'', h'', hle.trans hle'⟩

theorem Room.le_def {r s : Room} : r ≤ s ↔ r.memoryFree ≤ s.memoryFree ∧
    (∀ g f, r.gpuFree g = some f → ∃ f', s.gpuFree g = some f' ∧ f ≤ f') ∧ s.slots ≤ r.slots := Iff.rfl

instance : IsOrderedVAdd Load Room where
  vadd_le_vadd_left r s h l := by
    refine Room.le_def.mpr ⟨?_, fun g f hf => ?_, Int.sub_le_sub_right h.2.2 _⟩
    · exact add_le_add_right h.1 _
    · obtain ⟨f₀, hr, rfl⟩ := Option.map_eq_some_iff.mp hf
      obtain ⟨f', hs, hle⟩ := h.2.1 g f₀ hr
      exact ⟨(l.2.1 g : Free) + f', by rw [vadd_gpuFree, hs]; rfl, add_le_add_right hle _⟩
  vadd_le_vadd_right l m h r := by
    refine Room.le_def.mpr ⟨?_, fun g f hf => ?_, Int.sub_le_sub_left h.2.2 _⟩
    · exact add_le_add_left (WithTop.coe_le_coe.mpr h.1) _
    · obtain ⟨f₀, hr, rfl⟩ := Option.map_eq_some_iff.mp hf
      exact ⟨(m.2.1 g : Free) + f₀, by rw [vadd_gpuFree, hr]; rfl,
        add_le_add_left (WithTop.coe_le_coe.mpr (h.2.1 g)) _⟩

/-! ## What the tests ask -/

/-- GPU `g` is present with more than `vramGb` free. -/
def HasRoom (gpuFree : GpuFree) (vramGb : ℚ) (g : GpuId) : Prop :=
  ∃ f, gpuFree g = some f ∧ (vramGb : Free) < f

theorem HasRoom.mono {r s : Room} (h : r ≤ s) {vramGb : ℚ} {g : GpuId} (hroom : HasRoom r.gpuFree vramGb g) :
    HasRoom s.gpuFree vramGb g := by
  obtain ⟨free, hfree, hlt⟩ := hroom
  obtain ⟨free', hfree', hle⟩ := h.2.1 g free hfree
  exact ⟨free', hfree', hlt.trans_le hle⟩

theorem Room.take_mono {r s : Room} (h : r ≤ s) (memoryGb vramGb : ℚ) (gpuId : Option GpuId) :
    r.take memoryGb vramGb gpuId ≤ s.take memoryGb vramGb gpuId := by
  rw [Room.take_eq, Room.take_eq]
  exact IsOrderedVAdd.vadd_le_vadd_left _ _ h _

namespace Capacity
variable (cap : Capacity)

/-- What `_fits` tests in a room. -/
structure Admits (task : PendingEntry) (r : Room) : Prop where
  alone : task.exclusive = true → r.slots ≤ 0
  slots : r.slots < cap.maxWorkers
  effective : r.slots < cap.effectiveMax task
  memory : (task.memoryGb : Free) < r.memoryFree
  gpu : 0 < task.vramGb → ∃ g ∈ cap.gpuRoundRobin, HasRoom r.gpuFree task.vramGb g

theorem admits_mono (task : PendingEntry) : Monotone (cap.Admits task) := by
  intro r s h ha
  refine ⟨fun he => h.2.2.trans (ha.alone he), h.2.2.trans_lt ha.slots, h.2.2.trans_lt ha.effective,
    ha.memory.trans_le h.1, fun hv => ?_⟩
  obtain ⟨g, hg, hroom⟩ := ha.gpu hv
  exact ⟨g, hg, hroom.mono h⟩

/-! ### The ring -/

theorem ringGpu_mem (rr : Int) {offset : Nat} (h : offset < cap.gpuRoundRobin.length) :
    cap.ringGpu (cap.ringIndex rr offset) ∈ cap.gpuRoundRobin := by
  have hn : (0 : Int) < cap.gpuRoundRobin.length := by omega
  have h0 := Int.emod_nonneg (rr + offset) hn.ne'
  have h1 := Int.emod_lt_of_pos (rr + offset) hn
  have hlt : (cap.ringIndex rr offset).toNat < cap.gpuRoundRobin.length := by
    unfold ringIndex; omega
  rw [ringGpu, List.getD_eq_getElem _ _ hlt]
  exact List.getElem_mem hlt

/-- Every listed GPU comes up once round the ring, wherever the round starts. -/
theorem exists_offset (rr : Int) {g : GpuId} (h : g ∈ cap.gpuRoundRobin) :
    ∃ offset < cap.gpuRoundRobin.length, cap.ringGpu (cap.ringIndex rr offset) = g := by
  obtain ⟨i, hi, rfl⟩ := List.getElem_of_mem h
  set n := cap.gpuRoundRobin.length with hn
  have hpos : (0 : Int) < n := by omega
  have h0 := Int.emod_nonneg ((i : Int) - rr) hpos.ne'
  have h1 := Int.emod_lt_of_pos ((i : Int) - rr) hpos
  refine ⟨(((i : Int) - rr) % n).toNat, by omega, ?_⟩
  have hidx : cap.ringIndex rr (((i : Int) - rr) % n).toNat = i := by
    rw [ringIndex, Int.toNat_of_nonneg h0, ← hn, Int.add_emod, Int.emod_emod, ← Int.add_emod,
      add_sub_cancel, Int.emod_eq_of_lt (by omega) (by omega)]
  rw [hidx, ringGpu, Int.toNat_natCast, List.getD_eq_getElem _ _ hi]

variable {cap}

theorem pickGpuLoop_some {vramGb : ℚ} {gpuFree : GpuFree} {rr rr' : Int} {g : GpuId} :
    ∀ {offsets : List Nat}, cap.pickGpuLoop vramGb gpuFree rr offsets = (some g, rr') →
      ∃ o ∈ offsets, cap.ringGpu (cap.ringIndex rr o) = g ∧ HasRoom gpuFree vramGb g
  | o :: rest, h => by
    unfold pickGpuLoop at h
    dsimp only at h
    split at h
    · obtain ⟨o', ho', h'⟩ := pickGpuLoop_some h
      exact ⟨o', List.mem_cons_of_mem o ho', h'⟩
    · rename_i f hf
      split_ifs at h with hlt
      · obtain rfl : _ = g := Option.some.inj (congrArg Prod.fst h)
        exact ⟨o, List.mem_cons_self, rfl, f, hf, hlt⟩
      · obtain ⟨o', ho', h'⟩ := pickGpuLoop_some h
        exact ⟨o', List.mem_cons_of_mem o ho', h'⟩

theorem pickGpuLoop_none {vramGb : ℚ} {gpuFree : GpuFree} {rr : Int} :
    ∀ {offsets : List Nat}, (cap.pickGpuLoop vramGb gpuFree rr offsets).1 = none →
      ∀ o ∈ offsets, ¬ HasRoom gpuFree vramGb (cap.ringGpu (cap.ringIndex rr o))
  | [], _ => fun _ h => by cases h
  | o :: rest, h => by
    unfold pickGpuLoop at h
    dsimp only at h
    rw [List.forall_mem_cons]
    split at h
    · rename_i hf
      refine ⟨fun ⟨f, hf', _⟩ => ?_, pickGpuLoop_none h⟩
      rw [hf] at hf'
      cases hf'
    · rename_i f hf
      split_ifs at h with hlt
      refine ⟨fun ⟨f', hf', hlt'⟩ => hlt ?_, pickGpuLoop_none h⟩
      rwa [Option.some.inj (hf.symm.trans hf')]

theorem pickGpu_mem {vramGb : ℚ} {gpuFree : GpuFree} {rr rr' : Int} {g : GpuId}
    (h : cap.pickGpu vramGb gpuFree rr = (some g, rr')) :
    g ∈ cap.gpuRoundRobin ∧ HasRoom gpuFree vramGb g := by
  obtain ⟨o, ho, rfl, hroom⟩ := pickGpuLoop_some h
  exact ⟨cap.ringGpu_mem rr (List.mem_range.mp ho), hroom⟩

theorem pickGpu_isSome_iff {vramGb : ℚ} {gpuFree : GpuFree} (rr : Int) :
    (cap.pickGpu vramGb gpuFree rr).1.isSome ↔ ∃ g ∈ cap.gpuRoundRobin, HasRoom gpuFree vramGb g := by
  constructor
  · intro h
    obtain ⟨g, hg⟩ := Option.isSome_iff_exists.mp h
    exact ⟨g, pickGpu_mem (Prod.ext hg rfl)⟩
  · rintro ⟨g, hg, hroom⟩
    by_contra hne
    rw [Option.not_isSome_iff_eq_none] at hne
    obtain ⟨o, ho, rfl⟩ := cap.exists_offset rr hg
    exact pickGpuLoop_none hne o (List.mem_range.mpr ho) hroom

/-! ### `_fits` -/

theorem fits_some {task : PendingEntry} {r : Room} {rr rr' : Int} {gpuId : Option GpuId}
    (h : cap.fits task r rr = some (gpuId, rr')) :
    cap.Admits task r ∧ (0 < task.vramGb → ∃ g ∈ cap.gpuRoundRobin, gpuId = some g ∧
      HasRoom r.gpuFree task.vramGb g) ∧ (¬ 0 < task.vramGb → gpuId = none) := by
  unfold fits at h
  split_ifs at h with h1 h2 h3 h4 h5
  · have hpick : ∃ g rr'', cap.pickGpu task.vramGb r.gpuFree rr = (some g, rr'') ∧ gpuId = some g := by
      split at h
      · cases h
      · rename_i g rr'' hp
        exact ⟨g, rr'', hp, (Prod.mk.inj (Option.some.inj h)).1.symm⟩
    obtain ⟨g, rr'', hp, rfl⟩ := hpick
    obtain ⟨hg, hroom⟩ := pickGpu_mem hp
    exact ⟨⟨fun he => not_lt.mp fun hs => h1 ⟨he, hs⟩, not_le.mp h2, not_le.mp h3, not_le.mp h4,
      fun _ => ⟨g, hg, hroom⟩⟩, fun _ => ⟨g, hg, rfl, hroom⟩, fun hn => absurd h5 hn⟩
  · exact ⟨⟨fun he => not_lt.mp fun hs => h1 ⟨he, hs⟩, not_le.mp h2, not_le.mp h3, not_le.mp h4,
      fun hv => absurd hv h5⟩, fun hv => absurd hv h5, fun _ => (Prod.mk.inj (Option.some.inj h)).1.symm⟩

/-- `_fits` answers `Admits`, whatever the round-robin index. -/
theorem fits_isSome_iff {task : PendingEntry} {r : Room} (rr : Int) :
    (cap.fits task r rr).isSome ↔ cap.Admits task r := by
  constructor
  · intro h
    obtain ⟨⟨gpuId, rr'⟩, h⟩ := Option.isSome_iff_exists.mp h
    exact (fits_some h).1
  · intro h
    unfold fits
    rw [if_neg fun hc => absurd (h.alone hc.1) (not_le.mpr hc.2), if_neg (not_le.mpr h.slots),
      if_neg (not_le.mpr h.effective), if_neg (not_le.mpr h.memory)]
    split_ifs with hv
    · have hp := (pickGpu_isSome_iff rr).mpr (h.gpu hv)
      split
      · rename_i hq
        rw [hq] at hp
        cases hp
      · rfl
    · rfl

end Capacity

/-! ## The planner's projections -/

namespace Planner

/-- Loads of the occupants that are not negative, which the executor's estimates never are. -/
def NonnegOccupants (p : Planner) : Prop := ∀ o ∈ p.occupants, 0 ≤ o.load

theorem stateAt_eq (p : Planner) (t : WithTop ℚ) :
    p.stateAt t = project RunningEntry.load RunningEntry.remainingSeconds p.occupants p.pools.toRoom t := by
  have key : ∀ (os : List RunningEntry) (r : Room),
      os.foldl (fun r o => if Due o.remainingSeconds t then r.give o.memoryGb o.vramGb o.gpuId else r) r =
        project RunningEntry.load RunningEntry.remainingSeconds os r t := by
    intro os
    induction os with
    | nil => intro r; simp [project]
    | cons o os ih =>
      intro r
      rw [List.foldl_cons, ih, project, project, released_cons, add_comm, add_vadd]
      split_ifs
      · rw [Room.give_eq]; rfl
      · rw [zero_vadd]
  exact key p.occupants p.pools.toRoom

theorem stateAt_mono {p : Planner} (hp : p.NonnegOccupants) {s t : WithTop ℚ} (hst : s ≤ t) :
    p.stateAt s ≤ p.stateAt t := by
  rw [stateAt_eq, stateAt_eq]
  exact project_mono _ _ hp _ hst

theorem pools_le_stateAt {p : Planner} (hp : p.NonnegOccupants) (t : WithTop ℚ) : p.pools.toRoom ≤ p.stateAt t := by
  rw [stateAt_eq]
  have hgiven := released_nonneg RunningEntry.load RunningEntry.remainingSeconds hp t
  have h := IsOrderedVAdd.vadd_le_vadd_right _ _ hgiven p.pools.toRoom
  rwa [zero_vadd] at h

theorem mem_releaseTimes {p : Planner} {d : ℚ} :
    d ∈ p.releaseTimes ↔ some d ∈ p.occupants.map RunningEntry.remainingSeconds := by
  simp [releaseTimes, List.mem_insertionSort, List.mem_dedup]

theorem releaseTimes_sorted (p : Planner) : p.releaseTimes.Pairwise (· ≤ ·) :=
  List.pairwise_insertionSort _ _

/-- **The reservation is an exact threshold.** For a head that does not fit now it is the time from which
the head fits in the projection; when it is infinite the head never does. -/
theorem computeReservation_le_iff {p : Planner} (hp : p.NonnegOccupants) {head : PendingEntry}
    (hnow : ¬ p.cap.Admits head p.pools.toRoom) (t : WithTop ℚ) :
    p.cap.Admits head (p.stateAt t) ↔ p.computeReservation head ≠ ⊤ ∧ p.computeReservation head ≤ t := by
  obtain ⟨ok, hok⟩ : ∃ ok : WithTop ℚ → Bool, ok = fun t => (p.cap.fits head (p.stateAt t) p.pools.rr).isSome :=
    ⟨_, rfl⟩
  have hadm : ∀ t, ok t = true ↔ p.cap.Admits head (p.stateAt t) := fun t => by
    rw [hok]; exact Capacity.fits_isSome_iff p.pools.rr
  have hres : p.computeReservation head = firstFit ok p.releaseTimes := by rw [hok]; rfl
  rw [← hadm, hres]
  refine firstFit_le_iff p.releaseTimes_sorted (fun s t hst hs => ?_) (fun t ht => ?_) t
  · rw [hadm] at hs ⊢
    exact p.cap.admits_mono head (stateAt_mono hp hst) hs
  · rw [hadm, stateAt_eq] at ht
    rcases released_eq_at_release RunningEntry.load RunningEntry.remainingSeconds p.occupants t with h | h
    · rw [project, h, zero_vadd] at ht
      exact absurd ht hnow
    · obtain ⟨d, hd, hle, heq⟩ := h
      refine ⟨d, mem_releaseTimes.mpr hd, hle, ?_⟩
      rw [hadm, stateAt_eq, project, heq]
      exact ht

/-! ## The tests of the scan -/

theorem fitsNongpu_iff {p : Planner} {task : PendingEntry} : p.fitsNongpu task = true ↔
    (task.exclusive = true → p.pools.slots ≤ 0) ∧ p.pools.slots < p.cap.maxWorkers ∧
      p.pools.slots < p.cap.effectiveMax task ∧ (task.memoryGb : Free) < p.pools.memoryFree := by
  unfold fitsNongpu
  constructor
  · intro h
    split_ifs at h with h1 h2 h3 h4
    exact ⟨fun he => not_lt.mp fun hs => h1 ⟨he, hs⟩, not_le.mp h2, not_le.mp h3, not_le.mp h4⟩
  · rintro ⟨h1, h2, h3, h4⟩
    rw [if_neg fun hc => absurd (h1 hc.1) (not_le.mpr hc.2), if_neg (not_le.mpr h2), if_neg (not_le.mpr h3),
      if_neg (not_le.mpr h4)]

theorem mem_gpuOptions {p : Planner} {vramGb : ℚ} {o : GpuId × Int} (h : o ∈ p.gpuOptions vramGb) :
    o.1 ∈ p.cap.gpuRoundRobin ∧ HasRoom p.pools.gpuFree vramGb o.1 := by
  have key : ∀ offsets : List Nat, o ∈ p.gpuOptionsLoop vramGb offsets →
      ∃ i ∈ offsets, p.cap.ringGpu (p.cap.ringIndex p.pools.rr i) = o.1 ∧ HasRoom p.pools.gpuFree vramGb o.1 := by
    intro offsets
    induction offsets with
    | nil => intro h; cases h
    | cons i rest ih =>
      intro h
      unfold gpuOptionsLoop at h
      dsimp only at h
      have skip (h : o ∈ p.gpuOptionsLoop vramGb rest) : ∃ j ∈ i :: rest,
          p.cap.ringGpu (p.cap.ringIndex p.pools.rr j) = o.1 ∧ HasRoom p.pools.gpuFree vramGb o.1 := by
        obtain ⟨j, hj, h'⟩ := ih h
        exact ⟨j, List.mem_cons_of_mem i hj, h'⟩
      split at h
      · exact skip h
      · rename_i f hf
        split_ifs at h with hlt
        · rcases List.mem_cons.mp h with rfl | h
          exacts [⟨i, List.mem_cons_self, rfl, f, hf, hlt⟩, skip h]
        · exact skip h
  obtain ⟨i, hi, hg, hroom⟩ := key _ h
  exact ⟨hg ▸ p.cap.ringGpu_mem p.pools.rr (List.mem_range.mp hi), hroom⟩

end Planner

end AdaptiveExecutor
