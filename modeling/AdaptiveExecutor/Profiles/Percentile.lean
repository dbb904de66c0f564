import AdaptiveExecutor.Profiles
import Mathlib.Data.List.GetD

/-!
# What the p90 covers

The 90th percentile of the observed values is the one at a truncated index of the sorted list.

* `lt_countP_le_iff` : how many values are at most `x`, read off a sorted list;
* `percentile_index` : the index of the p90, in whole numbers;
* `Covers`, `Tied` : nine values in ten are at most `x`; the value at the index comes again right after it;
* `estimate_covers` : what is covered by the p90 is covered by the estimate;
* `percentile_covers_iff` : when the p90 covers nine values in ten.
-/

namespace AdaptiveExecutor

/-! ## Sorted lists -/

section Sorted
variable {β : Type*} [LinearOrder β]

/-- More than `k` values of a sorted list are at most `x` exactly when the one at `k` is. -/
theorem lt_countP_le_iff {x : β} : ∀ {s : List β}, s.Pairwise (· ≤ ·) → ∀ {k : Nat} (hk : k < s.length),
    k < s.countP (· ≤ x) ↔ s[k] ≤ x
  | [], _, k, hk => absurd hk (Nat.not_lt_zero k)
  | a :: s, hs, k, hk => by
    obtain ⟨hfirst, hrest⟩ := List.pairwise_cons.mp hs
    by_cases ha : a ≤ x
    · rw [List.countP_cons_of_pos (by simpa using ha)]
      cases k with
      | zero => simp [ha]
      | succ k =>
        rw [List.getElem_cons_succ, ← lt_countP_le_iff hrest (Nat.lt_of_succ_lt_succ hk)]
        omega
    · -- the first is too large, and so are all others
      have hnone : (a :: s).countP (· ≤ x) = 0 := by
        rw [List.countP_eq_zero]
        intro b hb
        rcases List.mem_cons.mp hb with rfl | hb
        · simpa using ha
        · simpa using (not_le.mp ha).trans_le (hfirst b hb)
      rw [hnone]
      refine ⟨fun h => absurd h (Nat.not_lt_zero k), fun h => absurd h ?_⟩
      rcases List.mem_cons.mp ((a :: s).getElem_mem hk) with hsame | hmem
      · rwa [hsame]
      · exact fun hle => ha ((hfirst _ hmem).trans hle)

end Sorted

/-! ## The p90 -/

section P90
variable {values : List ℚ}

/-- At least 90 percent of the values are at most `x`. -/
def Covers (values : List ℚ) (x : ℚ) : Prop := 9 * values.length ≤ 10 * values.countP (· ≤ x)

instance (values : List ℚ) (x : ℚ) : Decidable (Covers values x) := inferInstanceAs (Decidable (_ ≤ _))

/-- `int((n - 1) * 0.9)`. -/
def p90Index (values : List ℚ) : Nat := 9 * (values.length - 1) / 10

/-- In order, the value after the one at the index is the same. -/
def Tied (values : List ℚ) : Prop :=
  (values.insertionSort (· ≤ ·)).getD (p90Index values + 1) 0 = (values.insertionSort (· ≤ ·)).getD (p90Index values) 0

instance (values : List ℚ) : Decidable (Tied values) := inferInstanceAs (Decidable (_ = _))

theorem p90Index_spec (values : List ℚ) : 10 * p90Index values ≤ 9 * (values.length - 1) ∧
    9 * (values.length - 1) < 10 * (p90Index values + 1) := by
  unfold p90Index
  omega

theorem percentile_index (hne : values ≠ []) :
    LearnedProfile.percentile values (9 / 10) = (values.insertionSort (· ≤ ·)).getD (p90Index values) 0 := by
  have hpos := List.length_pos_iff.mpr hne
  have hfloor : ⌊((values.length : ℚ) - 1) * (9 / 10)⌋ = (p90Index values : ℤ) := by
    rw [Int.floor_eq_iff]
    have hcast : (values.length : ℚ) - 1 = ((values.length - 1 : ℕ) : ℚ) := by
      rw [Nat.cast_sub hpos, Nat.cast_one]
    obtain ⟨hlow, hhigh⟩ := p90Index_spec values
    have hlow' : (10 * p90Index values : ℚ) ≤ 9 * ((values.length - 1 : ℕ) : ℚ) := mod_cast hlow
    have hhigh' : 9 * ((values.length - 1 : ℕ) : ℚ) < 10 * (p90Index values + 1) := mod_cast hhigh
    rw [hcast, Int.cast_natCast]
    constructor
    · linarith
    · linarith
  unfold LearnedProfile.percentile
  rw [hfloor, Int.toNat_natCast]

theorem Covers.mono {x y : ℚ} (h : Covers values x) (hle : x ≤ y) : Covers values y := by
  refine le_trans h (Nat.mul_le_mul_left 10 (List.countP_mono_left fun v _ hv => ?_))
  simp only [decide_eq_true_eq] at hv ⊢
  exact hv.trans hle

/-- One value more than those up to the index is needed, unless the length is round. -/
theorem covers_p90_iff (hne : values ≠ []) :
    Covers values (LearnedProfile.percentile values (9 / 10)) ↔ values.length % 10 ≤ 1 ∨ Tied values := by
  have hpos := List.length_pos_iff.mpr hne
  have hsorted : (values.insertionSort (· ≤ ·)).Pairwise (· ≤ ·) := List.pairwise_insertionSort _ _
  have hlength : (values.insertionSort (· ≤ ·)).length = values.length := List.length_insertionSort _ _
  have hcount (x : ℚ) : values.countP (· ≤ x) = (values.insertionSort (· ≤ ·)).countP (· ≤ x) :=
    ((List.perm_insertionSort (· ≤ ·) values).countP_eq _).symm
  rw [percentile_index hne]
  unfold Covers Tied
  rw [hcount, ← hlength]
  obtain ⟨hlow, hhigh⟩ := p90Index_spec values
  rw [← hlength] at hpos hlow hhigh
  generalize values.insertionSort (· ≤ ·) = s at *
  generalize p90Index values = k at *
  have hindex : k < s.length := by omega
  rw [List.getD_eq_getElem s 0 hindex]
  have hown := (lt_countP_le_iff hsorted hindex).mpr (le_refl s[k])
  by_cases hround : s.length % 10 ≤ 1
  · have hk : 9 * (s.length / 10) + s.length % 10 ≤ k + 1 := by omega
    have hcovered : 9 * s.length ≤ 10 * s.countP (· ≤ s[k]) := by omega
    exact ⟨fun _ => .inl hround, fun _ => hcovered⟩
  · have hk : k + 2 = 9 * (s.length / 10) + s.length % 10 := by omega
    have hnext : k + 1 < s.length := by omega
    have hmore : 9 * s.length ≤ 10 * s.countP (· ≤ s[k]) ↔ k + 1 < s.countP (· ≤ s[k]) := by omega
    have hle : s[k] ≤ s[k + 1] := List.pairwise_iff_getElem.mp hsorted _ _ hindex hnext (Nat.lt_succ_self _)
    rw [hmore, lt_countP_le_iff hsorted hnext, List.getD_eq_getElem s 0 hnext, or_iff_right hround]
    exact ⟨fun h => le_antisymm h hle, fun h => h.le⟩

end P90

/-! ## Estimates -/

section Estimate
variable {p : LearnedProfile}

theorem safetyMultiplier_ge (p : LearnedProfile) : (1 : ℚ) ≤ 1 + 1 / 2 * (1 - min 1 ((p.sampleCount : ℚ) / 10)) := by
  have h : min 1 ((p.sampleCount : ℚ) / 10) ≤ 1 := min_le_left _ _
  linarith

/-- Without a hint no figure of an estimate is below its p90, and the duration is the p90. -/
theorem estimate_ge (hne : p.observations ≠ []) :
    LearnedProfile.percentile (p.observations.map (·.memoryDeltaGb)) (9 / 10) ≤ (p.estimate none none).memoryGb ∧
    LearnedProfile.percentile (p.observations.map (·.vramDeltaGb)) (9 / 10) ≤ (p.estimate none none).vramGb ∧
    (p.estimate none none).durationP90Seconds =
      some (LearnedProfile.percentile (p.observations.map (·.durationSeconds)) (9 / 10)) := by
  have hmargin := safetyMultiplier_ge p
  have hscaled {x low : ℚ} (hlow : 0 ≤ low) :
      x ≤ max low (x * (1 + 1 / 2 * (1 - min 1 ((p.sampleCount : ℚ) / 10)))) := by
    rcases le_total 0 x with hx | hx
    · exact le_max_of_le_right (le_mul_of_one_le_right hx hmargin)
    · exact le_max_of_le_left (hx.trans hlow)
  unfold LearnedProfile.estimate
  dsimp only [Option.getD_none]
  rw [if_neg hne, if_neg hne, if_neg hne]
  refine ⟨?_, hscaled le_rfl, rfl⟩
  split
  · exact hscaled (by norm_num)
  · exact le_max_of_le_left (hscaled (by norm_num))

/-- **When the p90 covers nine observations in ten**: when the number of values leaves a remainder of at most one by ten,
or the value at the index comes again right after it. Then the figures of an estimate cover as much. -/
theorem percentile_covers_iff {values : List ℚ} (hvalues : values ≠ []) (hne : p.observations ≠ []) :
    (Covers values (LearnedProfile.percentile values (9 / 10)) ↔ values.length % 10 ≤ 1 ∨ Tied values) ∧
      (p.observations.length % 10 ≤ 1 ∨ Tied (p.observations.map (·.memoryDeltaGb)) →
        Covers (p.observations.map (·.memoryDeltaGb)) (p.estimate none none).memoryGb) ∧
      (p.observations.length % 10 ≤ 1 ∨ Tied (p.observations.map (·.vramDeltaGb)) →
        Covers (p.observations.map (·.vramDeltaGb)) (p.estimate none none).vramGb) ∧
      ∃ duration, (p.estimate none none).durationP90Seconds = some duration ∧
        (Covers (p.observations.map (·.durationSeconds)) duration ↔
          p.observations.length % 10 ≤ 1 ∨ Tied (p.observations.map (·.durationSeconds))) := by
  have hp90 (f : ResourceObservation → ℚ) : Covers (p.observations.map f)
      (LearnedProfile.percentile (p.observations.map f) (9 / 10)) ↔
        p.observations.length % 10 ≤ 1 ∨ Tied (p.observations.map f) := by
    rw [covers_p90_iff (by simpa using hne), List.length_map]
  obtain ⟨hmemory, hvram, hduration⟩ := estimate_ge hne
  exact ⟨covers_p90_iff hvalues, fun h => ((hp90 _).mpr h).mono hmemory, fun h => ((hp90 _).mpr h).mono hvram, _, hduration,
    hp90 _⟩

def twoRuns : LearnedProfile where
  observations := [⟨1, 0, 100, 1⟩, ⟨1, 0, 100, 10⟩]

theorem percentile_covers_iff_ten :
    Covers [3, 1, 2, 10, 5, 4, 7, 6, 9, 8] (LearnedProfile.percentile [3, 1, 2, 10, 5, 4, 7, 6, 9, 8] (9 / 10)) ↔
      [3, 1, 2, 10, 5, 4, 7, 6, 9, 8].length % 10 ≤ 1 ∨ Tied [3, 1, 2, 10, 5, 4, 7, 6, 9, 8] := by
  have hne : twoRuns.observations ≠ [] := by decide
  exact (percentile_covers_iff (List.cons_ne_nil 3 _) hne).1

/-- The p90 of two values is the smaller one, and half of the runs take longer than the estimate says. -/
theorem percentile_misses : ¬ Covers [1, 10] (LearnedProfile.percentile [1, 10] (9 / 10)) ∧
    (twoRuns.estimate none none).durationP90Seconds = some 1 ∧
      ¬ Covers (twoRuns.observations.map (·.durationSeconds)) 1 :=
  ⟨by decide +kernel, by decide +kernel, by decide +kernel⟩

end Estimate

end AdaptiveExecutor
