import Mathlib.Algebra.Order.Monoid.Unbundled.Pow
import Mathlib.Algebra.Order.Monoid.Defs
import Mathlib.Data.List.Basic
import Mathlib.Order.Monotone.Basic

/-!
# Waiting in line

A line is served at later and later times. At each of them some of those who wait leave, from any place, and others
queue up behind.

* `Line` : who waits at each time, and who leaves;
* `Line.stays` : those in front of somebody who has not left only get fewer;
* `Line.waits_le` : if whoever comes first leaves within `b`, then everybody leaves within `b` for each place in line.
-/

namespace Backfill

structure Line (ι T : Type*) [Preorder T] where
  time : ℕ → T
  time_mono : Monotone time
  waiting : ℕ → List ι
  leaves : ℕ → ι → Bool
  arrivals : ℕ → List ι
  next : ∀ n, waiting (n + 1) = (waiting n).filter (fun x => !leaves n x) ++ arrivals n

namespace Line
variable {ι T : Type*}

section Order
variable [Preorder T] {l : Line ι T} {n j : ℕ} {x : ι} {before after : List ι}

/-- As long as somebody does not leave, those in front stay in their order or leave for good. -/
theorem stays (h : l.waiting n = before ++ x :: after) (hle : n ≤ j) (hx : ∀ i, n ≤ i → i < j → l.leaves i x = false) :
    ∃ before' after', l.waiting j = before' ++ x :: after' ∧ before'.Sublist before ∧
      ∀ i, n ≤ i → i < j → ∀ y ∈ before', l.leaves i y = false := by
  induction j, hle using Nat.le_induction with
  | base => exact ⟨before, after, h, .refl before, fun i hi hlt => absurd hlt (not_lt.mpr hi)⟩
  | succ j hj ih =>
    obtain ⟨before', after', hwaiting, hsub, hstay⟩ := ih fun i hi hlt => hx i hi (hlt.trans (Nat.lt_succ_self j))
    refine ⟨before'.filter fun y => !l.leaves j y, (after'.filter fun y => !l.leaves j y) ++ l.arrivals j, ?_,
      List.filter_sublist.trans hsub, fun i hi hlt y hy => ?_⟩
    · rw [l.next, hwaiting, List.filter_append, List.filter_cons_of_pos (by rw [hx j hj (Nat.lt_succ_self j)]; rfl)]
      simp
    · obtain ⟨hy, hleaves⟩ := List.mem_filter.mp hy
      rcases Nat.lt_succ_iff_lt_or_eq.mp hlt with hlt | rfl
      · exact hstay i hi hlt y hy
      · simpa using hleaves

end Order

section Bound
variable [AddCommMonoid T] [PartialOrder T] [IsOrderedAddMonoid T] {l : Line ι T} {n : ℕ} {x : ι} {b : T}

/-- **Nobody waits for ever**: if whoever comes first leaves within `b`, those further behind leave within `b` for each
place up to their own, whoever queues up behind them. -/
theorem waits_le (hb : 0 ≤ b) (hfirst : ∀ n x rest, l.waiting n = x :: rest →
    ∃ j, n ≤ j ∧ l.leaves j x = true ∧ l.time (j + 1) ≤ l.time n + b) {before after : List ι}
    (h : l.waiting n = before ++ x :: after) :
    ∃ j, n ≤ j ∧ l.leaves j x = true ∧ l.time (j + 1) ≤ l.time n + (before.length + 1) • b := by
  induction hk : before.length using Nat.strong_induction_on generalizing n before after with
  | _ k ih =>
    subst hk
    cases before with
    | nil =>
      obtain ⟨j, hj, hleaves, htime⟩ := hfirst n x after h
      exact ⟨j, hj, hleaves, htime.trans_eq (congrArg (l.time n + ·) (one_nsmul b).symm)⟩
    | cons y before =>
      obtain ⟨j, hj, hleaves, htime⟩ := hfirst n y _ h
      have hone : l.time n + b ≤ l.time n + ((y :: before).length + 1) • b := by
        refine add_le_add_right ?_ _
        calc b = 1 • b := (one_nsmul b).symm
          _ ≤ ((y :: before).length + 1) • b := nsmul_le_nsmul_left hb (by omega)
      by_cases hx : ∀ i, n ≤ i → i < j + 1 → l.leaves i x = false
      · -- the first one is gone, so there are fewer in front
        obtain ⟨before', after', hwaiting, hsub, hstay⟩ := stays h (hj.trans (Nat.le_succ j)) hx
        have hgone : y ∉ before' := fun hy => by
          rw [hstay j hj (Nat.lt_succ_self j) y hy] at hleaves
          cases hleaves
        have hfewer : before'.length < (y :: before).length := by
          refine lt_of_le_of_ne hsub.length_le fun hlen => hgone ?_
          rw [hsub.eq_of_length hlen]
          exact List.mem_cons_self
        obtain ⟨j', hj', hleaves', htime'⟩ := ih before'.length hfewer hwaiting rfl
        refine ⟨j', (hj.trans (Nat.le_succ j)).trans hj', hleaves', htime'.trans ?_⟩
        calc l.time (j + 1) + (before'.length + 1) • b
            ≤ l.time n + b + (before'.length + 1) • b := add_le_add_left htime _
          _ = l.time n + (before'.length + 1 + 1) • b := by rw [add_assoc, ← succ_nsmul' b]
          _ ≤ l.time n + ((y :: before).length + 1) • b := by
              refine add_le_add_right (nsmul_le_nsmul_left hb ?_) _
              omega
      · push Not at hx
        obtain ⟨i, hi, hlt, hleaves'⟩ := hx
        refine ⟨i, hi, by simpa using hleaves', le_trans (l.time_mono ?_) (htime.trans hone)⟩
        omega

end Bound

end Line

end Backfill
