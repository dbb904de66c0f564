import Mathlib.Data.List.Basic
import Mathlib.Data.List.Infix

/-!
# Paths

Texts that are cut at a separator, and walks along a list of names through a graph whose steps can fail.

* `infix_append_cons_iff`, `infix_intercalate_iff` : a pattern without separators stands in one of the segments;
* `foldlM_forward` : a walk is imitated step by step from a related node;
* `foldlM_append_ok` : a walk along two paths, one after the other.
-/

namespace Paths

section Text
variable {α : Type} {a : α} {pat xs ys : List α}

/-- A pattern that does not go over the separator is on one side of it. -/
theorem infix_append_cons_iff (ha : a ∉ pat) : pat <:+: xs ++ a :: ys ↔ pat <:+: xs ∨ pat <:+: ys := by
  constructor
  · rintro ⟨s, t, h⟩
    rw [List.append_assoc] at h
    rcases List.append_eq_append_iff.mp h with ⟨zs, hxs, hrest⟩ | ⟨zs, -, hrest⟩
    · rcases List.append_eq_append_iff.mp hrest with ⟨us, hzs, -⟩ | ⟨us, hpat, hus⟩
      · refine .inl ⟨s, us, ?_⟩
        rw [hxs, hzs, List.append_assoc]
      · cases us with
        | nil =>
          rw [List.append_nil] at hpat
          exact .inl ⟨s, [], by rw [hxs, hpat, List.append_nil]⟩
        | cons u us =>
          rw [(List.cons.inj hus).1] at ha
          exact absurd (hpat ▸ List.mem_append_right _ List.mem_cons_self) ha
    · cases zs with
      | nil =>
        cases pat with
        | nil => exact .inl (List.nil_infix)
        | cons p pat =>
          rw [(List.cons.inj hrest).1] at ha
          exact absurd List.mem_cons_self ha
      | cons z zs =>
        refine .inr ⟨zs, t, ?_⟩
        rw [List.append_assoc]
        exact (List.cons.inj hrest).2.symm
  · rintro (h | h)
    · exact h.trans (List.prefix_append xs (a :: ys)).isInfix
    · exact h.trans ((List.suffix_cons a ys).trans (List.suffix_append xs (a :: ys))).isInfix

/-- A pattern without separators is in a text exactly when it is in one of its segments. -/
theorem infix_intercalate_iff (ha : a ∉ pat) (hpat : pat ≠ []) :
    ∀ segments : List (List α), pat <:+: [a].intercalate segments ↔ ∃ segment ∈ segments, pat <:+: segment
  | [] => by simp [hpat]
  | [segment] => by simp
  | segment :: next :: segments => by
    have h := infix_intercalate_iff ha hpat (next :: segments)
    rw [List.intercalate_cons_cons, List.append_assoc, List.singleton_append, infix_append_cons_iff ha, h]
    simp only [List.exists_mem_cons_iff]

end Text

section Walk
variable {σ τ ν ε ε' : Type} {f : σ → ν → Except ε σ} {g : τ → ν → Except ε' τ} {R : σ → τ → Prop}

/-- **Walks are imitated**: when single steps are, from related nodes, a walk along a path is. -/
theorem foldlM_forward (hstep : ∀ {a a' b x}, R a b → f a x = .ok a' → ∃ b', g b x = .ok b' ∧ R a' b') :
    ∀ {path : List ν} {a a' : σ} {b : τ}, R a b → path.foldlM f a = .ok a' → ∃ b', path.foldlM g b = .ok b' ∧ R a' b'
  | [], a, a', b, hab, h => ⟨b, rfl, Except.ok.inj h ▸ hab⟩
  | x :: path, a, a', b, hab, h => by
    rw [List.foldlM_cons] at h
    cases hx : f a x with
    | error e => rw [hx] at h; cases h
    | ok a₁ =>
      rw [hx] at h
      obtain ⟨b₁, hb₁, hR⟩ := hstep hab hx
      obtain ⟨b', hb', hR'⟩ := foldlM_forward hstep hR h
      refine ⟨b', ?_, hR'⟩
      rw [List.foldlM_cons, hb₁]
      exact hb'

theorem foldlM_concat_ok {path : List ν} {x : ν} {a c : σ} :
    (path ++ [x]).foldlM f a = .ok c ↔ ∃ b, path.foldlM f a = .ok b ∧ f b x = .ok c := by
  simp only [List.foldlM_append, List.foldlM_cons, List.foldlM_nil, bind_pure]
  constructor
  · intro h
    cases hb : path.foldlM f a with
    | error e => rw [hb] at h; cases h
    | ok b =>
      rw [hb] at h
      exact ⟨b, rfl, h⟩
  · rintro ⟨b, hb, hc⟩
    rw [hb]
    exact hc

end Walk

end Paths
