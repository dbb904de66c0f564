import Mathlib.Data.List.Basic
import Mathlib.Order.Basic

/-!
# Writing back snapshots

Versions grow. A snapshot is taken of the present version, and is written at some later time of its own.

* `State`, `State.take`, `State.write` : the snapshots that wait, and those that have been written, in order;
* `Overtakes` : a snapshot is written while an older one has to wait;
* `Ordered` : what is written never goes backwards, nor will what waits; `Ordered.take`, `Ordered.write` : it is kept as
  long as nothing is overtaken;
* `Overtaken` : a snapshot is behind another one, or still waits to be; `Overtaken.of_write` : this is what overtaking
  leads to, and it is never undone.
-/

namespace Writeback

structure State (β : Type*) where
  waiting : List β := []
  written : List β := []

variable {β : Type*}

namespace State
variable (s : State β)

def take (b : β) : State β := { s with waiting := s.waiting ++ [b] }

def write (i : Nat) : Option (State β × β) :=
  s.waiting[i]?.map fun b => ({ waiting := s.waiting.eraseIdx i, written := s.written ++ [b] }, b)

end State

variable {s s' : State β} {a b : β} {i : Nat}

theorem write_some (h : s.write i = some (s', b)) : s.waiting[i]? = some b ∧ b ∈ s.waiting ∧
    s' = { waiting := s.waiting.eraseIdx i, written := s.written ++ [b] } := by
  obtain ⟨b', hb, heq⟩ := Option.map_eq_some_iff.mp h
  obtain ⟨rfl, rfl⟩ := Prod.mk.inj heq
  exact ⟨hb, List.mem_of_getElem? hb, rfl⟩

section Order
variable [Preorder β]

/-- The snapshot at the index would be written before one that is not as new. -/
def Overtakes (s : State β) (i : Nat) : Prop := ∃ a ∈ s.waiting[i]?, ∃ b ∈ s.waiting, ¬ a ≤ b

instance [DecidableLE β] (s : State β) (i : Nat) : Decidable (Overtakes s i) :=
  inferInstanceAs (Decidable (∃ a ∈ s.waiting[i]?, ∃ b ∈ s.waiting, ¬ a ≤ b))

/-- Nothing that has been written is newer than what comes after it. -/
structure Ordered (s : State β) : Prop where
  written : s.written.Pairwise (· ≤ ·)
  waiting : ∀ a ∈ s.written, ∀ b ∈ s.waiting, a ≤ b

theorem Ordered.empty : Ordered ({} : State β) := ⟨.nil, fun _ h => by cases h⟩

theorem Ordered.take (h : Ordered s) (hb : ∀ a ∈ s.written, a ≤ b) : Ordered (s.take b) := by
  refine ⟨h.written, fun a ha b' hb' => ?_⟩
  rcases List.mem_append.mp hb' with hb' | hb'
  · exact h.waiting a ha b' hb'
  · rw [List.mem_singleton.mp hb']
    exact hb a ha

theorem Ordered.write (h : Ordered s) (hwrite : s.write i = some (s', b)) (hno : ¬ Overtakes s i) : Ordered s' := by
  obtain ⟨hi, hmem, rfl⟩ := write_some hwrite
  refine ⟨?_, fun a ha b' hb' => ?_⟩
  · refine List.pairwise_append.mpr ⟨h.written, List.pairwise_singleton _ b, fun a ha b' hb' => ?_⟩
    rw [List.mem_singleton.mp hb']
    exact h.waiting a ha b hmem
  · have hb' : b' ∈ s.waiting := (List.eraseIdx_sublist s.waiting i).subset hb'
    rcases List.mem_append.mp ha with ha | ha
    · exact h.waiting a ha b' hb'
    · rw [List.mem_singleton.mp ha]
      by_contra hnot
      exact hno ⟨b, hi, b', hb', hnot⟩

end Order

/-! ## What is overtaken -/

/-- `b` waits, or has been written after `a`. -/
def Overtaken (a b : β) (s : State β) : Prop := (a ∈ s.written ∧ b ∈ s.waiting) ∨ [a, b].Sublist s.written

theorem Overtaken.take (h : Overtaken a b s) (c : β) : Overtaken a b (s.take c) := by
  rcases h with ⟨ha, hb⟩ | h
  · exact .inl ⟨ha, List.mem_append_left [c] hb⟩
  · exact .inr h

theorem Overtaken.write (h : Overtaken a b s) {c : β} (hwrite : s.write i = some (s', c)) : Overtaken a b s' := by
  obtain ⟨hi, -, rfl⟩ := write_some hwrite
  rcases h with ⟨ha, hb⟩ | h
  · by_cases hbc : b = c
    · subst hbc
      exact .inr (List.Sublist.append (List.singleton_sublist.mpr ha) (.refl [b]))
    · refine .inl ⟨List.mem_append_left [c] ha, ?_⟩
      obtain ⟨j, hj⟩ := List.getElem?_of_mem hb
      refine List.mem_eraseIdx_iff_getElem?.mpr ⟨j, ?_, hj⟩
      rintro rfl
      exact hbc (Option.some.inj (hj.symm.trans hi))
  · exact .inr (h.trans (List.sublist_append_left _ _))

/-- **Overtaking** leaves something behind that is not as new. -/
theorem Overtaken.of_write [Preorder β] (hwrite : s.write i = some (s', a)) (h : Overtakes s i) :
    ∃ b, ¬ a ≤ b ∧ Overtaken a b s' := by
  obtain ⟨hi, -, rfl⟩ := write_some hwrite
  obtain ⟨a', ha', b, hb, hnot⟩ := h
  obtain rfl : a' = a := Option.some.inj (ha'.symm.trans hi)
  refine ⟨b, hnot, .inl ⟨List.mem_append_right _ List.mem_cons_self, ?_⟩⟩
  obtain ⟨j, hj⟩ := List.getElem?_of_mem hb
  refine List.mem_eraseIdx_iff_getElem?.mpr ⟨j, ?_, hj⟩
  rintro rfl
  exact hnot (Option.some.inj (hj.symm.trans hi)).ge

theorem Overtaken.not_ordered [Preorder β] (h : Overtaken a b s) (hempty : s.waiting = []) (hnot : ¬ a ≤ b) :
    ¬ s.written.Pairwise (· ≤ ·) := by
  intro hordered
  rcases h with ⟨-, hb⟩ | h
  · rw [hempty] at hb
    cases hb
  · have hpair := hordered.sublist h
    simp only [List.pairwise_cons, List.mem_singleton, forall_eq] at hpair
    exact hnot hpair.1

end Writeback
