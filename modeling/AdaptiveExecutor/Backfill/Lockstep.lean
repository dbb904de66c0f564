import Mathlib.Data.List.Basic

/-!
# Two runs in lockstep

A machine takes items one after another, and answers each or passes over it. One run takes all items, the other only
those that are live.

* `Machine.outputs` : the answers of a run, with the keys of their items;
* `Machine.Silent` : up to the `n`-th answer to a live item, no dead item with a live one behind it changes the machine;
* `take_outputs_of_silent` : then the first `n` answers to live items are the same.
-/

namespace Lockstep

structure Machine (σ ι β : Type*) where
  answer : σ → ι → Option β
  next : σ → ι → σ

namespace Machine
variable {σ ι β κ : Type*} (m : Machine σ ι β) (key : ι → κ) (live : κ → Bool)

/-- The answers of a run, each with the key of its item. -/
def outputs : List ι → σ → List (κ × β)
  | [], _ => []
  | x :: xs, s => ((m.answer s x).map fun b => (key x, b)).toList ++ outputs xs (m.next s x)

def Silent : List ι → Nat → σ → Prop
  | [], _, _ => True
  | _ :: _, 0, _ => True
  | x :: xs, n + 1, s =>
    if live (key x) then Silent xs (if (m.answer s x).isSome then n else n + 1) (m.next s x)
    else (∃ y ∈ xs, live (key y) = true) → m.next s x = s ∧ Silent xs (n + 1) s

variable {m key live} {xs : List ι} {s : σ} {o : κ × β} {n : Nat} {x : ι}

theorem outputs_cons : m.outputs key (x :: xs) s =
    ((m.answer s x).map fun b => (key x, b)).toList ++ m.outputs key xs (m.next s x) := rfl

theorem silent_live (h : live (key x) = true) : m.Silent key live (x :: xs) (n + 1) s ↔
    m.Silent key live xs (if (m.answer s x).isSome then n else n + 1) (m.next s x) := by
  rw [Silent, if_pos h]

theorem silent_dead (h : live (key x) = false) : m.Silent key live (x :: xs) (n + 1) s ↔
    ((∃ y ∈ xs, live (key y) = true) → m.next s x = s ∧ m.Silent key live xs (n + 1) s) := by
  rw [Silent, if_neg (by rw [h]; exact Bool.false_ne_true)]

theorem key_of_mem_outputs : ∀ {xs : List ι} {s : σ}, o ∈ m.outputs key xs s → o.1 ∈ xs.map key
  | [], _, h => by cases h
  | x :: xs, s, h => by
    rcases List.mem_append.mp h with h | h
    · obtain ⟨b, -, rfl⟩ := Option.map_eq_some_iff.mp (Option.mem_toList.mp h)
      exact List.mem_cons_self
    · exact List.mem_cons_of_mem _ (key_of_mem_outputs h)

theorem outputs_of_dead (h : ∀ x ∈ xs, live (key x) = false) : ((m.outputs key xs s).filter fun o => live o.1) = [] := by
  rw [List.filter_eq_nil_iff]
  intro o ho
  obtain ⟨x, hx, hkey⟩ := List.mem_map.mp (key_of_mem_outputs ho)
  rw [← hkey, h x hx]
  exact Bool.false_ne_true

/-- **Silent dead items** make no difference to the first `n` answers to live ones. -/
theorem take_outputs_of_silent : ∀ {xs : List ι} {n : Nat} {s : σ}, m.Silent key live xs n s →
    ((m.outputs key xs s).filter fun o => live o.1).take n = (m.outputs key (xs.filter fun x => live (key x)) s).take n
  | [], _, _, _ => rfl
  | _ :: _, 0, _, _ => by rw [List.take_zero, List.take_zero]
  | x :: xs, n + 1, s, h => by
    cases hlive : live (key x) with
    | false =>
      have hdead : (((m.answer s x).map fun b => (key x, b)).toList.filter fun o => live o.1) = [] := by
        cases m.answer s x <;> simp [hlive]
      rw [outputs_cons, List.filter_append, hdead, List.nil_append,
        List.filter_cons_of_neg (by rw [hlive]; exact Bool.false_ne_true)]
      by_cases hbehind : ∃ y ∈ xs, live (key y) = true
      · obtain ⟨hnext, hrest⟩ := (silent_dead hlive).mp h hbehind
        rw [hnext]
        exact take_outputs_of_silent hrest
      · have hall : ∀ y ∈ xs, live (key y) = false := fun y hy => Bool.not_eq_true _ ▸ fun htrue => hbehind ⟨y, hy, htrue⟩
        rw [outputs_of_dead hall, List.filter_eq_nil_iff.mpr fun y hy => by rw [hall y hy]; exact Bool.false_ne_true]
        rfl
    | true =>
      have hrest := (silent_live hlive).mp h
      have hkeep : (x :: xs).filter (fun x => live (key x)) = x :: xs.filter fun x => live (key x) :=
        List.filter_cons_of_pos hlive
      rw [outputs_cons, List.filter_append, hkeep, outputs_cons]
      cases ha : m.answer s x with
      | none =>
        rw [ha] at hrest
        exact take_outputs_of_silent hrest
      | some b =>
        rw [ha] at hrest
        have hfirst : ((Option.some b).map fun b => (key x, b)).toList.filter (fun o => live o.1) = [(key x, b)] := by
          simp [hlive]
        rw [hfirst]
        exact congrArg (List.cons (key x, b)) (take_outputs_of_silent hrest)

end Machine

end Lockstep
