import Mathlib.Data.List.Basic
import Mathlib.Data.Option.Basic

/-!
# A lock and callbacks

What a thread does with a lock that it cannot take twice, and with the jobs that it settles. Settling a job runs the
callbacks of the job at once, in the same thread.

* `LockOp`, `Act` : taking and giving back the lock, and settling a job;
* `exec` : how far a thread gets, `none` when it waits for itself;
* `Unlocked` : no job is settled under the lock;
* `exec_of_unlocked`, `exec_eq_none` : then callbacks may take the lock, and only then;
* `block` : jobs settled in a row under the lock.
-/

namespace Ledger
variable {ι : Type*}

inductive LockOp
  | acquire
  | release
  deriving DecidableEq

/-- Whether the thread holds the lock afterwards; `none` when it waits for ever, or gives back what it does not hold. -/
def LockOp.exec (held : Bool) : LockOp → Option Bool
  | acquire => if held then none else some true
  | release => if held then some false else none

def LockOp.execs (held : Bool) (ops : List LockOp) : Option Bool := ops.foldlM LockOp.exec held

inductive Act (ι : Type*)
  | lock (op : LockOp)
  | settle (x : ι)
  deriving DecidableEq

/-- The acts of a thread, and whether it holds the lock afterwards; `none` when it does not get to the end. -/
def exec (callback : ι → List LockOp) (held : Bool) : List (Act ι) → Option Bool
  | [] => some held
  | .lock op :: acts => (op.exec held).bind fun held => exec callback held acts
  | .settle x :: acts => (LockOp.execs held (callback x)).bind fun held => exec callback held acts

abbrev quiet (held : Bool) (acts : List (Act ι)) : Option Bool := exec (fun _ => []) held acts

/-- Whether a thread that gets past the operation holds the lock. -/
def LockOp.after : LockOp → Bool
  | acquire => true
  | release => false

def Unlocked (held : Bool) : List (Act ι) → Prop
  | [] => True
  | .lock op :: acts => Unlocked op.after acts
  | .settle _ :: acts => held = false ∧ Unlocked held acts

def block (xs : List ι) : List (Act ι) := .lock .acquire :: xs.map .settle ++ [.lock .release]

variable {callback : ι → List LockOp} {held held' : Bool} {acts acts' : List (Act ι)} {xs : List ι}

theorem LockOp.exec_after {op : LockOp} (h : op.exec held = some held') : held' = op.after := by
  cases op <;> cases held <;> first | exact (Option.some.inj h).symm | cases h

theorem exec_append (callback : ι → List LockOp) : ∀ (held : Bool) (acts acts' : List (Act ι)),
    exec callback held (acts ++ acts') = (exec callback held acts).bind fun held => exec callback held acts'
  | _, [], _ => rfl
  | held, .lock op :: acts, acts' => by
    rw [List.cons_append, exec, exec, Option.bind_assoc]
    exact Option.bind_congr fun held _ => exec_append callback held acts acts'
  | held, .settle x :: acts, acts' => by
    rw [List.cons_append, exec, exec, Option.bind_assoc]
    exact Option.bind_congr fun held _ => exec_append callback held acts acts'

theorem unlocked_append (acts' : List (Act ι)) : ∀ {held : Bool} {acts : List (Act ι)}, quiet held acts = some held' →
    (Unlocked held (acts ++ acts') ↔ Unlocked held acts ∧ Unlocked held' acts')
  | _, [], h => by
    obtain rfl := Option.some.inj h
    exact iff_and_self.mpr fun _ => trivial
  | held, .lock op :: acts, h => by
    obtain ⟨held₁, hop, h⟩ := Option.bind_eq_some_iff.mp h
    obtain rfl := LockOp.exec_after hop
    change Unlocked op.after (acts ++ acts') ↔ Unlocked op.after acts ∧ Unlocked held' acts'
    exact unlocked_append acts' h
  | held, .settle x :: acts, h => by
    have hrest : Unlocked held (acts ++ acts') ↔ Unlocked held acts ∧ Unlocked held' acts' := unlocked_append acts' h
    rw [List.cons_append, Unlocked, Unlocked, hrest, and_assoc]

/-- **Callbacks that give the lock back** let the thread get on, if no job is settled under the lock. -/
theorem exec_of_unlocked (hfree : ∀ x, LockOp.execs false (callback x) = some false) : ∀ {held : Bool}
    {acts : List (Act ι)}, quiet held acts = some held' → Unlocked held acts → exec callback held acts = some held'
  | _, [], h, _ => h
  | held, .lock op :: acts, h, hunlocked => by
    obtain ⟨held₁, hop, h⟩ := Option.bind_eq_some_iff.mp h
    obtain rfl := LockOp.exec_after hop
    exact Option.bind_eq_some_iff.mpr ⟨op.after, hop, exec_of_unlocked hfree h hunlocked⟩
  | held, .settle x :: acts, h, ⟨hheld, hunlocked⟩ => by
    subst hheld
    exact Option.bind_eq_some_iff.mpr ⟨false, hfree x, exec_of_unlocked hfree h hunlocked⟩

/-- **Callbacks that take the lock** stop the thread for ever, if a job is settled under the lock. -/
theorem exec_eq_none (hfree : ∀ x, LockOp.execs false (callback x) = some false)
    (htakes : ∀ x, LockOp.execs true (callback x) = none) : ∀ {held : Bool} {acts : List (Act ι)},
    quiet held acts = some held' → ¬ Unlocked held acts → exec callback held acts = none
  | _, [], _, hlocked => absurd trivial hlocked
  | held, .lock op :: acts, h, hlocked => by
    obtain ⟨held₁, hop, h⟩ := Option.bind_eq_some_iff.mp h
    obtain rfl := LockOp.exec_after hop
    rw [exec, hop]
    exact exec_eq_none hfree htakes h hlocked
  | true, .settle x :: acts, h, _ => by
    rw [exec, htakes x]
    rfl
  | false, .settle x :: acts, h, hlocked => by
    rw [exec, hfree x]
    exact exec_eq_none hfree htakes h fun hunlocked => hlocked ⟨rfl, hunlocked⟩

/-! ## Blocks -/

theorem quiet_settles (held : Bool) : ∀ xs : List ι, quiet held (xs.map Act.settle) = some held
  | [] => rfl
  | _ :: xs => quiet_settles held xs

theorem quiet_block (xs : List ι) : quiet false (block xs) = some false := by
  have hsettles := quiet_settles true xs
  change quiet true (xs.map Act.settle ++ [.lock .release]) = some false
  unfold quiet at hsettles ⊢
  rw [exec_append, hsettles]
  rfl

theorem unlocked_block : Unlocked false (block xs) ↔ xs = [] := by
  cases xs with
  | nil => exact iff_of_true trivial rfl
  | cons x xs => exact iff_of_false (fun h => by cases h.1) (List.cons_ne_nil x xs)

theorem settle_mem_block {x : ι} : .settle x ∈ block xs ↔ x ∈ xs := by
  simp [block]

end Ledger
