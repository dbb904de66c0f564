import Mathlib.Data.List.Pairwise
import Mathlib.Data.List.ReduceOption
import Mathlib.Logic.Relation

/-!
# Mailboxes

A receiver takes one message after another off its queue, and finishes it before it takes the next. The sender may put a
seal behind the messages: it sends nothing any more, and the receiver takes nothing more when it has come to the seal.

* `Mailbox`, `Step` : the two ends of a queue, and what they do;
* `InOrder`, `Steps.inOrder` : what has been sent is what is finished, then what is at hand, then what waits;
* `Sealed`, `Steps.isSealed` : nothing waits behind a seal;
* `Sealed.finished` : a receiver that has come to the seal has finished all that it was sent.
-/

structure Mailbox (ι : Type*) where
  sent : List ι := []
  finished : List ι := []
  current : Option ι := none
  /-- What waits; a seal is a `none`. -/
  queue : List (Option ι) := []
  closed : Bool := false
  stopped : Bool := false

namespace Mailbox
open Relation (ReflTransGen)
variable {ι : Type*} {m m' : Mailbox ι}

def unfinished (m : Mailbox ι) : List ι := m.current.toList ++ m.queue.reduceOption

inductive Step (m : Mailbox ι) : Mailbox ι → Prop
  | send (x : ι) (hopen : m.closed = false) : Step m { m with sent := m.sent ++ [x], queue := m.queue ++ [some x] }
  | shut : Step m { m with queue := m.queue ++ [none], closed := true }
  | close : Step m { m with closed := true }
  | take {x : ι} {rest : List (Option ι)} (hgoing : m.stopped = false) (hidle : m.current = none)
    (hqueue : m.queue = some x :: rest) : Step m { m with current := some x, queue := rest }
  | stop {rest : List (Option ι)} (hidle : m.current = none) (hqueue : m.queue = none :: rest) :
    Step m { m with queue := rest, stopped := true }
  | finish {x : ι} (hcurrent : m.current = some x) : Step m { m with current := none, finished := m.finished ++ [x] }

abbrev Steps : Mailbox ι → Mailbox ι → Prop := ReflTransGen Step

theorem Steps.shut (m : Mailbox ι) : ∀ k : Nat,
    Steps m { m with queue := m.queue ++ List.replicate k none, closed := true }
  | 0 => by
    rw [List.replicate_zero, List.append_nil]
    exact .single .close
  | k + 1 => by
    rw [List.replicate_succ', ← List.append_assoc]
    exact (Steps.shut m k).tail .shut

/-! ## In order -/

def InOrder (m : Mailbox ι) : Prop := m.sent = m.finished ++ m.unfinished

theorem Step.inOrder (h : Step m m') (hm : m.InOrder) : m'.InOrder := by
  unfold InOrder unfinished at hm ⊢
  cases h with
  | send x =>
    dsimp only
    rw [hm, List.reduceOption_append, List.append_assoc, List.append_assoc]
    rfl
  | shut =>
    dsimp only
    rw [hm, List.reduceOption_append]
    simp [List.reduceOption]
  | close => exact hm
  | take _ hidle hqueue =>
    rw [hm, hidle, hqueue]
    rfl
  | stop _ hqueue =>
    rw [hm, hqueue]
    rfl
  | finish hcurrent =>
    dsimp only
    rw [hm, hcurrent, List.append_assoc]
    rfl

/-- **Messages are finished in the order in which they are sent**, none is lost and none is finished twice. -/
theorem Steps.inOrder (h : Steps m m') (hm : m.InOrder) : m'.InOrder := by
  induction h with
  | refl => exact hm
  | tail _ h ih => exact h.inOrder ih

/-! ## Seals -/

/-- Behind a seal there are only seals, there is none as long as the mailbox is open, and who has come to one is through. -/
structure Sealed (m : Mailbox ι) : Prop where
  behind : m.queue.Pairwise fun a b => a = none → b = none
  closed : none ∈ m.queue → m.closed = true
  through : m.stopped = true → m.closed = true ∧ m.current = none ∧ ∀ a ∈ m.queue, a = none

theorem Step.isSealed (h : Step m m') (hm : m.Sealed) : m'.Sealed := by
  cases h with
  | send x hopen =>
    have hnone : none ∉ m.queue := fun hnone => by
      rw [hm.closed hnone] at hopen
      cases hopen
    refine ⟨List.pairwise_append.mpr ⟨hm.behind, List.pairwise_singleton _ _, fun a ha b _ hnil => ?_⟩, fun h => ?_,
      fun hstopped => ?_⟩
    · subst hnil
      exact absurd ha hnone
    · rcases List.mem_append.mp h with h | h
      · exact absurd h hnone
      · cases List.mem_singleton.mp h
    · rw [(hm.through hstopped).1] at hopen
      cases hopen
  | shut =>
    refine ⟨List.pairwise_append.mpr ⟨hm.behind, List.pairwise_singleton _ _, fun a _ b hb _ => ?_⟩, fun _ => rfl,
      fun hstopped => ⟨rfl, (hm.through hstopped).2.1, fun a ha => ?_⟩⟩
    · exact List.mem_singleton.mp hb
    · rcases List.mem_append.mp ha with ha | ha
      · exact (hm.through hstopped).2.2 a ha
      · exact List.mem_singleton.mp ha
  | close => exact ⟨hm.behind, fun _ => rfl, fun hstopped => ⟨rfl, (hm.through hstopped).2⟩⟩
  | @take x rest hgoing _ hqueue =>
    obtain ⟨hbehind, hclosed, -⟩ := hm
    rw [hqueue] at hbehind hclosed
    refine ⟨hbehind.of_cons, fun hnone => hclosed (List.mem_cons_of_mem _ hnone), fun hstopped => ?_⟩
    rw [hgoing] at hstopped
    cases hstopped
  | @stop rest hidle hqueue =>
    obtain ⟨hbehind, hclosed, -⟩ := hm
    rw [hqueue] at hbehind hclosed
    exact ⟨hbehind.of_cons, fun hnone => hclosed (List.mem_cons_of_mem _ hnone), fun _ =>
      ⟨hclosed List.mem_cons_self, hidle, fun a ha => (List.pairwise_cons.mp hbehind).1 a ha rfl⟩⟩
  | finish hcurrent =>
    refine ⟨hm.behind, hm.closed, fun hstopped => ?_⟩
    rw [(hm.through hstopped).2.1] at hcurrent
    cases hcurrent

theorem Steps.isSealed (h : Steps m m') (hm : m.Sealed) : m'.Sealed := by
  induction h with
  | refl => exact hm
  | tail _ h ih => exact h.isSealed ih

/-- **Who has come to the seal is through** with all that was sent. -/
theorem Sealed.finished (hm : m.Sealed) (horder : m.InOrder) (hstopped : m.stopped = true) : m.finished = m.sent := by
  obtain ⟨-, hidle, hseals⟩ := hm.through hstopped
  have hnone : m.queue.reduceOption = [] := List.filterMap_eq_nil_iff.mpr hseals
  unfold InOrder unfinished at horder
  rw [horder, hidle, hnone]
  exact (List.append_nil _).symm

end Mailbox
