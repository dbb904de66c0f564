import Mathlib.Data.List.Perm.Basic
import Mathlib.Logic.Function.Basic
import Mathlib.Logic.Relation

/-!
# A ledger of promised outcomes

Whoever accepts a job hands out a future for it, and then keeps the job in a queue, in flight, or in the hand of
whoever is about to settle or requeue it.

* `Future` : the states of a future and what callers and owners do to it;
* `Book`, `Move` : where every job is, and the moves between the places;
* `Tidy` : no job is in two places; `Move.tidy`, `run_tidy` : moves keep it, and so does losing a job (`Tidy.lose`);
* `Placed` : every accepted job is in a place or done; `Move.placed`, `run_placed` : moves keep it;
* `Move.outcome`, `run_outcome` : what a done future tells its waiters never changes;
* `run_future_eq` : nobody changes the future of a job that has not been accepted.
-/

namespace Ledger

/-! ## Futures -/

inductive Future (ω : Type*)
  | pending
  | running
  | cancelled
  | cancelledAndNotified
  | finished (outcome : ω)
  deriving DecidableEq

namespace Future
variable {ω : Type*}

def done : Future ω → Bool
  | pending | running => false
  | cancelled | cancelledAndNotified | finished _ => true

/-- Its waiters have been told: it is finished, or its cancellation has been seen. -/
def told : Future ω → Bool
  | pending | running | cancelled => false
  | cancelledAndNotified | finished _ => true

/-- What a done future tells: `some none` when it was cancelled. -/
def outcome : Future ω → Option (Option ω)
  | pending | running => none
  | cancelled | cancelledAndNotified => some none
  | finished o => some (some o)

/-- The caller cancels: it only wins while the job has not been started. -/
def cancel : Future ω → Future ω
  | pending => cancelled
  | f => f

/-- What the call of `cancel` answers. -/
def cancels : Future ω → Bool
  | running | finished _ => false
  | pending | cancelled | cancelledAndNotified => true

/-- What `cancelled` answers. -/
def isCancelled : Future ω → Bool
  | cancelled | cancelledAndNotified => true
  | pending | running | finished _ => false

/-- The owner is about to start the job: `some (_, false)` when it was cancelled, `none` when the call raises. -/
def setRunningOrNotifyCancel : Future ω → Option (Future ω × Bool)
  | pending => some (running, true)
  | cancelled => some (cancelledAndNotified, false)
  | _ => none

/-- The owner sets the outcome, unless the future is already done. -/
def settle (o : ω) (f : Future ω) : Future ω := if f.done then f else finished o

theorem outcome_isSome (f : Future ω) : f.outcome.isSome = f.done := by cases f <;> rfl

theorem of_outcome {f : Future ω} {o : ω} (h : f.outcome = some (some o)) : f = .finished o := by
  cases f with
  | finished o' => exact congrArg finished (Option.some.inj (Option.some.inj h))
  | _ => cases h

theorem settle_done (o : ω) (f : Future ω) : (f.settle o).done = true := by
  unfold settle
  split_ifs with h
  exacts [h, rfl]

theorem settle_told {o : ω} {f : Future ω} (h : f = .running ∨ f.told = true) : (f.settle o).told = true := by
  rcases h with rfl | h
  · rfl
  · cases f <;> first | rfl | cases h

theorem settle_outcome {o : ω} {f : Future ω} {r : Option ω} (h : f.outcome = some r) :
    (f.settle o).outcome = some r := by
  rw [settle, if_pos (by rw [← outcome_isSome, h]; rfl)]
  exact h

theorem settle_cancels {o : ω} {f : Future ω} (h : f.cancels = false) : (f.settle o).cancels = false := by
  cases f <;> first | rfl | cases h

theorem cancel_of_cancels {f : Future ω} (h : f.cancels = false) : f.cancel = f := by
  cases f <;> first | rfl | cases h

theorem of_settle_cancelled {o : ω} {f : Future ω} (h : (f.settle o).outcome = some none) : f.outcome = some none := by
  cases f <;> first | exact h | cases h

theorem cancel_done {f : Future ω} (h : f.done = true) : f.cancel.done = true := by
  cases f <;> first | rfl | cases h

theorem cancel_told {f : Future ω} (h : f = .running ∨ f.told = true) : f.cancel = .running ∨ f.cancel.told = true := by
  rcases h with rfl | h
  · exact .inl rfl
  · cases f <;> first | exact .inr rfl | cases h

theorem of_cancel_running {f : Future ω} (h : f.cancel = .running) : f = .running := by
  cases f <;> first | rfl | cases h

theorem of_cancel_finished {f : Future ω} {o : ω} (h : f.cancel = .finished o) : f = .finished o := by
  cases f <;> first | exact h | cases h

theorem cancel_outcome {f : Future ω} {r : Option ω} (h : f.outcome = some r) : f.cancel.outcome = some r := by
  cases f <;> first | exact h | cases h

end Future

/-! ## Books and moves -/

structure Book (ι ω : Type*) where
  accepted : List ι
  queue : List ι
  flight : List ι
  held : List ι
  future : ι → Future ω

variable {ι ω : Type*} [DecidableEq ι]

/-- A job is lost from flight: its future may wait for ever. This is no move. -/
def Book.lose (b : Book ι ω) (x : ι) : Book ι ω := { b with flight := b.flight.erase x }

inductive Move (b : Book ι ω) : Book ι ω → Prop
  | accept {x : ι} (hx : x ∉ b.accepted) (hf : b.future x = .pending) :
    Move b { b with accepted := b.accepted ++ [x], queue := b.queue ++ [x] }
  | cancel {x : ι} (hx : x ∈ b.accepted) : Move b { b with future := Function.update b.future x (b.future x).cancel }
  /-- A queued job is given up: its future is done, and if it was so before, with the outcome that it had. -/
  | drop {x : ι} {f : Future ω} (hx : x ∈ b.queue) (hdone : f.done = true)
      (hkeep : ∀ r, (b.future x).outcome = some r → f.outcome = some r) :
    Move b { b with queue := b.queue.erase x, future := Function.update b.future x f }
  | ship {x : ι} (hx : x ∈ b.queue) (hf : (b.future x).done = false) :
    Move b { b with
      queue := b.queue.erase x
      flight := b.flight ++ [x]
      future := Function.update b.future x .running }
  | take {x : ι} (hx : x ∈ b.flight) : Move b { b with flight := b.flight.erase x, held := x :: b.held }
  | settle {x : ι} (o : ω) (hx : x ∈ b.held) :
    Move b { b with held := b.held.erase x, future := Function.update b.future x ((b.future x).settle o) }
  | requeue {x : ι} (hx : x ∈ b.held) : Move b { b with queue := x :: b.queue, held := b.held.erase x }
  /-- Whose hand a job is in does not matter. -/
  | reorder {hs : List ι} (h : hs.Perm b.held) : Move b { b with held := hs }

abbrev Run : Book ι ω → Book ι ω → Prop := Relation.ReflTransGen Move

/-! ## Outcomes -/

theorem Move.outcome {b b' : Book ι ω} (h : Move b b') {x : ι} {r : Option ω}
    (hr : (b.future x).outcome = some r) : (b'.future x).outcome = some r := by
  have update {y : ι} {f : Future ω} (hf : ∀ r, (b.future y).outcome = some r → f.outcome = some r) :
      (Function.update b.future y f x).outcome = some r := by
    by_cases hxy : x = y
    · subst hxy
      rw [Function.update_self]
      exact hf r hr
    · rwa [Function.update_of_ne hxy]
  cases h with
  | accept => exact hr
  | cancel => exact update fun _ => Future.cancel_outcome
  | drop _ _ hkeep => exact update hkeep
  | @ship y _ hf =>
    refine update fun r hy => ?_
    rw [← Future.outcome_isSome, hy] at hf
    cases hf
  | take => exact hr
  | settle o => exact update fun _ => Future.settle_outcome
  | requeue => exact hr
  | reorder => exact hr

/-- **What a done future tells never changes.** -/
theorem run_outcome {b b' : Book ι ω} (h : Run b b') {x : ι} {r : Option ω}
    (hr : (b.future x).outcome = some r) : (b'.future x).outcome = some r := by
  induction h with
  | refl => exact hr
  | tail _ h ih => exact h.outcome ih

/-! ## Places -/

/-- No job is in two places; in flight and in hand the futures run, in the queue nobody has been told anything. -/
structure Tidy (b : Book ι ω) : Prop where
  nodup : (b.queue ++ (b.flight ++ b.held)).Nodup
  known : ∀ x ∈ b.queue ++ (b.flight ++ b.held), x ∈ b.accepted
  running : ∀ x ∈ b.flight ++ b.held, b.future x = .running
  queued : ∀ x ∈ b.queue, (b.future x).told = false

def Placed (b : Book ι ω) : Prop :=
  ∀ x ∈ b.accepted, x ∈ b.queue ++ (b.flight ++ b.held) ∨ (b.future x).done = true

theorem erase_perm_of_mem {xs ys : List ι} {x : ι} (h : x ∈ xs) : (xs ++ ys).Perm (x :: (xs.erase x ++ ys)) :=
  ((List.perm_cons_erase h).append_right ys).trans (by rw [List.cons_append])

omit [DecidableEq ι] in
theorem Tidy.of_perm {b b' : Book ι ω} (hb : Tidy b) (hacc : b'.accepted = b.accepted)
    (hperm : (b'.queue ++ (b'.flight ++ b'.held)).Perm (b.queue ++ (b.flight ++ b.held)))
    (hrun : ∀ x ∈ b'.flight ++ b'.held, b'.future x = .running)
    (hqueue : ∀ x ∈ b'.queue, (b'.future x).told = false) :
    Tidy b' := by
  refine ⟨hperm.nodup_iff.mpr hb.nodup, fun x hx => ?_, hrun, hqueue⟩
  rw [hacc]
  exact hb.known x (hperm.mem_iff.mp hx)

omit [DecidableEq ι] in
/-- A job leaves, and the others are where they were with the futures that they had. -/
theorem Tidy.of_leave {b b' : Book ι ω} (hb : Tidy b) {x : ι} (hacc : b'.accepted = b.accepted)
    (hperm : (b.queue ++ (b.flight ++ b.held)).Perm (x :: (b'.queue ++ (b'.flight ++ b'.held))))
    (hfuture : ∀ y, y ≠ x → b'.future y = b.future y) (hqueue : b'.queue.Sublist b.queue)
    (hflight : (b'.flight ++ b'.held).Sublist (b.flight ++ b.held)) :
    Tidy b' := by
  have hnodup := hperm.nodup_iff.mp hb.nodup
  rw [List.nodup_cons] at hnodup
  obtain ⟨hgone, hnodup⟩ := hnodup
  have hne : ∀ y ∈ b'.queue ++ (b'.flight ++ b'.held), y ≠ x := fun y hy he => hgone (he ▸ hy)
  refine ⟨hnodup, fun y hy => ?_, fun y hy => ?_, fun y hy => ?_⟩
  · rw [hacc]
    exact hb.known y (hperm.mem_iff.mpr (List.mem_cons_of_mem x hy))
  · rw [hfuture y (hne y (List.mem_append_right _ hy))]
    exact hb.running y (hflight.subset hy)
  · rw [hfuture y (hne y (List.mem_append_left _ hy))]
    exact hb.queued y (hqueue.subset hy)

omit [DecidableEq ι] in
theorem Placed.of_perm {b b' : Book ι ω} (hb : Placed b) (hacc : b'.accepted = b.accepted)
    (hperm : (b'.queue ++ (b'.flight ++ b'.held)).Perm (b.queue ++ (b.flight ++ b.held)))
    (hdone : ∀ x, (b.future x).done = true → (b'.future x).done = true) :
    Placed b' := by
  intro x hx
  rw [hacc] at hx
  exact (hb x hx).imp hperm.mem_iff.mpr (hdone x)

omit [DecidableEq ι] in
theorem Placed.of_leave {b b' : Book ι ω} (hb : Placed b) {x : ι} (hacc : b'.accepted = b.accepted)
    (hperm : (b.queue ++ (b.flight ++ b.held)).Perm (x :: (b'.queue ++ (b'.flight ++ b'.held))))
    (hx : (b'.future x).done = true) (hfuture : ∀ y, y ≠ x → b'.future y = b.future y) :
    Placed b' := by
  intro y hy
  rw [hacc] at hy
  by_cases hyx : y = x
  · exact .inr (hyx ▸ hx)
  · rw [hfuture y hyx]
    exact (hb y hy).imp_left fun hm => (List.mem_cons.mp (hperm.mem_iff.mp hm)).resolve_left hyx

omit [DecidableEq ι] in
theorem Tidy.not_mem_flight {b : Book ι ω} (hb : Tidy b) {x : ι} (hx : x ∈ b.queue) : x ∉ b.flight ++ b.held :=
  fun h => (List.nodup_append.mp hb.nodup).2.2 x hx x h rfl

theorem Tidy.lose {b : Book ι ω} (hb : Tidy b) {x : ι} (hx : x ∈ b.flight) : Tidy (b.lose x) :=
  hb.of_leave rfl ((List.Perm.append_left _ (erase_perm_of_mem hx)).trans List.perm_middle) (fun _ _ => rfl) (.refl _)
    (List.erase_sublist.append_right _)

theorem Tidy.start {b : Book ι ω} (hb : Tidy b) (x : ι) : Tidy { b with future := Function.update b.future x .running } := by
  refine hb.of_perm rfl (.refl _) (fun y hy => ?_) fun y hy => ?_ <;> dsimp only
  · by_cases hyx : y = x
    · exact hyx ▸ Function.update_self _ _ _
    · rw [Function.update_of_ne hyx]
      exact hb.running y hy
  · by_cases hyx : y = x
    · rw [hyx, Function.update_self]
      rfl
    · rw [Function.update_of_ne hyx]
      exact hb.queued y hy

section Permutations
variable {b : Book ι ω} {x : ι}

theorem perm_ship (hx : x ∈ b.queue) :
    (b.queue.erase x ++ (b.flight ++ [x] ++ b.held)).Perm (b.queue ++ (b.flight ++ b.held)) := by
  refine ((erase_perm_of_mem hx).trans ?_).symm
  rw [List.append_assoc, List.singleton_append]
  exact List.perm_middle.symm.trans (List.Perm.append_left _ List.perm_middle.symm)

theorem perm_take (hx : x ∈ b.flight) : (b.flight.erase x ++ x :: b.held).Perm (b.flight ++ b.held) :=
  List.perm_middle.trans (erase_perm_of_mem hx).symm

theorem perm_held (hx : x ∈ b.held) :
    (b.queue ++ (b.flight ++ b.held)).Perm (x :: (b.queue ++ (b.flight ++ b.held.erase x))) := by
  refine (List.Perm.append_left _ (List.Perm.append_left _ (List.perm_cons_erase hx))).trans ?_
  exact (List.Perm.append_left _ List.perm_middle).trans List.perm_middle

omit [DecidableEq ι] in
theorem perm_accept : (b.queue ++ [x] ++ (b.flight ++ b.held)).Perm (x :: (b.queue ++ (b.flight ++ b.held))) := by
  rw [List.append_assoc, List.singleton_append]
  exact List.perm_middle

end Permutations

/-- **Moves keep every job in at most one place.** -/
theorem Move.tidy {b b' : Book ι ω} (h : Move b b') (hb : Tidy b) : Tidy b' := by
  cases h with
  | @accept x hx hf =>
    have hnew : x ∉ b.queue ++ (b.flight ++ b.held) := fun hmem => hx (hb.known x hmem)
    refine ⟨perm_accept.nodup_iff.mpr (List.nodup_cons.mpr ⟨hnew, hb.nodup⟩), fun y hy => ?_, hb.running,
      fun y hy => ?_⟩
    · rcases List.mem_cons.mp (perm_accept.mem_iff.mp hy) with rfl | hy
      · exact List.mem_append_right _ List.mem_cons_self
      · exact List.mem_append_left _ (hb.known y hy)
    · rcases List.mem_append.mp hy with hy | hy
      · exact hb.queued y hy
      · rw [List.mem_singleton.mp hy, hf]
        rfl
  | @cancel x _ =>
    -- only a pending future changes
    have hcase : ∀ y, Function.update b.future x (b.future x).cancel y = b.future y ∨
        b.future y = .pending ∧ Function.update b.future x (b.future x).cancel y = .cancelled := by
      intro y
      by_cases hyx : y = x
      · subst hyx
        rw [Function.update_self]
        cases b.future y <;> first | exact .inl rfl | exact .inr ⟨rfl, rfl⟩
      · exact .inl (Function.update_of_ne hyx _ _)
    refine hb.of_perm rfl (.refl _) (fun y hy => ?_) fun y hy => ?_
    · rcases hcase y with h | ⟨h, -⟩
      · exact h.trans (hb.running y hy)
      · rw [hb.running y hy] at h; cases h
    · dsimp only
      rcases hcase y with h | ⟨-, h⟩
      · rw [h]; exact hb.queued y hy
      · rw [h]; rfl
  | drop hx =>
    exact hb.of_leave rfl (erase_perm_of_mem hx) (fun y hy => Function.update_of_ne hy _ _) List.erase_sublist (.refl _)
  | @ship x hx hf =>
    have hgone : x ∉ b.queue.erase x :=
      (List.nodup_cons.mp ((List.perm_cons_erase hx).nodup_iff.mp (List.nodup_append.mp hb.nodup).1)).1
    refine hb.of_perm rfl (perm_ship hx) (fun y hy => ?_) fun y hy => ?_
    · dsimp only
      by_cases hyx : y = x
      · subst hyx
        exact Function.update_self y _ _
      · rw [Function.update_of_ne hyx]
        refine hb.running y ?_
        rw [List.append_assoc, List.singleton_append] at hy
        simpa [hyx] using hy
    · dsimp only
      rw [Function.update_of_ne]
      · exact hb.queued y (List.erase_subset hy)
      · rintro rfl
        exact hgone hy
  | take hx =>
    exact hb.of_perm rfl ((perm_take hx).append_left _) (fun y hy => hb.running y ((perm_take hx).mem_iff.mp hy)) hb.queued
  | settle o hx =>
    exact hb.of_leave rfl (perm_held hx) (fun y hy => Function.update_of_ne hy _ _) (.refl _)
      ((List.Sublist.refl _).append List.erase_sublist)
  | @requeue x hx =>
    refine hb.of_perm rfl (perm_held hx).symm (fun y hy => hb.running y ?_) fun y hy => ?_
    · exact ((List.Sublist.refl _).append List.erase_sublist).subset hy
    · rcases List.mem_cons.mp hy with rfl | hy
      · dsimp only
        rw [hb.running y (List.mem_append_right _ hx)]
        rfl
      · exact hb.queued y hy
  | reorder h =>
    refine hb.of_perm rfl (List.Perm.append_left _ (List.Perm.append_left _ h)) (fun y hy => ?_) hb.queued
    exact hb.running y ((List.Perm.append_left _ h).mem_iff.mp hy)

theorem run_tidy {b b' : Book ι ω} (h : Run b b') (hb : Tidy b) : Tidy b' := by
  induction h with
  | refl => exact hb
  | tail _ h ih => exact h.tidy ih

/-- **Moves lose no job.** -/
theorem Move.placed {b b' : Book ι ω} (h : Move b b') (hb : Placed b) : Placed b' := by
  have update {x : ι} {f : Future ω} (hf : (b.future x).done = true → f.done = true) (y : ι)
      (hy : (b.future y).done = true) : (Function.update b.future x f y).done = true := by
    by_cases hyx : y = x
    · subst hyx
      rw [Function.update_self]
      exact hf hy
    · rwa [Function.update_of_ne hyx]
  cases h with
  | @accept x =>
    intro y hy
    rcases List.mem_append.mp hy with hy | hy
    · exact (hb y hy).imp_left fun hm => perm_accept.mem_iff.mpr (List.mem_cons_of_mem x hm)
    · exact .inl (perm_accept.mem_iff.mpr (List.mem_cons.mpr (.inl (List.mem_singleton.mp hy))))
  | cancel => exact hb.of_perm rfl (.refl _) (update Future.cancel_done)
  | drop hx hdone =>
    exact hb.of_leave rfl (erase_perm_of_mem hx) (by simpa using hdone) fun y hy => Function.update_of_ne hy _ _
  | ship hx hf => exact hb.of_perm rfl (perm_ship hx) (update fun h => by rw [hf] at h; cases h)
  | take hx => exact hb.of_perm rfl ((perm_take hx).append_left _) fun _ h => h
  | settle o hx =>
    exact hb.of_leave rfl (perm_held hx) (by simpa using Future.settle_done o _) fun y hy => Function.update_of_ne hy _ _
  | requeue hx => exact hb.of_perm rfl (perm_held hx).symm fun _ h => h
  | reorder h => exact hb.of_perm rfl (List.Perm.append_left _ (List.Perm.append_left _ h)) fun _ h => h

theorem run_placed {b b' : Book ι ω} (h : Run b b') (hb : Placed b) : Placed b' := by
  induction h with
  | refl => exact hb
  | tail _ h ih => exact h.placed ih

theorem Move.future_eq {b b' : Book ι ω} (h : Move b b') (hb : Tidy b) {x : ι} (hx : x ∉ b'.accepted) :
    b'.future x = b.future x ∧ x ∉ b.accepted := by
  have known {y : ι} (hy : y ∈ b.queue ++ (b.flight ++ b.held)) (hx : x ∉ b.accepted) (f : Future ω) :
      Function.update b.future y f x = b.future x :=
    Function.update_of_ne (fun he => hx (by rw [he]; exact hb.known y hy)) _ _
  cases h with
  | accept => exact ⟨rfl, fun hmem => hx (List.mem_append_left _ hmem)⟩
  | @cancel y hy => exact ⟨Function.update_of_ne (fun he => hx (by rw [he]; exact hy)) _ _, hx⟩
  | drop hy => exact ⟨known (List.mem_append_left _ hy) hx _, hx⟩
  | ship hy => exact ⟨known (List.mem_append_left _ hy) hx _, hx⟩
  | take => exact ⟨rfl, hx⟩
  | settle o hy => exact ⟨known (List.mem_append_right _ (List.mem_append_right _ hy)) hx _, hx⟩
  | requeue => exact ⟨rfl, hx⟩
  | reorder => exact ⟨rfl, hx⟩

theorem run_future_eq {b b' : Book ι ω} (h : Run b b') (hb : Tidy b) {x : ι} (hx : x ∉ b'.accepted) :
    b'.future x = b.future x := by
  induction h with
  | refl => rfl
  | tail hrun h ih =>
    obtain ⟨heq, hx⟩ := h.future_eq (run_tidy hrun hb) hx
    exact heq.trans (ih hx)

end Ledger
