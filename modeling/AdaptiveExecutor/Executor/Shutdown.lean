import AdaptiveExecutor.Executor.Exclusive

/-!
# Shutdown

`shutdown(wait=True)` fails the queue, waits until nothing is in flight, and then stops the workers. It leaves a future
unresolved when a task gets into the queue behind its back: a crash retry, or a submit that had passed the check of
`_accepting`. After a `shutdown(wait=False)` it returns at once.

* `PastWait` : the wait is over; `Quiet` : no task is left to wait for;
* `Clean` : the condition on an event;
* `run_shutdown` : the sections that set `_shutdown`;
* `run_quiet`, `Stepped.quiet` : nothing gets into the places of a quiet executor;
* `Ordered` : where the sections of `shutdown` are; `Winding` : the invariant of the runs with clean events;
* `shutdown_resolves` : in these runs, once shutdown has returned, all futures are done;
* `shutdown_strands` : without the condition they need not be.
-/

namespace AdaptiveExecutor
open Ledger (Placed)
open Relation (ReflTransGen)

namespace Section
variable {α : Type}

/-- The test of `_wait_for_in_flight`. -/
def tests : Section α → Bool
  | .testInFlight => true
  | _ => false

/-- The sections that must not run before the wait is over. -/
def ends : Section α → Bool
  | .shutUnstarted | .stopThreads | .stopAllWorkers | .leave _ => true
  | _ => false

theorem ends_of_shuts {m : Section α} (h : m.shuts = true) : m.ends = true := by
  cases m <;> first | rfl | cases h

theorem control_of_ends {m : Section α} (h : m.ends = true) : m.control = true ∧ m.tests = false := by
  cases m <;> first | exact ⟨rfl, rfl⟩ | cases h

theorem eq_testInFlight {m : Section α} (h : m.tests = true) : m = .testInFlight := by
  cases m <;> first | rfl | cases h

end Section

namespace Executor
variable {α : Type} {env : Env} {e e' : Executor α} {m m' : Section α}

theorem Follows.tests (h : Follows m m') (hm : m.tests = false) : m'.tests = false := by
  cases h <;> first | rfl | cases hm

theorem Follows.ends (h : Follows m m') : m'.ends = false := by
  cases h <;> rfl

/-! ## The flag -/

theorem DispatchSteps.shutdown {decided : List WorkId} (h : DispatchSteps env decided e e') :
    e'.shutdown = e.shutdown := by
  induction h with
  | refl => rfl
  | tail _ h ih =>
    rw [← ih]
    cases h with
    | refresh h =>
      obtain ⟨_, _, _, -, rfl⟩ := h
      rfl
    | fail | retire | spawn | drop => rfl
    | ship _ _ _ _ _ hs => rcases hs with ⟨-, rfl⟩ | ⟨-, -, rfl⟩ <;> rfl

theorem run_shutdown {body : List (Section α)} (h : e.run env m = some (e', body)) (hm : m.shuts = false)
    (hnodup : e.pending.Nodup) : e'.shutdown = e.shutdown := by
  by_cases hdispatch : m = .maybeDispatch
  · subst hdispatch
    exact (maybeDispatch_steps hnodup (run_maybeDispatch h).1).shutdown
  · cases run_step h hdispatch with
    | workers _ _ _ _ _ _ _ hshutdown => exact hshutdown hm
    | failPendingFutures =>
      obtain ⟨_, hframe⟩ := failPendingFutures_frame e
      rw [hframe]
    | leaves | record | settle | penalizeEstimate | requeue => rfl

/-! ## A quiet executor -/

theorem clearWorker_inFlight (e : Executor α) (r : WorkResult α) : (e.clearWorker r).inFlight = e.inFlight := by
  obtain ⟨slots, workers, retiring, hframe⟩ := clearWorker_frame e r
  rw [hframe]

theorem run_pending {body : List (Section α)} (h : e.run env m = some (e', body)) (hm : m.retries = none)
    (hnodup : e.pending.Nodup) : e'.pending ⊆ e.pending := by
  by_cases hdispatch : m = .maybeDispatch
  · subst hdispatch
    exact (maybeDispatch_steps hnodup (run_maybeDispatch h).1).pending.subset
  · cases run_step h hdispatch with
    | workers | leaves | record | settle => exact List.Subset.refl _
    | failPendingFutures => exact List.nil_subset _
    | penalizeEstimate | requeue => cases hm

theorem run_owns {body : List (Section α)} (h : e.run env m = some (e', body)) (hm : m.retries = none)
    (hflight : e.inFlight = []) : body.filterMap Section.owns = [] := by
  cases m with
  | processResult r =>
    obtain ⟨-, rfl⟩ := run_eq (r := e.processResult r) h
    have hout : r.id ∉ (e.clearWorker r).inFlight := by simp [clearWorker_inFlight, hflight]
    rw [processResult, if_pos hout]
    rfl
  | takeLost w =>
    obtain ⟨-, rfl⟩ := run_eq (r := e.takeLost w) h
    unfold takeLost
    split
    · rfl
    · simp [hflight]
  | handleTimeout id =>
    obtain ⟨-, rfl⟩ := run_eq (r := e.handleTimeout id) h
    simp [handleTimeout, hflight]
  | penalizeEstimate => cases hm
  | _ => exact run_filterMap Section.owns h fun m' hm' => by cases hm' <;> rfl

theorem run_quiet {body : List (Section α)} (h : e.run env m = some (e', body)) (hm : m.retries = none)
    (hpending : e.pending = []) (hflight : e.inFlight = []) : e'.pending = [] ∧ e'.inFlight = [] := by
  refine ⟨List.eq_nil_of_subset_nil (hpending ▸ run_pending h hm (by rw [hpending]; exact List.nodup_nil)), ?_⟩
  by_cases hm : m = .maybeDispatch
  · subst hm
    have hsame : e.maybeDispatch env = .ok e := by rw [maybeDispatch, if_pos hpending]
    simp only [run, hsame] at h
    obtain ⟨rfl, -⟩ := run_eq h
    exact hflight
  · exact List.eq_nil_of_subset_nil (hflight ▸ (run_lands h hm (hflight ▸ List.nodup_nil)).flight.subset)

end Executor

namespace System
variable {α : Type} {s s' : System α} {e : Event α}

/-- `shutdown` has been called, and its wait is over. -/
def PastWait (s : System α) : Prop := s.stopping = true ∧ ∀ m ∈ s.hands .shutdown, m.tests = false

/-- No task is queued, in flight, or on its way back to the queue. -/
structure Quiet (s : System α) : Prop where
  pending : s.executor.pending = []
  flight : s.executor.inFlight = []
  retrying : s.retrying = []

def Event.appends : Event α → Bool
  | .append _ => true
  | _ => false

/-- The first call of `shutdown`, on an executor that has been started, does not wait. -/
def hurries (s : System α) : Event α → Bool
  | .shutdown wait => !wait && s.started && !s.stopping
  | _ => false

/-- A call of `shutdown` that waits returns. -/
def returning (s : System α) : Event α → Bool
  | .act t _ => (s.hands t).head?.any Section.returns
  | .shutdown wait => wait && s.executor.shutdown
  | _ => false

/-- The first `shutdown` waits; its wait does not end while a task is queued or on its way back to the queue; no submit
appends its task after that; and when a call that waits returns, no thread has still a future to settle. -/
def Clean (s : System α) (e : Event α) : Prop :=
  s.hurries e = false ∧ (e.appends = true → ¬ s.PastWait) ∧ (s.returning e = true → s.held = []) ∧
    ∀ m ∈ s.nextSection e, m.tests = true → s.executor.inFlight = [] → s.executor.pending = [] ∧ s.retrying = []

instance (s : System α) : Decidable s.PastWait :=
  inferInstanceAs (Decidable (_ ∧ ∀ m ∈ s.hands .shutdown, m.tests = false))

instance (s : System α) (e : Event α) : Decidable (s.Clean e) :=
  inferInstanceAs (Decidable (_ ∧ _ ∧ _ ∧ ∀ m ∈ s.nextSection e,
    m.tests = true → s.executor.inFlight = [] → s.executor.pending = [] ∧ s.retrying = []))

theorem step_returned (h : s.step e = some s') : s'.returned = (s.returned || s.returning e) := by
  cases e with
  | act t env =>
    simp only [step] at h
    split at h
    · cases h
    · rename_i m rest hand
      obtain ⟨r, -, rfl⟩ := Option.map_eq_some_iff.mp h
      simp [returning, hand]
  | shutdown wait =>
    simp only [step] at h
    split_ifs at h with hshutdown
    · obtain rfl := Option.some.inj h
      simp [returning, hshutdown]
    · obtain rfl := Option.some.inj h
      simp [returning, hshutdown]
  | submit =>
    simp only [step] at h
    split_ifs at h
    obtain rfl := Option.some.inj h
    simp only [submit, returning, Bool.or_false]
    split <;> rfl
  | _ =>
    simp only [step] at h
    repeat' split at h
    all_goals first | (obtain rfl := Option.some.inj h; exact (Bool.or_false _).symm) | cases h

/-! ## The wait -/

theorem shutdownSections_tests : .testInFlight ∈ (Executor.shutdownSections true true : List (Section α)) := by
  simp [Executor.shutdownSections]

theorem retrying_eq_nil (h : s.held = []) : s.retrying = [] :=
  List.eq_nil_of_subset_nil (h ▸ s.retrying_subset_held)

theorem Sound.quiet (hs : Sound s) (h : s.accepted = []) : s.Quiet := by
  have hnone : s.executor.pending ++ (s.executor.inFlight ++ s.held) = [] :=
    List.eq_nil_iff_forall_not_mem.mpr fun x hx => by
      have hx : x ∈ s.accepted := hs.tidy.known x hx
      rw [h] at hx
      cases hx
  obtain ⟨hpending, hrest⟩ := List.append_eq_nil_iff.mp hnone
  obtain ⟨hflight, hheld⟩ := List.append_eq_nil_iff.mp hrest
  exact ⟨hpending, hflight, retrying_eq_nil hheld⟩

theorem Stepped.pastWait (h : Stepped s e s') (hpast : s.PastWait) : s'.PastWait := by
  rcases h.hand_shutdown with ⟨hhand, hstopping⟩ | ⟨env, m, rest, r, -, hand, hrun, -, hhands, hstopping⟩ |
    ⟨w, results, rest, hand, hhand, hstopping⟩ | ⟨wait, -, hstopping, -⟩
  · exact ⟨hstopping.trans hpast.1, hhand ▸ hpast.2⟩
  · obtain ⟨htrue, htests⟩ := hpast
    rw [hand, List.forall_mem_cons] at htests
    refine ⟨hstopping.trans htrue, fun m' hm' => ?_⟩
    rw [hhands, Function.update_self] at hm'
    rcases List.mem_append.mp hm' with hm' | hm'
    · exact (Executor.run_follows hrun m' hm').tests htests.1
    · exact htests.2 m' hm'
  · obtain ⟨htrue, htests⟩ := hpast
    rw [hand, List.forall_mem_cons] at htests
    refine ⟨hstopping.trans htrue, hhand ▸ List.forall_mem_append.mpr ⟨fun m hm => ?_, htests.2⟩⟩
    obtain ⟨r, -, rfl⟩ := List.mem_map.mp hm
    rfl
  · rw [hpast.1] at hstopping
    cases hstopping

/-- The wait ends at a test that finds nothing in flight, and in a clean run nothing at all. -/
theorem Stepped.wait_over (h : Stepped s e s') (hclean : s.Clean e) (hs : Sound s)
    (hunused : s.started = false → s.accepted = []) (hbefore : ¬ s.PastWait) (hafter : s'.PastWait) : s'.Quiet := by
  obtain ⟨htrue, htests⟩ := hafter
  rcases h.hand_shutdown with ⟨hhand, hstopping⟩ | ⟨env, m, rest, r, rfl, hand, hrun, hexecutor, hhands, hstopping⟩ |
    ⟨w, results, rest, hand, hhand, hstopping⟩ | ⟨wait, rfl, hstopping, -, haccepted, hhands⟩
  · exact absurd ⟨hstopping.symm.trans htrue, hhand ▸ htests⟩ hbefore
  · rw [hhands, Function.update_self] at htests
    have hm : m.tests = true := by
      by_contra hm
      refine hbefore ⟨hstopping.symm.trans htrue, ?_⟩
      rw [hand, List.forall_mem_cons]
      exact ⟨Bool.not_eq_true _ ▸ hm, fun m' hm' => htests m' (List.mem_append_right _ hm')⟩
    have hnext : m ∈ s.nextSection (.act .shutdown env) := by simp [nextSection, hand]
    obtain rfl := Section.eq_testInFlight hm
    obtain rfl := Option.some.inj hrun
    have hflight : s.executor.inFlight = [] := by
      by_contra hflight
      have hagain := htests .testInFlight (by simp [hflight])
      cases hagain
    obtain ⟨hpending, hretrying⟩ := hclean.2.2.2 _ hnext rfl hflight
    refine ⟨hexecutor ▸ hpending, hexecutor ▸ hflight, ?_⟩
    obtain ⟨others, hbefore, hafter⟩ := filterMap_act Section.retries s' hand hhands
    have hnone : others = [] := List.nil_perm.mp (hretrying ▸ hbefore)
    simp only [hflight, if_pos, hnone] at hafter
    exact List.perm_nil.mp hafter
  · refine absurd ⟨hstopping.symm.trans htrue, ?_⟩ hbefore
    rw [hand, List.forall_mem_cons]
    exact ⟨rfl, fun m hm => htests m (hhand ▸ List.mem_append_right _ hm)⟩
  · cases hstarted : s.started with
    | false => exact (h.sound hs).quiet (haccepted.trans (hunused hstarted))
    | true =>
      have hwait : wait = true := by simpa [hurries, hstarted, hstopping] using hclean.1
      rw [hhands, Function.update_self, hstarted, hwait] at htests
      have hm := htests .testInFlight (List.mem_append_right _ shutdownSections_tests)
      cases hm

/-- Nothing gets into the places of a quiet executor, and no thread gets a future to settle. -/
theorem Stepped.quiet (h : Stepped s e s') (hclean : s.Clean e) (hpast : s.PastWait) (hq : s.Quiet) :
    s'.Quiet ∧ (s.held = [] → s'.held = []) := by
  have hsame (hexecutor : s'.executor.pending = s.executor.pending ∧ s'.executor.inFlight = s.executor.inFlight)
      (hretrying : s'.retrying.Perm s.retrying) (hheld : s'.held.Perm s.held) :
      s'.Quiet ∧ (s.held = [] → s'.held = []) :=
    ⟨⟨hexecutor.1.trans hq.pending, hexecutor.2.trans hq.flight, (hq.retrying ▸ hretrying).eq_nil⟩,
      fun hnone => (hnone ▸ hheld).eq_nil⟩
  cases h with
  | outside | submit | cancel | process | again => exact hsame ⟨rfl, rfl⟩ (.refl _) (.refl _)
  | append => exact absurd hpast (hclean.2.1 rfl)
  | @begin _ t body _ hand hbody =>
    have hhands : Function.update s.hands t body = Function.update s.hands t (s.hands t ++ body) := by
      rw [hand, List.nil_append]
    exact hsame ⟨rfl, rfl⟩ (filterMap_begin _ _ (fun m hm => Section.retries_of_begins (hbody m hm)) hhands)
      (filterMap_begin _ _ (fun m hm => Section.owns_of_begins (hbody m hm)) hhands)
  | @deliver t w i r _ hand =>
    have hhands : Function.update s.hands t [.processResult r] =
        Function.update s.hands t (s.hands t ++ [.processResult r]) := by rw [hand, List.nil_append]
    exact hsame ⟨rfl, rfl⟩ (filterMap_begin _ _ (fun m hm => by rw [List.mem_singleton.mp hm]; rfl) hhands)
      (filterMap_begin _ _ (fun m hm => by rw [List.mem_singleton.mp hm]; rfl) hhands)
  | @act t env m rest r hand hrun =>
    generalize hs' : ({ s with
      executor := r.1, hands := Function.update s.hands t (r.2 ++ rest), returned := s.returned || m.returns } : System α) =
        s'
    have hhands : s'.hands = Function.update s.hands t (r.2 ++ rest) := by rw [← hs']
    have hexecutor : s'.executor = r.1 := by rw [← hs']
    obtain ⟨retrying, hretrying, hretrying'⟩ := filterMap_act Section.retries s' hand hhands
    obtain ⟨held, hheld, hheld'⟩ := filterMap_act Section.owns s' hand hhands
    have hretrying : s.retrying.Perm (m.retries.toList ++ retrying) := hretrying
    rw [hq.retrying] at hretrying
    obtain ⟨hm, hnone⟩ := List.append_eq_nil_iff.mp (List.nil_perm.mp hretrying)
    have hm : m.retries = none := Option.toList_eq_nil_iff.mp hm
    obtain ⟨hpending, hflight⟩ := Executor.run_quiet hrun hm hq.pending hq.flight
    have howns := Executor.run_owns hrun hm hq.flight
    have hretries : r.2.filterMap Section.retries = [] := List.filterMap_eq_nil_iff.mpr fun m' hm' => by
      by_contra hsome
      obtain ⟨x, hx⟩ := Option.ne_none_iff_exists'.mp hsome
      have hnone := List.filterMap_eq_nil_iff.mp howns m' hm'
      rw [Section.owns_of_retries hx] at hnone
      cases hnone
    rw [hretries, hnone] at hretrying'
    refine ⟨⟨hexecutor ▸ hpending, hexecutor ▸ hflight, hretrying'.eq_nil⟩, fun hempty => ?_⟩
    have hheld : s.held.Perm (m.owns.toList ++ held) := hheld
    rw [hempty] at hheld
    rw [howns, (List.append_eq_nil_iff.mp (List.nil_perm.mp hheld)).2] at hheld'
    exact hheld'.eq_nil
  | contended hand =>
    exact hsame ⟨rfl, rfl⟩ (filterMap_contended Section.retries _ rfl (fun _ => rfl) hand rfl)
      (filterMap_contended Section.owns _ rfl (fun _ => rfl) hand rfl)
  | shutdown hstopping =>
    rw [hpast.1] at hstopping
    cases hstopping

/-! ## The hand of `shutdown` -/

/-- The sections of `shutdown` are in its own hand only, once it has been called; `_shutdown` is set, and the workers are
stopped, after the wait. -/
structure Ordered (s : System α) : Prop where
  control : ∀ t, ∀ m ∈ s.hands t, m.control = true → t = .shutdown ∧ s.stopping = true
  order : (s.hands .shutdown).Pairwise fun m m' => m.ends = true → m'.tests = false

theorem Ordered.pastWait (ho : Ordered s) {t : Thread} {m : Section α} {rest : List (Section α)}
    (hand : s.hands t = m :: rest) (hm : m.ends = true) : s.PastWait := by
  obtain ⟨hcontrol, htests⟩ := Section.control_of_ends hm
  obtain ⟨rfl, hstopping⟩ := ho.control t m (hand ▸ List.mem_cons_self) hcontrol
  have horder := ho.order
  rw [hand, List.pairwise_cons] at horder
  refine ⟨hstopping, ?_⟩
  rw [hand, List.forall_mem_cons]
  exact ⟨htests, fun m' hm' => horder.1 m' hm' hm⟩

/-- Sections that stop nobody may come before all others. -/
theorem order_append {body rest : List (Section α)} (hbody : ∀ m ∈ body, m.ends = false)
    (horder : rest.Pairwise fun m m' => m.ends = true → m'.tests = false) :
    (body ++ rest).Pairwise fun m m' => m.ends = true → m'.tests = false := by
  have hnever (m : Section α) (hm : m ∈ body) (m' : Section α) : m.ends = true → m'.tests = false := fun htrue => by
    rw [hbody m hm] at htrue
    cases htrue
  exact List.pairwise_append.mpr
    ⟨List.pairwise_of_forall_mem_list fun m hm m' _ => hnever m hm m', horder, fun m hm m' _ => hnever m hm m'⟩

theorem Stepped.ordered (h : Stepped s e s') (ho : Ordered s) : Ordered s' := by
  have hstopping : s.stopping = true → s'.stopping = true := fun htrue => by
    cases h <;> first | exact htrue | rfl
  refine ⟨fun t m hm hcontrol => ?_, ?_⟩
  · rcases h.mem_hands hm with hm | ⟨m', hm', hf⟩ | ⟨-, hm | ⟨r, rfl⟩⟩ | ⟨started, wait, htrue, ht, -⟩
    · exact (ho.control t m hm hcontrol).imp_right hstopping
    · refine (ho.control t m' hm' ?_).imp_right hstopping
      by_contra hm'
      rw [hf.control (Bool.not_eq_true _ ▸ hm')] at hcontrol
      cases hcontrol
    · rw [Section.control_of_begins hm] at hcontrol
      cases hcontrol
    · cases hcontrol
    · exact ⟨ht, htrue⟩
  · rcases h.hand_shutdown with ⟨hhand, -⟩ | ⟨env, m, rest, r, -, hand, hrun, -, hhands, -⟩ |
      ⟨w, results, rest, hand, hhand, -⟩ | ⟨wait, -, hfalse, -, -, hhands⟩
    · exact hhand ▸ ho.order
    · have horder := ho.order
      rw [hand, List.pairwise_cons] at horder
      rw [hhands, Function.update_self]
      exact order_append (fun m' hm' => (Executor.run_follows hrun m' hm').ends) horder.2
    · have horder := ho.order
      rw [hand, List.pairwise_cons] at horder
      rw [hhand]
      refine order_append (fun m hm => ?_) horder.2
      obtain ⟨r, -, rfl⟩ := List.mem_map.mp hm
      rfl
    · rw [hhands, Function.update_self, List.pairwise_append]
      refine ⟨ho.order, ?_, fun m hm _ _ htrue => ?_⟩
      · cases s.started <;> cases wait <;> simp [Executor.shutdownSections, Section.ends, Section.tests]
      · rw [(ho.control .shutdown m hm (Section.control_of_ends htrue).1).2] at hfalse
        cases hfalse

theorem Stepped.shutdown_pastWait (h : Stepped s e s') (hs : Sound s) (ho : Ordered s)
    (hbefore : s.executor.shutdown = true → s.PastWait) (hafter : s'.executor.shutdown = true) : s'.PastWait := by
  refine h.pastWait ?_
  cases h with
  | @act t env m rest r hand hrun =>
    by_cases hm : m.shuts = true
    · exact ho.pastWait hand (Section.ends_of_shuts hm)
    · exact hbefore ((Executor.run_shutdown hrun (Bool.not_eq_true _ ▸ hm) hs.pending) ▸ hafter)
  | _ => exact hbefore hafter

/-! ## Runs -/

/-- An executor that has not been started has no task. -/
def Unused (s : System α) : Prop := s.started = false → s.accepted = [] ∧ s.submitting = []

theorem Stepped.unused (h : Stepped s e s') (hf : Unused s) : Unused s' := by
  intro hstarted
  cases h with
  | outside _ _ _ started hkept =>
    refine hf (Bool.not_eq_true _ ▸ fun htrue => ?_)
    rw [hkept htrue] at hstarted
    cases hstarted
  | submit => cases hstarted
  | append hid =>
    rw [(hf hstarted).2] at hid
    cases hid
  | _ => exact hf hstarted

/-- The invariant of the runs with clean events: no task is lost, the wait ends on a quiet executor, and when shutdown
has returned all futures are done. -/
structure Winding (s : System α) : Prop where
  ordered : s.Ordered
  unused : s.Unused
  shut : s.executor.shutdown = true → s.PastWait
  placed : Placed s.book
  unstopped : ¬ s.PastWait → s.executor.Unstopped s.lost
  quiet : s.PastWait → s.Quiet
  returned : s.returned = true → s.PastWait ∧ s.held = [] ∧ ∀ id ∈ s.accepted, (s.executor.futures id).done = true

theorem Stepped.done (h : Stepped s e s') (hs : Sound s) {id : WorkId} (hdone : (s.executor.futures id).done = true) :
    (s'.executor.futures id).done = true := by
  rw [← Ledger.Future.outcome_isSome] at hdone ⊢
  obtain ⟨r, hr⟩ := Option.isSome_iff_exists.mp hdone
  rw [h.outcome hs hr]
  rfl

theorem Quiet.done (hq : s.Quiet) (hplaced : Placed s.book) (hheld : s.held = []) :
    ∀ id ∈ s.accepted, (s.executor.futures id).done = true := fun id hid => by
  refine (hplaced id hid).resolve_left fun hm => ?_
  have hm : id ∈ s.executor.pending ++ (s.executor.inFlight ++ s.held) := hm
  rw [hq.pending, hq.flight, hheld] at hm
  cases hm

theorem Stepped.accepted_eq (h : Stepped s e s') (hclean : s.Clean e) (hpast : s.PastWait) :
    s'.accepted = s.accepted := by
  cases h with
  | append => exact absurd hpast (hclean.2.1 rfl)
  | _ => rfl

theorem step_returning (hstep : s.step e = some s') (hw : Winding s) (h : s.returning e = true) :
    s.PastWait ∧ s'.executor = s.executor ∧ s'.accepted = s.accepted := by
  cases e with
  | act t env =>
    simp only [step] at hstep
    split at hstep
    · cases hstep
    · rename_i m rest hand
      obtain ⟨r, hrun, rfl⟩ := Option.map_eq_some_iff.mp hstep
      have hm : m.returns = true := by simpa [returning, hand] using h
      cases m with
      | leave =>
        obtain rfl := Option.some.inj hrun
        exact ⟨hw.ordered.pastWait hand rfl, rfl, rfl⟩
      | _ => cases hm
  | shutdown wait =>
    obtain ⟨-, hshutdown⟩ := Bool.and_eq_true_iff.mp h
    simp only [step, if_pos hshutdown] at hstep
    obtain rfl := Option.some.inj hstep
    exact ⟨hw.shut hshutdown, rfl, rfl⟩
  | _ => cases h

theorem step_winding (hstep : s.step e = some s') (hclean : s.Clean e) (hs : Sound s) (hpool : s.executor.Pool s.lost)
    (hw : Winding s) : Winding s' := by
  have h := step_stepped hstep
  refine ⟨h.ordered hw.ordered, h.unused hw.unused, h.shutdown_pastWait hs hw.ordered hw.shut, ?_, fun hnot => ?_,
    fun hpast => ?_, fun hreturned => ?_⟩
  · refine h.placed hs (fun id hdrops => ?_) hw.placed
    by_cases hpast : s.PastWait
    · obtain ⟨t, env, m, rest, -, -, w, -, -, -, hid⟩ := hdrops
      rw [(hw.quiet hpast).flight] at hid
      cases hid
    · exact not_drops (hw.unstopped hpast) id hdrops
  · have hbefore : ¬ s.PastWait := fun hpast => hnot (h.pastWait hpast)
    refine (h.pool hs.pending hpool).2 ?_ (hw.unstopped hbefore)
    rintro ⟨t, env, rest, -, hand⟩
    exact hbefore (hw.ordered.pastWait hand rfl)
  · by_cases hbefore : s.PastWait
    · exact (h.quiet hclean hbefore (hw.quiet hbefore)).1
    · exact h.wait_over hclean hs (fun hstarted => (hw.unused hstarted).1) hbefore hpast
  · by_cases hbefore : s.returned = true
    · obtain ⟨hpast, hheld, hdone⟩ := hw.returned hbefore
      obtain ⟨-, hheld'⟩ := h.quiet hclean hpast (hw.quiet hpast)
      exact ⟨h.pastWait hpast, hheld' hheld, fun id hid => h.done hs (hdone id (h.accepted_eq hclean hpast ▸ hid))⟩
    · have hreturning : s.returning e = true :=
        (Bool.or_eq_true_iff.mp (step_returned hstep ▸ hreturned)).resolve_left hbefore
      obtain ⟨hpast, hexecutor, haccepted⟩ := step_returning hstep hw hreturning
      have hheld : s.held = [] := hclean.2.2.1 hreturning
      refine ⟨h.pastWait hpast, (h.quiet hclean hpast (hw.quiet hpast)).2 hheld, fun id hid => ?_⟩
      rw [hexecutor]
      exact (hw.quiet hpast).done hw.placed hheld id (haccepted ▸ hid)

theorem init_winding (cfg : Config) (profiles : ProfileStore) : Winding (init cfg profiles : System α) := by
  refine ⟨⟨fun _ _ h => (by cases h), .nil⟩, fun _ => ⟨rfl, rfl⟩, fun h => (by cases h), fun _ h => (by cases h),
    fun _ _ h => (by cases h), fun h => ?_, fun h => ?_⟩
  · cases h.1
  · cases h

theorem run_winding {cfg : Config} {profiles : ProfileStore} (h : ReflTransGen (NextWhen Clean) (init cfg profiles) s) :
    Winding s := by
  induction h with
  | refl => exact init_winding cfg profiles
  | tail hrun h ih =>
    obtain ⟨e, hclean, h⟩ := h
    obtain ⟨hs, hpool⟩ := Reachable.sound ⟨cfg, profiles, run_of_when hrun⟩
    exact step_winding h hclean hs hpool ih

theorem hurries_pastWait (hpast : s.PastWait) : s.hurries e = false := by
  cases e with
  | shutdown wait => simp [hurries, hpast.1]
  | _ => rfl

/-- When `shutdown` returns, the future of a task in hand is not done, nor is, afterwards, that of a new task. -/
theorem clean_of_done (hstep : s.step e = some s') (hs : Sound s) (hw : Winding s) (hreturned : s'.returned = true)
    (hdone : ∀ id ∈ s'.accepted, (s'.executor.futures id).done = true) : s.Clean e := by
  by_cases hbefore : s.returned = true
  · -- a later step: the wait is over, so that neither a test nor a first call of `shutdown` is left
    obtain ⟨hpast, hheld, -⟩ := hw.returned hbefore
    refine ⟨hurries_pastWait hpast, fun happends => ?_, fun _ => hheld, fun m hm htests => ?_⟩
    · cases e with
      | append id =>
        simp only [step] at hstep
        split_ifs at hstep with hid
        obtain rfl := Option.some.inj hstep
        have hfalse := hdone id (List.mem_append_right _ (List.mem_singleton_self id))
        have hnew : id ∉ s.accepted := fun h => (List.nodup_append.mp hs.fresh).2.2 id h id hid rfl
        rw [show s.executor.futures id = .pending from hs.unknown id hnew] at hfalse
        cases hfalse
      | _ => cases happends
    · cases e with
      | act t env =>
        have hmem : m ∈ s.hands t := List.mem_of_mem_head? hm
        obtain rfl := Section.eq_testInFlight htests
        obtain ⟨rfl, -⟩ := hw.ordered.control t _ hmem rfl
        rw [hpast.2 _ hmem] at htests
        cases htests
      | _ => cases hm
  · have hreturning : s.returning e = true :=
      (Bool.or_eq_true_iff.mp (step_returned hstep ▸ hreturned)).resolve_left hbefore
    obtain ⟨hpast, hexecutor, haccepted⟩ := step_returning hstep hw hreturning
    refine ⟨hurries_pastWait hpast, fun happends => ?_, fun _ => List.eq_nil_iff_forall_not_mem.mpr fun x hx => ?_,
      fun m hm htests => ?_⟩
    · cases e with
      | append => cases hreturning
      | _ => cases happends
    · have hx : x ∈ s.executor.inFlight ++ s.held := List.mem_append_right _ hx
      have hrunning := hs.tidy.running x hx
      have hfalse := hdone x (haccepted ▸ hs.tidy.known x (List.mem_append_right _ hx))
      rw [hexecutor, show s.executor.futures x = .running from hrunning] at hfalse
      cases hfalse
    · cases e with
      | act t env =>
        have hm : (s.hands t).head? = some m := hm
        have hm : m.returns = true := by simpa [returning, hm] using hreturning
        cases m with
        | leave => cases htests
        | _ => cases hm
      | _ => cases hm

/-- **Shutdown leaves no future unresolved, as long as all steps are clean**: then all futures are done once it has
returned. The step by which it returns, and every later one, keeps this exactly when it is clean. -/
theorem shutdown_resolves {cfg : Config} {profiles : ProfileStore}
    (h : ReflTransGen (NextWhen Clean) (init cfg profiles) s) :
    (s.returned = true → ∀ id ∈ s.accepted, (s.executor.futures id).done = true) ∧
      ∀ e s', s.step e = some s' → s'.returned = true →
        ((∀ id ∈ s'.accepted, (s'.executor.futures id).done = true) ↔ s.Clean e) := by
  have hw := run_winding h
  obtain ⟨hs, hpool⟩ := Reachable.sound ⟨cfg, profiles, run_of_when h⟩
  refine ⟨fun hreturned => (hw.returned hreturned).2.2, fun e s' hstep hreturned => ⟨fun hdone => ?_, fun hclean => ?_⟩⟩
  · exact clean_of_done hstep hs hw hreturned hdone
  · exact ((step_winding hstep hclean hs hpool hw).returned hreturned).2.2

/-! ## Runs that are clean, and runs that are not -/

/-- The task is running when `shutdown` is called; the wait sees its result, and the worker exits on the sentinel. -/
def shutdownBusy : List (Event Unit) :=
  shipOne ++ .workerTake 0 :: .shutdown true :: List.replicate 4 (.act .shutdown plainEnv) ++
    .workerPut 0 ⟨true, some (), none, ⟨1, 0, 100, 1⟩⟩ :: .round .collector ::
      List.replicate 7 (.act .collector plainEnv) ++ List.replicate 4 (.act .shutdown plainEnv) ++
        .workerTake 0 :: .workerDie 0 0 :: List.replicate 6 (.act .shutdown plainEnv)

/-- The worker is killed during the wait, and its task has a crash retry left. -/
def shutdownCrash : List (Event Unit) :=
  shipOne ++ .workerTake 0 :: .shutdown true :: .workerDie 0 (-9) :: List.replicate 14 (.act .shutdown plainEnv)

/-- A submit has passed the check of `_accepting`, and appends its task when the wait is over. -/
def shutdownLate : List (Event Unit) :=
  .submit "x" plainRequest plainReading :: .shutdown true :: List.replicate 4 (.act .shutdown plainEnv) ++
    .append "x" :: List.replicate 4 (.act .shutdown plainEnv)

/-- The first call does not wait for the task, and a second one, which would, returns at once. -/
def shutdownTwice : List (Event Unit) :=
  shipOne ++ .workerTake 0 :: .shutdown false :: List.replicate 8 (.act .shutdown plainEnv) ++ [.shutdown true]

theorem shutdown_resolves_busy : ∃ s : System Unit, s.returned = true ∧ s.accepted = ["x"] ∧
    (s.executor.futures "x").done = true := by
  obtain ⟨s, hs⟩ := Option.isSome_iff_exists.mp
    (show ((init oneWorker {} : System Unit).playWhen Clean shutdownBusy).isSome = true by decide +kernel)
  have hfacts : ((init oneWorker {} : System Unit).playWhen Clean shutdownBusy).map
      (fun s => (s.returned, s.accepted)) = some (true, ["x"]) := by decide +kernel
  rw [hs] at hfacts
  obtain ⟨hreturned, haccepted⟩ := Prod.mk.inj (Option.some.inj hfacts)
  refine ⟨s, hreturned, haccepted, (shutdown_resolves (playWhen_run hs)).1 hreturned "x" ?_⟩
  rw [haccepted]
  exact List.mem_singleton.mpr rfl

theorem shutdown_strands :
    (∃ s : System Unit, (init oneWorker {} : System Unit).play shutdownCrash = some s ∧ s.returned = true ∧
      s.accepted = ["x"] ∧ (s.executor.futures "x").done = false) ∧
    (∃ s : System Unit, (init oneWorker {} : System Unit).play shutdownLate = some s ∧ s.returned = true ∧
      s.accepted = ["x"] ∧ (s.executor.futures "x").done = false) ∧
    ∃ s : System Unit, (init oneWorker {} : System Unit).play shutdownTwice = some s ∧ s.returned = true ∧
      s.accepted = ["x"] ∧ (s.executor.futures "x").done = false := by
  have hstranded {events : List (Event Unit)} (h : ((init oneWorker {} : System Unit).play events).map (fun s =>
      (s.returned, s.accepted, (s.executor.futures "x").done)) = some (true, ["x"], false)) : ∃ s : System Unit,
        (init oneWorker {} : System Unit).play events = some s ∧ s.returned = true ∧ s.accepted = ["x"] ∧
          (s.executor.futures "x").done = false := by
    obtain ⟨s, hs, hfacts⟩ := Option.map_eq_some_iff.mp h
    simp only [Prod.mk.injEq] at hfacts
    exact ⟨s, hs, hfacts⟩
  exact ⟨hstranded (by decide +kernel), hstranded (by decide +kernel), hstranded (by decide +kernel)⟩

end System

end AdaptiveExecutor
