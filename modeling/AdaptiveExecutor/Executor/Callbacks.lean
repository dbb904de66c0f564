import AdaptiveExecutor.Executor.Calm
import AdaptiveExecutor.Executor.Flight
import AdaptiveExecutor.Ledger.Lock

/-!
# Callbacks and the lock

A future runs its done-callbacks at once, in the thread that settles it. What every section does with the lock of the
executor, and which futures it settles meanwhile.

* `Executor.acts` : the acts of a section, in the order of the source; `run_settles` : they are all its settlings;
* `Executor.SettlesOutside`, `unlocked_iff` : the sections that settle under the lock;
* `System.history` : what a thread has done in a run;
* `callbacks_unlocked` : when a run settles nothing under the lock; `callback_deadlock` : a run that does.
-/

namespace AdaptiveExecutor
open Ledger (Act Future LockOp Unlocked block)
open Relation (ReflTransGen)

namespace Executor
variable {α : Type} {env : Env} {e e' : Executor α} {error : WorkId → Option (TaskError α)} {ids : List WorkId} {x : WorkId}

/-! ## The acts of a section -/

/-- `_settle_future_result` and `_settle_future_exception`: a future that is done already is not settled. -/
def settles (e : Executor α) (id : WorkId) : List WorkId := if (e.futures id).done then [] else [id]

/-- The tasks whose futures are settled when those with an error are given up, one after another. -/
def settledWith (error : WorkId → Option (TaskError α)) : List WorkId → Executor α → List WorkId
  | [], _ => []
  | id :: rest, e =>
    match error id with
    | none => settledWith error rest e
    | some err => e.settles id ++ settledWith error rest (e.settle id (.exception err))

def sweepError (e : Executor α) (id : WorkId) : Option (TaskError α) :=
  (infeasibleEstimate e.cfg (e.works id).estimate e.snapshot (e.works id).retryCount).map .infeasible

def acts (e : Executor α) : Section α → List (Act WorkId)
  | .maybeDispatch =>
    let e₁ := e.reestimatePending e.clock
    block (settledWith e₁.sweepError e₁.pending e₁)
  | .failPendingFutures => block (settledWith (fun _ => some .shutDown) e.pending e)
  | .settle id _ => (e.settles id).map .settle
  | .takeLost w => if (e.slots w).currentWorkId.isSome then block [] else []
  | .sweep | .processResult _ | .checkWorkers | .requeue _ | .scanTimeouts _ | .handleTimeout _ | .testInFlight => block []
  | .readClock | .readQueue _ | .getNowait _ _ | .record _ _ | .discardQueue _ | .penalizeEstimate _ | .escalateKill _
  | .shutUnstarted | .stopAccepting | .stopThreads | .stopAllWorkers | .finalDrain _ | .pruneRetiring | .leave _ => []

/-- **The tasks that are settled** are those that are given up while their future is not done. -/
theorem mem_settledWith : ∀ {ids : List WorkId} {e : Executor α},
    x ∈ settledWith error ids e ↔ x ∈ ids ∧ (error x).isSome = true ∧ (e.futures x).done = false
  | [], _ => iff_of_false List.not_mem_nil fun h => List.not_mem_nil h.1
  | id :: rest, e => by
    unfold settledWith
    cases herror : error id with
    | none =>
      rw [mem_settledWith, List.mem_cons]
      refine and_congr_left fun h => (or_iff_right ?_).symm
      rintro rfl
      rw [herror] at h
      cases h.1
    | some err =>
      dsimp only
      rw [List.mem_append, mem_settledWith, List.mem_cons]
      by_cases hx : x = id
      · subst hx
        have hupdate : (e.settle x (.exception err)).futures x = (e.futures x).settle (.exception err) :=
          Function.update_self _ _ _
        have hdone : ((e.settle x (.exception err)).futures x).done = true := by
          rw [hupdate]
          exact Future.settle_done _ _
        unfold settles
        rw [hdone, herror]
        cases (e.futures x).done <;> simp
      · have hsame : (e.settle id (.exception err)).futures x = e.futures x := Function.update_of_ne hx _ _
        have hother : x ∉ e.settles id := by
          unfold settles
          split_ifs
          · exact List.not_mem_nil
          · exact fun h => hx (List.mem_singleton.mp h)
        rw [hsame]
        simp [hx, hother]

theorem settledWith_eq_nil : settledWith error ids e = [] ↔
    ∀ x ∈ ids, (e.futures x).done = false → error x = none := by
  rw [List.eq_nil_iff_forall_not_mem]
  refine forall_congr' fun x => ?_
  rw [mem_settledWith]
  cases error x <;> simp

/-! ## All settlings are acts -/

theorem Handled.finished {d : DispatchDecision} {fate : Fate} {o : Outcome α} (h : Handled env e d fate e')
    (hfinished : e'.futures x = .finished o) : e.futures x = .finished o := by
  have update {f : Future (Outcome α)} {futures : WorkId → Future (Outcome α)} (hf : f ≠ .finished o)
      (h : Function.update futures d.pendingId f x = .finished o) : futures x = .finished o := by
    by_cases hx : x = d.pendingId
    · rw [hx, Function.update_self] at h
      exact absurd h hf
    · rwa [Function.update_of_ne hx] at h
  cases h with
  | left hacquire =>
    obtain ⟨_, _, _, _, rfl⟩ := acquireWorker_frame hacquire
    exact hfinished
  | dropped hacquire =>
    obtain ⟨_, _, _, _, rfl⟩ := acquireWorker_frame hacquire
    exact update (fun h => by cases h) hfinished
  | shipped hacquire hstarted =>
    obtain ⟨_, _, _, _, rfl⟩ := acquireWorker_frame hacquire
    rcases hstarted with ⟨-, rfl⟩ | ⟨-, -, rfl⟩
    · exact hfinished
    · exact update (fun h => by cases h) hfinished

theorem Handling.finished {ds : List (DispatchDecision × Fate)} {o : Outcome α} (h : Handling env e ds e')
    (hfinished : e'.futures x = .finished o) : e.futures x = .finished o := by
  induction h with
  | nil => exact hfinished
  | cons h _ ih => exact h.finished (ih hfinished)

theorem prepare_futures (hlive : (e.futures x).done = false) (hnot : x ∉ settledWith (e.reestimatePending e.clock).sweepError
    (e.reestimatePending e.clock).pending (e.reestimatePending e.clock)) : e.prepare.futures x = e.futures x := by
  obtain ⟨-, works, profiles, hframe⟩ := reestimatePending_frame e e.clock
  have hfutures : (e.reestimatePending e.clock).futures = e.futures := by rw [hframe]
  rw [mem_settledWith, hfutures] at hnot
  have hspec := (sweepInfeasible_spec (e.reestimatePending e.clock).snapshot (e.reestimatePending e.clock).pending
    (e.reestimatePending e.clock)).2.1 x fun hx => ?_
  · rw [hfutures] at hspec
    exact hspec
  · by_contra hinf
    rw [Bool.not_eq_false, infeasible] at hinf
    refine hnot ⟨hx, ?_, hlive⟩
    rwa [sweepError, Option.isSome_map]

theorem maybeDispatch_finished {o : Outcome α} (h : e.maybeDispatch env = .ok e') (hfinished : e'.futures x = .finished o) :
    e.futures x = .finished o ∨ e.prepare.futures x = .finished o := by
  rcases maybeDispatch_planned h with ⟨-, rfl⟩ | ⟨-, rfl⟩ | ⟨hs, e₁, hhandling, -, rfl⟩
  · exact .inl hfinished
  · exact .inr hfinished
  · right
    have hready := hhandling.finished (x := x) hfinished
    obtain ⟨works, next, hframe, -⟩ := ready_frame env e
    obtain ⟨works', hframe', -⟩ := refreshObservations_frame env e.prepare e.prepare.clock
    rw [hframe] at hready
    change (e.planned env).futures x = _ at hready
    rwa [planned, hframe'] at hready

theorem foldl_settle_apart {outcome : Outcome α} : ∀ {ids : List WorkId} {e : Executor α}, x ∉ ids →
    (ids.foldl (fun e id => e.settle id outcome) e).futures x = e.futures x
  | [], _, _ => rfl
  | id :: ids, e, hx => by
    rw [List.mem_cons, not_or] at hx
    rw [List.foldl_cons, foldl_settle_apart hx.2]
    exact Function.update_of_ne hx.1 _ _

/-- **All futures that a section finishes** are settled by its acts. -/
theorem run_settles {m : Section α} {body : List (Section α)} {o : Outcome α} (h : e.run env m = some (e', body))
    (hlive : (e.futures x).done = false) (hfinished : e'.futures x = .finished o) : .settle x ∈ e.acts m := by
  have same (hsame : e'.futures x = e.futures x) : .settle x ∈ e.acts m := by
    rw [← hsame, hfinished] at hlive
    cases hlive
  by_cases hm : m = .maybeDispatch
  · subst hm
    obtain ⟨hok, -⟩ := run_maybeDispatch h
    by_contra hacts
    have hnot := mt (Ledger.settle_mem_block (x := x)).mpr hacts
    have hsame := prepare_futures hlive hnot
    rcases maybeDispatch_finished hok hfinished with hfinished | hfinished
    · rw [hfinished] at hlive
      cases hlive
    · rw [← hsame, hfinished] at hlive
      cases hlive
  cases run_step h hm with
  | failPendingFutures =>
    by_cases hx : x ∈ e.pending
    · exact Ledger.settle_mem_block.mpr (mem_settledWith.mpr ⟨hx, rfl, hlive⟩)
    · exact same (foldl_settle_apart hx)
  | settle id outcome =>
    by_cases hx : x = id
    · subst hx
      refine List.mem_map_of_mem ?_
      rw [settles, if_neg (by rw [hlive]; exact Bool.false_ne_true)]
      exact List.mem_singleton.mpr rfl
    · exact same (Function.update_of_ne hx _ _)
  | workers | leaves | record | penalizeEstimate | requeue => exact same rfl

/-! ## Sections that settle outside the lock -/

/-- The section settles no future under the lock: a cycle finds no task to fail, and at shutdown no task is queued whose
future is not done. -/
def SettlesOutside (e : Executor α) : Section α → Prop
  | .maybeDispatch => ∀ x ∈ e.pending, (e.futures x).done = false → (e.reestimatePending e.clock).sweepError x = none
  | .failPendingFutures => ∀ x ∈ e.pending, (e.futures x).done = true
  | _ => True

instance (e : Executor α) : ∀ m : Section α, Decidable (e.SettlesOutside m)
  | .maybeDispatch => inferInstanceAs (Decidable (∀ x ∈ e.pending, (e.futures x).done = false →
    (e.reestimatePending e.clock).sweepError x = none))
  | .failPendingFutures => inferInstanceAs (Decidable (∀ x ∈ e.pending, (e.futures x).done = true))
  | .sweep | .readQueue _ | .getNowait _ _ | .processResult _ | .record _ _ | .settle _ _ | .discardQueue _ | .checkWorkers
  | .takeLost _ | .penalizeEstimate _ | .requeue _ | .readClock | .scanTimeouts _ | .handleTimeout _ | .escalateKill _
  | .shutUnstarted | .stopAccepting | .testInFlight | .stopThreads | .stopAllWorkers | .finalDrain _ | .pruneRetiring
  | .leave _ => .isTrue trivial

theorem quiet_acts (e : Executor α) (m : Section α) : Ledger.quiet false (e.acts m) = some false := by
  cases m with
  | maybeDispatch | failPendingFutures | sweep | processResult | checkWorkers | requeue | scanTimeouts | handleTimeout
  | testInFlight => exact Ledger.quiet_block _
  | settle => exact Ledger.quiet_settles false _
  | takeLost w =>
    unfold acts
    dsimp only
    split_ifs
    · exact Ledger.quiet_block []
    · rfl
  | _ => rfl

/-- **The two settlings under the lock**: the infeasibility sweep, and the failing of the queued tasks at shutdown. -/
theorem unlocked_iff {m : Section α} : Unlocked false (e.acts m) ↔ e.SettlesOutside m := by
  cases m with
  | maybeDispatch =>
    obtain ⟨-, works, profiles, hframe⟩ := reestimatePending_frame e e.clock
    have hsame : (e.reestimatePending e.clock).pending = e.pending ∧ (e.reestimatePending e.clock).futures = e.futures := by
      rw [hframe]
      exact ⟨rfl, rfl⟩
    refine Ledger.unlocked_block.trans (settledWith_eq_nil.trans ?_)
    rw [hsame.1, hsame.2]
    rfl
  | failPendingFutures =>
    refine Ledger.unlocked_block.trans (settledWith_eq_nil.trans (forall₂_congr fun x _ => ?_))
    cases (e.futures x).done <;> simp
  | settle id =>
    refine iff_of_true ?_ trivial
    change Unlocked false ((e.settles id).map .settle)
    unfold settles
    split_ifs
    · trivial
    · exact ⟨rfl, trivial⟩
  | takeLost w =>
    refine iff_of_true ?_ trivial
    unfold acts
    dsimp only
    split_ifs <;> trivial
  | _ => exact iff_of_true trivial trivial

end Executor

/-! ## Runs -/

namespace System
variable {α : Type} {s s' : System α} {e : Event α} {t : Thread} {x : WorkId} {cfg : Config} {profiles : ProfileStore}

def acts (s : System α) (t : Thread) : Event α → List (Act WorkId)
  | .act t' _ => if t' = t then (s.hands t).head?.elim [] s.executor.acts else []
  | _ => []

/-- What a thread does in a run, up to the first event that raises. -/
def history (t : Thread) : System α → List (Event α) → List (Act WorkId)
  | _, [] => []
  | s, e :: es => s.acts t e ++ (s.step e).elim [] fun s => history t s es

/-- If the event runs a section, then one that settles no future under the lock. -/
def SettlesOutside (s : System α) (e : Event α) : Prop := ∀ m ∈ s.nextSection e, s.executor.SettlesOutside m

/-- All events of a run meet the condition, up to the first one that raises, and that one too. -/
def Always (p : System α → Event α → Prop) : System α → List (Event α) → Prop
  | _, [] => True
  | s, e :: es => p s e ∧ ∀ s' ∈ s.step e, Always p s' es

instance (s : System α) (e : Event α) : Decidable (s.SettlesOutside e) :=
  inferInstanceAs (Decidable (∀ m ∈ s.nextSection e, s.executor.SettlesOutside m))

instance decidableAlways (p : System α → Event α → Prop) [∀ s e, Decidable (p s e)] : ∀ (s : System α) (es : List (Event α)),
    Decidable (Always p s es)
  | _, [] => .isTrue trivial
  | s, e :: es =>
    have : ∀ s', Decidable (Always p s' es) := fun s' => decidableAlways p s' es
    inferInstanceAs (Decidable (p s e ∧ ∀ s' ∈ s.step e, Always p s' es))

theorem quiet_acts (s : System α) (t : Thread) (e : Event α) : Ledger.quiet false (s.acts t e) = some false := by
  cases e with
  | act t' env =>
    unfold acts
    dsimp only
    split_ifs
    · cases (s.hands t).head? with
      | none => rfl
      | some m => exact Executor.quiet_acts s.executor m
    · rfl
  | _ => rfl

theorem quiet_history (t : Thread) : ∀ (es : List (Event α)) (s : System α),
    Ledger.quiet false (history t s es) = some false
  | [], _ => rfl
  | e :: es, s => by
    have hacts := quiet_acts s t e
    unfold Ledger.quiet at hacts ⊢
    rw [history, Ledger.exec_append, hacts]
    cases s.step e with
    | none => rfl
    | some s' => exact quiet_history t es s'

theorem unlocked_acts : (∀ t, Unlocked false (s.acts t e)) ↔ s.SettlesOutside e := by
  cases e with
  | act t env =>
    have hnext : s.nextSection (.act t env) = (s.hands t).head? := rfl
    unfold SettlesOutside
    rw [hnext]
    constructor
    · intro h m hm
      have hself := h t
      rw [acts, if_pos rfl, hm] at hself
      exact Executor.unlocked_iff.mp hself
    · intro h t'
      unfold acts
      dsimp only
      split_ifs with ht
      · subst ht
        cases hm : (s.hands t).head? with
        | none => trivial
        | some m => exact Executor.unlocked_iff.mpr (h m hm)
      · trivial
  | _ => exact iff_of_true (fun _ => trivial) fun _ h => by cases h

theorem unlocked_history : ∀ {es : List (Event α)} {s : System α},
    (∀ t, Unlocked false (history t s es)) ↔ Always SettlesOutside s es
  | [], _ => iff_of_true (fun _ => trivial) trivial
  | e :: es, s => by
    have hsplit : (∀ t, Unlocked false (history t s (e :: es))) ↔ (∀ t, Unlocked false (s.acts t e)) ∧
        ∀ t, Unlocked false ((s.step e).elim [] fun s => history t s es) := by
      rw [← forall_and]
      exact forall_congr' fun t => Ledger.unlocked_append _ (quiet_acts s t e)
    rw [hsplit, unlocked_acts, Always]
    refine and_congr_right fun _ => ?_
    cases hstep : s.step e with
    | none => exact iff_of_true (fun _ => trivial) fun _ h => by cases h
    | some s' =>
      refine unlocked_history.trans ⟨fun h s'' hs'' => ?_, fun h => h s' rfl⟩
      rwa [← Option.some.inj hs'']

theorem Stepped.settles {o : Outcome α} (h : Stepped s e s') (hlive : (s.executor.futures x).done = false)
    (hfinished : s'.executor.futures x = .finished o) : ∃ t, .settle x ∈ s.acts t e := by
  have same (hsame : s'.executor.futures x = s.executor.futures x) : ∃ t, .settle x ∈ s.acts t e := by
    rw [← hsame, hfinished] at hlive
    cases hlive
  cases h with
  | outside | append | process | begin | deliver | shutdown | contended | again => exact same rfl
  | @submit id =>
    by_cases hx : x = id
    · subst hx
      dsimp only at hfinished
      rw [Function.update_self] at hfinished
      cases hfinished
    · exact same (Function.update_of_ne hx _ _)
  | @cancel id =>
    by_cases hx : x = id
    · subst hx
      dsimp only at hfinished
      rw [Function.update_self] at hfinished
      rw [Future.of_cancel_finished hfinished] at hlive
      cases hlive
    · exact same (Function.update_of_ne hx _ _)
  | @act t env m rest r hand hrun =>
    refine ⟨t, ?_⟩
    rw [acts, if_pos rfl, hand]
    have hrun : s.executor.run env m = some (r.1, r.2) := hrun
    exact Executor.run_settles hrun hlive hfinished

theorem play_settles {o : Outcome α} : ∀ {es : List (Event α)} {s : System α}, Reachable s → s.play es = some s' →
    s'.executor.futures x = .finished o → s.executor.futures x = .finished o ∨ ∃ t, .settle x ∈ history t s es
  | [], s, _, h, hfinished => by
    obtain rfl := Option.some.inj h
    exact .inl hfinished
  | e :: es, s, hreachable, h, hfinished => by
    rw [play, playWhen, if_pos trivial] at h
    obtain ⟨s₁, hstep, h⟩ := Option.bind_eq_some_iff.mp h
    have hreachable₁ : Reachable s₁ := by
      obtain ⟨cfg, profiles, hrun⟩ := hreachable
      exact ⟨cfg, profiles, hrun.tail ⟨e, hstep⟩⟩
    have hhistory (t : Thread) : history t s (e :: es) = s.acts t e ++ history t s₁ es := by
      rw [history, hstep]
      rfl
    rcases play_settles hreachable₁ h hfinished with hfinished₁ | ⟨t, ht⟩
    · cases hdone : (s.executor.futures x).done with
      | true =>
        left
        -- a future that is done keeps its outcome
        rw [← Future.outcome_isSome] at hdone
        obtain ⟨r, hr⟩ := Option.isSome_iff_exists.mp hdone
        have hr₁ := (step_stepped hstep).outcome hreachable.sound.1 hr
        rw [hfinished₁] at hr₁
        obtain rfl := Option.some.inj hr₁
        exact Future.of_outcome hr
      | false =>
        right
        obtain ⟨t, ht⟩ := (step_stepped hstep).settles hdone hfinished₁
        exact ⟨t, by rw [hhistory]; exact List.mem_append_left _ ht⟩
    · exact .inr ⟨t, by rw [hhistory]; exact List.mem_append_right _ ht⟩

/-- **The executor runs no callback under its lock** in a run exactly when none of its sections settles under the lock. Then every
thread gets through all that it does, whatever callbacks there are that give the lock back. Every future that a run
finishes is settled in the history of a thread. -/
theorem callbacks_unlocked (cfg : Config) (profiles : ProfileStore) (es : List (Event α)) :
    (∀ s x o, (init cfg profiles).play es = some s → s.executor.futures x = .finished o →
      ∃ t, .settle x ∈ history t (init cfg profiles) es) ∧
    ((∀ t, Unlocked false (history t (init cfg profiles : System α) es) ∧
      ∀ callback, (∀ x, LockOp.execs false (callback x) = some false) →
        Ledger.exec callback false (history t (init cfg profiles : System α) es) = some false) ↔
          Always SettlesOutside (init cfg profiles : System α) es) := by
  refine ⟨fun s x o hplay hfinished => ?_, fun h => unlocked_history.mp fun t => (h t).1, fun h t => ?_⟩
  · refine (play_settles ⟨cfg, profiles, .refl⟩ hplay hfinished).resolve_left fun hfirst => ?_
    cases hfirst
  · have hunlocked := unlocked_history.mpr h t
    exact ⟨hunlocked, fun callback hcallback => Ledger.exec_of_unlocked hcallback (quiet_history t es _) hunlocked⟩

/-! ## Callbacks that submit -/

/-- `submit` and the lock, when it is not refused before. -/
def submitLocks : List LockOp := [.acquire, .release]

def settleOne : List (Event Unit) := completeOne ++ List.replicate 2 (.act .collector plainEnv)

/-- The worker of a task of 8 GB is killed, and the doubled estimate of its retry can never fit. -/
def retryInfeasible : List (Event Unit) :=
  [.poll plainReading, .submit "x" ⟨"m", "f", some 8, none, none⟩ plainReading, .append "x", .round .dispatcher,
    .act .dispatcher plainEnv, .act .dispatcher plainEnv, .workerDie 0 (-9), .round .dispatcher] ++
      List.replicate 8 (.act .dispatcher plainEnv)

def shutdownQueued : List (Event Unit) :=
  [.submit "x" plainRequest plainReading, .append "x", .shutdown true, .act .shutdown plainEnv, .act .shutdown plainEnv]

theorem callbacks_unlocked_settled : (∃ t, .settle "x" ∈ history t (init oneWorker {}) settleOne) ∧
    ∀ t, Unlocked false (history t (init oneWorker {}) settleOne) ∧
      Ledger.exec (fun _ => submitLocks) false (history t (init oneWorker {}) settleOne) = some false := by
  have hfacts : ((init oneWorker {} : System Unit).play settleOne).any (fun s =>
      decide (s.executor.futures "x" = .finished (.result (some ())))) = true := by decide +kernel
  obtain ⟨s, hs, hfinished⟩ := (Option.any_eq_true _ _).mp hfacts
  have hquiet : Always SettlesOutside (init oneWorker {} : System Unit) settleOne := by decide +kernel
  obtain ⟨hall, hiff⟩ := callbacks_unlocked oneWorker {} settleOne
  refine ⟨hall s "x" _ hs (of_decide_eq_true hfinished), fun t => ?_⟩
  obtain ⟨hunlocked, hexec⟩ := hiff.mpr hquiet t
  exact ⟨hunlocked, hexec _ fun _ => rfl⟩

/-- The dispatcher fails a queued task under the lock, and a callback that submits stops it for ever; and `shutdown`
fails the queued tasks under the lock. -/
theorem callback_deadlock :
    (∃ s : System Unit, (init oneWorker {}).play retryInfeasible = some s ∧ s.executor.accepting = true ∧
      ¬ Unlocked false (history .dispatcher (init oneWorker {}) retryInfeasible) ∧
        Ledger.exec (fun _ => submitLocks) false (history .dispatcher (init oneWorker {}) retryInfeasible) = none) ∧
    ∃ s : System Unit, (init oneWorker {}).play shutdownQueued = some s ∧
      ¬ Unlocked false (history .shutdown (init oneWorker {}) shutdownQueued) := by
  have hretry : history .dispatcher (init oneWorker {} : System Unit) retryInfeasible =
      block [] ++ block [] ++ block [] ++ block [] ++ block [] ++ block ["x"] := by decide +kernel
  have hqueued : history .shutdown (init oneWorker {} : System Unit) shutdownQueued = block ["x"] := by decide +kernel
  have hfacts : ((init oneWorker {} : System Unit).play retryInfeasible).any (fun s =>
      decide (s.executor.accepting = true)) = true ∧
        ((init oneWorker {} : System Unit).play shutdownQueued).isSome = true := by decide +kernel
  obtain ⟨s, hs, haccepting⟩ := (Option.any_eq_true _ _).mp hfacts.1
  obtain ⟨s', hs'⟩ := Option.isSome_iff_exists.mp hfacts.2
  have hlocked : ¬ Unlocked false (history .dispatcher (init oneWorker {} : System Unit) retryInfeasible) := by
    rw [hretry]
    exact fun h => by cases h.1
  have hlocked' : ¬ Unlocked false (history .shutdown (init oneWorker {} : System Unit) shutdownQueued) := by
    rw [hqueued]
    exact fun h => by cases h.1
  exact ⟨⟨s, hs, of_decide_eq_true haccepting, hlocked,
    Ledger.exec_eq_none (fun _ => rfl) (fun _ => rfl) (quiet_history _ _ _) hlocked⟩, s', hs', hlocked'⟩

end System

end AdaptiveExecutor
