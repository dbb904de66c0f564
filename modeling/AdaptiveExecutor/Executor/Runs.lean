import Mathlib.Data.List.Basic
import Mathlib.Data.List.Perm.Basic
import AdaptiveExecutor.Executor.System

/-!
# What an event does

* `System.sections` : all that is left to run, in any hand;
* `System.held` : the tasks that a thread has taken, to settle or to requeue them (`System.retrying`);
* `System.lost` : the dead workers whose task has not been taken yet;
* `ProcessStep` : what happens to a worker process;
* `Stepped`, `step_stepped` : what an event does, one case for each kind;
* `HandStep`, `Stepped.handStep` : what it does to the hand of one thread; `Stepped.comes` : where sections come from;
* `Acted`, `acted_of_next`, `step_outside` : what it does when it runs a section, and when it runs none;
* `Recorded` : a run with a history of it.
-/

namespace AdaptiveExecutor

/-! ## Sections in hand -/

namespace Section
variable {α : Type}

/-- The task that a section is about to settle or to requeue. -/
def owns : Section α → Option WorkId
  | .settle id _ | .penalizeEstimate id | .requeue id => some id
  | _ => none

/-- The task that a section takes back to the queue. -/
def retries : Section α → Option WorkId
  | .penalizeEstimate id | .requeue id => some id
  | _ => none

def loses : Section α → Option WorkerId
  | .takeLost w => some w
  | _ => none

/-- The sections that `shutdown` alone runs. -/
def control : Section α → Bool
  | .shutUnstarted | .stopAccepting | .failPendingFutures | .testInFlight | .stopThreads | .stopAllWorkers | .finalDrain _
  | .pruneRetiring | .leave _ => true
  | _ => false

/-- The sections that a round, or a direct call, begins with. -/
def begins : Section α → Bool
  | .sweep | .checkWorkers | .maybeDispatch | .readClock | .handleTimeout _ => true
  | _ => false

theorem owns_of_begins {m : Section α} (h : m.begins = true) : m.owns = none := by
  cases m <;> first | rfl | cases h

theorem loses_of_begins {m : Section α} (h : m.begins = true) : m.loses = none := by
  cases m <;> first | rfl | cases h

theorem retries_of_begins {m : Section α} (h : m.begins = true) : m.retries = none := by
  cases m <;> first | rfl | cases h

theorem owns_of_retries {m : Section α} {x : WorkId} (h : m.retries = some x) : m.owns = some x := by
  cases m <;> first | exact h | cases h

theorem control_of_begins {m : Section α} (h : m.begins = true) : m.control = false := by
  cases m <;> first | rfl | cases h

end Section

theorem Thread.mem_all (t : Thread) : t ∈ Thread.all := by cases t <;> decide

namespace Executor
variable {α : Type}

/-- The sections that can follow a section in its hand. -/
inductive Follows : Section α → Section α → Prop
  | sweep {w : WorkerId} : Follows .sweep (.readQueue w)
  | read {w : WorkerId} : Follows (.readQueue w) (.getNowait w [])
  | next {w : WorkerId} {results results' : List (WorkResult α)} : Follows (.getNowait w results) (.getNowait w results')
  | results {w : WorkerId} {results : List (WorkResult α)} {r : WorkResult α} (hr : r ∈ results) :
    Follows (.getNowait w results) (.processResult r)
  | record {r : WorkResult α} : Follows (.processResult r) (.record r.id r.observation)
  | result {r : WorkResult α} : Follows (.processResult r) (.settle r.id r.outcome)
  | drain {w : WorkerId} : Follows .checkWorkers (.readQueue w)
  | discard {w : WorkerId} : Follows .checkWorkers (.discardQueue w)
  | lost {w : WorkerId} : Follows .checkWorkers (.takeLost w)
  | penalize {w : WorkerId} {id : WorkId} : Follows (.takeLost w) (.penalizeEstimate id)
  | crashed {w : WorkerId} {id : WorkId} {outcome : Outcome α} : Follows (.takeLost w) (.settle id outcome)
  | requeue {id : WorkId} : Follows (.penalizeEstimate id) (.requeue id)
  | scan {now : ℚ} : Follows .readClock (.scanTimeouts now)
  | overdue {now : ℚ} {id : WorkId} : Follows (.scanTimeouts now) (.handleTimeout id)
  | kill {id : WorkId} {w : WorkerId} : Follows (.handleTimeout id) (.escalateKill w)
  | timedOut {id : WorkId} {outcome : Outcome α} : Follows (.handleTimeout id) (.settle id outcome)
  | check : Follows .testInFlight .checkWorkers
  | wait : Follows .testInFlight .testInFlight
  | drainLast {w : WorkerId} : Follows .stopAllWorkers (.finalDrain w)
  | prune : Follows .stopAllWorkers .pruneRetiring
  | drainFinal {w : WorkerId} : Follows (.finalDrain w) (.readQueue w)
  | discardFinal {w : WorkerId} : Follows (.finalDrain w) (.discardQueue w)

theorem Follows.control {m m' : Section α} (h : Follows m m') (hm : m.control = false) : m'.control = false := by
  cases h <;> first | rfl | cases hm

theorem run_eq {e' : Executor α} {r : Executor α × List (Section α)} {body : List (Section α)}
    (h : some r = some (e', body)) : r.1 = e' ∧ r.2 = body := by
  rw [Option.some.inj h]
  exact ⟨rfl, rfl⟩

theorem run_maybeDispatch {env : Env} {e e' : Executor α} {body : List (Section α)}
    (h : e.run env .maybeDispatch = some (e', body)) : e.maybeDispatch env = .ok e' ∧ body = [] := by
  simp only [run] at h
  split at h
  · cases h
  · rename_i e₁ hok
    obtain ⟨rfl, rfl⟩ := run_eq h
    exact ⟨hok, rfl⟩

theorem getNowait_follows (e : Executor α) (w : WorkerId) (results : List (WorkResult α)) :
    ∀ m ∈ (e.getNowait w results).2, Follows (.getNowait w results) m := by
  have hresults : ∀ m ∈ results.map Section.processResult, Follows (.getNowait w results) m := fun m hm => by
    obtain ⟨r, hr, rfl⟩ := List.mem_map.mp hm
    exact .results hr
  unfold getNowait
  split
  · exact hresults
  · split_ifs
    · exact hresults
    · exact fun m hm => List.mem_singleton.mp hm ▸ .next

theorem processResult_follows (e : Executor α) (r : WorkResult α) :
    ∀ m ∈ (e.processResult r).2, Follows (.processResult r) m := by
  unfold processResult
  dsimp only
  intro m hm
  split_ifs at hm
  · cases hm
  · rcases List.mem_pair.mp hm with rfl | rfl
    exacts [.record, .result]
  · cases hm

theorem checkWorkers_follows (e : Executor α) : ∀ m ∈ e.checkWorkers.2, Follows .checkWorkers m := by
  intro m hm
  simp only [checkWorkers, drainAndDiscard, List.mem_append, List.mem_flatMap, List.mem_cons, List.not_mem_nil,
    or_false] at hm
  rcases hm with ⟨w, -, rfl | rfl⟩ | ⟨w, -, (rfl | rfl) | rfl⟩
  exacts [.drain, .discard, .drain, .discard, .lost]

theorem takeLost_follows (e : Executor α) (w : WorkerId) : ∀ m ∈ (e.takeLost w).2, Follows (.takeLost w) m := by
  unfold takeLost
  intro m hm
  split at hm
  · cases hm
  · dsimp only at hm
    split_ifs at hm
    · cases hm
    · rw [List.mem_singleton.mp hm]
      exact .penalize
    · rw [List.mem_singleton.mp hm]
      exact .crashed
    · cases hm

theorem handleTimeout_follows (e : Executor α) (id : WorkId) :
    ∀ m ∈ (e.handleTimeout id).2, Follows (.handleTimeout id) m := by
  unfold handleTimeout
  intro m hm
  split_ifs at hm
  · cases hm
  dsimp only at hm
  split at hm
  · split_ifs at hm
    · rcases List.mem_pair.mp hm with rfl | rfl
      exacts [.kill, .timedOut]
    · rw [List.mem_singleton.mp hm]
      exact .timedOut
  · split at hm
    · rw [List.mem_singleton.mp hm]
      exact .timedOut
    · split_ifs at hm
      · rw [List.mem_singleton.mp hm]
        exact .timedOut
      · rw [List.mem_singleton.mp hm]
        exact .timedOut

/-- **What can follow a section.** -/
theorem run_follows {env : Env} {e e' : Executor α} {m : Section α} {body : List (Section α)}
    (h : e.run env m = some (e', body)) : ∀ m' ∈ body, Follows m m' := by
  cases m with
  | maybeDispatch =>
    simp only [run] at h
    split at h
    · cases h
    · obtain ⟨-, rfl⟩ := run_eq h
      exact fun _ hm => by cases hm
  | getNowait w results =>
    obtain ⟨-, rfl⟩ := run_eq (r := e.getNowait w results) h
    exact getNowait_follows e w results
  | processResult r =>
    obtain ⟨-, rfl⟩ := run_eq (r := e.processResult r) h
    exact processResult_follows e r
  | checkWorkers =>
    obtain ⟨-, rfl⟩ := run_eq (r := e.checkWorkers) h
    exact checkWorkers_follows e
  | takeLost w =>
    obtain ⟨-, rfl⟩ := run_eq (r := e.takeLost w) h
    exact takeLost_follows e w
  | handleTimeout id =>
    obtain ⟨-, rfl⟩ := run_eq (r := e.handleTimeout id) h
    exact handleTimeout_follows e id
  | sweep =>
    obtain ⟨-, rfl⟩ := run_eq h
    intro m hm
    obtain ⟨w, -, rfl⟩ := List.mem_map.mp hm
    exact .sweep
  | scanTimeouts =>
    obtain ⟨-, rfl⟩ := run_eq h
    intro m hm
    obtain ⟨id, -, rfl⟩ := List.mem_map.mp hm
    exact .overdue
  | readClock =>
    obtain ⟨-, rfl⟩ := run_eq h
    exact fun m hm => List.mem_singleton.mp hm ▸ .scan
  | readQueue w =>
    obtain ⟨-, rfl⟩ := run_eq h
    intro m hm
    unfold readQueue at hm
    split_ifs at hm
    · cases hm
    · rw [List.mem_singleton.mp hm]
      exact .read
  | penalizeEstimate id =>
    obtain ⟨-, rfl⟩ := run_eq h
    exact fun m hm => List.mem_singleton.mp hm ▸ .requeue
  | testInFlight =>
    obtain ⟨-, rfl⟩ := run_eq h
    intro m hm
    split_ifs at hm
    · cases hm
    · rcases List.mem_pair.mp hm with rfl | rfl
      exacts [.check, .wait]
  | stopAllWorkers =>
    obtain ⟨-, rfl⟩ := run_eq (r := e.stopAllWorkers) h
    intro m hm
    rcases List.mem_append.mp hm with hm | hm
    · obtain ⟨w, -, rfl⟩ := List.mem_map.mp hm
      exact .drainLast
    · rw [List.mem_singleton.mp hm]
      exact .prune
  | finalDrain w =>
    obtain ⟨-, rfl⟩ := run_eq h
    intro m hm
    split_ifs at hm
    · rw [List.mem_singleton.mp hm]
      exact .discardFinal
    · rcases List.mem_pair.mp hm with rfl | rfl
      exacts [.drainFinal, .discardFinal]
  | record | settle | discardQueue | requeue | escalateKill | shutUnstarted | stopAccepting | failPendingFutures | stopThreads
  | pruneRetiring | leave =>
    obtain ⟨-, rfl⟩ := run_eq h
    exact fun _ hm => by cases hm

theorem run_filterMap {β : Type} (f : Section α → Option β) {env : Env} {e e' : Executor α} {m : Section α}
    {body : List (Section α)} (h : e.run env m = some (e', body)) (hf : ∀ m', Follows m m' → f m' = none) :
    body.filterMap f = [] :=
  List.filterMap_eq_nil_iff.mpr fun m' hm' => hf m' (run_follows h m' hm')

theorem clearWorker_frame (e : Executor α) (r : WorkResult α) :
    ∃ slots workers retiring, e.clearWorker r = { e with slots := slots, workers := workers, retiring := retiring } := by
  unfold clearWorker
  dsimp only
  split_ifs
  exacts [⟨_, _, _, rfl⟩, ⟨_, _, _, rfl⟩, ⟨_, _, _, rfl⟩]

theorem stopAllWorkers_frame (e : Executor α) : ∃ slots, e.stopAllWorkers.1 = { e with slots := slots } := by
  obtain ⟨slots, h, -⟩ := foldl_modifySlot (fun slot : WorkerSlot α =>
    { slot with
      intentionallyStopped := true
      process := { slot.process with workQueue := slot.process.workQueue ++ [none] } }) e.workers e
  exact ⟨slots, h⟩

theorem escalateKill_frame (env : Env) (e : Executor α) (w : WorkerId) :
    ∃ slots, e.escalateKill env w = { e with slots := slots } := by
  unfold escalateKill
  split
  exacts [⟨_, rfl⟩, ⟨_, rfl⟩, ⟨_, rfl⟩]

end Executor

namespace System
variable {α : Type}

def sections (s : System α) : List (Section α) := Thread.all.flatMap s.hands

def held (s : System α) : List WorkId := s.sections.filterMap Section.owns

def lost (s : System α) : List WorkerId := s.sections.filterMap Section.loses

def retrying (s : System α) : List WorkId := s.sections.filterMap Section.retries

theorem retrying_subset_held (s : System α) : s.retrying ⊆ s.held := fun _ hx => by
  obtain ⟨m, hm, hx⟩ := List.mem_filterMap.mp hx
  exact List.mem_filterMap.mpr ⟨m, hm, Section.owns_of_retries hx⟩

theorem shutdownSections_retries (started wait : Bool) :
    ∀ m ∈ (Executor.shutdownSections started wait : List (Section α)), m.retries = none := by
  cases started <;> cases wait <;> simp [Executor.shutdownSections, Section.retries]

theorem flatMap_update (hands : Thread → List (Section α)) (t : Thread) :
    ∃ others, ∀ hand, (Thread.all.flatMap (Function.update hands t hand)).Perm (hand ++ others) := by
  cases t with
  | collector => exact ⟨hands .dispatcher ++ (hands .timeouts ++ hands .shutdown), fun hand => by simp [Thread.all]⟩
  | dispatcher =>
    refine ⟨hands .collector ++ (hands .timeouts ++ hands .shutdown), fun hand => ?_⟩
    simpa [Thread.all] using List.perm_append_comm_assoc _ _ _
  | timeouts =>
    refine ⟨hands .collector ++ hands .dispatcher ++ hands .shutdown, fun hand => ?_⟩
    have h := List.perm_append_comm_assoc (hands .collector ++ hands .dispatcher) hand (hands .shutdown)
    simpa [Thread.all] using h
  | shutdown =>
    refine ⟨hands .collector ++ hands .dispatcher ++ hands .timeouts, fun hand => ?_⟩
    have h := @List.perm_append_comm _ (hands .collector ++ hands .dispatcher ++ hands .timeouts) hand
    simpa [Thread.all] using h

theorem sections_perm (s : System α) (t : Thread) : ∃ others, s.sections.Perm (s.hands t ++ others) ∧
    ∀ (s' : System α) (hand : List (Section α)), s'.hands = Function.update s.hands t hand →
      s'.sections.Perm (hand ++ others) := by
  obtain ⟨others, h⟩ := flatMap_update s.hands t
  refine ⟨others, ?_, fun s' hand hs' => ?_⟩
  · have := h (s.hands t)
    rwa [Function.update_eq_self] at this
  · rw [sections, hs']
    exact h hand

theorem flatMap_act {β : Type} (f : Section α → List β) {s : System α} (s' : System α) {t : Thread}
    {m : Section α} {rest body : List (Section α)} (hand : s.hands t = m :: rest)
    (hhands : s'.hands = Function.update s.hands t (body ++ rest)) :
    ∃ others, (s.sections.flatMap f).Perm (f m ++ others) ∧ (s'.sections.flatMap f).Perm (body.flatMap f ++ others) := by
  obtain ⟨others, h, h'⟩ := sections_perm s t
  refine ⟨(rest ++ others).flatMap f, ?_, ?_⟩
  · have h := h.flatMap_right f
    rwa [hand, List.cons_append, List.flatMap_cons] at h
  · have h := (h' s' _ hhands).flatMap_right f
    rwa [List.append_assoc, List.flatMap_append] at h

theorem flatMap_begin {β : Type} (f : Section α → List β) {s : System α} (s' : System α) {t : Thread}
    {body : List (Section α)} (hbody : ∀ m ∈ body, f m = []) (hhands : s'.hands = Function.update s.hands t (s.hands t ++ body)) :
    (s'.sections.flatMap f).Perm (s.sections.flatMap f) := by
  obtain ⟨others, h, h'⟩ := sections_perm s t
  refine ((h' s' _ hhands).flatMap_right f).trans (List.Perm.trans ?_ (h.flatMap_right f).symm)
  rw [List.flatMap_append, List.flatMap_append, List.flatMap_append, List.flatMap_eq_nil_iff.mpr hbody, List.append_nil]

theorem filterMap_act {β : Type} (f : Section α → Option β) {s : System α} (s' : System α) {t : Thread}
    {m : Section α} {rest body : List (Section α)} (hand : s.hands t = m :: rest)
    (hhands : s'.hands = Function.update s.hands t (body ++ rest)) :
    ∃ others, (s.sections.filterMap f).Perm ((f m).toList ++ others) ∧
      (s'.sections.filterMap f).Perm (body.filterMap f ++ others) := by
  simp only [List.filterMap_eq_flatMap_toList]
  exact flatMap_act (fun m => (f m).toList) s' hand hhands

theorem filterMap_begin {β : Type} (f : Section α → Option β) {s : System α} (s' : System α) {t : Thread}
    {body : List (Section α)} (hbody : ∀ m ∈ body, f m = none) (hhands : s'.hands = Function.update s.hands t (s.hands t ++ body)) :
    (s'.sections.filterMap f).Perm (s.sections.filterMap f) := by
  simp only [List.filterMap_eq_flatMap_toList]
  exact flatMap_begin (fun m => (f m).toList) s' (fun m hm => by rw [hbody m hm]; rfl) hhands

/-- Nothing can be read off a `get_nowait()` that raises `Empty`, nor off the results that were read before. -/
theorem filterMap_contended {β : Type} (f : Section α → Option β) {s : System α} (s' : System α) {t : Thread} {w : WorkerId}
    {results : List (WorkResult α)} {rest : List (Section α)} (hread : f (.getNowait w results) = none)
    (hresult : ∀ r, f (.processResult r) = none) (hand : s.hands t = .getNowait w results :: rest)
    (hhands : s'.hands = Function.update s.hands t (results.map .processResult ++ rest)) :
    (s'.sections.filterMap f).Perm (s.sections.filterMap f) := by
  obtain ⟨others, h, h'⟩ := filterMap_act f s' hand hhands
  have hnone : (results.map Section.processResult).filterMap f = [] := by
    rw [List.filterMap_map, List.filterMap_eq_nil_iff]
    exact fun r _ => hresult r
  rw [hread, Option.toList_none, List.nil_append] at h
  rw [hnone, List.nil_append] at h'
  exact h'.trans h.symm

/-- What is read off the results in hand stays the same when they are read no further. -/
theorem flatMap_contended {β : Type} (f : Section α → List β) {s : System α} (s' : System α) {t : Thread} {w : WorkerId}
    {results : List (WorkResult α)} {rest : List (Section α)}
    (hsame : (results.map Section.processResult).flatMap f = f (.getNowait w results))
    (hand : s.hands t = .getNowait w results :: rest)
    (hhands : s'.hands = Function.update s.hands t (results.map .processResult ++ rest)) :
    (s'.sections.flatMap f).Perm (s.sections.flatMap f) := by
  obtain ⟨others, h, h'⟩ := flatMap_act f s' hand hhands
  rw [hsame] at h'
  exact h'.trans h.symm

theorem mem_sections {s : System α} {m : Section α} : m ∈ s.sections ↔ ∃ t, m ∈ s.hands t := by
  rw [sections, List.mem_flatMap]
  exact ⟨fun ⟨t, _, h⟩ => ⟨t, h⟩, fun ⟨t, h⟩ => ⟨t, t.mem_all, h⟩⟩

theorem mem_held {s : System α} {m : Section α} {x : WorkId} (hm : m ∈ s.sections) (hx : m.owns = some x) : x ∈ s.held :=
  List.mem_filterMap.mpr ⟨m, hm, hx⟩

/-! ## Worker processes -/

/-- What happens to the process of worker `w`. -/
inductive ProcessStep (w : WorkerId) (p : WorkerProcess α) : WorkerProcess α → Prop
  | take {item : WorkItem} {rest : List (Option WorkItem)} (hstays : p.leaving = false) (hidle : p.executing = none)
    (hqueue : p.workQueue = some item :: rest) : ProcessStep w p { p with workQueue := rest, executing := some item }
  | stop {rest : List (Option WorkItem)} (halive : p.alive = true) (hidle : p.executing = none)
    (hqueue : p.workQueue = none :: rest) : ProcessStep w p { p with workQueue := rest, leaving := true }
  | put {item : WorkItem} {r : WorkResult α} (halive : p.alive = true) (hitem : p.executing = some item)
    (hr : r.id = item.id) (hw : r.workerId = w) :
    ProcessStep w p { p with executing := none, resultQueue := p.resultQueue ++ [r] }
  | lose : ProcessStep w p { p with executing := none }
  | exit (code : Int) : ProcessStep w p (p.exit code)

/-! ## Events -/

structure FreshTask (w : PendingWork) : Prop where
  exclusive : w.exclusive = false
  resultIgnored : w.resultIgnored = false
  runningNotified : w.runningNotified = false
  workerId : w.workerId = none

inductive Stepped (s : System α) : Event α → System α → Prop
  /-- The clock, the monitor, `start`, and a submit that is refused as infeasible. -/
  | outside {e : Event α} (clock : ℚ) (snapshot : Option ResourceSnapshot) (profiles : ProfileStore) (started : Bool)
    (hstarted : s.started = true → started = true) :
    Stepped s e
      { s with
        executor := { s.executor with clock := clock, snapshot := snapshot, profiles := profiles }
        started := started }
  | submit {id : WorkId} {r : Executor.Request} {reading : ResourceSnapshot} (work : PendingWork)
    (profiles : ProfileStore) (haccepting : s.executor.accepting = true) (hid : id ∉ s.issued)
    (hwork : FreshTask work) :
    Stepped s (.submit id r reading)
      { s with
        executor := { s.executor with
          profiles := profiles
          works := Function.update s.executor.works id work
          futures := Function.update s.executor.futures id .pending }
        issued := s.issued ++ [id]
        submitting := s.submitting ++ [id]
        started := true }
  | append {id : WorkId} (hid : id ∈ s.submitting) :
    Stepped s (.append id)
      { s with
        executor := { s.executor with pending := s.executor.pending ++ [id] }
        submitting := s.submitting.erase id
        accepted := s.accepted ++ [id] }
  | cancel {id : WorkId} (hid : id ∈ s.accepted) :
    Stepped s (.cancel id)
      { s with
        executor := { s.executor with
          futures := Function.update s.executor.futures id (s.executor.futures id).cancel } }
  | process {e : Event α} {w : WorkerId} {p : WorkerProcess α}
    (hp : ProcessStep w (s.executor.slots w).process p) :
    Stepped s e { s with executor := s.executor.modifyProcess w fun _ => p }
  | begin {e : Event α} {t : Thread} {body : List (Section α)} (ht : t ≠ .shutdown) (hand : s.hands t = [])
    (hbody : ∀ m ∈ body, m.begins = true) :
    Stepped s e { s with hands := Function.update s.hands t body }
  | deliver {t : Thread} {w : WorkerId} {i : Nat} {r : WorkResult α} (ht : t ≠ .shutdown) (hand : s.hands t = [])
    (hr : (s.executor.slots w).process.resultQueue[i]? = some r)
    (hopen : (s.executor.slots w).queueDiscarded = false) :
    Stepped s (.deliver t w i)
      { s with
        executor := s.executor.modifyProcess w fun p => { p with resultQueue := p.resultQueue.eraseIdx i }
        hands := Function.update s.hands t [.processResult r] }
  | act {t : Thread} {env : Env} {m : Section α} {rest : List (Section α)} {r : Executor α × List (Section α)}
    (hand : s.hands t = m :: rest) (hrun : s.executor.run env m = some r) :
    Stepped s (.act t env)
      { s with
        executor := r.1
        hands := Function.update s.hands t (r.2 ++ rest)
        returned := s.returned || m.returns }
  | contended {t : Thread} {w : WorkerId} {results : List (WorkResult α)} {rest : List (Section α)}
    (hand : s.hands t = .getNowait w results :: rest) (hreader : s.readElsewhere t w = true) :
    Stepped s (.contended t) { s with hands := Function.update s.hands t (results.map .processResult ++ rest) }
  | shutdown {wait : Bool} (hstopping : s.stopping = false) :
    Stepped s (.shutdown wait)
      { s with
        hands := Function.update s.hands .shutdown (s.hands .shutdown ++ Executor.shutdownSections s.started wait)
        stopping := true }
  /-- `shutdown`, when it has been called before. -/
  | again {wait : Bool} (hshutdown : s.executor.shutdown = true) :
    Stepped s (.shutdown wait) { s with returned := s.returned || wait }

theorem loopBody_begins {e : Executor α} {t : Thread} {body : List (Section α)} (h : loopBody e t = some body) :
    t ≠ .shutdown ∧ ∀ m ∈ body, m.begins = true := by
  cases t <;> simp only [loopBody] at h <;> try split_ifs at h
  · obtain rfl := Option.some.inj h
    exact ⟨by decide, by simp [Section.begins]⟩
  · obtain rfl := Option.some.inj h
    exact ⟨by decide, by simp [Section.begins]⟩
  · obtain rfl := Option.some.inj h
    exact ⟨by decide, by simp [Section.begins]⟩
  · cases h

theorem submit_stepped {s : System α} {id : WorkId} {r : Executor.Request} {reading : ResourceSnapshot}
    (haccepting : s.executor.accepting = true) (hid : id ∉ s.issued) :
    Stepped s (.submit id r reading) (s.submit id r reading) := by
  unfold submit
  dsimp only
  split
  · exact .outside _ _ _ true fun _ => rfl
  · exact .submit _ _ haccepting hid ⟨rfl, rfl, rfl, rfl⟩

/-- **What an event does.** -/
theorem step_stepped {s s' : System α} {e : Event α} (h : s.step e = some s') : Stepped s e s' := by
  cases e with
  | tick now =>
    simp only [step] at h
    split_ifs at h
    obtain rfl := Option.some.inj h
    exact .outside now _ _ _ id
  | start =>
    simp only [step] at h
    split_ifs at h
    obtain rfl := Option.some.inj h
    exact .outside _ _ _ true fun _ => rfl
  | poll snapshot =>
    obtain rfl := Option.some.inj h
    exact .outside _ (some snapshot) _ _ id
  | submit id r reading =>
    simp only [step] at h
    split_ifs at h with hcond
    obtain rfl := Option.some.inj h
    exact submit_stepped hcond.2.1 hcond.2.2
  | append id =>
    simp only [step] at h
    split_ifs at h with hid
    obtain rfl := Option.some.inj h
    exact .append hid
  | cancel id =>
    simp only [step] at h
    split_ifs at h with hid
    obtain rfl := Option.some.inj h
    exact .cancel hid
  | workerTake w =>
    simp only [step] at h
    split_ifs at h with hcond
    split at h
    · cases h
    · rename_i rest hqueue
      obtain rfl := Option.some.inj h
      exact .process (.stop hcond.1 hcond.2.2 hqueue)
    · rename_i item rest hqueue
      obtain rfl := Option.some.inj h
      exact .process (.take hcond.2.1 hcond.2.2 hqueue)
  | workerPut w report =>
    simp only [step] at h
    split at h
    · cases h
    · rename_i item hitem
      split_ifs at h with halive
      obtain rfl := Option.some.inj h
      exact .process (.put halive hitem rfl rfl)
  | workerLose w report =>
    simp only [step] at h
    split_ifs at h
    obtain rfl := Option.some.inj h
    exact .process .lose
  | workerDie w exitcode =>
    obtain rfl := Option.some.inj h
    exact .process (.exit exitcode)
  | round t =>
    simp only [step] at h
    split at h
    · rename_i body hand hbody
      obtain rfl := Option.some.inj h
      obtain ⟨ht, hbody⟩ := loopBody_begins hbody
      exact .begin ht hand hbody
    · cases h
  | call t m =>
    simp only [step] at h
    split at h
    · rename_i hand
      split_ifs at h with hcond
      obtain rfl := Option.some.inj h
      refine .begin hcond.1 hand (List.forall_mem_singleton.mpr ?_)
      cases m <;> first | rfl | exact absurd hcond.2 (by simp [callable])
    · cases h
  | deliver t w i =>
    simp only [step] at h
    split at h
    · rename_i r hand hr
      split_ifs at h with hcond
      obtain rfl := Option.some.inj h
      exact .deliver hcond.1 hand hr hcond.2
    · cases h
  | act t env =>
    simp only [step] at h
    split at h
    · cases h
    · rename_i m rest hand
      obtain ⟨r, hrun, rfl⟩ := Option.map_eq_some_iff.mp h
      exact .act hand hrun
  | contended t =>
    simp only [step] at h
    split at h
    · rename_i w results rest hand
      split_ifs at h with hreader
      obtain rfl := Option.some.inj h
      exact .contended hand hreader
    · cases h
  | shutdown wait =>
    simp only [step] at h
    split_ifs at h with hshutdown hstopping
    · obtain rfl := Option.some.inj h
      exact .again hshutdown
    · obtain rfl := Option.some.inj h
      exact .shutdown hstopping

/-! ## Runs -/

/-- What an event does to the hand of thread `t`. -/
inductive HandStep (s : System α) (e : Event α) (s' : System α) (t : Thread) : Prop
  | same (hand' : s'.hands t = s.hands t)
  | begins (ht : t ≠ .shutdown) (hidle : s.hands t = [])
    (hbegins : ∀ m ∈ s'.hands t, m.begins = true ∨ ∃ r, m = .processResult r)
  | act {env : Env} {m : Section α} {rest body : List (Section α)} (he : e = .act t env) (hand : s.hands t = m :: rest)
    (hrun : s.executor.run env m = some (s'.executor, body)) (hand' : s'.hands t = body ++ rest)
  | contended {w : WorkerId} {results : List (WorkResult α)} {rest : List (Section α)} (he : e = .contended t)
    (hand : s.hands t = .getNowait w results :: rest) (hexecutor : s'.executor = s.executor)
    (hand' : s'.hands t = results.map .processResult ++ rest)
  | shutdown {wait : Bool} (ht : t = .shutdown) (hstopping : s'.stopping = true)
    (hand' : s'.hands t = s.hands t ++ Executor.shutdownSections s.started wait)

/-- **What an event does to a hand**: nothing, but to that of the thread that acts. -/
theorem Stepped.handStep {s s' : System α} {e : Event α} (h : Stepped s e s') (t : Thread) : HandStep s e s' t := by
  have other {t' : Thread} {hand : List (Section α)} (ht : t ≠ t') : Function.update s.hands t' hand t = s.hands t :=
    Function.update_of_ne ht hand s.hands
  cases h with
  | @begin _ t' body ht' hidle hbody =>
    by_cases ht : t = t'
    · subst ht
      refine .begins ht' hidle fun m hm => ?_
      dsimp only at hm
      rw [Function.update_self] at hm
      exact .inl (hbody m hm)
    · exact .same (other ht)
  | @deliver t' w i r ht' hidle =>
    by_cases ht : t = t'
    · subst ht
      refine .begins ht' hidle fun m hm => ?_
      dsimp only at hm
      rw [Function.update_self, List.mem_singleton] at hm
      exact .inr ⟨r, hm⟩
    · exact .same (other ht)
  | @act t' env m rest r hand hrun =>
    by_cases ht : t = t'
    · subst ht
      exact .act rfl hand hrun (Function.update_self t _ s.hands)
    · exact .same (other ht)
  | @contended t' w results rest hand =>
    by_cases ht : t = t'
    · subst ht
      exact .contended rfl hand rfl (Function.update_self t _ s.hands)
    · exact .same (other ht)
  | @shutdown wait =>
    by_cases ht : t = .shutdown
    · subst ht
      exact .shutdown rfl rfl (Function.update_self Thread.shutdown _ s.hands)
    · exact .same (other ht)
  | outside | submit | append | cancel | process | again => exact .same rfl

/-- What an event leaves in a hand: what was there, what follows the section that was run, the beginning of a round,
a result that is delivered, or the sections of `shutdown`. -/
theorem Stepped.mem_hands {s s' : System α} {e : Event α} (h : Stepped s e s') {t : Thread} {m : Section α}
    (hm : m ∈ s'.hands t) : m ∈ s.hands t ∨ (∃ m' ∈ s.hands t, Executor.Follows m' m) ∨
      t ≠ .shutdown ∧ (m.begins = true ∨ ∃ r, m = .processResult r) ∨
        ∃ started wait, s'.stopping = true ∧ t = .shutdown ∧ m ∈ Executor.shutdownSections started wait := by
  cases h.handStep t with
  | same hand' =>
    rw [hand'] at hm
    exact .inl hm
  | begins ht _ hbegins => exact .inr (.inr (.inl ⟨ht, hbegins m hm⟩))
  | act _ hand hrun hand' =>
    rw [hand'] at hm
    rw [hand]
    rcases List.mem_append.mp hm with hm | hm
    · exact .inr (.inl ⟨_, List.mem_cons_self, Executor.run_follows hrun m hm⟩)
    · exact .inl (List.mem_cons_of_mem _ hm)
  | contended _ hand _ hand' =>
    rw [hand'] at hm
    rw [hand]
    rcases List.mem_append.mp hm with hm | hm
    · obtain ⟨r, hr, rfl⟩ := List.mem_map.mp hm
      exact .inr (.inl ⟨_, List.mem_cons_self, .results hr⟩)
    · exact .inl (List.mem_cons_of_mem _ hm)
  | @shutdown wait ht hstopping hand' =>
    rw [hand'] at hm
    exact (List.mem_append.mp hm).imp_right fun hm => .inr (.inr ⟨_, wait, hstopping, ht, hm⟩)

theorem Stepped.hand_kept {s s' : System α} {e : Event α} (h : Stepped s e s') {t : Thread} {m : Section α}
    {rest : List (Section α)} (hand : s.hands t = m :: rest) :
    (∃ env, e = .act t env) ∨ (∃ w results, e = .contended t ∧ m = .getNowait w results) ∨
      ∃ rest', s'.hands t = m :: rest' := by
  cases h.handStep t with
  | same hand' => exact .inr (.inr ⟨rest, hand'.trans hand⟩)
  | begins _ hidle =>
    rw [hand] at hidle
    cases hidle
  | act he => exact .inl ⟨_, he⟩
  | contended he hand' =>
    rw [hand] at hand'
    exact .inr (.inl ⟨_, _, he, (List.cons.inj hand').1⟩)
  | shutdown _ _ hand' =>
    rw [hand] at hand'
    exact .inr (.inr ⟨_, hand'⟩)

/-- What happens to the hand of `shutdown`. -/
theorem Stepped.hand_shutdown {s s' : System α} {e : Event α} (h : Stepped s e s') :
    s'.hands .shutdown = s.hands .shutdown ∧ s'.stopping = s.stopping ∨
      (∃ env m rest r, e = .act .shutdown env ∧ s.hands .shutdown = m :: rest ∧ s.executor.run env m = some r ∧
        s'.executor = r.1 ∧ s'.hands = Function.update s.hands .shutdown (r.2 ++ rest) ∧ s'.stopping = s.stopping) ∨
      (∃ w results rest, s.hands .shutdown = .getNowait w results :: rest ∧
        s'.hands .shutdown = results.map .processResult ++ rest ∧ s'.stopping = s.stopping) ∨
      ∃ wait, e = .shutdown wait ∧ s.stopping = false ∧ s'.executor = s.executor ∧ s'.accepted = s.accepted ∧
        s'.hands = Function.update s.hands .shutdown
          (s.hands .shutdown ++ Executor.shutdownSections s.started wait) := by
  cases h with
  | begin ht => exact .inl ⟨Function.update_of_ne ht.symm _ _, rfl⟩
  | deliver ht => exact .inl ⟨Function.update_of_ne ht.symm _ _, rfl⟩
  | @act t env m rest r hand hrun =>
    by_cases ht : t = .shutdown
    · subst ht
      exact .inr (.inl ⟨env, m, rest, r, rfl, hand, hrun, rfl, rfl, rfl⟩)
    · exact .inl ⟨Function.update_of_ne (Ne.symm ht) _ _, rfl⟩
  | @contended t w results rest hand =>
    by_cases ht : t = .shutdown
    · subst ht
      exact .inr (.inr (.inl ⟨w, results, rest, hand, Function.update_self Thread.shutdown _ s.hands, rfl⟩))
    · exact .inl ⟨Function.update_of_ne (Ne.symm ht) _ _, rfl⟩
  | @shutdown wait hstopping => exact .inr (.inr (.inr ⟨wait, rfl, hstopping, rfl, rfl, rfl⟩))
  | outside | submit | append | cancel | process | again => exact .inl ⟨rfl, rfl⟩

def nextSection (s : System α) : Event α → Option (Section α)
  | .act t _ => (s.hands t).head?
  | _ => none

theorem act_of_nextSection {s : System α} {e : Event α} {m : Section α} (h : s.nextSection e = some m) :
    ∃ t env rest, e = .act t env ∧ s.hands t = m :: rest := by
  cases e with
  | act t env =>
    obtain ⟨rest, hand⟩ := List.head?_eq_some_iff.mp h
    exact ⟨t, env, rest, rfl, hand⟩
  | _ => cases h

theorem mem_of_nextSection {s : System α} {e : Event α} {m : Section α} (h : s.nextSection e = some m) : m ∈ s.sections := by
  obtain ⟨t, env, rest, -, hand⟩ := act_of_nextSection h
  refine mem_sections.mpr ⟨t, ?_⟩
  rw [hand]
  exact List.mem_cons_self

/-- **Where a section comes from** that neither begins a round nor belongs to `shutdown`: it was in a hand before, or
the section that is run puts it there. -/
theorem Stepped.comes {s s' : System α} {e : Event α} (h : Stepped s e s') {p : Section α → Prop}
    (hbegins : ∀ m, m.begins = true → ¬ p m) (hresult : ∀ r, ¬ p (.processResult r))
    (hshutdown : ∀ started wait, ∀ m ∈ Executor.shutdownSections started wait, ¬ p m) {m : Section α} (hm : m ∈ s'.sections) (hp : p m) :
    m ∈ s.sections ∨ ∃ m' env body, s.nextSection e = some m' ∧ s.executor.run env m' = some (s'.executor, body) ∧
      m ∈ body := by
  obtain ⟨t, hm⟩ := mem_sections.mp hm
  have old (hm : m ∈ s.hands t) : m ∈ s.sections := mem_sections.mpr ⟨t, hm⟩
  cases h.handStep t with
  | same hand' =>
    rw [hand'] at hm
    exact .inl (old hm)
  | begins _ _ hall =>
    rcases hall m hm with hm | ⟨r, rfl⟩
    · exact absurd hp (hbegins m hm)
    · exact absurd hp (hresult r)
  | @shutdown wait _ _ hand' =>
    rw [hand'] at hm
    exact (List.mem_append.mp hm).elim (fun hm => .inl (old hm)) fun hm => absurd hp (hshutdown _ wait m hm)
  | @act env m' rest body he hand hrun hand' =>
    rw [hand'] at hm
    rw [hand] at old
    rcases List.mem_append.mp hm with hm | hm
    · refine .inr ⟨m', env, body, ?_, hrun, hm⟩
      rw [he, nextSection, hand]
      rfl
    · exact .inl (old (List.mem_cons_of_mem m' hm))
  | contended _ hand _ hand' =>
    rw [hand'] at hm
    rw [hand] at old
    rcases List.mem_append.mp hm with hm | hm
    · obtain ⟨r, -, rfl⟩ := List.mem_map.mp hm
      exact absurd hp (hresult r)
    · exact .inl (old (List.mem_cons_of_mem _ hm))

section Acted
variable {s s' : System α} {e : Event α} {t : Thread} {env : Env} {m m' : Section α} {rest body : List (Section α)}

/-- A section is run: what the executor and the hands are then. -/
structure Acted (s : System α) (t : Thread) (env : Env) (m : Section α) (rest body : List (Section α)) (s' : System α) :
    Prop where
  hand : s.hands t = m :: rest
  run : s.executor.run env m = some (s'.executor, body)
  hands : s'.hands = Function.update s.hands t (body ++ rest)
  issued : s'.issued = s.issued
  submitting : s'.submitting = s.submitting

theorem acted_of_next {m : Section α} (h : s.step e = some s') (hnext : s.nextSection e = some m) :
    ∃ t env rest body, e = .act t env ∧ Acted s t env m rest body s' := by
  obtain ⟨t, env, rest, rfl, hand⟩ := act_of_nextSection hnext
  simp only [step, hand] at h
  obtain ⟨r, hrun, rfl⟩ := Option.map_eq_some_iff.mp h
  exact ⟨t, env, rest, r.2, rfl, hand, hrun, rfl, rfl, rfl⟩

theorem acted_of_step {t : Thread} {env : Env} {m : Section α} (h : s.step (.act t env) = some s')
    (hnext : s.nextSection (.act t env) = some m) : ∃ rest body, Acted s t env m rest body s' := by
  obtain ⟨t', env', rest, body, he, hacted⟩ := acted_of_next h hnext
  obtain ⟨rfl, rfl⟩ := Event.act.inj he
  exact ⟨rest, body, hacted⟩

theorem mem_sections_update {t : Thread} {hand : List (Section α)} {m : Section α}
    (hhands : s'.hands = Function.update s.hands t hand) (hm : m ∈ s'.sections) : m ∈ hand ∨ m ∈ s.sections := by
  obtain ⟨t', hm⟩ := mem_sections.mp hm
  rw [hhands] at hm
  by_cases ht : t' = t
  · subst ht
    rw [Function.update_self] at hm
    exact .inl hm
  · rw [Function.update_of_ne ht] at hm
    exact .inr (mem_sections.mpr ⟨t', hm⟩)

theorem Acted.mem_sections (h : Acted s t env m rest body s') (hm : m' ∈ s'.sections) : m' ∈ body ∨ m' ∈ s.sections := by
  rcases mem_sections_update h.hands hm with hm | hm
  · rcases List.mem_append.mp hm with hm | hm
    · exact .inl hm
    · refine .inr (System.mem_sections.mpr ⟨t, ?_⟩)
      rw [h.hand]
      exact List.mem_cons_of_mem m hm
  · exact .inr hm

theorem Acted.body_subset (h : Acted s t env m rest body s') (hm : m' ∈ body) : m' ∈ s'.sections := by
  refine System.mem_sections.mpr ⟨t, ?_⟩
  rw [h.hands, Function.update_self]
  exact List.mem_append_left rest hm

end Acted

/-- The events that run no section: time goes on, and the profiles are at most read. -/
theorem step_outside {s s' : System α} {e : Event α} (h : s.step e = some s') (hnext : s.nextSection e = none) :
    s.executor.clock ≤ s'.executor.clock ∧ (s'.executor.profiles = s.executor.profiles ∨
      ∃ fnModule fnName profileKey, s'.executor.profiles = (s.executor.profiles.get fnModule fnName profileKey).2) := by
  cases e with
  | tick now =>
    simp only [step] at h
    split_ifs at h with hle
    obtain rfl := Option.some.inj h
    exact ⟨hle, .inl rfl⟩
  | submit id r reading =>
    simp only [step] at h
    split_ifs at h
    obtain rfl := Option.some.inj h
    unfold submit
    dsimp only
    split <;> exact ⟨le_rfl, .inr ⟨r.fnModule, r.fnName, r.profileKey, rfl⟩⟩
  | act t env =>
    simp only [step, List.head?_eq_none_iff.mp hnext] at h
    cases h
  | _ =>
    simp only [step] at h
    repeat' split at h
    all_goals first | (obtain rfl := Option.some.inj h; exact ⟨le_rfl, .inl rfl⟩) | cases h

/-- One step that meets a condition on the state before it. -/
def NextWhen (p : System α → Event α → Prop) (s s' : System α) : Prop := ∃ e, p s e ∧ s.step e = some s'

theorem run_of_when {p : System α → Event α → Prop} {s s' : System α}
    (h : Relation.ReflTransGen (NextWhen p) s s') : Relation.ReflTransGen Next s s' :=
  Relation.ReflTransGen.mono (fun _ _ ⟨e, _, h⟩ => ⟨e, h⟩) _ _ h

/-- The run of a list of events, as long as each meets the condition. -/
def playWhen (p : System α → Event α → Prop) [∀ s e, Decidable (p s e)] (s : System α) : List (Event α) → Option (System α)
  | [] => some s
  | e :: es => if p s e then (s.step e).bind fun s => playWhen p s es else none

theorem playWhen_run {p : System α → Event α → Prop} [∀ s e, Decidable (p s e)] : ∀ {es : List (Event α)}
    {s s' : System α}, playWhen p s es = some s' → Relation.ReflTransGen (NextWhen p) s s'
  | [], s, s', h => by
    obtain rfl := Option.some.inj h
    exact .refl
  | e :: es, s, s', h => by
    unfold playWhen at h
    split_ifs at h with hp
    obtain ⟨s₁, hs₁, h⟩ := Option.bind_eq_some_iff.mp h
    exact .head ⟨e, hp, hs₁⟩ (playWhen_run h)

def play (s : System α) (es : List (Event α)) : Option (System α) := playWhen (fun _ _ => True) s es

theorem play_reachable {cfg : Config} {profiles : ProfileStore} {es : List (Event α)} {s : System α}
    (h : play (init cfg profiles) es = some s) : Reachable s :=
  ⟨cfg, profiles, run_of_when (playWhen_run h)⟩

/-! ## Histories -/

/-- What is remembered of a run: at its beginning, and after a step from one state to the next. -/
structure History (α γ : Type) where
  start : γ
  next : System α → Event α → System α → γ → γ

/-- A run whose events meet a condition, with what is remembered of it. -/
inductive Recorded {γ : Type} (H : History α γ) (p : System α → Event α → Prop) (s₀ : System α) : System α → γ → Prop
  | start : Recorded H p s₀ s₀ H.start
  | next {s s' : System α} {g : γ} {e : Event α} (h : Recorded H p s₀ s g) (hp : p s e) (hstep : s.step e = some s') :
    Recorded H p s₀ s' (H.next s e s' g)

theorem Recorded.run {γ : Type} {H : History α γ} {p : System α → Event α → Prop} {s₀ s : System α} {g : γ}
    (h : Recorded H p s₀ s g) : Relation.ReflTransGen (NextWhen p) s₀ s := by
  induction h with
  | start => exact .refl
  | next _ hp hstep ih => exact ih.tail ⟨_, hp, hstep⟩

theorem Recorded.reachable {γ : Type} {H : History α γ} {p : System α → Event α → Prop} {cfg : Config}
    {profiles : ProfileStore} {s : System α} {g : γ} (h : Recorded H p (init cfg profiles) s g) : Reachable s :=
  ⟨cfg, profiles, run_of_when h.run⟩

/-- The run of a list of events with its history, as long as each meets the condition. -/
def playRecorded {γ : Type} (H : History α γ) (p : System α → Event α → Prop) [∀ s e, Decidable (p s e)] (s : System α)
    (g : γ) : List (Event α) → Option (System α × γ)
  | [] => some (s, g)
  | e :: es => if p s e then (s.step e).bind fun s' => playRecorded H p s' (H.next s e s' g) es else none

theorem Recorded.play {γ : Type} {H : History α γ} {p : System α → Event α → Prop} [∀ s e, Decidable (p s e)]
    {s₀ : System α} : ∀ {es : List (Event α)} {s s' : System α} {g g' : γ}, Recorded H p s₀ s g →
    playRecorded H p s g es = some (s', g') → Recorded H p s₀ s' g'
  | [], _, _, _, _, h, hplay => by
    obtain ⟨rfl, rfl⟩ := Prod.mk.inj (Option.some.inj hplay)
    exact h
  | e :: es, s, s', g, g', h, hplay => by
    unfold playRecorded at hplay
    split_ifs at hplay with hp
    obtain ⟨s₁, hs₁, hplay⟩ := Option.bind_eq_some_iff.mp hplay
    exact (h.next hp hs₁).play hplay

end System

end AdaptiveExecutor
