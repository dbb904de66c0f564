import AdaptiveExecutor.Executor.Drain

/-!
# Poisoned queues

A worker that is killed may die in the middle of a put, so `_handle_timeout` poisons its queue, under the lock and before
the kill. `_read_queue` tests the flag, not under the lock, and then reads on until the queue is empty.

* `Executor.poisons` : the worker that a timeout kills; `run_poisons` : nothing else poisons a queue;
* `System.ReadsPoisoned` : the next section of a thread reads a poisoned queue;
* `System.PoisonsRead` : a queue is poisoned that a thread has begun to read;
* `System.Clear`, `Stepped.clear` : no other event leads to the reading of a poisoned queue.
-/

namespace AdaptiveExecutor
open Relation (ReflTransGen)

namespace Section
variable {α : Type}

/-- The queue from which a section takes the next result. -/
def gets : Section α → Option WorkerId
  | .getNowait w _ => some w
  | _ => none

theorem gets_of_begins {m : Section α} (h : m.begins = true) : m.gets = none := by
  cases m <;> first | rfl | cases h

end Section

namespace Executor
variable {α : Type} {env : Env} {e e' : Executor α} {m m' : Section α} {body : List (Section α)} {w : WorkerId}

/-- The worker that `_handle_timeout` kills. -/
def poisons (e : Executor α) (id : WorkId) : Option WorkerId :=
  if id ∉ e.inFlight ∨ (e.futures id).done then none
  else
    match e.cfg.onTimeout, (e.works id).workerId with
    | .killWorker, some w => if w ∈ e.workers then some w else none
    | _, _ => none

theorem poisons_iff {id : WorkId} : e.poisons id = some w ↔ (id ∈ e.inFlight ∧ (e.futures id).done = false) ∧
    e.cfg.onTimeout = .killWorker ∧ (e.works id).workerId = some w ∧ w ∈ e.workers := by
  unfold poisons
  split_ifs with hcond
  · refine ⟨fun h => (by cases h), fun ⟨⟨hflight, hdone⟩, _⟩ => ?_⟩
    rcases hcond with hout | hdone'
    · exact absurd hflight hout
    · rw [hdone] at hdone'
      cases hdone'
  · simp only [not_or, not_not, Bool.not_eq_true] at hcond
    split
    · rename_i v hon hid
      rw [hon, hid]
      split_ifs with hv
      · refine ⟨fun h => ⟨hcond, rfl, h, ?_⟩, fun h => h.2.2.1⟩
        rwa [← Option.some.inj h]
      · refine ⟨fun h => (by cases h), fun ⟨_, _, h, hw⟩ => ?_⟩
        rw [Option.some.inj h] at hv
        exact absurd hw hv
    · rename_i hother
      exact ⟨fun h => (by cases h), fun ⟨_, hon, hid, _⟩ => (hother w hon hid).elim⟩

theorem handleTimeout_poisons (e : Executor α) (id : WorkId) (w : WorkerId) :
    ((e.handleTimeout id).1.slots w).queuePoisoned = true ↔
      (e.slots w).queuePoisoned = true ∨ e.poisons id = some w := by
  rw [poisons_iff]
  unfold handleTimeout
  split_ifs with hcond
  · have hnot : ¬ (id ∈ e.inFlight ∧ (e.futures id).done = false) := by
      rintro ⟨hflight, hdone⟩
      simp [hflight, hdone] at hcond
    simp [hnot]
  rw [not_or, not_not, Bool.not_eq_true] at hcond
  dsimp only
  split
  · rename_i v hon hid
    split_ifs with hv
    · change ((e.modifySlot v fun slot =>
        { slot with intentionallyStopped := true, queuePoisoned := true, currentWorkId := none }).slots w).queuePoisoned =
          true ↔ _
      rw [modifySlot_slots, hid, Option.some.injEq]
      split_ifs with hw
      · subst hw
        simp [hcond, hon, hv]
      · simp [Ne.symm hw]
    · have hother : ¬ ((e.works id).workerId = some w ∧ w ∈ e.workers) := by
        rw [hid]
        rintro ⟨h, hw⟩
        rw [Option.some.inj h] at hv
        exact hv hw
      simp [popInFlight, hother]
  · rename_i hother
    have hnot : ¬ (e.cfg.onTimeout = .killWorker ∧ (e.works id).workerId = some w ∧ w ∈ e.workers) := by
      rintro ⟨hon, hid, -⟩
      exact hother w hon hid
    rw [and_iff_right hcond, or_iff_left hnot]
    split
    · exact Iff.rfl
    · rename_i v _
      split_ifs
      · have hsame : (e.slots w).SameQueue ((e.modifySlot v fun slot => { slot with currentWorkId := none }).slots w) :=
          modifySlot_sameQueue fun _ => ⟨rfl, rfl, rfl, rfl⟩
        change ((e.modifySlot v fun slot => { slot with currentWorkId := none }).slots w).queuePoisoned = true ↔ _
        rw [hsame.poisoned]
      · exact Iff.rfl

theorem DispatchSteps.poisoned {decided : List WorkId} (h : DispatchSteps env decided e e')
    (hw : (e'.slots w).queuePoisoned = true) : (e.slots w).queuePoisoned = true := by
  induction h with
  | refl => exact hw
  | tail _ h ih =>
    apply ih
    rcases h.queues w with hsame | ⟨-, hclean⟩
    · rwa [hsame.poisoned] at hw
    · rw [hclean] at hw
      cases hw

/-- **Only a timeout poisons a queue.** -/
theorem run_poisons (h : e.run env m = some (e', body)) (hnodup : e.pending.Nodup)
    (hw : (e'.slots w).queuePoisoned = true) :
    (e.slots w).queuePoisoned = true ∨ ∃ id ∈ m.timesOut, e.poisons id = some w := by
  have same (h : (e.slots w).SameQueue (e'.slots w)) : (e.slots w).queuePoisoned = true := by rwa [← h.poisoned]
  cases m with
  | handleTimeout id =>
    obtain ⟨rfl, -⟩ := run_eq (r := e.handleTimeout id) h
    exact ((handleTimeout_poisons e id w).mp hw).imp_right fun hid => ⟨id, rfl, hid⟩
  | maybeDispatch =>
    left
    obtain ⟨hok, -⟩ := run_maybeDispatch h
    exact (maybeDispatch_steps hnodup hok).poisoned hw
  | processResult r =>
    obtain ⟨rfl, -⟩ := run_eq (r := e.processResult r) h
    have hslots : (e.processResult r).1.slots = (e.clearWorker r).slots := by
      unfold processResult
      dsimp only
      split_ifs <;> rfl
    refine .inl (same ?_)
    rw [hslots]
    exact clearWorker_sameQueue r
  | takeLost v =>
    obtain ⟨rfl, -⟩ := run_eq (r := e.takeLost v) h
    rcases takeLost_frame e v with hframe | ⟨id, -, hframe⟩
    · rw [hframe] at hw
      exact .inl hw
    · rw [hframe] at hw
      exact .inl hw
  | getNowait v results =>
    obtain ⟨rfl, -⟩ := run_eq (r := e.getNowait v results) h
    have hkeeps (rest : List (WorkResult α)) := modifySlot_keeps e
      (f := fun slot => { slot with process := { slot.process with resultQueue := rest } }) (·.queuePoisoned) (fun _ => rfl) v w
    unfold getNowait at hw
    split at hw
    · exact .inl hw
    · split_ifs at hw
      · exact .inl hw
      · exact .inl ((hkeeps _).symm.trans hw)
  | escalateKill v =>
    obtain ⟨rfl, -⟩ := run_eq h
    have hkeeps (code : Int) := modifySlot_keeps e
      (f := fun slot => { slot with process := slot.process.exit code }) (·.queuePoisoned) (fun _ => rfl) v w
    unfold escalateKill at hw
    split at hw
    · exact .inl ((hkeeps _).symm.trans hw)
    · exact .inl ((hkeeps _).symm.trans hw)
    · exact .inl hw
  | discardQueue v =>
    obtain ⟨rfl, -⟩ := run_eq h
    have hkeeps := modifySlot_keeps e (f := fun slot => { slot with queueDiscarded := true }) (·.queuePoisoned)
      (fun _ => rfl) v w
    exact .inl (hkeeps.symm.trans hw)
  | stopAllWorkers =>
    obtain ⟨rfl, -⟩ := run_eq (r := e.stopAllWorkers) h
    obtain ⟨slots, hslots, hkeeps⟩ := foldl_modifySlot (fun slot : WorkerSlot α =>
      { slot with
        intentionallyStopped := true
        process := { slot.process with workQueue := slot.process.workQueue ++ [none] } }) e.workers e
    rw [stopAllWorkers, hslots] at hw
    exact .inl ((hkeeps (·.queuePoisoned) (fun _ => rfl) w).symm.trans hw)
  | failPendingFutures =>
    obtain ⟨rfl, -⟩ := run_eq h
    obtain ⟨futures, hframe⟩ := failPendingFutures_frame e
    rw [hframe] at hw
    exact .inl hw
  | checkWorkers =>
    obtain ⟨rfl, -⟩ := run_eq (r := e.checkWorkers) h
    exact .inl hw
  | sweep | readClock | scanTimeouts | readQueue | testInFlight | finalDrain | settle | record | penalizeEstimate | requeue
  | shutUnstarted | stopAccepting | stopThreads | pruneRetiring | leave =>
    obtain ⟨rfl, -⟩ := run_eq h
    exact .inl hw

theorem Follows.gets (h : Follows m m') (hm : m'.gets = some w) : m = .readQueue w ∨ m.gets = some w := by
  cases h with
  | read => exact .inl (congrArg _ (Option.some.inj hm))
  | next => exact .inr hm
  | _ => cases hm

theorem run_gets (h : e.run env m = some (e', body)) : ∀ m' ∈ body.tail, m'.gets = none := by
  have plain (hm : ∀ m', Follows m m' → m'.gets = none) : ∀ m' ∈ body.tail, m'.gets = none := fun m' hm' =>
    hm m' (run_follows h m' (List.mem_of_mem_tail hm'))
  cases m with
  | readQueue v =>
    obtain ⟨-, rfl⟩ := run_eq h
    unfold readQueue
    split_ifs
    · simp
    · simp
  | getNowait v results =>
    obtain ⟨-, rfl⟩ := run_eq (r := e.getNowait v results) h
    have hresults : ∀ m' ∈ (results.map Section.processResult).tail, m'.gets = none := by
      intro m' hm'
      obtain ⟨r, -, rfl⟩ := List.mem_map.mp (List.mem_of_mem_tail hm')
      rfl
    unfold getNowait
    split
    · exact hresults
    · split_ifs
      · exact hresults
      · simp
  | _ => exact plain fun m' hm' => by cases hm' <;> rfl

end Executor

namespace System
variable {α : Type} {s s' : System α} {e : Event α} {w : WorkerId}

def ReadsPoisoned (s : System α) (e : Event α) : Prop :=
  ∃ m ∈ s.nextSection e, ∃ w ∈ m.gets, (s.executor.slots w).queuePoisoned = true

/-- A thread has tested the flags of a queue, and not yet come to its end. -/
def Reading (s : System α) (w : WorkerId) : Prop := ∃ m ∈ s.sections, m.gets = some w

/-- The event poisons a queue that a thread is reading. -/
def PoisonsRead (s : System α) (e : Event α) : Prop :=
  ∃ m ∈ s.nextSection e, ∃ id ∈ m.timesOut, ∃ w ∈ s.executor.poisons id, s.Reading w

instance (s : System α) (e : Event α) : Decidable (s.ReadsPoisoned e) :=
  inferInstanceAs (Decidable (∃ m ∈ s.nextSection e, ∃ w ∈ m.gets, (s.executor.slots w).queuePoisoned = true))

instance (s : System α) (w : WorkerId) : Decidable (s.Reading w) :=
  inferInstanceAs (Decidable (∃ m ∈ s.sections, m.gets = some w))

instance (s : System α) (e : Event α) : Decidable (s.PoisonsRead e) :=
  inferInstanceAs (Decidable (∃ m ∈ s.nextSection e, ∃ id ∈ m.timesOut, ∃ w ∈ s.executor.poisons id, s.Reading w))

/-- No queue that is being read is poisoned, and what a thread reads, it reads next. -/
structure Clear (s : System α) : Prop where
  clean : ∀ w, s.Reading w → (s.executor.slots w).queuePoisoned = false
  first : ∀ t, ∀ m ∈ (s.hands t).tail, m.gets = none

theorem Clear.not_reads (h : Clear s) (e : Event α) : ¬ s.ReadsPoisoned e := by
  rintro ⟨m, hm, w, hw, hpoisoned⟩
  have hreading : s.Reading w := by
    cases e with
    | act t env => exact ⟨m, mem_sections.mpr ⟨t, List.mem_of_mem_head? hm⟩, hw⟩
    | _ => cases hm
  rw [h.clean w hreading] at hpoisoned
  cases hpoisoned

theorem shutdownSections_gets (started wait : Bool) :
    ∀ m ∈ (Executor.shutdownSections started wait : List (Section α)), m.gets = none := by
  cases started <;> cases wait <;> simp [Executor.shutdownSections, Section.gets]

/-- **A queue gets poisoned by a timeout only.** -/
theorem Stepped.poisoned (h : Stepped s e s') (hs : Sound s) (hw : (s'.executor.slots w).queuePoisoned = true) :
    (s.executor.slots w).queuePoisoned = true ∨
      ∃ m ∈ s.nextSection e, ∃ id ∈ m.timesOut, s.executor.poisons id = some w := by
  have process (v : WorkerId) (f : WorkerProcess α → WorkerProcess α)
      (hv : ((s.executor.modifyProcess v f).slots w).queuePoisoned = true) :
      (s.executor.slots w).queuePoisoned = true :=
    (Executor.modifySlot_keeps s.executor (f := fun slot => { slot with process := f slot.process }) (·.queuePoisoned)
      (fun _ => rfl) v w).symm.trans hv
  cases h with
  | @act t env m rest r hand hrun =>
    rcases Executor.run_poisons hrun hs.tidy.nodup.of_append_left hw with hold | ⟨id, hid, hpoisons⟩
    · exact .inl hold
    · refine .inr ⟨m, ?_, id, hid, hpoisons⟩
      rw [nextSection, hand]
      rfl
  | @process _ v p => exact .inl (process v (fun _ => p) hw)
  | @deliver t v i => exact .inl (process v (fun p => { p with resultQueue := p.resultQueue.eraseIdx i }) hw)
  | outside | submit | append | cancel | begin | contended | shutdown | again => exact .inl hw

/-- **A thread begins to read a queue** only where it has found it clean. -/
theorem Stepped.reading (h : Stepped s e s') (hw : s'.Reading w) :
    s.Reading w ∨ s.nextSection e = some (.readQueue w) ∧ (s.executor.slots w).queuePoisoned = false := by
  obtain ⟨m, hm, hgets⟩ := hw
  have hcomes := h.comes (p := fun m => m.gets = some w) (fun m hm hg => ?_) (fun r hg => ?_) (fun started wait m hm hg => ?_)
    hm hgets
  · rcases hcomes with hold | ⟨m', env, body, hnext, hrun, hbody⟩
    · exact .inl ⟨m, hold, hgets⟩
    · rcases (Executor.run_follows hrun m hbody).gets hgets with rfl | hsame
      · refine .inr ⟨hnext, ?_⟩
        -- the flag has been tested in this very section
        obtain ⟨-, rfl⟩ := Executor.run_eq hrun
        by_contra hpoisoned
        rw [Bool.not_eq_false] at hpoisoned
        simp [Executor.readQueue, hpoisoned] at hbody
      · exact .inl ⟨m', mem_of_nextSection hnext, hsame⟩
  · rw [Section.gets_of_begins hm] at hg
    cases hg
  · cases hg
  · rw [shutdownSections_gets started wait m hm] at hg
    cases hg

theorem gets_tail_append {body rest : List (Section α)} (hbody : ∀ m ∈ body.tail, m.gets = none)
    (hrest : ∀ m ∈ rest, m.gets = none) : ∀ m ∈ (body ++ rest).tail, m.gets = none := by
  cases body with
  | nil => exact fun m hm => hrest m (List.mem_of_mem_tail hm)
  | cons m₁ body => exact fun m hm => (List.mem_append.mp hm).elim (hbody m) (hrest m)

theorem Stepped.first (h : Stepped s e s') (hs : ∀ t, ∀ m ∈ (s.hands t).tail, m.gets = none) (t : Thread) :
    ∀ m ∈ (s'.hands t).tail, m.gets = none := by
  have hold := hs t
  cases h.handStep t with
  | same hand' => rwa [hand']
  | begins _ _ hbegins =>
    intro m hm
    rcases hbegins m (List.mem_of_mem_tail hm) with hbegins | ⟨r, rfl⟩
    · exact Section.gets_of_begins hbegins
    · rfl
  | @shutdown wait _ _ hand' =>
    rw [hand']
    exact gets_tail_append hold (shutdownSections_gets _ wait)
  | act _ hand hrun hand' =>
    rw [hand] at hold
    rw [hand']
    exact gets_tail_append (Executor.run_gets hrun) hold
  | contended _ hand _ hand' =>
    rw [hand] at hold
    rw [hand']
    refine gets_tail_append (fun m hm => ?_) hold
    obtain ⟨r, -, rfl⟩ := List.mem_map.mp (List.mem_of_mem_tail hm)
    rfl

/-- **Unless a queue is poisoned that is being read**, no poisoned queue is going to be read. -/
theorem Stepped.clear (h : Stepped s e s') (hs : Sound s) (hc : Clear s) (hp : ¬ s.PoisonsRead e) : Clear s' := by
  refine ⟨fun w hw => ?_, h.first hc.first⟩
  by_contra hpoisoned
  rw [Bool.not_eq_false] at hpoisoned
  rcases h.reading hw with hreading | ⟨hnext, hclean⟩
  · rcases h.poisoned hs hpoisoned with hold | ⟨m, hm, id, hid, hpoisons⟩
    · rw [hc.clean w hreading] at hold
      cases hold
    · exact hp ⟨m, hm, id, hid, w, hpoisons, hreading⟩
  · rcases h.poisoned hs hpoisoned with hold | ⟨m, hm, id, hid, -⟩
    · rw [hclean] at hold
      cases hold
    · rw [hnext] at hm
      obtain rfl := Option.some.inj hm
      cases hid

theorem run_clear {cfg : Config} {profiles : ProfileStore}
    (h : ReflTransGen (NextWhen fun s e => ¬ s.PoisonsRead e) (init cfg profiles) s) : Clear s := by
  induction h with
  | refl => exact ⟨fun w ⟨m, hm, _⟩ => (by cases hm), fun _ _ hm => by cases hm⟩
  | tail hrun h ih =>
    obtain ⟨e, hp, h⟩ := h
    have hreach : Reachable _ := ⟨cfg, profiles, run_of_when hrun⟩
    exact (step_stepped h).clear hreach.sound.1 ih hp

theorem Clear.head_of_gets (hc : Clear s) {t : Thread} {m : Section α} (hm : m ∈ s.hands t) (hgets : m.gets = some w) :
    (s.hands t).head? = some m := by
  have hfirst := hc.first t m
  cases hand : s.hands t with
  | nil =>
    rw [hand] at hm
    cases hm
  | cons m₁ rest =>
    rw [hand] at hm hfirst
    rcases List.mem_cons.mp hm with rfl | hm
    · rfl
    · rw [hfirst hm] at hgets
      cases hgets

theorem Clear.reads_next (hc : Clear s) (h : s.step e = some s') (hp : s.PoisonsRead e) : ∃ e', s'.ReadsPoisoned e' := by
  obtain ⟨m, hm, id, hid, w, hw, m', hm', hgets⟩ := hp
  obtain ⟨t', hm'⟩ := mem_sections.mp hm'
  cases m with
  | handleTimeout id' =>
    obtain rfl := Option.some.inj hid
    obtain ⟨t, env, rest, rfl, hand⟩ := act_of_nextSection hm
    simp only [step, hand] at h
    obtain ⟨r, hrun, rfl⟩ := Option.map_eq_some_iff.mp h
    obtain rfl := Option.some.inj hrun
    have hhead := hc.head_of_gets hm' hgets
    have ht : t' ≠ t := by
      rintro rfl
      rw [hand] at hhead
      obtain rfl := Option.some.inj hhead
      cases hgets
    refine ⟨.act t' env, m', ?_, w, hgets, (Executor.handleTimeout_poisons s.executor id' w).mpr (.inr hw)⟩
    change (Function.update s.hands t _ t').head? = some m'
    rwa [Function.update_of_ne ht]
  | _ => cases hid

/-- **A poisoned queue is not read** in a run in which no queue is poisoned while it is being read; and the first step
that does that is the first after which one is. -/
theorem poisoned_not_read {cfg : Config} {profiles : ProfileStore}
    (h : ReflTransGen (NextWhen fun s e => ¬ s.PoisonsRead e) (init cfg profiles) s) :
    (∀ e, ¬ s.ReadsPoisoned e) ∧
      ∀ e s', s.step e = some s' → ((∃ e', s'.ReadsPoisoned e') ↔ s.PoisonsRead e) := by
  have hc := run_clear h
  have hreach : Reachable s := ⟨cfg, profiles, run_of_when h⟩
  refine ⟨hc.not_reads, fun e s' hstep => ⟨fun ⟨e', hreads⟩ => ?_, hc.reads_next hstep⟩⟩
  by_contra hp
  exact ((step_stepped hstep).clear hreach.sound.1 hc hp).not_reads e' hreads

/-- One worker, which is killed when its task times out. -/
def killingWorker : Config := { oneWorker with onTimeout := .killWorker }

def timeOutOne : List (Event Unit) :=
  [.tick 301, .round .timeouts, .act .timeouts plainEnv, .act .timeouts plainEnv, .act .timeouts plainEnv]

/-- The collector begins to read the queue of the only worker. -/
def readOne : List (Event Unit) := [.round .collector, .act .collector plainEnv, .act .collector plainEnv]

theorem poisoned_not_read_timeout : ∃ s : System Unit, (s.executor.slots 0).queuePoisoned = true ∧
    ∀ e, ¬ s.ReadsPoisoned e := by
  have hfacts : ((init killingWorker {} : System Unit).playWhen (fun s e => ¬ s.PoisonsRead e)
      (shipOne ++ timeOutOne ++ [.round .collector])).any (fun s => (s.executor.slots 0).queuePoisoned) = true := by
    decide +kernel
  obtain ⟨s, hs, hpoisoned⟩ := (Option.any_eq_true _ _).mp hfacts
  exact ⟨s, hpoisoned, (poisoned_not_read (playWhen_run hs)).1⟩

/-- The timeout falls between the test of the flag and the reading. -/
theorem poisoned_read : ∃ s : System Unit, Reachable s ∧ s.ReadsPoisoned (.act .collector plainEnv) := by
  have hfacts : ((init killingWorker {} : System Unit).play (shipOne ++ readOne ++ timeOutOne)).any
      (fun s => decide (s.ReadsPoisoned (.act .collector plainEnv))) = true := by decide +kernel
  obtain ⟨s, hs, hreads⟩ := (Option.any_eq_true _ _).mp hfacts
  exact ⟨s, play_reachable hs, of_decide_eq_true hreads⟩

end System

end AdaptiveExecutor
