import AdaptiveExecutor.Executor.Cycle
import AdaptiveExecutor.Executor.Runs

/-!
# The pool of workers

* `Pool` : no worker is twice in the pool, or in the pool and lost, and ids are not used again;
* `Unstopped` : no worker of the pool has been stopped, and no lost worker had been;
* `Reshapes` : what the steps do to the pool; `run_reshapes`, `Stepped.reshapes`;
* `Reachable.pool`, `Reachable.unstopped`.
-/

namespace AdaptiveExecutor
open Relation (ReflTransGen)

namespace Executor
variable {α : Type} {env : Env} {e e' e'' : Executor α} {lost lost' lost'' : List WorkerId}

/-- The workers of the pool and the dead workers whose task has not been taken yet. -/
structure Pool (e : Executor α) (lost : List WorkerId) : Prop where
  nodup : (e.workers ++ lost).Nodup
  spawned : ∀ w ∈ e.workers ++ lost, w < e.nextWorkerId

def Unstopped (e : Executor α) (lost : List WorkerId) : Prop :=
  ∀ w ∈ e.workers ++ lost, (e.slots w).intentionallyStopped = false

def Reshapes (e : Executor α) (lost : List WorkerId) (e' : Executor α) (lost' : List WorkerId) : Prop :=
  Pool e lost → Pool e' lost' ∧ (Unstopped e lost → Unstopped e' lost')

theorem Reshapes.refl (e : Executor α) (lost : List WorkerId) : Reshapes e lost e lost := fun h => ⟨h, id⟩

theorem Reshapes.trans (h : Reshapes e lost e' lost') (h' : Reshapes e' lost' e'' lost'') :
    Reshapes e lost e'' lost'' := fun hpool =>
  have hpool' := (h hpool).1
  ⟨(h' hpool').1, fun hs => (h' hpool').2 ((h hpool).2 hs)⟩

theorem Reshapes.leave (hnext : e'.nextWorkerId = e.nextWorkerId)
    (hsub : (e'.workers ++ lost').Subperm (e.workers ++ lost))
    (hstopped : (e.workers ++ lost).Nodup → ∀ w ∈ e'.workers ++ lost',
      (e'.slots w).intentionallyStopped = (e.slots w).intentionallyStopped) :
    Reshapes e lost e' lost' := fun hpool =>
  ⟨⟨hsub.elim fun _ h => h.1.nodup_iff.mp (hpool.nodup.sublist h.2), fun w hw => hnext ▸ hpool.spawned w (hsub.subset hw)⟩,
    fun hs w hw => (hstopped hpool.nodup w hw).trans (hs w (hsub.subset hw))⟩

theorem Reshapes.still (hnext : e'.nextWorkerId = e.nextWorkerId) (hworkers : e'.workers = e.workers)
    (hstopped : ∀ w, (e'.slots w).intentionallyStopped = (e.slots w).intentionallyStopped) :
    Reshapes e lost e' lost :=
  .leave hnext (by rw [hworkers]) fun _ w _ => hstopped w

theorem reshapes_evict {w : WorkerId} (hw : w ∈ e.workers) (f : WorkerSlot α → WorkerSlot α) :
    Reshapes e lost ((e.modifySlot w f).evict w) lost := by
  refine .leave rfl (List.erase_sublist.append_right lost).subperm fun hnodup x hx => ?_
  have hne : x ≠ w := by
    rintro rfl
    rw [List.nodup_append] at hnodup
    rcases List.mem_append.mp hx with hx | hx
    · exact hnodup.1.not_mem_erase hx
    · exact hnodup.2.2 x hw x hx rfl
  change ((e.modifySlot w f).slots x).intentionallyStopped = _
  rw [modifySlot_slots, if_neg hne]

theorem reshapes_retire {w : WorkerId} (hw : w ∈ e.workers) : Reshapes e lost (e.retireWorker w) lost :=
  reshapes_evict hw _

theorem reshapes_modifySlot {w : WorkerId} {f : WorkerSlot α → WorkerSlot α}
    (hf : ∀ slot, (f slot).intentionallyStopped = slot.intentionallyStopped) :
    Reshapes e lost (e.modifySlot w f) lost :=
  .still rfl rfl fun x => modifySlot_keeps e _ hf w x

theorem reshapes_modifyProcess (w : WorkerId) (f : WorkerProcess α → WorkerProcess α) :
    Reshapes e lost (e.modifyProcess w f) lost := reshapes_modifySlot fun _ => rfl

theorem reshapes_spawned (e : Executor α) (lost : List WorkerId) (pid : Int) (gpuId : Option GpuId) :
    Reshapes e lost (e.spawned pid gpuId) lost := fun hpool => by
  have hnew : e.nextWorkerId ∉ e.workers ++ lost := fun h => lt_irrefl _ (hpool.spawned _ h)
  have hworkers : (e.spawned pid gpuId).workers = e.workers ++ [e.nextWorkerId] :=
    if_neg fun h => hnew (List.mem_append_left _ h)
  have hperm : (e.workers ++ [e.nextWorkerId] ++ lost).Perm (e.nextWorkerId :: (e.workers ++ lost)) := by
    rw [List.append_assoc, List.singleton_append]
    exact List.perm_middle
  refine ⟨⟨?_, fun w hw => ?_⟩, fun hs w hw => ?_⟩
  · rw [hworkers]
    exact hperm.nodup_iff.mpr (List.nodup_cons.mpr ⟨hnew, hpool.nodup⟩)
  · rw [hworkers, hperm.mem_iff] at hw
    rcases List.mem_cons.mp hw with rfl | hw
    · exact Nat.lt_succ_self _
    · exact Nat.lt_succ_of_lt (hpool.spawned w hw)
  · rw [hworkers, hperm.mem_iff] at hw
    change (Function.update e.slots e.nextWorkerId _ w).intentionallyStopped = false
    rcases List.mem_cons.mp hw with rfl | hw
    · rw [Function.update_self]
    · rw [Function.update_of_ne (by rintro rfl; exact hnew hw)]
      exact hs w hw

/-! ## A dispatch cycle -/

theorem DispatchStep.reshapes {decided : List WorkId} (h : DispatchStep env decided e e') :
    Reshapes e lost e' lost := by
  cases h with
  | refresh h =>
    obtain ⟨_, _, _, -, rfl⟩ := h
    exact .still rfl rfl fun _ => rfl
  | fail => exact .still rfl rfl fun _ => rfl
  | retire hw => exact reshapes_retire hw
  | spawn pid gpuId => exact reshapes_spawned e lost pid gpuId
  | drop => exact .still rfl rfl fun _ => rfl
  | @ship id s₁ w gpuId _ _ _ _ hs =>
    have hstart : s₁.slots = e.slots ∧ s₁.workers = e.workers ∧ s₁.nextWorkerId = e.nextWorkerId := by
      rcases hs with ⟨-, rfl⟩ | ⟨-, -, rfl⟩ <;> exact ⟨rfl, rfl, rfl⟩
    obtain ⟨item, -, hslots⟩ := ship_slots env s₁ id gpuId w
    refine .still hstart.2.2 hstart.2.1 fun x => ?_
    rw [← hstart.1]
    refine (congrArg WorkerSlot.intentionallyStopped (hslots x)).trans ?_
    split_ifs with hx
    · rw [hx]
    · rfl

theorem DispatchSteps.reshapes {decided : List WorkId} (h : DispatchSteps env decided e e') :
    Reshapes e lost e' lost := by
  induction h with
  | refl => exact .refl e lost
  | tail _ h ih => exact ih.trans h.reshapes

/-! ## Sections -/

theorem clearWorker_reshapes (e : Executor α) (r : WorkResult α) (lost : List WorkerId) :
    Reshapes e lost (e.clearWorker r) lost := by
  have hfree : Reshapes e lost (e.modifySlot r.workerId fun slot =>
      { slot with currentWorkId := none, tasksCompleted := slot.tasksCompleted + 1 }) lost :=
    reshapes_modifySlot fun _ => rfl
  unfold clearWorker
  dsimp only
  split_ifs with hw
  · exact hfree.trans (reshapes_retire hw.1)
  · exact hfree
  · exact .refl e lost

theorem handleTimeout_reshapes (e : Executor α) (id : WorkId) (lost : List WorkerId) :
    Reshapes e lost (e.handleTimeout id).1 lost := by
  unfold handleTimeout
  split_ifs
  · exact .refl e lost
  dsimp only
  split
  · split_ifs with hw
    · exact (reshapes_evict hw _).trans (.still rfl rfl fun _ => rfl)
    · exact .still rfl rfl fun _ => rfl
  · split
    · exact .still rfl rfl fun _ => rfl
    · rename_i w _
      have hfree : Reshapes e lost (e.modifySlot w fun slot => { slot with currentWorkId := none }) lost :=
        reshapes_modifySlot fun _ => rfl
      split_ifs
      · exact hfree.trans (.still rfl rfl fun _ => rfl)
      · exact .still rfl rfl fun _ => rfl

theorem checkWorkers_loses (e : Executor α) :
    e.checkWorkers.2.filterMap Section.loses = e.workers.filter fun w => !(e.slots w).process.alive := by
  have hdrain (w : WorkerId) : (drainAndDiscard w : List (Section α)).filterMap Section.loses = [] := rfl
  have hreaped (ws : List WorkerId) :
      (ws.flatMap (drainAndDiscard : WorkerId → List (Section α))).filterMap Section.loses = [] := by
    induction ws with
    | nil => rfl
    | cons w ws ih => rw [List.flatMap_cons, List.filterMap_append, hdrain, ih, List.nil_append]
  have hdead (ws : List WorkerId) : (ws.flatMap fun w =>
      (drainAndDiscard w : List (Section α)) ++ [.takeLost w]).filterMap Section.loses = ws := by
    induction ws with
    | nil => rfl
    | cons w ws ih =>
      rw [List.flatMap_cons, List.filterMap_append, List.filterMap_append, hdrain, ih]
      rfl
  unfold checkWorkers
  dsimp only
  rw [List.filterMap_append, hreaped, hdead, List.nil_append]

theorem checkWorkers_reshapes (e : Executor α) (lost : List WorkerId) :
    Reshapes e lost e.checkWorkers.1 (e.checkWorkers.2.filterMap Section.loses ++ lost) := by
  rw [checkWorkers_loses]
  refine .leave rfl (List.Perm.subperm ?_) fun _ _ _ => rfl
  rw [← List.append_assoc]
  exact (List.filter_append_perm (fun w => (e.slots w).process.alive) e.workers).append_right lost

theorem takeLost_frame (e : Executor α) (w : WorkerId) :
    (e.takeLost w).1 = e ∨ ∃ id, (e.slots w).currentWorkId = some id ∧ (e.takeLost w).1 = e.popInFlight id := by
  unfold takeLost
  split
  · exact .inl rfl
  · rename_i id hcur
    refine .inr ⟨id, hcur, ?_⟩
    dsimp only
    split_ifs <;> rfl

theorem failPendingFutures_frame (e : Executor α) :
    ∃ futures, e.failPendingFutures = { e with pending := [], futures := futures } := by
  have settles : ∀ (ids : List WorkId) (e : Executor α), ∃ futures,
      ids.foldl (fun e id => e.settle id (.exception .shutDown)) e = { e with futures := futures } := by
    intro ids
    induction ids with
    | nil => exact fun e => ⟨_, rfl⟩
    | cons id ids ih =>
      intro e
      obtain ⟨futures, h⟩ := ih (e.settle id (.exception .shutDown))
      exact ⟨futures, h⟩
  obtain ⟨futures, h⟩ := settles e.pending e
  exact ⟨futures, by rw [failPendingFutures, h]⟩

/-- **What a section does to the pool.** Only `_stop_all_workers` stops workers that stay in it. -/
theorem run_reshapes {m : Section α} {body : List (Section α)} (h : e.run env m = some (e', body))
    (hpending : e.pending.Nodup) (hm : m ≠ .stopAllWorkers) :
    Reshapes e (m.loses.toList ++ lost) e' (body.filterMap Section.loses ++ lost) := by
  cases m with
  | checkWorkers =>
    obtain ⟨rfl, rfl⟩ := run_eq (r := e.checkWorkers) h
    exact checkWorkers_reshapes e lost
  | takeLost w =>
    rw [run_filterMap Section.loses h fun m hm => by cases hm <;> rfl]
    obtain ⟨rfl, -⟩ := run_eq (r := e.takeLost w) h
    have hsub : (e.workers ++ lost).Subperm (e.workers ++ (w :: lost)) :=
      ((List.sublist_cons_self w lost).append_left e.workers).subperm
    rcases takeLost_frame e w with hframe | ⟨id, -, hframe⟩
    · rw [hframe]
      exact .leave rfl hsub fun _ _ _ => rfl
    · rw [hframe]
      exact .leave rfl hsub fun _ _ _ => rfl
  | maybeDispatch =>
    obtain ⟨hok, rfl⟩ := run_maybeDispatch h
    exact (maybeDispatch_steps hpending hok).reshapes
  | processResult r =>
    rw [run_filterMap Section.loses h fun m hm => by cases hm <;> rfl]
    obtain ⟨rfl, -⟩ := run_eq (r := e.processResult r) h
    refine (clearWorker_reshapes e r lost).trans ?_
    unfold processResult
    dsimp only
    split_ifs <;> exact .still rfl rfl fun _ => rfl
  | handleTimeout id =>
    rw [run_filterMap Section.loses h fun m hm => by cases hm <;> rfl]
    obtain ⟨rfl, -⟩ := run_eq (r := e.handleTimeout id) h
    exact handleTimeout_reshapes e id lost
  | getNowait w results =>
    rw [run_filterMap Section.loses h fun m hm => by cases hm <;> rfl]
    obtain ⟨rfl, -⟩ := run_eq (r := e.getNowait w results) h
    unfold getNowait
    split
    · exact .refl e lost
    · rename_i r rest _
      have hread : Reshapes e lost (e.modifyProcess w fun p => { p with resultQueue := rest }) lost :=
        reshapes_modifyProcess w _
      split_ifs
      exacts [.refl e lost, hread]
  | escalateKill w =>
    obtain ⟨rfl, rfl⟩ := run_eq h
    unfold escalateKill
    split
    exacts [reshapes_modifyProcess w _, reshapes_modifyProcess w _, .refl e lost]
  | discardQueue w =>
    obtain ⟨rfl, rfl⟩ := run_eq h
    have hdiscard : Reshapes e lost (e.modifySlot w fun slot => { slot with queueDiscarded := true }) lost :=
      reshapes_modifySlot fun _ => rfl
    exact hdiscard
  | failPendingFutures =>
    obtain ⟨rfl, rfl⟩ := run_eq h
    obtain ⟨futures, hframe⟩ := failPendingFutures_frame e
    rw [hframe]
    exact .still rfl rfl fun _ => rfl
  | stopAllWorkers => exact absurd rfl hm
  | sweep | readClock | scanTimeouts | readQueue | testInFlight | finalDrain | settle | record | penalizeEstimate | requeue
  | shutUnstarted | stopAccepting | stopThreads | pruneRetiring | leave =>
    rw [run_filterMap Section.loses h fun m hm => by cases hm <;> rfl]
    obtain ⟨rfl, -⟩ := run_eq h
    exact .still rfl rfl fun _ => rfl

theorem run_pool {m : Section α} {body : List (Section α)} (h : e.run env m = some (e', body))
    (hpending : e.pending.Nodup) (hpool : Pool e (m.loses.toList ++ lost)) :
    Pool e' (body.filterMap Section.loses ++ lost) := by
  by_cases hm : m = .stopAllWorkers
  · subst hm
    rw [run_filterMap Section.loses h fun m hm => by cases hm <;> rfl]
    obtain ⟨rfl, -⟩ := run_eq (r := e.stopAllWorkers) h
    obtain ⟨slots, hframe⟩ := stopAllWorkers_frame e
    rw [hframe]
    exact ⟨hpool.nodup, hpool.spawned⟩
  · exact (run_reshapes h hpending hm hpool).1

end Executor

/-! ## Events -/

namespace System
open Executor (Pool Reshapes Unstopped)
variable {α : Type} {s s' : System α} {e : Event α}

theorem Reshapes.perm {e : Executor α} {lost lost' : List WorkerId} (h : lost'.Perm lost) :
    Reshapes e lost e lost' :=
  .leave rfl (h.append_left e.workers).subperm fun _ _ _ => rfl

/-- `_stop_all_workers` is run. -/
def Stops (s : System α) (e : Event α) : Prop := ∃ t env rest, e = .act t env ∧ s.hands t = .stopAllWorkers :: rest

theorem shutdownSections_loses (started wait : Bool) :
    ∀ m ∈ (Executor.shutdownSections started wait : List (Section α)), m.loses = none := by
  cases started <;> cases wait <;> simp [Executor.shutdownSections, Section.loses]

theorem Stepped.pool (h : Stepped s e s') (hpending : s.executor.pending.Nodup) (hpool : s.executor.Pool s.lost) :
    s'.executor.Pool s'.lost ∧
      (¬ s.Stops e → s.executor.Unstopped s.lost → s'.executor.Unstopped s'.lost) := by
  cases h with
  | @act t env m rest r hand hrun =>
    obtain ⟨others, hlost, hlost'⟩ := filterMap_act Section.loses { s with
      executor := r.1, hands := Function.update s.hands t (r.2 ++ rest), returned := s.returned || m.returns } hand rfl
    have hbefore := Reshapes.perm (e := s.executor) hlost.symm hpool
    refine ⟨(Reshapes.perm hlost' (Executor.run_pool hrun hpending hbefore.1)).1, fun hstops hunst => ?_⟩
    have hm : m ≠ .stopAllWorkers := by
      rintro rfl
      exact hstops ⟨t, env, rest, rfl, hand⟩
    have hafter := Executor.run_reshapes hrun hpending hm hbefore.1
    exact (Reshapes.perm hlost' hafter.1).2 (hafter.2 (hbefore.2 hunst))
  | @begin _ t body _ hand hbody =>
    have hlost := filterMap_begin Section.loses { s with hands := Function.update s.hands t body }
      (fun m hm => Section.loses_of_begins (hbody m hm)) (t := t) (by rw [hand, List.nil_append])
    have hsame := Reshapes.perm (e := s.executor) hlost hpool
    exact ⟨hsame.1, fun _ => hsame.2⟩
  | @deliver t w i r _ hand =>
    have hnone : ∀ m ∈ [Section.processResult r], m.loses = none := fun m hm => by
      rw [List.mem_singleton.mp hm]
      rfl
    have hlost := filterMap_begin Section.loses { s with hands := Function.update s.hands t [.processResult r] }
      hnone (t := t) (by rw [hand, List.nil_append])
    have hsame := Reshapes.perm (e := s.executor) hlost hpool
    have hread := Executor.reshapes_modifyProcess (e := s.executor) w
      (fun p => { p with resultQueue := p.resultQueue.eraseIdx i }) hsame.1
    exact ⟨hread.1, fun _ hunst => hread.2 (hsame.2 hunst)⟩
  | @shutdown wait =>
    have hlost := filterMap_begin Section.loses
      { s with hands := Function.update s.hands .shutdown (s.hands .shutdown ++ Executor.shutdownSections s.started wait) }
      (shutdownSections_loses _ wait) rfl
    have hsame := Reshapes.perm (e := s.executor) hlost hpool
    exact ⟨hsame.1, fun _ => hsame.2⟩
  | @process e w p =>
    have hsame := Executor.reshapes_modifyProcess (e := s.executor) w (fun _ => p) hpool
    exact ⟨hsame.1, fun _ => hsame.2⟩
  | @contended t w results rest hand =>
    have hlost := filterMap_contended Section.loses
      { s with hands := Function.update s.hands t (results.map .processResult ++ rest) } rfl (fun _ => rfl) hand rfl
    have hsame := Reshapes.perm (e := s.executor) hlost hpool
    exact ⟨hsame.1, fun _ => hsame.2⟩
  | outside | submit | append | cancel | again => exact ⟨⟨hpool.nodup, hpool.spawned⟩, fun _ hunst => hunst⟩

end System

end AdaptiveExecutor
