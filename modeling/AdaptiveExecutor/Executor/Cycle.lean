import Mathlib.Data.List.Nodup
import AdaptiveExecutor.Executor.System
import AdaptiveExecutor.Scheduling.Plan

/-!
# What a dispatch cycle does

`_maybe_dispatch` as a sequence of small steps: what each small step preserves, a cycle preserves.

* `Refreshed` : only estimates, observations, identities and profiles differ;
* `DispatchStep` : the small steps;
* `sweepInfeasible_steps`, `acquireWorker_steps`, `dispatchLoop_steps` : the parts of a cycle;
* `maybeDispatch_steps` : a cycle that does not raise is a sequence of small steps;
* `DispatchSteps.pending` : the queue only loses tasks.
-/

namespace AdaptiveExecutor
open Ledger (Future)
open Relation (ReflTransGen)

/-- What neither estimates nor observations nor identities touch of a task. -/
structure SameTask (w w' : PendingWork) : Prop where
  exclusive : w'.exclusive = w.exclusive
  resultIgnored : w'.resultIgnored = w.resultIgnored
  runningNotified : w'.runningNotified = w.runningNotified
  workerId : w'.workerId = w.workerId

theorem SameTask.refl (w : PendingWork) : SameTask w w := ⟨rfl, rfl, rfl, rfl⟩

theorem SameTask.trans {w w' w'' : PendingWork} (h : SameTask w w') (h' : SameTask w' w'') : SameTask w w'' :=
  ⟨h'.exclusive.trans h.exclusive, h'.resultIgnored.trans h.resultIgnored,
    h'.runningNotified.trans h.runningNotified, h'.workerId.trans h.workerId⟩

theorem updateObserved_sameTask (env : Env) (now : ℚ) (w : PendingWork) :
    SameTask w (Executor.updateObserved env now w) := by
  unfold Executor.updateObserved
  dsimp only
  repeat' split
  all_goals exact ⟨rfl, rfl, rfl, rfl⟩

namespace Executor
variable {α : Type} {env : Env} {s s' : Executor α}

/-! ## Refreshed estimates -/

def Refreshed (s s' : Executor α) : Prop :=
  ∃ works profiles next, (∀ id, SameTask (s.works id) (works id)) ∧
    s' = { s with works := works, profiles := profiles, nextGpuIndex := next }

theorem Refreshed.refl (s : Executor α) : Refreshed s s := ⟨_, _, _, fun _ => .refl _, rfl⟩

theorem Refreshed.trans {s'' : Executor α} (h : Refreshed s s') (h' : Refreshed s' s'') : Refreshed s s'' := by
  obtain ⟨_, _, _, hworks, rfl⟩ := h
  obtain ⟨_, _, _, hworks', rfl⟩ := h'
  exact ⟨_, _, _, fun id => (hworks id).trans (hworks' id), rfl⟩

theorem refreshed_modifyWork (s : Executor α) (id : WorkId) {f : PendingWork → PendingWork}
    (hf : ∀ w, SameTask w (f w)) : Refreshed s (s.modifyWork id f) := by
  refine ⟨_, _, _, fun x => ?_, rfl⟩
  by_cases hx : x = id
  · subst hx
    rw [Function.update_self]
    exact hf _
  · rw [Function.update_of_ne hx]
    exact .refl _

theorem Refreshed.foldl {f : Executor α → WorkId → Executor α} (hf : ∀ s id, Refreshed s (f s id)) :
    ∀ (ids : List WorkId) (s : Executor α), Refreshed s (ids.foldl f s)
  | [], s => .refl s
  | id :: ids, s => (hf s id).trans (Refreshed.foldl hf ids (f s id))

theorem reestimatePending_refreshed (s : Executor α) (now : ℚ) : Refreshed s (s.reestimatePending now) := by
  refine Refreshed.foldl (fun s id => ?_) _ s
  unfold reestimateOne
  dsimp only
  have hprofiles (store : ProfileStore) : Refreshed s { s with profiles := store } :=
    ⟨_, _, _, fun _ => .refl _, rfl⟩
  split_ifs
  · exact .refl s
  · exact .refl s
  · exact (hprofiles _).trans (refreshed_modifyWork _ id fun _ => ⟨rfl, rfl, rfl, rfl⟩)
  · exact (hprofiles _).trans (refreshed_modifyWork _ id fun _ => ⟨rfl, rfl, rfl, rfl⟩)

theorem refreshObservations_refreshed (env : Env) (s : Executor α) (now : ℚ) :
    Refreshed s (s.refreshObservations env now) := by
  refine Refreshed.foldl (fun s id => ?_) _ s
  unfold refreshOne
  split_ifs
  exacts [.refl s, refreshed_modifyWork s id fun w => updateObserved_sameTask env now w]

theorem buildDispatchPlan_refreshed (env : Env) (s : Executor α) : Refreshed s (s.buildDispatchPlan env).1 := by
  refine (refreshObservations_refreshed env s s.clock).trans (Refreshed.trans (Refreshed.foldl (fun s id => ?_) _ _)
    ⟨_, _, _, fun _ => .refl _, rfl⟩)
  exact refreshed_modifyWork s id fun _ => ⟨rfl, rfl, rfl, rfl⟩

/-! ## The small steps -/

def spawned (s : Executor α) (pid : Int) (pinnedGpuId : Option GpuId) : Executor α :=
  { s with
    nextWorkerId := s.nextWorkerId + 1
    slots := Function.update s.slots s.nextWorkerId { process := { pid := pid }, pinnedGpuId := pinnedGpuId }
    workers := insertKey s.workers s.nextWorkerId }

theorem ship_slots (env : Env) (s : Executor α) (id : WorkId) (gpuId : Option GpuId) (w : WorkerId) :
    ∃ item : WorkItem, item.id = id ∧ ∀ x, (s.ship env id gpuId w).slots x =
      if x = w then
        { s.slots w with
          currentWorkId := some id
          process := { (s.slots w).process with workQueue := (s.slots w).process.workQueue ++ [some item] } }
      else s.slots x := by
  refine ⟨⟨id, ?_, ?_, gpuId⟩, rfl, fun x => ?_⟩
  rotate_left 2
  · unfold ship
    exact modifySlot_slots _ w _ x

def start (s : Executor α) (id : WorkId) : Executor α :=
  { s with futures := Function.update s.futures id .running }.modifyWork id fun w => { w with runningNotified := true }

/-- The handshake has been won, now or in an earlier attempt. -/
def Started (s : Executor α) (id : WorkId) (s' : Executor α) : Prop :=
  (s.works id).runningNotified = true ∧ s' = s ∨
    (s.works id).runningNotified = false ∧ s.futures id = .pending ∧ s' = s.start id

/-- What a cycle does, step by step. `decided` are the tasks that its plan names. -/
inductive DispatchStep (env : Env) (decided : List WorkId) (s : Executor α) : Executor α → Prop
  | refresh {s' : Executor α} (h : Refreshed s s') : DispatchStep env decided s s'
  | fail {id : WorkId} (hid : id ∈ s.pending) (error : InfeasibleTaskError) :
    DispatchStep env decided s
      { s.settle id (.exception (.infeasible error)) with pending := s.pending.erase id }
  | retire {w : WorkerId} (hw : w ∈ s.workers) (hidle : s.idle w = true) :
    DispatchStep env decided s (s.retireWorker w)
  | spawn (pid : Int) (gpuId : Option GpuId) : DispatchStep env decided s (s.spawned pid gpuId)
  | drop {id : WorkId} (hid : id ∈ s.pending) (hf : s.futures id = .cancelled) :
    DispatchStep env decided s
      { s with
        pending := s.pending.erase id
        futures := Function.update s.futures id .cancelledAndNotified }
  | ship {id : WorkId} {s₁ : Executor α} {w : WorkerId} (gpuId : Option GpuId) (hid : id ∈ s.pending)
    (hdecided : id ∈ decided) (hw : w ∈ s.workers) (hidle : s.idle w = true) (hs : s.Started id s₁) :
    DispatchStep env decided s { s₁.ship env id gpuId w with pending := s.pending.erase id }

abbrev DispatchSteps (env : Env) (decided : List WorkId) : Executor α → Executor α → Prop :=
  ReflTransGen (DispatchStep env decided)

theorem DispatchStep.pending {decided : List WorkId} (h : DispatchStep env decided s s') :
    s'.pending.Sublist s.pending := by
  cases h with
  | refresh h =>
    obtain ⟨_, _, _, -, rfl⟩ := h
    exact .refl _
  | fail => exact List.erase_sublist
  | retire => exact .refl _
  | spawn => exact .refl _
  | drop => exact List.erase_sublist
  | ship => exact List.erase_sublist

theorem DispatchSteps.pending {decided : List WorkId} (h : DispatchSteps env decided s s') :
    s'.pending.Sublist s.pending := by
  induction h with
  | refl => exact .refl _
  | tail _ h ih => exact h.pending.trans ih

/-! ## The infeasibility sweep -/

theorem sweepInfeasible_steps (env : Env) (decided : List WorkId) (snapshot : Option ResourceSnapshot) :
    ∀ (ids pre : List WorkId) (s : Executor α), (pre ++ ids).Nodup →
      DispatchSteps env decided { s with pending := pre ++ ids }
        { (sweepInfeasible snapshot ids s).1 with pending := pre ++ (sweepInfeasible snapshot ids s).2 }
  | [], _, _, _ => .refl
  | id :: rest, pre, s, hnodup => by
    unfold sweepInfeasible
    split
    · have h := sweepInfeasible_steps env decided snapshot rest (pre ++ [id]) s
      rw [List.append_assoc, List.append_assoc] at h
      exact h hnodup
    · rename_i error _
      have hpre : id ∉ pre := fun hmem => (List.nodup_append.mp hnodup).2.2 id hmem id List.mem_cons_self rfl
      have herase : (pre ++ id :: rest).erase id = pre ++ rest := by
        rw [List.erase_append_right _ hpre, List.erase_cons_head]
      refine .trans (.single (.fail (List.mem_append_right pre List.mem_cons_self) error)) ?_
      dsimp only
      rw [herase]
      exact sweepInfeasible_steps env decided snapshot rest pre (s.settle id (.exception (.infeasible error)))
        (hnodup.sublist ((List.sublist_cons_self id rest).append_left pre))

theorem prepare_steps (env : Env) (decided : List WorkId) (hnodup : s.pending.Nodup) :
    DispatchSteps env decided s s.prepare := by
  have hrefresh := reestimatePending_refreshed s s.clock
  refine .head (.refresh hrefresh) ?_
  have hpending : (s.reestimatePending s.clock).pending = s.pending := by
    obtain ⟨_, _, _, -, hs⟩ := hrefresh
    rw [hs]
  have hsweep := sweepInfeasible_steps env decided (s.reestimatePending s.clock).snapshot
    (s.reestimatePending s.clock).pending [] (s.reestimatePending s.clock) (hpending ▸ hnodup)
  exact hsweep

/-! ## Workers -/

theorem spawnWorker_ok {gpuId : Option GpuId} {v : Executor α × WorkerId} (h : s.spawnWorker env gpuId = .ok v) :
    ∃ pid, v.1 = s.spawned pid gpuId ∧ v.2 = s.nextWorkerId := by
  unfold spawnWorker at h
  dsimp only at h
  split at h
  · cases h
  · rename_i pid _
    obtain rfl := Except.ok.inj h
    exact ⟨pid, rfl, rfl⟩

theorem spawned_mem (s : Executor α) (pid : Int) (gpuId : Option GpuId) :
    s.nextWorkerId ∈ (s.spawned pid gpuId).workers := mem_insertKey.mpr (.inr rfl)

theorem spawned_idle (s : Executor α) (pid : Int) (gpuId : Option GpuId) :
    (s.spawned pid gpuId).idle s.nextWorkerId = true := by
  simp [idle, spawned]

/-- The worker that a decision gets is in the pool and idle. The queue has no part in it. -/
theorem acquireWorker_steps (decided : List WorkId) {gpuId : Option GpuId} {o : Option WorkerId}
    (h : s.acquireWorker env gpuId = .ok (s', o)) :
    (∀ pending, DispatchSteps env decided { s with pending := pending } { s' with pending := pending }) ∧
      s'.pending = s.pending ∧ ∀ w, o = some w → w ∈ s'.workers ∧ s'.idle w = true := by
  have fresh {v : Executor α × WorkerId} (s : Executor α) (hv : s.spawnWorker env gpuId = .ok v) :
      (∀ pending, DispatchSteps env decided { s with pending := pending } { v.1 with pending := pending }) ∧
        v.1.pending = s.pending ∧ v.2 ∈ v.1.workers ∧ v.1.idle v.2 = true := by
    obtain ⟨pid, hs, hw⟩ := spawnWorker_ok hv
    rw [hs, hw]
    exact ⟨fun _ => .single (.spawn pid gpuId), rfl, spawned_mem s pid gpuId, spawned_idle s pid gpuId⟩
  unfold acquireWorker at h
  split at h
  · rename_i w hw
    obtain ⟨rfl, rfl⟩ := Prod.mk.inj (Except.ok.inj h)
    refine ⟨fun _ => .refl, rfl, fun w' hw' => ?_⟩
    obtain rfl := Option.some.inj hw'
    have hidle := List.find?_some hw
    rw [Bool.and_eq_true] at hidle
    exact ⟨List.mem_of_find?_eq_some hw, hidle.2⟩
  split_ifs at h with hmax
  · split at h
    · obtain ⟨rfl, rfl⟩ := Prod.mk.inj (Except.ok.inj h)
      exact ⟨fun _ => .refl, rfl, fun _ hw' => by cases hw'⟩
    · rename_i victim hvictim
      cases hv : (s.retireWorker victim).spawnWorker env gpuId with
      | error => rw [hv] at h; cases h
      | ok v =>
        rw [hv] at h
        obtain ⟨rfl, rfl⟩ := Prod.mk.inj (Except.ok.inj h)
        obtain ⟨hsteps, hpending, hw⟩ := fresh _ hv
        refine ⟨fun pending => .head ?_ (hsteps pending), hpending, fun w hw' => Option.some.inj hw' ▸ hw⟩
        exact .retire (List.mem_of_find?_eq_some hvictim)
          (List.find?_some hvictim)
  · cases hv : s.spawnWorker env gpuId with
    | error => rw [hv] at h; cases h
    | ok v =>
      rw [hv] at h
      obtain ⟨rfl, rfl⟩ := Prod.mk.inj (Except.ok.inj h)
      obtain ⟨hsteps, hpending, hw⟩ := fresh _ hv
      exact ⟨hsteps, hpending, fun w hw' => Option.some.inj hw' ▸ hw⟩

/-! ## The loop over the decisions -/

/-- The state with the queue that the loop will leave. -/
def without (s : Executor α) (removed : List WorkId) : Executor α :=
  { s with pending := s.pending.filter fun id => id ∉ removed }

theorem filter_not_mem_cons {ids : List WorkId} (hnodup : ids.Nodup) (removed : List WorkId) (id : WorkId) :
    (ids.filter fun x => x ∉ id :: removed) = (ids.filter fun x => x ∉ removed).erase id := by
  rw [(hnodup.filter _).erase_eq_filter, List.filter_filter]
  refine List.filter_congr fun x _ => ?_
  rw [Bool.eq_iff_iff]
  simp [not_or]

theorem handshake_step {decided : List WorkId} (removed : List WorkId) {id : WorkId} {gpuId : Option GpuId} {w : WorkerId}
    (h : s.handshake env id gpuId w = .ok s') (hnodup : s.pending.Nodup) (hid : id ∈ s.pending) (hrem : id ∉ removed)
    (hdecided : id ∈ decided) (hw : w ∈ s.workers) (hidle : s.idle w = true) :
    DispatchStep env decided (s.without removed) (s'.without (id :: removed)) ∧ s'.pending = s.pending := by
  have hmem : id ∈ (s.without removed).pending := List.mem_filter.mpr ⟨hid, by simpa using hrem⟩
  have hfilter := filter_not_mem_cons hnodup removed id
  unfold handshake at h
  split_ifs at h with hn
  · obtain rfl := Except.ok.inj h
    refine ⟨?_, rfl⟩
    have hstep : DispatchStep env decided (s.without removed) _ :=
      .ship gpuId hmem hdecided hw hidle (.inl ⟨hn, rfl⟩)
    unfold without at hstep ⊢
    change DispatchStep env decided _ { s.ship env id gpuId w with pending := s.pending.filter fun x => x ∉ id :: removed }
    rw [hfilter]
    exact hstep
  · split at h
    · cases h
    · rename_i future won hset
      cases hf : s.futures id with
      | pending =>
        rw [hf] at hset
        obtain ⟨rfl, rfl⟩ := Prod.mk.inj (Option.some.inj hset)
        obtain rfl := Except.ok.inj h
        refine ⟨?_, rfl⟩
        have hstep : DispatchStep env decided (s.without removed) _ :=
          .ship gpuId hmem hdecided hw hidle (.inr ⟨Bool.not_eq_true _ ▸ hn, hf, rfl⟩)
        unfold without at hstep ⊢
        change DispatchStep env decided _
          { (s.start id).ship env id gpuId w with pending := s.pending.filter fun x => x ∉ id :: removed }
        rw [hfilter]
        exact hstep
      | cancelled =>
        rw [hf] at hset
        obtain ⟨rfl, rfl⟩ := Prod.mk.inj (Option.some.inj hset)
        obtain rfl := Except.ok.inj h
        refine ⟨?_, rfl⟩
        have hstep : DispatchStep env decided (s.without removed) _ := .drop hmem hf
        unfold without at hstep ⊢
        change DispatchStep env decided _
          { s with
            futures := Function.update s.futures id .cancelledAndNotified
            pending := s.pending.filter fun x => x ∉ id :: removed }
        rw [hfilter]
        exact hstep
      | running => rw [hf] at hset; cases hset
      | cancelledAndNotified => rw [hf] at hset; cases hset
      | finished => rw [hf] at hset; cases hset

theorem dispatchLoop_steps (decided : List WorkId) : ∀ (ds : List DispatchDecision) (s : Executor α)
    (removed : List WorkId) (r : Executor α × List WorkId), dispatchLoop env ds s removed = .ok r →
    s.pending.Nodup → (ds.map DispatchDecision.pendingId).Nodup →
    (∀ d ∈ ds, d.pendingId ∉ removed ∧ d.pendingId ∈ decided) →
    DispatchSteps env decided (s.without removed) (r.1.without r.2)
  | [], s, removed, r, h, _, _, _ => by
    obtain rfl := Except.ok.inj h
    exact .refl
  | d :: ds, s, removed, r, h, hnodup, hds, hfresh => by
    rw [List.map_cons, List.nodup_cons] at hds
    obtain ⟨hd, hds⟩ := hds
    obtain ⟨⟨hrem, hdecided⟩, hfresh⟩ := List.forall_mem_cons.mp hfresh
    unfold dispatchLoop at h
    split_ifs at h with hmem
    · split at h
      · cases h
      · rename_i s₁ hacq
        obtain ⟨hsteps, hpending, -⟩ := acquireWorker_steps decided hacq
        refine .trans ?_ (dispatchLoop_steps decided ds s₁ removed r h (hpending ▸ hnodup) hds hfresh)
        rw [without, without, hpending]
        exact hsteps _
      · rename_i s₁ w hacq
        obtain ⟨hsteps, hpending, hw⟩ := acquireWorker_steps decided hacq
        obtain ⟨hworkers, hidle⟩ := hw w rfl
        split at h
        · cases h
        · rename_i s₂ hhand
          obtain ⟨hstep, hpending'⟩ := handshake_step removed hhand
            (hpending ▸ hnodup) (hpending ▸ hmem) hrem hdecided hworkers hidle
          refine .trans ?_ (.head hstep (dispatchLoop_steps decided ds s₂ _ r h (hpending' ▸ hpending ▸ hnodup) hds ?_))
          · rw [without, without, hpending]
            exact hsteps _
          · intro d' hd'
            obtain ⟨hrem', hdecided'⟩ := hfresh d' hd'
            refine ⟨fun hcons => ?_, hdecided'⟩
            rcases List.mem_cons.mp hcons with he | he
            · exact hd (he ▸ List.mem_map_of_mem hd')
            · exact hrem' he
    · exact dispatchLoop_steps decided ds s removed r h hnodup hds hfresh

/-! ## The whole cycle -/

def planned (env : Env) (s : Executor α) : Executor α := s.prepare.refreshObservations env s.prepare.clock

def decided (env : Env) (s : Executor α) : List WorkId :=
  ((s.planned env).dispatchPlan (s.planned env).clock).decisions.map DispatchDecision.pendingId

theorem dispatchPlan_sublist (s : Executor α) (now : ℚ) :
    ((s.dispatchPlan now).decisions.map DispatchDecision.pendingId).Sublist s.pending := by
  have h := planDispatch_sublist (s.pending.map s.pendingEntry) (s.inFlight.map (s.runningEntry now)) s.capacity
  rw [List.map_map] at h
  have hid : PendingEntry.id ∘ s.pendingEntry = id := rfl
  rwa [hid, List.map_id] at h

theorem decided_sublist (env : Env) (s : Executor α) : (s.decided env).Sublist (s.planned env).pending :=
  dispatchPlan_sublist (s.planned env) (s.planned env).clock

theorem planned_steps (env : Env) (decided : List WorkId) (hnodup : s.pending.Nodup) :
    DispatchSteps env decided s (s.planned env) :=
  (prepare_steps env decided hnodup).tail (.refresh (refreshObservations_refreshed env _ _))

/-- **A cycle that does not raise is a sequence of small steps.** -/
theorem maybeDispatch_steps (hnodup : s.pending.Nodup) (h : s.maybeDispatch env = .ok s') :
    DispatchSteps env (s.decided env) s s' := by
  have hprepare := prepare_steps env (s.decided env) hnodup
  have hplanned := hprepare.tail (.refresh (buildDispatchPlan_refreshed env s.prepare))
  have hplan : (s.prepare.buildDispatchPlan env).2.decisions.map DispatchDecision.pendingId = s.decided env := rfl
  unfold maybeDispatch at h
  dsimp only at h
  split_ifs at h
  · obtain rfl := Except.ok.inj h
    exact .refl
  · obtain rfl := Except.ok.inj h
    exact hprepare
  · obtain rfl := Except.ok.inj h
    exact hplanned
  · cases hloop : dispatchLoop env (s.prepare.buildDispatchPlan env).2.decisions (s.prepare.buildDispatchPlan env).1 [] with
    | error => rw [hloop] at h; cases h
    | ok r =>
      rw [hloop] at h
      obtain rfl := Except.ok.inj h
      refine hplanned.trans ?_
      have hpending : (s.planned env).pending.Sublist s.pending := (planned_steps env [] hnodup).pending
      have hloop' := dispatchLoop_steps (s.decided env) _ _ _ _ hloop
        (hnodup.sublist (DispatchSteps.pending hplanned))
        (by rw [hplan]; exact (hnodup.sublist hpending).sublist (decided_sublist env s))
        fun d hd => ⟨List.not_mem_nil, hplan ▸ List.mem_map_of_mem hd⟩
      have hnone : (s.prepare.buildDispatchPlan env).1.without [] = (s.prepare.buildDispatchPlan env).1 := by
        simp [without]
      rwa [hnone] at hloop'

end Executor

end AdaptiveExecutor
