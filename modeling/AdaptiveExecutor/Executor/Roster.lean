import AdaptiveExecutor.Executor.Flight

/-!
# The workers of the pool

* `Roster` : the pool has at most `max_workers` workers, none of them retiring or poisoned, and a task in flight is on a
  worker that is pinned to its GPU;
* `Thins`, `run_thins` : every section but a dispatch cycle only takes workers out of the pool;
* `acquireWorker_roster`, `Handling.roster` : a cycle starts a worker only where there is room for it, and ships a task
  to a worker of its GPU;
* `Reachable.roster` : every reachable state, during and after a shutdown as well.
-/

namespace AdaptiveExecutor
open Relation (ReflTransGen)

namespace Executor
variable {α : Type} {env : Env} {e e' e'' : Executor α} {gpuId : Option GpuId}

/-- The pool is within its bound, and no worker of it is retiring or poisoned. -/
structure Roster (e : Executor α) : Prop where
  nodup : e.workers.Nodup
  size : e.workers.length ≤ e.cfg.maxWorkers.toNat
  spawned : ∀ w ∈ e.workers, w < e.nextWorkerId
  retired : ∀ w ∈ e.retiring, w < e.nextWorkerId ∧ w ∉ e.workers
  unpoisoned : ∀ w ∈ e.workers, (e.slots w).queuePoisoned = false

/-- The worker of a task in flight is pinned to the GPU of the task. -/
def Pinned (e : Executor α) : Prop :=
  ∀ x ∈ e.inFlight, ∀ w, (e.works x).workerId = some w →
    w < e.nextWorkerId ∧ (e.slots w).pinnedGpuId = (e.works x).assignedGpuId

/-! ## Workers leave -/

/-- Workers only leave the pool. The retiring ones are those that were, and some that have left. -/
structure Thins (e e' : Executor α) : Prop where
  workers : e'.workers.Sublist e.workers
  retiring : ∀ w ∈ e'.retiring, w ∈ e.retiring ∨ w ∈ e.workers ∧ w ∉ e'.workers
  next : e'.nextWorkerId = e.nextWorkerId
  unpoisoned : ∀ w ∈ e'.workers, (e'.slots w).queuePoisoned = (e.slots w).queuePoisoned
  pinned : ∀ w, (e'.slots w).pinnedGpuId = (e.slots w).pinnedGpuId

theorem Thins.refl (e : Executor α) : Thins e e := ⟨.refl _, fun _ h => .inl h, rfl, fun _ _ => rfl, fun _ => rfl⟩

theorem Thins.trans (h : Thins e e') (h' : Thins e' e'') : Thins e e'' := by
  refine ⟨h'.workers.trans h.workers, fun w hw => ?_, h'.next.trans h.next, fun w hw => ?_,
    fun w => (h'.pinned w).trans (h.pinned w)⟩
  · rcases h'.retiring w hw with hw | ⟨hw, hgone⟩
    · exact (h.retiring w hw).imp_right fun ⟨hw, hgone⟩ => ⟨hw, fun hm => hgone (h'.workers.subset hm)⟩
    · exact .inr ⟨h.workers.subset hw, hgone⟩
  · rw [h'.unpoisoned w hw, h.unpoisoned w (h'.workers.subset hw)]

/-- Neither the pool nor the retiring workers change, and no slot in what the roster is about. -/
theorem Thins.of_slots (hworkers : e'.workers = e.workers) (hretiring : e'.retiring = e.retiring)
    (hnext : e'.nextWorkerId = e.nextWorkerId) (h : ∀ w, (e'.slots w).queuePoisoned = (e.slots w).queuePoisoned ∧
      (e'.slots w).pinnedGpuId = (e.slots w).pinnedGpuId) : Thins e e' := by
  refine ⟨?_, fun w hw => .inl ?_, hnext, fun w _ => (h w).1, fun w => (h w).2⟩
  · rw [hworkers]
  · rwa [hretiring] at hw

theorem Thins.of_tasks (h : Thins e e') (hworkers : e''.workers = e'.workers) (hretiring : e''.retiring = e'.retiring)
    (hnext : e''.nextWorkerId = e'.nextWorkerId) (hslots : e''.slots = e'.slots) : Thins e e'' := by
  apply h.trans
  apply Thins.of_slots hworkers hretiring hnext
  intro w
  rw [hslots]
  exact ⟨rfl, rfl⟩

theorem thins_modifySlot (w : WorkerId) {f : WorkerSlot α → WorkerSlot α}
    (hpoisoned : ∀ slot, (f slot).queuePoisoned = slot.queuePoisoned)
    (hpinned : ∀ slot, (f slot).pinnedGpuId = slot.pinnedGpuId) : Thins e (e.modifySlot w f) :=
  .of_slots rfl rfl rfl fun v =>
    ⟨modifySlot_keeps e (·.queuePoisoned) hpoisoned w v, modifySlot_keeps e (·.pinnedGpuId) hpinned w v⟩

theorem thins_modifyProcess (w : WorkerId) (f : WorkerProcess α → WorkerProcess α) : Thins e (e.modifyProcess w f) :=
  thins_modifySlot w (fun _ => rfl) fun _ => rfl

theorem thins_evict (hnodup : e.workers.Nodup) {w : WorkerId} (hw : w ∈ e.workers) {f : WorkerSlot α → WorkerSlot α}
    (hpinned : ∀ slot, (f slot).pinnedGpuId = slot.pinnedGpuId) : Thins e ((e.modifySlot w f).evict w) := by
  refine ⟨List.erase_sublist, fun v hv => ?_, rfl, fun v hv => ?_, modifySlot_keeps e (·.pinnedGpuId) hpinned w⟩
  · rcases List.mem_append.mp hv with hv | hv
    · exact .inl hv
    · rw [List.mem_singleton.mp hv]
      exact .inr ⟨hw, hnodup.not_mem_erase⟩
  · change ((e.modifySlot w f).slots v).queuePoisoned = _
    rw [modifySlot_slots, if_neg]
    rintro rfl
    exact hnodup.not_mem_erase hv

theorem thins_retire (hnodup : e.workers.Nodup) {w : WorkerId} (hw : w ∈ e.workers) : Thins e (e.retireWorker w) :=
  thins_evict hnodup hw fun _ => rfl

theorem clearWorker_thins (hnodup : e.workers.Nodup) (r : WorkResult α) : Thins e (e.clearWorker r) := by
  have hfree : Thins e (e.modifySlot r.workerId fun slot =>
      { slot with currentWorkId := none, tasksCompleted := slot.tasksCompleted + 1 }) :=
    thins_modifySlot _ (fun _ => rfl) fun _ => rfl
  unfold clearWorker
  dsimp only
  split_ifs with hw
  · apply hfree.trans
    have hnodup' : (e.modifySlot r.workerId fun slot =>
        { slot with currentWorkId := none, tasksCompleted := slot.tasksCompleted + 1 }).workers.Nodup := hnodup
    exact thins_retire hnodup' hw.1
  · exact hfree
  · exact .refl e

theorem handleTimeout_thins (hnodup : e.workers.Nodup) (id : WorkId) : Thins e (e.handleTimeout id).1 := by
  unfold handleTimeout
  split_ifs
  · exact .refl e
  dsimp only
  split
  · rename_i w _ _
    split_ifs with hw
    · have hevict : Thins e ((e.modifySlot w fun slot =>
          { slot with intentionallyStopped := true, queuePoisoned := true, currentWorkId := none }).evict w) :=
        thins_evict hnodup hw fun _ => rfl
      exact hevict.of_tasks rfl rfl rfl rfl
    · exact (Thins.refl e).of_tasks rfl rfl rfl rfl
  · split
    · exact (Thins.refl e).of_tasks rfl rfl rfl rfl
    · rename_i w _
      have hfree : Thins e (e.modifySlot w fun slot => { slot with currentWorkId := none }) :=
        thins_modifySlot w (fun _ => rfl) fun _ => rfl
      split_ifs
      · exact hfree.of_tasks rfl rfl rfl rfl
      · exact (Thins.refl e).of_tasks rfl rfl rfl rfl

theorem checkWorkers_thins (e : Executor α) : Thins e e.checkWorkers.1 :=
  ⟨List.filter_sublist, fun _ hw => .inl (List.mem_filter.mp hw).1, rfl, fun _ _ => rfl, fun _ => rfl⟩

/-- **No section but a dispatch cycle** puts a worker into the pool. -/
theorem run_thins {m : Section α} {body : List (Section α)} (h : e.run env m = some (e', body))
    (hm : m ≠ .maybeDispatch) (hnodup : e.workers.Nodup) : Thins e e' := by
  cases m with
  | maybeDispatch => exact absurd rfl hm
  | processResult r =>
    obtain ⟨rfl, -⟩ := run_eq (r := e.processResult r) h
    have hclear := clearWorker_thins hnodup r
    unfold processResult
    dsimp only
    split_ifs
    · exact hclear.of_tasks rfl rfl rfl rfl
    · exact hclear.of_tasks rfl rfl rfl rfl
    · exact hclear
  | takeLost w =>
    obtain ⟨rfl, -⟩ := run_eq (r := e.takeLost w) h
    rcases takeLost_frame e w with hframe | ⟨id, -, hframe⟩
    · rw [hframe]
      exact .refl e
    · rw [hframe]
      exact (Thins.refl e).of_tasks rfl rfl rfl rfl
  | handleTimeout id =>
    obtain ⟨rfl, -⟩ := run_eq (r := e.handleTimeout id) h
    exact handleTimeout_thins hnodup id
  | checkWorkers =>
    obtain ⟨rfl, -⟩ := run_eq (r := e.checkWorkers) h
    exact checkWorkers_thins e
  | getNowait w results =>
    obtain ⟨rfl, -⟩ := run_eq (r := e.getNowait w results) h
    unfold getNowait
    split
    · exact .refl e
    · rename_i r rest _
      have hread : Thins e (e.modifyProcess w fun p => { p with resultQueue := rest }) := thins_modifyProcess w _
      split_ifs
      · exact .refl e
      · exact hread
  | escalateKill w =>
    obtain ⟨rfl, -⟩ := run_eq h
    unfold escalateKill
    split
    · exact thins_modifyProcess w _
    · exact thins_modifyProcess w _
    · exact .refl e
  | discardQueue w =>
    obtain ⟨rfl, -⟩ := run_eq h
    have hdiscard : Thins e (e.modifySlot w fun slot => { slot with queueDiscarded := true }) :=
      thins_modifySlot w (fun _ => rfl) fun _ => rfl
    exact hdiscard
  | stopAllWorkers =>
    obtain ⟨rfl, -⟩ := run_eq (r := e.stopAllWorkers) h
    obtain ⟨slots, hslots, hkeeps⟩ := foldl_modifySlot (fun slot : WorkerSlot α =>
      { slot with
        intentionallyStopped := true
        process := { slot.process with workQueue := slot.process.workQueue ++ [none] } }) e.workers e
    rw [Executor.stopAllWorkers, hslots]
    exact .of_slots rfl rfl rfl fun w => ⟨hkeeps (·.queuePoisoned) (fun _ => rfl) w, hkeeps (·.pinnedGpuId) (fun _ => rfl) w⟩
  | failPendingFutures =>
    obtain ⟨rfl, -⟩ := run_eq h
    obtain ⟨futures, hframe⟩ := failPendingFutures_frame e
    rw [hframe]
    exact .of_slots rfl rfl rfl fun _ => ⟨rfl, rfl⟩
  | pruneRetiring =>
    obtain ⟨rfl, -⟩ := run_eq h
    exact ⟨.refl _, fun _ hw => .inl (List.mem_filter.mp hw).1, rfl, fun _ _ => rfl, fun _ => rfl⟩
  | sweep | readClock | scanTimeouts | readQueue | testInFlight | finalDrain | record | settle | penalizeEstimate | requeue
  | shutUnstarted | stopAccepting | stopThreads | leave =>
    obtain ⟨rfl, -⟩ := run_eq h
    exact .of_slots rfl rfl rfl fun _ => ⟨rfl, rfl⟩

theorem Roster.of_thins (h : Roster e) (hthins : Thins e e') (hcfg : e'.cfg = e.cfg) : Roster e' := by
  refine ⟨h.nodup.sublist hthins.workers, ?_, fun w hw => ?_, fun w hw => ?_, fun w hw => ?_⟩
  · rw [hcfg]
    exact hthins.workers.length_le.trans h.size
  · rw [hthins.next]
    exact h.spawned w (hthins.workers.subset hw)
  · rw [hthins.next]
    rcases hthins.retiring w hw with hw | ⟨hw, hgone⟩
    · exact ⟨(h.retired w hw).1, fun hm => (h.retired w hw).2 (hthins.workers.subset hm)⟩
    · exact ⟨h.spawned w hw, hgone⟩
  · rw [hthins.unpoisoned w hw]
    exact h.unpoisoned w (hthins.workers.subset hw)

theorem Pinned.of_thins (h : Pinned e) (hthins : Thins e e') (hlands : Lands e none e') (hgpu : ∀ x ∈ e'.inFlight,
    (e'.works x).assignedGpuId = (e.works x).assignedGpuId) : Pinned e' := by
  intro x hx w hw
  rw [hlands.works x hx (by simp)] at hw
  rw [hthins.next, hthins.pinned, hgpu x hx]
  exact h x (hlands.flight.subset hx) w hw

/-! ## A dispatch cycle -/

/-- What the loop over the decisions leaves of the workers. -/
structure Staffs (e e' : Executor α) : Prop where
  roster : Roster e → Roster e'
  next : e.nextWorkerId ≤ e'.nextWorkerId
  pinned : ∀ w < e.nextWorkerId, (e'.slots w).pinnedGpuId = (e.slots w).pinnedGpuId

theorem Staffs.refl (e : Executor α) : Staffs e e := ⟨id, le_rfl, fun _ _ => rfl⟩

theorem Staffs.trans (h : Staffs e e') (h' : Staffs e' e'') : Staffs e e'' :=
  ⟨fun hr => h'.roster (h.roster hr), h.next.trans h'.next,
    fun w hw => (h'.pinned w (hw.trans_le h.next)).trans (h.pinned w hw)⟩

theorem Thins.staffs (h : Thins e e') (hcfg : e'.cfg = e.cfg) : Staffs e e' :=
  ⟨fun hr => hr.of_thins h hcfg, h.next.ge, fun w _ => h.pinned w⟩

theorem spawned_staffs (pid : Int) (gpuId : Option GpuId) (hroom : e.workers.length < e.cfg.maxWorkers.toNat) :
    Staffs e (e.spawned pid gpuId) := by
  have hslots (w : WorkerId) (hw : w ≠ e.nextWorkerId) : (e.spawned pid gpuId).slots w = e.slots w :=
    Function.update_of_ne hw _ _
  refine ⟨fun h => ?_, Nat.le_succ _, fun w hw => congrArg WorkerSlot.pinnedGpuId (hslots w hw.ne)⟩
  have hnew : e.nextWorkerId ∉ e.workers := fun hw => lt_irrefl _ (h.spawned _ hw)
  have hworkers : (e.spawned pid gpuId).workers = e.workers ++ [e.nextWorkerId] := if_neg hnew
  refine ⟨?_, ?_, fun w hw => ?_, fun w hw => ?_, fun w hw => ?_⟩
  · rw [hworkers]
    exact List.concat_eq_append ▸ h.nodup.concat hnew
  · rw [hworkers, List.length_append]
    exact hroom
  · rw [hworkers, List.mem_append, List.mem_singleton] at hw
    change w < e.nextWorkerId + 1
    rcases hw with hw | rfl
    · exact (h.spawned w hw).trans (Nat.lt_succ_self _)
    · exact Nat.lt_succ_self _
  · obtain ⟨hlt, hgone⟩ := h.retired w hw
    refine ⟨hlt.trans (Nat.lt_succ_self _), fun hm => ?_⟩
    rw [hworkers, List.mem_append, List.mem_singleton] at hm
    exact hm.elim hgone hlt.ne
  · rw [hworkers, List.mem_append, List.mem_singleton] at hw
    rcases hw with hw | rfl
    · rw [hslots w (h.spawned w hw).ne]
      exact h.unpoisoned w hw
    · change (Function.update e.slots e.nextWorkerId _ e.nextWorkerId).queuePoisoned = false
      rw [Function.update_self]

/-- **The worker of a decision** is in the pool, idle, and pinned to the GPU of the decision. -/
theorem acquireWorker_staffs {o : Option WorkerId} (h : e.acquireWorker env gpuId = .ok (e', o)) (hroster : Roster e) :
    Staffs e e' ∧ ∀ w, o = some w → w < e'.nextWorkerId ∧ (e'.slots w).pinnedGpuId = gpuId := by
  have fresh {e₀ : Executor α} {v : Executor α × WorkerId} (hv : e₀.spawnWorker env gpuId = .ok v)
      (hroom : e₀.workers.length < e₀.cfg.maxWorkers.toNat) :
      Staffs e₀ v.1 ∧ v.2 < v.1.nextWorkerId ∧ (v.1.slots v.2).pinnedGpuId = gpuId := by
    obtain ⟨pid, hs, hw⟩ := spawnWorker_ok hv
    rw [hs, hw]
    refine ⟨spawned_staffs pid gpuId hroom, Nat.lt_succ_self _, ?_⟩
    change (Function.update e₀.slots e₀.nextWorkerId _ e₀.nextWorkerId).pinnedGpuId = gpuId
    rw [Function.update_self]
  unfold acquireWorker at h
  split at h
  · rename_i w hw
    obtain ⟨rfl, rfl⟩ := Prod.mk.inj (Except.ok.inj h)
    refine ⟨.refl e, fun w' hw' => ?_⟩
    obtain rfl := Option.some.inj hw'
    have hfound := List.find?_some hw
    rw [Bool.and_eq_true, decide_eq_true_eq] at hfound
    exact ⟨hroster.spawned w (List.mem_of_find?_eq_some hw), hfound.1⟩
  split_ifs at h with hmax
  · split at h
    · obtain ⟨rfl, rfl⟩ := Prod.mk.inj (Except.ok.inj h)
      exact ⟨.refl e, fun _ hw' => by cases hw'⟩
    · rename_i victim hvictim
      have hmem := List.mem_of_find?_eq_some hvictim
      cases hv : (e.retireWorker victim).spawnWorker env gpuId with
      | error => rw [hv] at h; cases h
      | ok v =>
        rw [hv] at h
        obtain ⟨rfl, rfl⟩ := Prod.mk.inj (Except.ok.inj h)
        -- the place of the worker that is evicted
        have hroom : (e.retireWorker victim).workers.length < (e.retireWorker victim).cfg.maxWorkers.toNat := by
          have hlength : (e.retireWorker victim).workers.length = e.workers.length - 1 := List.length_erase_of_mem hmem
          have hpos := List.length_pos_of_mem hmem
          have hsize := hroster.size
          change (e.retireWorker victim).workers.length < e.cfg.maxWorkers.toNat
          omega
        obtain ⟨hstaffs, hw⟩ := fresh hv hroom
        exact ⟨((thins_retire hroster.nodup hmem).staffs rfl).trans hstaffs, fun w hw' => Option.some.inj hw' ▸ hw⟩
  · cases hv : e.spawnWorker env gpuId with
    | error => rw [hv] at h; cases h
    | ok v =>
      rw [hv] at h
      obtain ⟨rfl, rfl⟩ := Prod.mk.inj (Except.ok.inj h)
      obtain ⟨hstaffs, hw⟩ := fresh hv (by omega)
      exact ⟨hstaffs, fun w hw' => Option.some.inj hw' ▸ hw⟩

theorem ship_staffs (env : Env) (e : Executor α) (id : WorkId) (gpuId : Option GpuId) (w : WorkerId) : Thins e (e.ship env id gpuId w) := by
  obtain ⟨item, -, hslots⟩ := ship_slots env e id gpuId w
  refine .of_slots rfl rfl rfl fun v => ?_
  rw [hslots]
  split_ifs with hv
  · rw [hv]
    exact ⟨rfl, rfl⟩
  · exact ⟨rfl, rfl⟩

theorem Handled.staffs {d : DispatchDecision} {fate : Fate} (h : Handled env e d fate e') (hroster : Roster e) :
    Staffs e e' ∧ ∀ w, fate = .shipped w → w < e'.nextWorkerId ∧ (e'.slots w).pinnedGpuId = d.gpuId := by
  cases h with
  | left hacquire =>
    obtain ⟨hstaffs, -⟩ := acquireWorker_staffs hacquire hroster
    exact ⟨hstaffs, fun w hw => by cases hw⟩
  | dropped hacquire =>
    obtain ⟨hstaffs, -⟩ := acquireWorker_staffs hacquire hroster
    refine ⟨hstaffs.trans (Thins.staffs (Thins.of_slots rfl rfl rfl fun _ => ⟨rfl, rfl⟩) rfl), fun w hw => by cases hw⟩
  | @shipped e₁ e₂ w hacquire hstarted =>
    obtain ⟨hstaffs, hworker⟩ := acquireWorker_staffs hacquire hroster
    have hstart : Thins e₁ e₂ ∧ e₂.cfg = e₁.cfg := by
      rcases hstarted with ⟨-, rfl⟩ | ⟨-, -, rfl⟩
      · exact ⟨.refl _, rfl⟩
      · exact ⟨.of_slots rfl rfl rfl fun _ => ⟨rfl, rfl⟩, rfl⟩
    have hship := hstart.1.trans (ship_staffs env e₂ d.pendingId d.gpuId w)
    refine ⟨hstaffs.trans (hship.staffs hstart.2), fun w' hw' => ?_⟩
    obtain rfl := Fate.shipped.inj hw'
    rw [hship.next, hship.pinned]
    exact hworker w rfl

/-- **The loop ships every task to a worker of its GPU.** -/
theorem Handling.staffs {hs : List (DispatchDecision × Fate)} (h : Handling env e hs e') (hroster : Roster e) :
    Staffs e e' ∧ ∀ d ∈ hs, ∀ w, d.2 = .shipped w → w < e'.nextWorkerId ∧ (e'.slots w).pinnedGpuId = d.1.gpuId := by
  induction h with
  | nil e => exact ⟨.refl e, fun _ hd => by cases hd⟩
  | cons h _ ih =>
    obtain ⟨hstaffs, hworker⟩ := h.staffs hroster
    obtain ⟨hrest, hworkers⟩ := ih (hstaffs.roster hroster)
    refine ⟨hstaffs.trans hrest, List.forall_mem_cons.mpr ⟨fun w hw => ?_, hworkers⟩⟩
    obtain ⟨hlt, hpinned⟩ := hworker w hw
    exact ⟨hlt.trans_le hrest.next, (hrest.pinned w hlt).trans hpinned⟩

theorem ready_workers (env : Env) (e : Executor α) : (e.ready env).slots = e.slots ∧ (e.ready env).workers = e.workers ∧
    (e.ready env).retiring = e.retiring ∧ (e.ready env).nextWorkerId = e.nextWorkerId ∧
      (e.ready env).inFlight = e.inFlight ∧ (e.ready env).cfg = e.cfg := by
  obtain ⟨works, next, hready, -⟩ := ready_frame env e
  obtain ⟨_, _, _, _, hplanned, -⟩ := planned_frame env e
  rw [hready, hplanned]
  exact ⟨rfl, rfl, rfl, rfl, rfl, rfl⟩

theorem ready_staffs (env : Env) (e : Executor α) : Staffs e (e.ready env) := by
  obtain ⟨hslots, hworkers, hretiring, hnext, -, hcfg⟩ := ready_workers env e
  refine Thins.staffs (.of_slots hworkers hretiring hnext fun w => ?_) hcfg
  rw [hslots]
  exact ⟨rfl, rfl⟩

/-- **A dispatch cycle keeps the roster**, and every task in flight on a worker of its GPU. -/
theorem maybeDispatch_roster (h : e.maybeDispatch env = .ok e') (hnodup : e.pending.Nodup)
    (hqueued : ∀ x ∈ e.pending, x ∉ e.inFlight) (hroster : Roster e) (hpinned : Pinned e) : Roster e' ∧ Pinned e' := by
  rcases maybeDispatch_planned h with ⟨-, rfl⟩ | ⟨-, rfl⟩ | ⟨hs, e₁, hhandling, hfst, rfl⟩
  · exact ⟨hroster, hpinned⟩
  · obtain ⟨hworks, _, _, _, _, hframe⟩ := prepare_frame e
    have hsame : Thins e e.prepare := by
      rw [hframe]
      exact .of_slots rfl rfl rfl fun _ => ⟨rfl, rfl⟩
    have hflight : e.prepare.inFlight = e.inFlight := by rw [hframe]
    refine ⟨hroster.of_thins hsame (by rw [hframe]), fun x hx w hw => ?_⟩
    rw [hflight] at hx
    rw [hworks x fun hp => hqueued x hp hx] at hw ⊢
    rw [hsame.next, hsame.pinned]
    exact hpinned x hx w hw
  · have hready := ready_staffs env e
    obtain ⟨hslots, hworkers, -, hnext, hflight, -⟩ := ready_workers env e
    obtain ⟨hstaffs, hshipped⟩ := hhandling.staffs (hready.roster hroster)
    have hsub : ((hs.map Prod.fst).map DispatchDecision.pendingId).Sublist e.pending := by
      rw [hfst]
      exact decisions_sublist env hnodup
    obtain ⟨hinFlight, hworks, hdispatched⟩ := hhandling.flight (hnodup.sublist hsub) fun d hd => by
      rw [hflight]
      exact hqueued _ (hsub.subset (List.mem_map_of_mem (List.mem_map_of_mem hd)))
    have hdequeue : Thins e₁ { e₁ with pending := e₁.pending.filter fun id => id ∉ fated Fate.leaves hs } :=
      .of_slots rfl rfl rfl fun _ => ⟨rfl, rfl⟩
    refine ⟨(hstaffs.roster (hready.roster hroster)).of_thins hdequeue rfl, fun x hx w hw => ?_⟩
    change x ∈ e₁.inFlight at hx
    change w < e₁.nextWorkerId ∧ (e₁.slots w).pinnedGpuId = (e₁.works x).assignedGpuId
    rw [hinFlight, hflight] at hx
    rcases List.mem_append.mp hx with hx | hx
    · have hp : x ∉ e.pending := fun hp => hqueued x hp hx
      have hkept : e₁.works x = (e.ready env).works x := hworks x fun hm => hp (hsub.subset ((fated_sublist _ hs).subset hm))
      have hid : ((e.ready env).works x).workerId = (e.works x).workerId :=
        ready_keeps (g := (·.workerId)) (updateObserved_keeps (fun _ _ _ _ => rfl) env e.clock) hnodup hp
      have hgpu : ((e.ready env).works x).assignedGpuId = (e.works x).assignedGpuId :=
        ready_keeps (g := (·.assignedGpuId)) (updateObserved_keeps (fun _ _ _ _ => rfl) env e.clock) hnodup hp
      change (e₁.works x).workerId = some w at hw
      rw [hkept] at hw ⊢
      obtain ⟨hlt, hsame⟩ := hpinned x hx w (hid ▸ hw)
      rw [hgpu, ← hsame, hstaffs.pinned w (hnext ▸ hlt), hslots]
      exact ⟨hlt.trans_le (hnext ▸ hstaffs.next), rfl⟩
    · obtain ⟨d, hd, rfl, v, hv⟩ := of_fated_ships hx
      have hdispatched := hdispatched d hd v hv
      obtain rfl : v = w := Option.some.inj (hdispatched.workerId.symm.trans hw)
      rw [hdispatched.assignedGpuId]
      exact hshipped d hd v hv

end Executor

/-! ## Events -/

namespace System
open Executor (Pinned Roster Thins)
variable {α : Type} {s s' : System α} {e : Event α}

/-- **An event is a dispatch cycle, or workers only leave the pool.** -/
theorem Stepped.thins (h : Stepped s e s') (hnodup : s.executor.workers.Nodup) :
    (∃ env, s.executor.maybeDispatch env = .ok s'.executor) ∨ Thins s.executor s'.executor := by
  cases h with
  | @process e w p =>
    right
    exact Executor.thins_modifyProcess (e := s.executor) w fun _ => p
  | @deliver t w i =>
    right
    exact Executor.thins_modifyProcess (e := s.executor) w fun p => { p with resultQueue := p.resultQueue.eraseIdx i }
  | @act t env m rest r hand hrun =>
    by_cases hm : m = .maybeDispatch
    · subst hm
      obtain ⟨hok, -⟩ := Executor.run_maybeDispatch hrun
      exact .inl ⟨env, hok⟩
    · exact .inr (Executor.run_thins hrun hm hnodup)
  | outside | submit | append | cancel | begin | shutdown | contended | again =>
    exact .inr (.of_slots rfl rfl rfl fun _ => ⟨rfl, rfl⟩)

theorem Stepped.roster (h : Stepped s e s') (hs : Sound s) (hroster : Roster s.executor) (hpinned : Pinned s.executor) :
    Roster s'.executor ∧ Pinned s'.executor := by
  have hcycle (env : Env) (hok : s.executor.maybeDispatch env = .ok s'.executor) :
      Roster s'.executor ∧ Pinned s'.executor :=
    Executor.maybeDispatch_roster hok hs.pending hs.queued_not_flight hroster hpinned
  rcases h.thins hroster.nodup with ⟨env, hok⟩ | hthins
  · exact hcycle env hok
  rcases h.lands hs with ⟨env, hok⟩ | hlands
  · exact hcycle env hok
  · refine ⟨hroster.of_thins hthins hlands.cfg, hpinned.of_thins hthins hlands fun x hx => ?_⟩
    rw [hlands.works x hx (by simp)]

theorem Reachable.roster (h : Reachable s) : Roster s.executor ∧ Pinned s.executor := by
  obtain ⟨cfg, profiles, h⟩ := h
  induction h with
  | refl =>
    exact ⟨⟨List.nodup_nil, Nat.zero_le _, fun _ h => (by cases h), fun _ h => (by cases h), fun _ h => by cases h⟩,
      fun _ h => by cases h⟩
  | tail hrun h ih =>
    obtain ⟨e, h⟩ := h
    exact (step_stepped h).roster (Reachable.sound ⟨cfg, profiles, hrun⟩).1 ih.1 ih.2

end System

end AdaptiveExecutor
