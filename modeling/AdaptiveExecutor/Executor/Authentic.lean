import AdaptiveExecutor.Executor.Calm
import AdaptiveExecutor.Executor.Roster
import AdaptiveExecutor.Executor.Slots
import AdaptiveExecutor.Executor.Tasks

/-!
# Outcomes are authentic

Whatever interleaving of threads, crashes, timeouts and retries: what a caller finds in a future that a task function has
ended is what a worker reported when it executed that very task.

* `WorkerProcess.items` : what a worker has been shipped and not yet reported;
* `Stamp` : an item says what its task says, and is with a worker of its GPU;
* `executions` : the log of what the workers have executed;
* `Attested`, `step_attested` : every result, wherever it is on its way, is in the log;
* `outcome_authentic` : so is every outcome, and everything the profiles learn.
-/

namespace AdaptiveExecutor
open Ledger (Future)

/-- The items shipped to a worker that it has not yet reported. -/
def WorkerProcess.items {α : Type} (p : WorkerProcess α) : List WorkItem := p.executing.toList ++ p.workQueue.reduceOption

theorem WorkerProcess.items_exit {α : Type} (p : WorkerProcess α) (code : Int) : (p.exit code).items = p.items := by
  unfold WorkerProcess.exit
  split_ifs <;> rfl

/-- The outcome comes from a task function, and not from the executor. -/
def Outcome.reported {α : Type} : Outcome α → Bool
  | .result _ | .exception (.raised _) => true
  | _ => false

namespace Executor
variable {α : Type} {env : Env} {e e' : Executor α}

theorem Lasts.items {pooled : Prop} {slot slot' : WorkerSlot α} (h : Lasts pooled slot slot') :
    slot'.process.items = slot.process.items := by
  obtain ⟨k, hqueue, -⟩ := h.queue
  unfold WorkerProcess.items
  rw [h.executing, hqueue, List.reduceOption_append, List.reduceOption_replicate_none, List.append_nil]

/-! ## A dispatch cycle -/

theorem spawnWorker_items {gpuId : Option GpuId} {r : Executor α × WorkerId} (h : e.spawnWorker env gpuId = .ok r)
    (v : WorkerId) : (r.1.slots v).process.items ⊆ (e.slots v).process.items ∧
      (r.1.slots v).process.resultQueue ⊆ (e.slots v).process.resultQueue := by
  obtain ⟨pid, hs, -⟩ := spawnWorker_ok h
  rw [hs]
  unfold spawned
  dsimp only
  rw [Function.update_apply]
  split_ifs
  · exact ⟨List.nil_subset _, List.nil_subset _⟩
  · exact ⟨List.Subset.refl _, List.Subset.refl _⟩

theorem acquireWorker_items {gpuId : Option GpuId} {o : Option WorkerId} (h : e.acquireWorker env gpuId = .ok (e', o))
    (v : WorkerId) : (e'.slots v).process.items ⊆ (e.slots v).process.items ∧
      (e'.slots v).process.resultQueue ⊆ (e.slots v).process.resultQueue := by
  unfold acquireWorker at h
  split at h
  · obtain ⟨rfl, -⟩ := Prod.mk.inj (Except.ok.inj h)
    exact ⟨List.Subset.refl _, List.Subset.refl _⟩
  split_ifs at h
  · split at h
    · obtain ⟨rfl, -⟩ := Prod.mk.inj (Except.ok.inj h)
      exact ⟨List.Subset.refl _, List.Subset.refl _⟩
    · rename_i victim hvictim
      cases hv : (e.retireWorker victim).spawnWorker env gpuId with
      | error => rw [hv] at h; cases h
      | ok r =>
        rw [hv] at h
        obtain ⟨rfl, -⟩ := Prod.mk.inj (Except.ok.inj h)
        obtain ⟨hitems, hresults⟩ := spawnWorker_items hv v
        have hlasts := lasts_retire e (List.mem_of_find?_eq_some hvictim) v
        rw [hlasts.items] at hitems
        exact ⟨hitems, List.Subset.trans hresults hlasts.results⟩
  · cases hv : e.spawnWorker env gpuId with
    | error => rw [hv] at h; cases h
    | ok r =>
      rw [hv] at h
      obtain ⟨rfl, -⟩ := Prod.mk.inj (Except.ok.inj h)
      exact spawnWorker_items hv v

/-- The only new item is the one that is shipped, with the function of its task. -/
theorem ship_items (env : Env) (e : Executor α) (id : WorkId) (gpuId : Option GpuId) (w v : WorkerId) :
    ((e.ship env id gpuId w).slots v).process.resultQueue = (e.slots v).process.resultQueue ∧
      ∀ item ∈ ((e.ship env id gpuId w).slots v).process.items, item ∈ (e.slots v).process.items ∨
        v = w ∧ item = ⟨id, (e.works id).fnModule, (e.works id).fnName, gpuId⟩ := by
  have hwork {β : Type} (g : PendingWork → β) (hg : ∀ work : PendingWork, g (captureBaseline env e.clock
      (e.slots w).process.pid gpuId { work with
        assignedGpuId := gpuId, workerId := some w, startedAt := some e.clock }) = g work) :
      g ((e.ship env id gpuId w).works id) = g (e.works id) := modifyWork_keeps e g hg id id
  have hslot : (e.ship env id gpuId w).slots v = if v = w then { e.slots w with
      currentWorkId := some id
      process := { (e.slots w).process with
        workQueue := (e.slots w).process.workQueue ++ [some ⟨id, ((e.ship env id gpuId w).works id).fnModule,
          ((e.ship env id gpuId w).works id).fnName, gpuId⟩] } } else e.slots v := by
    unfold ship
    exact modifySlot_slots _ w _ v
  rw [hslot, hwork (·.fnModule) fun _ => rfl, hwork (·.fnName) fun _ => rfl]
  split_ifs with hv
  · subst hv
    refine ⟨rfl, fun item hitem => ?_⟩
    unfold WorkerProcess.items at hitem ⊢
    dsimp only at hitem
    rw [List.reduceOption_append, ← List.append_assoc, List.mem_append] at hitem
    refine hitem.imp_right fun hitem => ⟨rfl, ?_⟩
    simpa [List.reduceOption] using hitem
  · exact ⟨rfl, fun item hitem => .inl hitem⟩

end Executor

/-! ## The log -/

/-- What a worker has executed, and what it has put on its queue for it. -/
structure Performed (α : Type) where
  worker : WorkerId
  item : WorkItem
  result : WorkResult α

namespace Executor
variable {α : Type} {env : Env} {e e' : Executor α} {issued issued' : List WorkId} {log log' : List (Performed α)}

theorem WorkStep.sameFn {m : Section α} {x : WorkId} {w w' : PendingWork} (h : WorkStep m x w w') :
    w'.fnModule = w.fnModule ∧ w'.fnName = w.fnName := by
  cases h <;> exact ⟨rfl, rfl⟩

/-- An item says what its task says, and its worker is pinned to its GPU. -/
structure Stamp (e : Executor α) (issued : List WorkId) (w : WorkerId) (item : WorkItem) : Prop where
  issued : item.id ∈ issued
  fnModule : item.fnModule = (e.works item.id).fnModule
  fnName : item.fnName = (e.works item.id).fnName
  spawned : w < e.nextWorkerId
  gpuId : item.gpuId = (e.slots w).pinnedGpuId

/-- The items with the workers and in the log are stamped, and the results with the workers are in the log. -/
structure Carries (e : Executor α) (issued : List WorkId) (log : List (Performed α)) : Prop where
  items : ∀ w, ∀ item ∈ (e.slots w).process.items, Stamp e issued w item
  results : ∀ w, ∀ r ∈ (e.slots w).process.resultQueue, ∃ p ∈ log, p.result = r
  log : ∀ p ∈ log, Stamp e issued p.worker p.item ∧ p.result.id = p.item.id

structure Recalls (e : Executor α) (issued : List WorkId) (e' : Executor α) : Prop where
  works : ∀ x ∈ issued, (e'.works x).fnModule = (e.works x).fnModule ∧ (e'.works x).fnName = (e.works x).fnName
  next : e.nextWorkerId ≤ e'.nextWorkerId
  pinned : ∀ w, w < e.nextWorkerId → (e'.slots w).pinnedGpuId = (e.slots w).pinnedGpuId

theorem Stamp.keep {w : WorkerId} {item : WorkItem} (h : Stamp e issued w item) (hrecalls : Recalls e issued e')
    (hissued : issued ⊆ issued') : Stamp e' issued' w item := by
  obtain ⟨hmodule, hname⟩ := hrecalls.works item.id h.issued
  exact ⟨hissued h.issued, h.fnModule.trans hmodule.symm, h.fnName.trans hname.symm, h.spawned.trans_le hrecalls.next,
    h.gpuId.trans (hrecalls.pinned w h.spawned).symm⟩

theorem Carries.keep (h : Carries e issued log) (hrecalls : Recalls e issued e') (hissued : issued ⊆ issued')
    (hitems : ∀ w, ∀ item ∈ (e'.slots w).process.items, item ∈ (e.slots w).process.items ∨ Stamp e' issued' w item)
    (hresults : ∀ w, (e'.slots w).process.resultQueue ⊆ (e.slots w).process.resultQueue) : Carries e' issued' log :=
  ⟨fun w item hitem => (hitems w item hitem).elim (fun hold => (h.items w item hold).keep hrecalls hissued) id,
    fun w r hr => h.results w r (hresults w hr), fun p hp => ⟨(h.log p hp).1.keep hrecalls hissued, (h.log p hp).2⟩⟩

theorem Staffs.recalls (h : Staffs e e') (hworks : ∀ x, SameRetry (e.works x) (e'.works x)) : Recalls e issued e' :=
  ⟨fun x _ => ⟨(hworks x).fnModule, (hworks x).fnName⟩, h.next, h.pinned⟩

theorem Handled.carries {d : DispatchDecision} {fate : Fate} (h : Handled env e d fate e') (hroster : Roster e)
    (hissued : d.pendingId ∈ issued) (hc : Carries e issued log) : Carries e' issued log := by
  obtain ⟨hstaffs, hworker⟩ := h.staffs hroster
  have hrecalls : Recalls e issued e' := hstaffs.recalls h.sameRetry
  cases h with
  | left hacquire =>
    have hitems := acquireWorker_items hacquire
    exact hc.keep hrecalls (List.Subset.refl _) (fun w item hitem => .inl ((hitems w).1 hitem)) fun w => (hitems w).2
  | dropped hacquire =>
    have hitems := acquireWorker_items hacquire
    exact hc.keep hrecalls (List.Subset.refl _) (fun w item hitem => .inl ((hitems w).1 hitem)) fun w => (hitems w).2
  | @shipped e₁ e₂ w hacquire hstarted =>
    have hitems := acquireWorker_items hacquire
    have hslots : e₂.slots = e₁.slots := by rcases hstarted with ⟨-, rfl⟩ | ⟨-, -, rfl⟩ <;> rfl
    obtain ⟨hlt, hpinned⟩ := hworker w rfl
    refine hc.keep hrecalls (List.Subset.refl _) (fun v item hitem => ?_) fun v => ?_
    · rcases (ship_items env e₂ d.pendingId d.gpuId w v).2 item hitem with hold | ⟨rfl, rfl⟩
      · left
        rw [hslots] at hold
        exact (hitems v).1 hold
      · right
        have hsame : SameRetry (e₂.works d.pendingId) ((e₂.ship env d.pendingId d.gpuId v).works d.pendingId) := by
          refine update_sameRetry e₂.works ?_ d.pendingId
          exact ⟨rfl, rfl, rfl, rfl, rfl, fun _ => rfl⟩
        exact ⟨hissued, hsame.fnModule.symm, hsame.fnName.symm, hlt, hpinned.symm⟩
    · rw [(ship_items env e₂ d.pendingId d.gpuId w v).1, hslots]
      exact (hitems v).2

theorem Handling.carries {hs : List (DispatchDecision × Fate)} (h : Handling env e hs e') (hroster : Roster e)
    (hissued : ∀ d ∈ hs, d.1.pendingId ∈ issued) (hc : Carries e issued log) : Carries e' issued log := by
  induction h with
  | nil => exact hc
  | cons h _ ih =>
    obtain ⟨hd, hissued⟩ := List.forall_mem_cons.mp hissued
    exact ih ((h.staffs hroster).1.roster hroster) hissued (h.carries hroster hd hc)

/-- **A dispatch cycle** ships every task with its own function, to a worker of its GPU. -/
theorem maybeDispatch_carries (h : e.maybeDispatch env = .ok e') (hnodup : e.pending.Nodup) (hroster : Roster e)
    (hissued : ∀ x ∈ e.pending, x ∈ issued) (hc : Carries e issued log) : Carries e' issued log := by
  rcases maybeDispatch_planned h with ⟨-, rfl⟩ | ⟨-, rfl⟩ | ⟨hs, e₁, hhandling, hfst, rfl⟩
  · exact hc
  · obtain ⟨-, _, _, _, _, hframe⟩ := prepare_frame e
    have hsame : e.prepare.slots = e.slots ∧ e.prepare.nextWorkerId = e.nextWorkerId := by
      rw [hframe]
      exact ⟨rfl, rfl⟩
    have hrecalls : Recalls e issued e.prepare := by
      refine ⟨fun x _ => ⟨(prepare_sameRetry e x).fnModule, (prepare_sameRetry e x).fnName⟩, hsame.2.ge, fun w _ => ?_⟩
      rw [hsame.1]
    refine hc.keep hrecalls (List.Subset.refl _) (fun w item hitem => .inl ?_) fun w => ?_
    · rwa [hsame.1] at hitem
    · rw [hsame.1]
      exact List.Subset.refl _
  · obtain ⟨hslots, -⟩ := ready_workers env e
    have hstaffs := ready_staffs env e
    have hready : Carries (e.ready env) issued log := by
      refine hc.keep (hstaffs.recalls (ready_sameRetry env e)) (List.Subset.refl _) (fun w item hitem => .inl ?_) fun w => ?_
      · rwa [hslots] at hitem
      · rw [hslots]
        exact List.Subset.refl _
    have hloop := hhandling.carries (hstaffs.roster hroster) (fun d hd => by
      refine hissued _ ((decisions_sublist env hnodup).subset ?_)
      rw [← hfst]
      exact List.mem_map_of_mem (List.mem_map_of_mem hd)) hready
    exact hloop.keep ⟨fun _ _ => ⟨rfl, rfl⟩, le_rfl, fun _ _ => rfl⟩ (List.Subset.refl _) (fun _ _ hitem => .inl hitem)
      fun _ => List.Subset.refl _

/-! ## What is on its way -/

/-- What a section is about to process, record or settle is in the log. -/
def Logged (log : List (Performed α)) : Section α → Prop
  | .getNowait _ results => ∀ r ∈ results, ∃ p ∈ log, p.result = r
  | .processResult r => ∃ p ∈ log, p.result = r
  | .record x observation => ∃ p ∈ log, p.item.id = x ∧ p.result.observation = observation
  | .settle x outcome => outcome.reported = true → ∃ p ∈ log, p.item.id = x ∧ p.result.outcome = outcome
  | _ => True

theorem logged_of_begins {m : Section α} (h : m.begins = true) : Logged log m := by
  cases m <;> trivial

theorem shutdownSections_logged (started wait : Bool) : ∀ m ∈ (shutdownSections started wait : List (Section α)), Logged log m := by
  cases started <;> cases wait <;> simp [shutdownSections, Logged]

theorem Logged.mono {m : Section α} (h : Logged log m) (hlog : log ⊆ log') : Logged log' m := by
  cases m with
  | getNowait w results =>
    intro r hr
    obtain ⟨p, hp, hpr⟩ := h r hr
    exact ⟨p, hlog hp, hpr⟩
  | processResult r =>
    obtain ⟨p, hp, hpr⟩ := h
    exact ⟨p, hlog hp, hpr⟩
  | record x observation =>
    obtain ⟨p, hp, hpr⟩ := h
    exact ⟨p, hlog hp, hpr⟩
  | settle x outcome =>
    intro ho
    obtain ⟨p, hp, hpr⟩ := h ho
    exact ⟨p, hlog hp, hpr⟩
  | _ => trivial

theorem takeLost_logged (e : Executor α) (w : WorkerId) : ∀ m ∈ (e.takeLost w).2, Logged log m := by
  unfold takeLost
  intro m hm
  split at hm
  · cases hm
  · dsimp only at hm
    split_ifs at hm
    · cases hm
    · rw [List.mem_singleton.mp hm]
      trivial
    · rw [List.mem_singleton.mp hm]
      exact fun ho => by cases ho
    · cases hm

theorem handleTimeout_logged (e : Executor α) (id : WorkId) : ∀ m ∈ (e.handleTimeout id).2, Logged log m := by
  have timedOut : Logged log (.settle id (.exception (.timedOut id e.cfg.taskTimeoutSeconds)) : Section α) := fun ho => by cases ho
  unfold handleTimeout
  intro m hm
  split_ifs at hm
  · cases hm
  dsimp only at hm
  split at hm
  · split_ifs at hm
    · rcases List.mem_pair.mp hm with rfl | rfl
      exacts [trivial, timedOut]
    · exact List.mem_singleton.mp hm ▸ timedOut
  · split at hm
    · exact List.mem_singleton.mp hm ▸ timedOut
    · split_ifs at hm
      · exact List.mem_singleton.mp hm ▸ timedOut
      · exact List.mem_singleton.mp hm ▸ timedOut

/-- **What follows a section whose results are in the log** only passes them on. -/
theorem run_logged {m : Section α} {body : List (Section α)} (h : e.run env m = some (e', body)) (hc : Carries e issued log)
    (hm : Logged log m) : ∀ m' ∈ body, Logged log m' := by
  cases m with
  | getNowait w results =>
    obtain ⟨-, rfl⟩ := run_eq (r := e.getNowait w results) h
    have hprocess : ∀ m' ∈ results.map Section.processResult, Logged log m' := List.forall_mem_map.mpr hm
    unfold getNowait
    split
    · exact hprocess
    · rename_i r rest hqueue
      split_ifs
      · exact hprocess
      · intro m' hm'
        rw [List.mem_singleton.mp hm']
        intro r' hr'
        rcases List.mem_append.mp hr' with hr' | hr'
        · exact hm r' hr'
        · rw [List.mem_singleton.mp hr']
          refine hc.results w r ?_
          rw [hqueue]
          exact List.mem_cons_self
  | processResult r =>
    obtain ⟨p, hp, rfl⟩ := hm
    have hid := (hc.log p hp).2
    intro m' hm'
    cases run_follows h m' hm' with
    | record => exact ⟨p, hp, hid.symm, rfl⟩
    | result => exact fun _ => ⟨p, hp, hid.symm, rfl⟩
  | takeLost w =>
    obtain ⟨-, rfl⟩ := run_eq (r := e.takeLost w) h
    exact takeLost_logged e w
  | handleTimeout id =>
    obtain ⟨-, rfl⟩ := run_eq (r := e.handleTimeout id) h
    exact handleTimeout_logged e id
  | readQueue w =>
    intro m' hm'
    cases run_follows h m' hm' with
    | read => exact fun r hr => by cases hr
  | _ =>
    intro m' hm'
    cases run_follows h m' hm' <;> trivial

/-! ## Futures -/

theorem settle_reported {id x : WorkId} {o o' : Outcome α}
    (hf : (e.settle id o').futures x = .finished o) : e.futures x = .finished o ∨ x = id ∧ o = o' := by
  have hupdate : (e.settle id o').futures x = if x = id then (e.futures id).settle o' else e.futures x :=
    Function.update_apply _ _ _ _
  rw [hupdate] at hf
  split_ifs at hf with hx
  · subst hx
    unfold Future.settle at hf
    split_ifs at hf
    · exact .inl hf
    · exact .inr ⟨rfl, (Future.finished.inj hf).symm⟩
  · exact .inl hf

theorem update_finished {futures : WorkId → Future (Outcome α)} {id x : WorkId} {f : Future (Outcome α)} {o : Outcome α}
    (hf : f ≠ .finished o) (h : Function.update futures id f x = .finished o) : futures x = .finished o := by
  rw [Function.update_apply] at h
  split_ifs at h
  · exact absurd h hf
  · exact h

theorem DispatchStep.reported {decided : List WorkId} (h : DispatchStep env decided e e') {x : WorkId} {o : Outcome α}
    (ho : o.reported = true) (hf : e'.futures x = .finished o) : e.futures x = .finished o := by
  cases h with
  | refresh h =>
    obtain ⟨_, _, _, -, rfl⟩ := h
    exact hf
  | fail hid error =>
    refine (settle_reported hf).resolve_right ?_
    rintro ⟨-, rfl⟩
    cases ho
  | retire | spawn => exact hf
  | drop hid hcancelled => exact update_finished (fun h => by cases h) hf
  | ship gpuId hid hdecided hw hidle hs =>
    rcases hs with ⟨-, rfl⟩ | ⟨-, -, rfl⟩
    · exact hf
    · exact update_finished (fun h => by cases h) hf

theorem DispatchSteps.reported {decided : List WorkId} (h : DispatchSteps env decided e e') {x : WorkId} {o : Outcome α}
    (ho : o.reported = true) (hf : e'.futures x = .finished o) : e.futures x = .finished o := by
  induction h with
  | refl => exact hf
  | tail _ h ih => exact ih (h.reported ho hf)

theorem failPendingFutures_reported {x : WorkId} {o : Outcome α} (ho : o.reported = true) : ∀ (ids : List WorkId)
    (e : Executor α), (ids.foldl (fun e id => e.settle id (.exception .shutDown)) e).futures x = .finished o →
      e.futures x = .finished o
  | [], _, hf => hf
  | id :: ids, e, hf => by
    refine (settle_reported (failPendingFutures_reported ho ids _ hf)).resolve_right ?_
    rintro ⟨-, rfl⟩
    cases ho

/-- **Only the settling of a future gives it the outcome of a task function.** -/
theorem run_reported {m : Section α} {body : List (Section α)} (h : e.run env m = some (e', body)) (hnodup : e.pending.Nodup)
    {x : WorkId} {o : Outcome α} (ho : o.reported = true) (hf : e'.futures x = .finished o) :
    e.futures x = .finished o ∨ m = .settle x o := by
  by_cases hm : m = .maybeDispatch
  · subst hm
    obtain ⟨hok, -⟩ := run_maybeDispatch h
    exact .inl ((maybeDispatch_steps hnodup hok).reported ho hf)
  cases run_step h hm with
  | failPendingFutures => exact .inl (failPendingFutures_reported ho e.pending e hf)
  | settle id outcome =>
    refine (settle_reported hf).imp_right ?_
    rintro ⟨rfl, rfl⟩
    rfl
  | workers | leaves | record | penalizeEstimate | requeue => exact .inl hf

theorem Carries.modifyProcess (h : Carries e issued log) {w : WorkerId}
    {f : WorkerProcess α → WorkerProcess α}
    (hitems : (f (e.slots w).process).items ⊆ (e.slots w).process.items)
    (hresults : (f (e.slots w).process).resultQueue ⊆ (e.slots w).process.resultQueue) :
    Carries (e.modifyProcess w f) issued log := by
  have hslot (v : WorkerId) : (e.modifyProcess w f).slots v =
      if v = w then { e.slots w with process := f (e.slots w).process } else e.slots v :=
    modifySlot_slots e w _ v
  refine h.keep ⟨fun x _ => ⟨rfl, rfl⟩, le_rfl, fun v _ => ?_⟩ (List.Subset.refl _) (fun v item hitem => .inl ?_) fun v => ?_
  · rw [hslot]
    split_ifs with hv
    · rw [hv]
    · rfl
  · rw [hslot] at hitem
    split_ifs at hitem with hv
    · rw [hv]
      exact hitems hitem
    · exact hitem
  · rw [hslot]
    split_ifs with hv
    · rw [hv]
      exact hresults
    · exact List.Subset.refl _

theorem Carries.mono (h : Carries e issued log) (p : Performed α) (hp : Stamp e issued p.worker p.item)
    (hid : p.result.id = p.item.id) : Carries e issued (log ++ [p]) := by
  refine ⟨h.items, fun w r hr => ?_, fun q hq => ?_⟩
  · obtain ⟨q, hq, hqr⟩ := h.results w r hr
    exact ⟨q, List.mem_append_left _ hq, hqr⟩
  · rcases List.mem_append.mp hq with hq | hq
    · exact h.log q hq
    · rw [List.mem_singleton.mp hq]
      exact ⟨hp, hid⟩

/-- A process is through with its item, and what it reports gets into its queue, or is lost. -/
theorem Carries.perform (h : Carries e issued log) {w : WorkerId} {item : WorkItem} {r : WorkResult α}
    {f : WorkerProcess α → WorkerProcess α} (hitem : (e.slots w).process.executing = some item) (hid : r.id = item.id)
    (hitems : (f (e.slots w).process).items ⊆ (e.slots w).process.items)
    (hqueue : (f (e.slots w).process).resultQueue ⊆ (e.slots w).process.resultQueue ++ [r]) :
    Carries (e.modifyProcess w f) issued (log ++ [⟨w, item, r⟩]) := by
  have hmem : item ∈ (e.slots w).process.items := by
    unfold WorkerProcess.items
    rw [hitem]
    exact List.mem_append_left _ (List.mem_singleton.mpr rfl)
  have hslot (v : WorkerId) : (e.modifyProcess w f).slots v =
      if v = w then { e.slots w with process := f (e.slots w).process } else e.slots v := modifySlot_slots e w _ v
  have hrecalls : Recalls e issued (e.modifyProcess w f) := by
    refine ⟨fun x _ => ⟨rfl, rfl⟩, le_rfl, fun v _ => ?_⟩
    rw [hslot]
    split_ifs with hv
    · rw [hv]
    · rfl
  have hlog := h.mono ⟨w, item, r⟩ (h.items w item hmem) hid
  refine ⟨fun v item' hitem' => ?_, fun v r' hr' => ?_, fun p hp => ?_⟩
  · rw [hslot] at hitem'
    split_ifs at hitem' with hv
    · subst hv
      exact (h.items v item' (hitems hitem')).keep hrecalls (List.Subset.refl _)
    · exact (h.items v item' hitem').keep hrecalls (List.Subset.refl _)
  · rw [hslot] at hr'
    split_ifs at hr' with hv
    · rcases List.mem_append.mp (hqueue hr') with hr' | hr'
      · exact hlog.results w r' hr'
      · rw [List.mem_singleton.mp hr']
        exact ⟨⟨w, item, r⟩, List.mem_append_right _ (List.mem_singleton.mpr rfl), rfl⟩
    · exact hlog.results v r' hr'
  · exact ⟨(hlog.log p hp).1.keep hrecalls (List.Subset.refl _), (hlog.log p hp).2⟩

end Executor

/-! ## Runs -/

namespace System
open Executor (Carries Recalls Logged Stamp)
variable {α : Type} {s s' : System α} {e : Event α} {log : List (Performed α)}

/-- What a worker puts on its queue for the item that it has executed. -/
def executed (s : System α) : Event α → List (Performed α)
  | .workerPut w report | .workerLose w report =>
    (s.executor.slots w).process.executing.toList.map fun item =>
      ⟨w, item, ⟨item.id, w, report.success, report.result, report.exception, report.observation⟩⟩
  | _ => []

def executions : History α (List (Performed α)) where
  start := []
  next s e _ log := log ++ s.executed e

/-- Whatever is on its way, or has arrived, is in the log. -/
structure Attested (s : System α) (log : List (Performed α)) : Prop where
  carries : Carries s.executor s.issued log
  hands : ∀ m ∈ s.sections, Logged log m
  futures : ∀ x o, s.executor.futures x = .finished o → o.reported = true → ∃ p ∈ log, p.item.id = x ∧ p.result.outcome = o

theorem Attested.of_same (h : Attested s log) (hworks : ∀ x, s'.executor.works x = s.executor.works x)
    (hslots : s'.executor.slots = s.executor.slots) (hnext : s'.executor.nextWorkerId = s.executor.nextWorkerId)
    (hissued : s'.issued = s.issued) (hhands : ∀ m ∈ s'.sections, m ∈ s.sections ∨ Logged log m)
    (hfutures : ∀ x o, s'.executor.futures x = .finished o → s.executor.futures x = .finished o) : Attested s' log := by
  refine ⟨?_, fun m hm => (hhands m hm).elim (h.hands m) id, fun x o hf => h.futures x o (hfutures x o hf)⟩
  refine h.carries.keep ⟨fun x _ => ?_, hnext.ge, fun w _ => ?_⟩ (by rw [hissued]; exact List.Subset.refl _)
    (fun w item hitem => .inl ?_) fun w => ?_
  · rw [hworks]
    exact ⟨rfl, rfl⟩
  · rw [hslots]
  · rwa [hslots] at hitem
  · rw [hslots]
    exact List.Subset.refl _

theorem mem_sections_begin {t : Thread} {hand : List (Section α)} {m : Section α}
    (hm : m ∈ ({ s with hands := Function.update s.hands t hand } : System α).sections) : m ∈ s.sections ∨ m ∈ hand :=
  (mem_sections_update (s := s) rfl hm).symm

theorem executions_next (h : s.executed e = []) : executions.next s e s' log = log := by
  change log ++ s.executed e = log
  rw [h, List.append_nil]

theorem acted_attested {t : Thread} {env : Env} {m : Section α} {rest body : List (Section α)}
    (hacted : Acted s t env m rest body s') (hs : Sound s) (hroster : Executor.Roster s.executor) (ha : Attested s log) :
    Attested s' log := by
  have hm : m ∈ s.sections := mem_sections.mpr ⟨t, by rw [hacted.hand]; exact List.mem_cons_self⟩
  refine ⟨?_, fun m' hm' => ?_, fun x o hf ho => ?_⟩
  · rw [hacted.issued]
    by_cases hdispatch : m = .maybeDispatch
    · subst hdispatch
      obtain ⟨hok, -⟩ := Executor.run_maybeDispatch hacted.run
      refine Executor.maybeDispatch_carries hok hs.pending hroster (fun x hx => ?_) ha.carries
      exact hs.issued x (List.mem_append_left _ (hs.tidy.known x (List.mem_append_left _ hx)))
    · have hlasts := Executor.run_lasts hacted.run hdispatch
      have hthins := Executor.run_thins hacted.run hdispatch hroster.nodup
      refine ha.carries.keep ⟨fun x _ => ?_, hthins.next.ge, fun w _ => hthins.pinned w⟩ (List.Subset.refl _)
        (fun w item hitem => .inl ?_) fun w => (hlasts w).results
      · exact (Executor.run_works hacted.run hdispatch x).2.2.sameFn
      · rwa [(hlasts w).items] at hitem
  · rcases hacted.mem_sections hm' with hm' | hm'
    · exact Executor.run_logged hacted.run ha.carries (ha.hands m hm) m' hm'
    · exact ha.hands m' hm'
  · rcases Executor.run_reported hacted.run hs.pending ho hf with hold | rfl
    · exact ha.futures x o hold ho
    · exact ha.hands _ hm ho

theorem outside_attested (h : s.step e = some s') (hnext : s.nextSection e = none) (hnone : s.executed e = [])
    (ha : Attested s log) : Attested s' log := by
  have begins {t : Thread} {body : List (Section α)} (hbody : ∀ m ∈ body, Logged log m) :
      Attested ({ s with hands := Function.update s.hands t body } : System α) log :=
    ha.of_same (fun _ => rfl) rfl rfl rfl (fun m hm => (mem_sections_begin hm).imp_right (hbody m)) fun _ _ => id
  have process {w : WorkerId} {f : WorkerProcess α → WorkerProcess α}
      (hitems : (f (s.executor.slots w).process).items ⊆ (s.executor.slots w).process.items)
      (hresults : (f (s.executor.slots w).process).resultQueue ⊆ (s.executor.slots w).process.resultQueue) :
      Attested ({ s with executor := s.executor.modifyProcess w f } : System α) log :=
    ⟨ha.carries.modifyProcess hitems hresults, ha.hands, ha.futures⟩
  cases e with
  | tick now =>
    simp only [step] at h
    split_ifs at h
    obtain rfl := Option.some.inj h
    exact ha.of_same (fun _ => rfl) rfl rfl rfl (fun _ hm => .inl hm) fun _ _ => id
  | poll snapshot =>
    obtain rfl := Option.some.inj h
    exact ha.of_same (fun _ => rfl) rfl rfl rfl (fun _ hm => .inl hm) fun _ _ => id
  | start =>
    simp only [step] at h
    split_ifs at h
    obtain rfl := Option.some.inj h
    exact ha.of_same (fun _ => rfl) rfl rfl rfl (fun _ hm => .inl hm) fun _ _ => id
  | submit id r reading =>
    simp only [step] at h
    split_ifs at h with hcond
    obtain rfl := Option.some.inj h
    have hnew (x : WorkId) (hx : x ∈ s.issued) : x ≠ id := fun heq => hcond.2.2 (heq ▸ hx)
    unfold submit
    dsimp only
    split
    · exact ha.of_same (fun _ => rfl) rfl rfl rfl (fun _ hm => .inl hm) fun _ _ hf => hf
    · refine ⟨?_, ha.hands, fun x o hf ho => ha.futures x o (Executor.update_finished (fun h => by cases h) hf) ho⟩
      refine ha.carries.keep ⟨fun x hx => ?_, le_rfl, fun _ _ => rfl⟩ (List.subset_append_left _ _)
        (fun _ _ hitem => .inl hitem) fun _ => List.Subset.refl _
      dsimp only
      rw [Function.update_of_ne (hnew x hx)]
      exact ⟨rfl, rfl⟩
  | append id =>
    simp only [step] at h
    split_ifs at h
    obtain rfl := Option.some.inj h
    exact ha.of_same (fun _ => rfl) rfl rfl rfl (fun _ hm => .inl hm) fun _ _ hf => hf
  | cancel id =>
    simp only [step] at h
    split_ifs at h
    obtain rfl := Option.some.inj h
    refine ha.of_same (fun _ => rfl) rfl rfl rfl (fun _ hm => .inl hm) fun x o hf => ?_
    dsimp only at hf
    rw [Function.update_apply] at hf
    split_ifs at hf with hx
    · rw [hx]
      cases hold : s.executor.futures id <;> rw [hold] at hf <;> first | exact hf | cases hf
    · exact hf
  | workerTake w =>
    simp only [step] at h
    split_ifs at h with hcond
    split at h
    · cases h
    · rename_i rest hqueue
      obtain rfl := Option.some.inj h
      refine process (f := fun p => { p with workQueue := rest, leaving := true }) ?_ (List.Subset.refl _)
      unfold WorkerProcess.items
      rw [hqueue]
      exact List.Subset.refl _
    · rename_i item rest hqueue
      obtain rfl := Option.some.inj h
      refine process (f := fun p => { p with workQueue := rest, executing := some item }) ?_ (List.Subset.refl _)
      unfold WorkerProcess.items
      rw [hqueue, hcond.2.2, List.reduceOption_cons_of_some]
      exact List.Subset.refl _
  | workerPut w report =>
    simp only [step] at h
    split at h
    · cases h
    · rename_i item hitem
      unfold executed at hnone
      dsimp only at hnone
      rw [hitem] at hnone
      cases hnone
  | workerLose w report =>
    simp only [step] at h
    split_ifs at h with hcond
    obtain ⟨item, hitem⟩ := Option.ne_none_iff_exists'.mp hcond.2
    unfold executed at hnone
    dsimp only at hnone
    rw [hitem] at hnone
    cases hnone
  | workerDie w exitcode =>
    obtain rfl := Option.some.inj h
    refine process (f := (·.exit exitcode)) ?_ ?_
    · rw [WorkerProcess.items_exit]
      exact List.Subset.refl _
    · rw [WorkerProcess.resultQueue_exit]
      exact List.Subset.refl _
  | round t =>
    simp only [step] at h
    split at h
    · rename_i body _ hbody
      obtain rfl := Option.some.inj h
      exact begins fun m hm => Executor.logged_of_begins ((loopBody_begins hbody).2 m hm)
    · cases h
  | call t m =>
    simp only [step] at h
    split at h
    · split_ifs at h with hcond
      obtain rfl := Option.some.inj h
      refine begins (List.forall_mem_singleton.mpr ?_)
      cases m <;> first | trivial | cases hcond.2
    · cases h
  | deliver t w i =>
    simp only [step] at h
    split at h
    · rename_i r _ hr
      split_ifs at h
      obtain rfl := Option.some.inj h
      have hlogged := ha.carries.results w r (List.mem_of_getElem? hr)
      refine ⟨?_, fun m hm => ?_, ha.futures⟩
      · exact ha.carries.modifyProcess (f := fun p => { p with resultQueue := p.resultQueue.eraseIdx i })
          (List.Subset.refl _) (List.eraseIdx_subset)
      · rcases mem_sections_update (s := s) rfl hm with hm | hm
        · rw [List.mem_singleton.mp hm]
          exact hlogged
        · exact ha.hands m hm
    · cases h
  | act t env =>
    simp only [step, List.head?_eq_none_iff.mp hnext] at h
    cases h
  | contended t =>
    simp only [step] at h
    split at h
    · rename_i w results rest hand
      split_ifs at h
      obtain rfl := Option.some.inj h
      have hread (m : Section α) (hm : m ∈ s.hands t) : Logged log m := ha.hands m (mem_sections.mpr ⟨t, hm⟩)
      rw [hand, List.forall_mem_cons] at hread
      refine begins fun m hm => ?_
      rcases List.mem_append.mp hm with hm | hm
      · obtain ⟨r, hr, rfl⟩ := List.mem_map.mp hm
        exact hread.1 r hr
      · exact hread.2 m hm
    · cases h
  | shutdown wait =>
    simp only [step] at h
    split_ifs at h
    · obtain rfl := Option.some.inj h
      exact ha.of_same (fun _ => rfl) rfl rfl rfl (fun _ hm => .inl hm) fun _ _ => id
    · obtain rfl := Option.some.inj h
      refine ⟨ha.carries, fun m hm => ?_, ha.futures⟩
      rcases mem_sections_update (s := s) rfl hm with hm | hm
      · rcases List.mem_append.mp hm with hm | hm
        · exact ha.hands m (mem_sections.mpr ⟨_, hm⟩)
        · exact Executor.shutdownSections_logged s.started wait m hm
      · exact ha.hands m hm

theorem Attested.perform (ha : Attested s log) {w : WorkerId} {report : Report α} {item : WorkItem}
    {f : WorkerProcess α → WorkerProcess α} (he : e = .workerPut w report ∨ e = .workerLose w report)
    (hitem : (s.executor.slots w).process.executing = some item)
    (hitems : (f (s.executor.slots w).process).items ⊆ (s.executor.slots w).process.items)
    (hqueue : (f (s.executor.slots w).process).resultQueue ⊆ (s.executor.slots w).process.resultQueue ++
      [⟨item.id, w, report.success, report.result, report.exception, report.observation⟩]) :
    Attested { s with executor := s.executor.modifyProcess w f }
      (executions.next s e { s with executor := s.executor.modifyProcess w f } log) := by
  have hput : s.executed e = [⟨w, item, ⟨item.id, w, report.success, report.result, report.exception,
      report.observation⟩⟩] := by
    rcases he with rfl | rfl <;> dsimp only [executed] <;> rw [hitem] <;> rfl
  change Attested _ (log ++ s.executed e)
  rw [hput]
  have hlog : log ⊆ log ++ [⟨w, item, ⟨item.id, w, report.success, report.result, report.exception,
      report.observation⟩⟩] := List.subset_append_left _ _
  refine ⟨ha.carries.perform hitem rfl hitems hqueue, fun m hm => (ha.hands m hm).mono hlog, fun x o hf ho => ?_⟩
  obtain ⟨p, hp, hpx⟩ := ha.futures x o hf ho
  exact ⟨p, hlog hp, hpx⟩

/-- **What an event does to the log**: only a worker that reports adds to it, and everything else is passed on. -/
theorem step_attested (h : s.step e = some s') (hs : Sound s) (hroster : Executor.Roster s.executor) (ha : Attested s log) :
    Attested s' (executions.next s e s' log) := by
  cases hnext : s.nextSection e with
  | some m =>
    obtain ⟨t, env, rest, body, rfl, hacted⟩ := acted_of_next h hnext
    rw [executions_next rfl]
    exact acted_attested hacted hs hroster ha
  | none =>
    cases e with
    | workerPut w report =>
      simp only [step] at h
      split at h
      · cases h
      · rename_i item hitem
        split_ifs at h
        obtain rfl := Option.some.inj h
        exact ha.perform (.inl rfl) hitem (List.subset_append_right _ _) (List.Subset.refl _)
    | workerLose w report =>
      simp only [step] at h
      split_ifs at h with hcond
      obtain rfl := Option.some.inj h
      obtain ⟨item, hitem⟩ := Option.ne_none_iff_exists'.mp hcond.2
      exact ha.perform (.inr rfl) hitem (List.subset_append_right _ _) (List.subset_append_left _ _)
    | _ =>
      rw [executions_next rfl]
      exact outside_attested h hnext rfl ha

section Run
variable {cfg : Config} {profiles : ProfileStore}

theorem run_attested (h : Recorded executions (fun _ _ => True) (init cfg profiles) s log) : Attested s log := by
  induction h with
  | start =>
    refine ⟨⟨fun w item hitem => (by cases hitem), fun w r hr => (by cases hr), fun p hp => (by cases hp)⟩, fun m hm => ?_,
      fun x o hf => by cases hf⟩
    cases hm
  | next hrun _ hstep ih => exact step_attested hstep hrun.reachable.sound.1 hrun.reachable.roster.1 ih

/-- The execution is one of task `x`: of its function, by a worker of the GPU that the item names. -/
def Executes (s : System α) (p : Performed α) (x : WorkId) : Prop :=
  p.item.id = x ∧ p.item.fnModule = (s.executor.works x).fnModule ∧ p.item.fnName = (s.executor.works x).fnName ∧
    p.item.gpuId = (s.executor.slots p.worker).pinnedGpuId

/-- **Outcomes are authentic**: in every run, a future that is finished with a result or an exception of a task function
has it from a worker that has executed that very task, and so has every observation that the profiles are about to learn.
A worker executes nothing but the functions of submitted tasks, on the GPU it is pinned to. -/
theorem outcome_authentic (h : Recorded executions (fun _ _ => True) (init cfg profiles) s log) :
    (∀ x o, s.executor.futures x = .finished o → o.reported = true → ∃ p ∈ log, s.Executes p x ∧ p.result.outcome = o) ∧
      (∀ m ∈ s.sections, ∀ x observation, m = .record x observation →
        ∃ p ∈ log, s.Executes p x ∧ p.result.observation = observation) ∧
      ∀ p ∈ log, p.item.id ∈ s.issued ∧ s.Executes p p.item.id := by
  have ha := run_attested h
  have executes {p : Performed α} (hp : p ∈ log) : s.Executes p p.item.id :=
    have hstamp := (ha.carries.log p hp).1
    ⟨rfl, hstamp.fnModule, hstamp.fnName, hstamp.gpuId⟩
  refine ⟨fun x o hf ho => ?_, fun m hm x observation hrecord => ?_, fun p hp => ⟨(ha.carries.log p hp).1.issued, executes hp⟩⟩
  · obtain ⟨p, hp, rfl, hout⟩ := ha.futures x o hf ho
    exact ⟨p, hp, executes hp, hout⟩
  · subst hrecord
    obtain ⟨p, hp, rfl, hobs⟩ := ha.hands _ hm
    exact ⟨p, hp, executes hp, hobs⟩

end Run

/-- The only task is executed, and its future is settled with the result. -/
def reportOne : List (Event ℕ) :=
  [.submit "x" plainRequest plainReading, .append "x", .call .dispatcher .maybeDispatch, .act .dispatcher plainEnv,
    .workerTake 0, .workerPut 0 ⟨true, some 7, none, ⟨1, 0, 1, 10⟩⟩, .round .collector] ++
      List.replicate 7 (.act .collector plainEnv)

theorem outcome_authentic_settled : ∃ (s : System ℕ) (log : List (Performed ℕ)),
    s.executor.futures "x" = .finished (.result (some 7)) ∧
      ∃ p ∈ log, s.Executes p "x" ∧ p.result.outcome = .result (some 7) := by
  have hfacts : (playRecorded executions (fun _ _ => True) (init oneWorker {} : System ℕ) [] reportOne).any
      (fun r => decide (r.1.executor.futures "x" = .finished (.result (some 7)))) = true := by decide +kernel
  obtain ⟨⟨s, log⟩, hplay, hfacts⟩ := (Option.any_eq_true _ _).mp hfacts
  have hfuture := of_decide_eq_true hfacts
  exact ⟨s, log, hfuture, (outcome_authentic (Recorded.start.play hplay)).1 "x" _ hfuture rfl⟩

end System

end AdaptiveExecutor
