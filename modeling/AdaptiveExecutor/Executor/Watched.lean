import AdaptiveExecutor.Executor.Credit
import AdaptiveExecutor.Executor.Roster
import AdaptiveExecutor.Executor.Slots
import AdaptiveExecutor.Executor.Tasks
import AdaptiveExecutor.Measure.Monitor

/-!
# What the executor sees of its tasks

A run on a machine: what the processes use is a function of time, and the executor and its monitor are answered from it.

* `Platform` : the machine, with `memoryGb` and `vramGb` for what `_sample_rss_bytes` and `_sample_process_vram_gb` return;
* `risen`, `memoryRise`, `vramRise` : what a reading has risen by since the task was shipped;
* `Watched` : the baselines and the observed usage of a task are what its worker has used at two times;
* `captureBaseline_watched`, `updateObserved_watched` : shipping and refreshing keep it;
* `maybeDispatch_watched`, `usage_watched` : so does a cycle, and every run on the machine;
* `capacity_within` : what a plan can give out exceeds what the estimates leave by no more than what the tasks have
  allocated since the poll.
-/

namespace AdaptiveExecutor

/-- A machine over time, and the executor's monitor on it. -/
structure Platform where
  readings : ℚ → Readings
  monitor : ResourceMonitor

/-- What a reading has risen by; nothing when one of the two has failed. -/
def risen (baseline current : Option ℚ) : ℚ :=
  match baseline, current with
  | some baseline, some current => max 0 (current - baseline)
  | _, _ => 0

@[simp] theorem risen_self (reading : Option ℚ) : risen reading reading = 0 := by
  cases reading <;> simp [risen]

namespace Platform
open Executor (captureBaseline updateObserved)
variable (M : Platform)

/-- `_sample_rss_bytes`, in GB. -/
def memoryGb (t : ℚ) (pid : Int) : Option ℚ := ((M.readings t).rss pid).map gb

/-- `_sample_process_vram_gb`. -/
def vramGb (t : ℚ) (pid : Int) (gpuId : GpuId) : Option ℚ :=
  M.monitor.perProcessVramGb (M.readings t) gpuId ((M.readings t).processTree pid)

structure Answers (t : ℚ) (env : Env) : Prop where
  rssBytes : ∀ pid, env.rssBytes pid = ((M.readings t).rss pid).map Int.ofNat
  processVramGb : ∀ pid gpuId, env.processVramGb pid gpuId = M.vramGb t pid gpuId

/-- What the RSS of the task's worker has risen by since the task was shipped. -/
def memoryRise (w : PendingWork) (t : ℚ) : ℚ :=
  match w.startedAt, w.workerPid with
  | some startedAt, some pid => risen (M.memoryGb startedAt pid) (M.memoryGb t pid)
  | _, _ => 0

/-- What the VRAM of the worker's process tree has risen by, on the GPU of the task. -/
def vramRise (w : PendingWork) (t : ℚ) : ℚ :=
  match w.startedAt, w.workerPid, w.assignedGpuId with
  | some startedAt, some pid, some gpuId => risen (M.vramGb startedAt pid gpuId) (M.vramGb t pid gpuId)
  | _, _, _ => 0

/-- The task was shipped at `startedAt` and last looked at at `sampledAt`. -/
structure Watched (now : ℚ) (pid : Int) (startedAt sampledAt : ℚ) (w : PendingWork) : Prop where
  started : w.startedAt = some startedAt
  sampled : w.observedRefreshedAt = some sampledAt
  order : startedAt ≤ sampledAt ∧ sampledAt ≤ now
  workerPid : w.workerPid = some pid
  rssBaseline : w.rssBaselineBytes = ((M.readings startedAt).rss pid).map Int.ofNat
  vramBaseline : w.vramBaselineGb = w.assignedGpuId.bind (M.vramGb startedAt pid)
  memory : w.observedMemoryGb = M.memoryRise w sampledAt
  vram : w.observedVramGb = M.vramRise w sampledAt

variable {M} {env : Env} {now now' startedAt sampledAt : ℚ} {pid : Int} {w : PendingWork}

theorem Watched.later (h : M.Watched now pid startedAt sampledAt w) (hnow : now ≤ now') :
    M.Watched now' pid startedAt sampledAt w :=
  { h with order := ⟨h.order.1, h.order.2.trans hnow⟩ }

/-- **The shipping of a task** takes both baselines. -/
theorem captureBaseline_watched (hanswers : M.Answers now env) (pid : Int) (gpuId : Option GpuId) (worker : WorkerId)
    (w : PendingWork) : M.Watched now pid now now (captureBaseline env now pid gpuId
      { w with assignedGpuId := gpuId, workerId := some worker, startedAt := some now }) := by
  refine ⟨rfl, rfl, ⟨le_rfl, le_rfl⟩, rfl, hanswers.rssBytes pid, ?_, ?_, ?_⟩
  · unfold captureBaseline
    cases gpuId with
    | none => rfl
    | some gpuId => exact hanswers.processVramGb pid gpuId
  · simp [captureBaseline, memoryRise]
  · cases gpuId <;> simp [captureBaseline, vramRise]

theorem risen_bytes (baseline current : Option Nat) : risen (baseline.map gb) (current.map gb) =
    match baseline.map Int.ofNat, current.map Int.ofNat with
    | some baseline, some current => max 0 (((current - baseline : Int) : ℚ) / 1000000000)
    | _, _ => 0 := by
  cases baseline with
  | none => rfl
  | some baseline =>
    cases current with
    | none => rfl
    | some current => simp [risen, gb, sub_div]

/-! ## A refresh -/

theorem updateObserved_memoryGb (env : Env) (now : ℚ) (hpid : w.workerPid = some pid) :
    (updateObserved env now w).observedMemoryGb =
      match w.rssBaselineBytes with
      | none => w.observedMemoryGb
      | some baseline =>
        match env.rssBytes pid with
        | none => 0
        | some current => max 0 (((current - baseline : Int) : ℚ) / 1000000000) := by
  cases w
  cases hpid
  unfold updateObserved
  dsimp only
  split <;> split <;> rfl

theorem updateObserved_vramGb (env : Env) (now : ℚ) (hpid : w.workerPid = some pid) :
    (updateObserved env now w).observedVramGb =
      match w.assignedGpuId, w.vramBaselineGb with
      | some gpuId, some baseline =>
        match env.processVramGb pid gpuId with
        | none => 0
        | some current => max 0 (current - baseline)
      | _, _ => w.observedVramGb := by
  cases w with
  | mk fnModule fnName estimate assignedGpuId startedAt workerId retryCount exclusive resultIgnored runningNotified workerPid
      rssBaselineBytes vramBaselineGb =>
    cases hpid
    unfold updateObserved
    dsimp only
    cases rssBaselineBytes <;> cases assignedGpuId <;> cases vramBaselineGb <;> rfl

theorem updateObserved_refreshedAt (env : Env) (now : ℚ) (w : PendingWork) :
    (updateObserved env now w).observedRefreshedAt = some now := by
  unfold updateObserved
  dsimp only
  split
  · rfl
  · split <;> split <;> rfl

/-- **A refresh** takes the samples anew. -/
theorem updateObserved_watched (hanswers : M.Answers now env) (h : M.Watched now pid startedAt sampledAt w) :
    M.Watched now pid startedAt now (updateObserved env now w) := by
  have hmemory : (updateObserved env now w).observedMemoryGb = M.memoryRise w now := by
    have hrise (t : ℚ) : M.memoryRise w t = risen (M.memoryGb startedAt pid) (M.memoryGb t pid) := by
      unfold memoryRise
      rw [h.started, h.workerPid]
    have hold := h.memory
    rw [hrise] at hold ⊢
    rw [updateObserved_memoryGb env now h.workerPid, h.rssBaseline, hanswers.rssBytes, hold]
    unfold memoryGb
    rw [risen_bytes, risen_bytes]
    -- without a baseline the observed usage stays what it was, which is nothing
    cases (M.readings startedAt).rss pid <;> cases (M.readings now).rss pid <;> rfl
  have hvram : (updateObserved env now w).observedVramGb = M.vramRise w now := by
    have hold := h.vram
    have hbaseline := h.vramBaseline
    unfold vramRise at hold ⊢
    rw [h.started, h.workerPid] at hold ⊢
    rw [updateObserved_vramGb env now h.workerPid, hbaseline, hold]
    cases w.assignedGpuId with
    | none => rfl
    | some gpuId =>
      rw [Option.bind_some]
      cases hbase : M.vramGb startedAt pid gpuId with
      | none => simp only [hbase, risen]
      | some baseline =>
        dsimp only
        rw [hanswers.processVramGb, hbase]
        cases hnow : M.vramGb now pid gpuId <;> simp only [risen]
  have hrefreshed := updateObserved_refreshedAt env now w
  obtain ⟨refreshedAt, memory, vram, hframe⟩ := Executor.updateObserved_frame env now w
  rw [hframe] at hmemory hvram hrefreshed ⊢
  exact ⟨h.started, hrefreshed, ⟨h.order.1.trans h.order.2, le_rfl⟩, h.workerPid, h.rssBaseline, h.vramBaseline,
    hmemory, hvram⟩

end Platform

/-! ## A dispatch cycle -/

namespace Executor
variable {α : Type} {env : Env} {e e' : Executor α} {M : Platform}

/-- Every task in flight is watched on the worker that it was shipped to. -/
def AllWatched (M : Platform) (e : Executor α) : Prop :=
  ∀ x ∈ e.inFlight, ∃ v < e.nextWorkerId, ∃ startedAt sampledAt, (e.works x).workerId = some v ∧
    M.Watched e.clock (e.slots v).process.pid startedAt sampledAt (e.works x)

/-- No sample of a task in flight is older than the throttle allows. -/
def Fresh (e : Executor α) : Prop :=
  ∀ x ∈ e.inFlight, ∃ sampledAt, (e.works x).observedRefreshedAt = some sampledAt ∧
    (sampledAt = e.clock ∨ e.clock - sampledAt < e.cfg.observationRefreshSeconds)

theorem AllWatched.of_same (h : AllWatched M e) (hclock : e.clock ≤ e'.clock) (hflight : e'.inFlight ⊆ e.inFlight)
    (hworks : ∀ x ∈ e'.inFlight, e'.works x = e.works x) (hnext : e.nextWorkerId ≤ e'.nextWorkerId)
    (hpid : ∀ v < e.nextWorkerId, (e'.slots v).process.pid = (e.slots v).process.pid) : AllWatched M e' := by
  intro x hx
  obtain ⟨v, hv, startedAt, sampledAt, hworker, hwatched⟩ := h x (hflight hx)
  rw [hworks x hx]
  refine ⟨v, hv.trans_le hnext, startedAt, sampledAt, hworker, ?_⟩
  rw [hpid v hv]
  exact hwatched.later hclock

theorem refresh_watched (h : AllWatched M e) (hanswers : M.Answers e.clock env) (hnodup : e.inFlight.Nodup) :
    AllWatched M (e.refreshObservations env e.clock) ∧ Fresh (e.refreshObservations env e.clock) := by
  obtain ⟨works, hframe, hkeeps⟩ := refreshObservations_frame env e e.clock
  have hworks := refreshObservations_works env e hnodup
  rw [hframe] at hworks ⊢
  constructor
  · intro x hx
    obtain ⟨v, hv, startedAt, sampledAt, hworker, hwatched⟩ := h x hx
    have hworker' : (works x).workerId = some v :=
      (hkeeps (·.workerId) (updateObserved_keeps (fun _ _ _ _ => rfl) env e.clock) x).trans hworker
    by_cases hdue : e.due x = true
    · refine ⟨v, hv, startedAt, e.clock, hworker', ?_⟩
      change M.Watched e.clock _ startedAt e.clock (works x)
      rw [show works x = _ from hworks x hx, if_pos hdue]
      exact Platform.updateObserved_watched hanswers hwatched
    · refine ⟨v, hv, startedAt, sampledAt, hworker', ?_⟩
      change M.Watched e.clock _ startedAt sampledAt (works x)
      rw [show works x = _ from hworks x hx, if_neg hdue]
      exact hwatched
  · intro x hx
    change ∃ sampledAt, (works x).observedRefreshedAt = some sampledAt ∧ (sampledAt = e.clock ∨ _)
    rw [show works x = _ from hworks x hx]
    by_cases hdue : e.due x = true
    · rw [if_pos hdue]
      exact ⟨e.clock, Platform.updateObserved_refreshedAt env e.clock _, .inl rfl⟩
    · rw [if_neg hdue]
      obtain ⟨_, -, _, sampledAt, -, hwatched⟩ := h x hx
      refine ⟨sampledAt, hwatched.sampled, .inr ?_⟩
      unfold due at hdue
      rw [hwatched.sampled] at hdue
      simpa using hdue

theorem acquireWorker_pid {gpuId : Option GpuId} {o : Option WorkerId} (h : e.acquireWorker env gpuId = .ok (e', o))
    {v : WorkerId} (hv : v < e.nextWorkerId) : (e'.slots v).process.pid = (e.slots v).process.pid := by
  have fresh {e₀ : Executor α} {r : Executor α × WorkerId} (hr : e₀.spawnWorker env gpuId = .ok r)
      (hnext : v < e₀.nextWorkerId) : (r.1.slots v).process.pid = (e₀.slots v).process.pid := by
    obtain ⟨pid, hs, -⟩ := spawnWorker_ok hr
    have hslot : (e₀.spawned pid gpuId).slots v = e₀.slots v := Function.update_of_ne hnext.ne _ _
    rw [hs, hslot]
  unfold acquireWorker at h
  split at h
  · obtain ⟨rfl, -⟩ := Prod.mk.inj (Except.ok.inj h)
    rfl
  split_ifs at h
  · split at h
    · obtain ⟨rfl, -⟩ := Prod.mk.inj (Except.ok.inj h)
      rfl
    · rename_i victim hvictim
      cases hr : (e.retireWorker victim).spawnWorker env gpuId with
      | error => rw [hr] at h; cases h
      | ok r =>
        rw [hr] at h
        obtain ⟨rfl, -⟩ := Prod.mk.inj (Except.ok.inj h)
        rw [fresh hr hv]
        exact (lasts_retire e (List.mem_of_find?_eq_some hvictim) v).pid
  · cases hr : e.spawnWorker env gpuId with
    | error => rw [hr] at h; cases h
    | ok r =>
      rw [hr] at h
      obtain ⟨rfl, -⟩ := Prod.mk.inj (Except.ok.inj h)
      exact fresh hr hv

theorem ship_watched (h : AllWatched M e) (hanswers : M.Answers e.clock env) (id : WorkId) (gpuId : Option GpuId)
    {w : WorkerId} (hw : w < e.nextWorkerId) : AllWatched M (e.ship env id gpuId w) := by
  obtain ⟨item, -, hslots⟩ := ship_slots env e id gpuId w
  have hpid (v : WorkerId) : ((e.ship env id gpuId w).slots v).process.pid = (e.slots v).process.pid := by
    rw [hslots]
    split_ifs with hv
    · rw [hv]
    · rfl
  intro x hx
  by_cases hid : x = id
  · subst hid
    have hwork : (e.ship env x gpuId w).works x = captureBaseline env e.clock (e.slots w).process.pid gpuId
        { e.works x with assignedGpuId := gpuId, workerId := some w, startedAt := some e.clock } := Function.update_self _ _ _
    rw [hwork]
    refine ⟨w, hw, e.clock, e.clock, rfl, ?_⟩
    rw [hpid]
    exact Platform.captureBaseline_watched hanswers _ gpuId w (e.works x)
  · have hold : x ∈ e.inFlight := (mem_insertKey.mp hx).resolve_right hid
    have hwork : (e.ship env id gpuId w).works x = e.works x := Function.update_of_ne hid _ _
    obtain ⟨v, hv, startedAt, sampledAt, hworker, hwatched⟩ := h x hold
    rw [hwork]
    refine ⟨v, hv, startedAt, sampledAt, hworker, ?_⟩
    rw [hpid]
    exact hwatched

theorem Handled.watched {d : DispatchDecision} {fate : Fate} (hhandled : Handled env e d fate e') (hroster : Roster e)
    (hanswers : M.Answers e.clock env) (h : AllWatched M e) : AllWatched M e' := by
  have acquired {e₁ : Executor α} {o : Option WorkerId} (hacquire : e.acquireWorker env d.gpuId = .ok (e₁, o)) :
      AllWatched M e₁ ∧ e₁.clock = e.clock := by
    have hnext := (acquireWorker_staffs hacquire hroster).1.next
    have hpid (v : WorkerId) (hv : v < e.nextWorkerId) := acquireWorker_pid hacquire hv
    obtain ⟨_, _, _, _, rfl⟩ := acquireWorker_frame hacquire
    exact ⟨h.of_same le_rfl (List.Subset.refl _) (fun _ _ => rfl) hnext hpid, rfl⟩
  cases hhandled with
  | left hacquire => exact (acquired hacquire).1
  | dropped hacquire => exact (acquired hacquire).1
  | @shipped e₁ e₂ w hacquire hstarted =>
    obtain ⟨hwatched, hclock⟩ := acquired hacquire
    have hworker : w < e₁.nextWorkerId := ((acquireWorker_staffs hacquire hroster).2 w rfl).1
    rcases hstarted with ⟨-, rfl⟩ | ⟨-, -, rfl⟩
    · exact ship_watched hwatched (hclock ▸ hanswers) _ _ hworker
    · refine ship_watched ?_ (hclock ▸ hanswers) _ _ hworker
      -- the flag that the future is running is no part of what is watched
      intro x hx
      obtain ⟨v, hv, startedAt, sampledAt, hid, hx⟩ := hwatched x hx
      refine ⟨v, hv, startedAt, sampledAt, ?_⟩
      have hwork : (e₁.start d.pendingId).works x =
          if x = d.pendingId then { e₁.works d.pendingId with runningNotified := true } else e₁.works x :=
        modifyWork_works e₁ d.pendingId (fun work => { work with runningNotified := true }) x
      rw [hwork]
      split_ifs with hxd
      · subst hxd
        exact ⟨hid, { hx with }⟩
      · exact ⟨hid, hx⟩

theorem Handling.watched {hs : List (DispatchDecision × Fate)} (hhandling : Handling env e hs e') (hroster : Roster e)
    (hanswers : M.Answers e.clock env) (h : AllWatched M e) : AllWatched M e' := by
  induction hhandling with
  | nil => exact h
  | cons hhandled _ ih =>
    refine ih ((hhandled.staffs hroster).1.roster hroster) ?_ (hhandled.watched hroster hanswers h)
    rw [hhandled.frame.2.2.2]
    exact hanswers

section Cycle
variable (hqueued : ∀ x ∈ e.pending, x ∉ e.inFlight) (hanswers : M.Answers e.clock env) (h : AllWatched M e)
include hqueued hanswers h

theorem planned_watched (hflight : e.inFlight.Nodup) : AllWatched M (e.planned env) ∧ Fresh (e.planned env) := by
  obtain ⟨hworks, works, profiles, futures, pending, hframe⟩ := prepare_frame e
  have hprepare : AllWatched M e.prepare := by
    have hsame : e.prepare.inFlight = e.inFlight := by rw [hframe]
    refine h.of_same ?_ (fun x hx => hsame ▸ hx) (fun x hx => hworks x fun hp => hqueued x hp (hsame ▸ hx)) ?_ fun v _ => ?_
    · rw [hframe]
    · rw [hframe]
    · rw [hframe]
  refine refresh_watched hprepare ?_ ?_
  · rw [hframe]
    exact hanswers
  · rw [hframe]
    exact hflight

/-- **A dispatch cycle** keeps watch of the tasks in flight, and begins with those it ships. -/
theorem maybeDispatch_watched (hok : e.maybeDispatch env = .ok e') (hnodup : e.pending.Nodup) (hflight : e.inFlight.Nodup)
    (hroster : Roster e) : AllWatched M e' := by
  obtain ⟨hplanned, -⟩ := planned_watched hqueued hanswers h hflight
  rcases maybeDispatch_planned hok with ⟨-, rfl⟩ | ⟨-, rfl⟩ | ⟨hs, e₁, hhandling, -, rfl⟩
  · exact h
  · obtain ⟨hworks, _, _, _, _, hframe⟩ := prepare_frame e
    have hsame : e.prepare.inFlight = e.inFlight := by rw [hframe]
    refine h.of_same ?_ (fun x hx => hsame ▸ hx) (fun x hx => hworks x fun hp => hqueued x hp (hsame ▸ hx)) ?_ fun v _ => ?_
    · rw [hframe]
    · rw [hframe]
    · rw [hframe]
  · obtain ⟨works, next, hready, hworks⟩ := ready_frame env e
    have hsame := ready_inFlight env e
    have hbefore : AllWatched M (e.ready env) := by
      have hplannedFlight : (e.ready env).inFlight = (e.planned env).inFlight := by rw [hready]
      refine hplanned.of_same ?_ (fun x hx => hplannedFlight ▸ hx) (fun x hx => ?_) ?_ fun v _ => ?_
      · rw [hready]
      · have hnot : x ∉ (e.planned env).pending := fun hp =>
          hqueued x ((planned_steps env [] hnodup).pending.subset hp) (hsame ▸ hx)
        rw [hready]
        exact (hworks x).trans (if_neg hnot)
      · rw [hready]
      · rw [hready]
    have hafter := hhandling.watched ((ready_staffs env e).roster hroster) (by rw [ready_clock]; exact hanswers) hbefore
    exact hafter.of_same le_rfl (List.Subset.refl _) (fun _ _ => rfl) le_rfl fun _ _ => rfl

end Cycle

/-! ## What a plan can give out -/

/-- The sum over the tasks in flight that are `on` what is asked about. -/
def flightSum (e : Executor α) (on : WorkId → Bool) (f : PendingWork → ℚ) : ℚ :=
  ((e.inFlight.filter on).map fun x => f (e.works x)).sum

/-- What has been allocated between the poll and the last sample of a task. -/
def allocatedSince (rise : PendingWork → ℚ → ℚ) (polledAt : ℚ) (w : PendingWork) : ℚ :=
  max 0 (rise w (w.observedRefreshedAt.getD polledAt) - rise w polledAt)

theorem committedGb_ge (estimateGb observedGb polledGb : ℚ) :
    estimateGb - polledGb - max 0 (observedGb - polledGb) ≤ committedGb estimateGb observedGb := by
  have hmin : min estimateGb observedGb ≤ observedGb := min_le_right _ _
  have hmax : observedGb - polledGb ≤ max 0 (observedGb - polledGb) := le_max_right _ _
  rw [committedGb_eq]
  linarith

/-- What is committed covers the estimates, less what the poll shows and what has been allocated since. -/
theorem flightSum_committed (estimate observed : PendingWork → ℚ) (rise : PendingWork → ℚ → ℚ) (e : Executor α)
    (on : WorkId → Bool) (polledAt : ℚ) (hobserved : ∀ x ∈ e.inFlight, ∃ sampledAt,
      (e.works x).observedRefreshedAt = some sampledAt ∧ observed (e.works x) = rise (e.works x) sampledAt) :
    e.flightSum on estimate - e.flightSum on (rise · polledAt) - e.flightSum on (allocatedSince rise polledAt) ≤
      e.flightSum on fun w => committedGb (estimate w) (observed w) := by
  have hsum : ∀ xs : List WorkId, xs ⊆ e.inFlight → (xs.map fun x => estimate (e.works x)).sum -
      (xs.map fun x => rise (e.works x) polledAt).sum - (xs.map fun x => allocatedSince rise polledAt (e.works x)).sum ≤
        (xs.map fun x => committedGb (estimate (e.works x)) (observed (e.works x))).sum := by
    intro xs
    induction xs with
    | nil => simp
    | cons x xs ih =>
      intro hxs
      obtain ⟨hx, hxs⟩ := List.cons_subset.mp hxs
      obtain ⟨sampledAt, hsampled, hrise⟩ := hobserved x hx
      have hone := committedGb_ge (estimate (e.works x)) (observed (e.works x)) (rise (e.works x) polledAt)
      have hsince : allocatedSince rise polledAt (e.works x) = max 0 (observed (e.works x) - rise (e.works x) polledAt) := by
        unfold allocatedSince
        rw [hsampled, Option.getD_some, hrise]
      rw [← hsince] at hone
      have hrest := ih hxs
      simp only [List.map_cons, List.sum_cons]
      linarith
  exact hsum _ (List.filter_subset_self _)

/-- What can be given out exceeds what the estimates leave, of what the tasks in flight do not use in the snapshot, by no
more than these tasks have allocated between the poll and their samples. -/
structure Within (M : Platform) (e : Executor α) (snapshot : ResourceSnapshot) (polledAt : ℚ) : Prop where
  memory : e.capacity.memoryFreeGb ≤ ((snapshot.memoryTotalGb - e.cfg.memoryHeadroomGb -
    (snapshot.memoryUsedGb - e.flightSum (fun _ => true) (M.memoryRise · polledAt)) -
      e.flightSum (fun _ => true) (·.estimate.memoryGb) +
        e.flightSum (fun _ => true) (allocatedSince M.memoryRise polledAt) : ℚ) : AdaptiveExecutor.Free)
  vram : ∀ g f, e.capacity.gpuFreeVramGb g = some f → ∃ gpu, snapshot.gpus.lookup g = some gpu ∧
    f ≤ ((gpu.vramTotalGb - e.cfg.vramHeadroomGb -
      (gpu.vramUsedGb - e.flightSum (fun x => (e.works x).assignedGpuId = some g) (M.vramRise · polledAt)) -
        e.flightSum (fun x => (e.works x).assignedGpuId = some g) (·.estimate.vramGb) +
          e.flightSum (fun x => (e.works x).assignedGpuId = some g) (allocatedSince M.vramRise polledAt) : ℚ) :
            AdaptiveExecutor.Free)

theorem AllWatched.within {snapshot : ResourceSnapshot} (hw : AllWatched M e) (hsnapshot : e.snapshot = some snapshot)
    (polledAt : ℚ) : Within M e snapshot polledAt := by
  constructor
  · have hcommitted := flightSum_committed (·.estimate.memoryGb) (·.observedMemoryGb) M.memoryRise e (fun _ => true)
      polledAt fun x hx => by
        obtain ⟨_, -, _, sampledAt, -, hwatched⟩ := hw x hx
        exact ⟨sampledAt, hwatched.sampled, hwatched.memory⟩
    have htotal : totalCommittedGb (e.inFlight.map fun id =>
        ((e.works id).estimate.memoryGb, (e.works id).observedMemoryGb)) =
        e.flightSum (fun _ => true) fun w => committedGb w.estimate.memoryGb w.observedMemoryGb := by
      simp [totalCommittedGb, flightSum, Function.comp_def]
    change e.memoryFree ≤ _
    unfold memoryFree
    rw [hsnapshot]
    dsimp only
    rw [WithTop.coe_le_coe, htotal]
    linarith
  · intro g f hfree
    have hcommitted := flightSum_committed (·.estimate.vramGb) (·.observedVramGb) M.vramRise e
      (fun x => (e.works x).assignedGpuId = some g) polledAt fun x hx => by
        obtain ⟨_, -, _, sampledAt, -, hwatched⟩ := hw x hx
        exact ⟨sampledAt, hwatched.sampled, hwatched.vram⟩
    have htotal : committedVramPerGpu (e.inFlight.map fun id =>
        ⟨(e.works id).assignedGpuId, (e.works id).estimate.vramGb, (e.works id).observedVramGb⟩) g =
        e.flightSum (fun x => (e.works x).assignedGpuId = some g) fun w =>
          committedGb w.estimate.vramGb w.observedVramGb := by
      unfold committedVramPerGpu flightSum
      rw [List.filter_map, List.map_map]
      rfl
    change e.gpuFree g = some f at hfree
    unfold gpuFree at hfree
    split_ifs at hfree
    rw [hsnapshot] at hfree
    obtain ⟨gpu, hgpu, rfl⟩ := Option.map_eq_some_iff.mp hfree
    refine ⟨gpu, hgpu, ?_⟩
    rw [WithTop.coe_le_coe, htotal]
    linarith

end Executor

/-! ## Runs on a machine -/

namespace System
open Executor (AllWatched Fresh Within)
variable {α : Type} {s s' : System α} {e : Event α} {M : Platform}

/-- The event is answered by the machine, if it is answered anything. -/
def OnPlatform (M : Platform) (s : System α) : Event α → Prop
  | .act _ env => M.Answers s.executor.clock env
  | .poll snapshot => snapshot = M.monitor.snapshot (M.readings s.executor.clock)
  | _ => True

/-- The last snapshot, if there is one, is what the monitor saw of the machine at some time. -/
def Polled (M : Platform) (e : Executor α) : Prop :=
  ∀ snapshot, e.snapshot = some snapshot → ∃ polledAt ≤ e.clock, snapshot = M.monitor.snapshot (M.readings polledAt)

theorem ProcessStep.pid {w : WorkerId} {p p' : WorkerProcess α} (h : ProcessStep w p p') : p'.pid = p.pid := by
  have hexit (q : WorkerProcess α) (code : Int) : (q.exit code).pid = q.pid := by
    unfold WorkerProcess.exit
    split_ifs <;> rfl
  cases h with
  | take | stop | put | lose => rfl
  | exit => exact hexit _ _

theorem modifyProcess_pid {executor : Executor α} {w : WorkerId} {p : WorkerProcess α}
    (hp : p.pid = (executor.slots w).process.pid) (v : WorkerId) :
    ((executor.modifyProcess w fun _ => p).slots v).process.pid = (executor.slots v).process.pid := by
  unfold Executor.modifyProcess
  rw [Executor.modifySlot_slots]
  split_ifs with hv
  · rw [hv]
    exact hp
  · rfl

theorem run_snapshot {env : Env} {executor executor' : Executor α} {sec : Section α} {body : List (Section α)}
    (h : executor.run env sec = some (executor', body)) : executor'.snapshot = executor.snapshot := by
  by_cases hsec : sec = .maybeDispatch
  · subst hsec
    obtain ⟨hok, -⟩ := Executor.run_maybeDispatch h
    rcases Executor.maybeDispatch_planned hok with ⟨-, rfl⟩ | ⟨-, rfl⟩ | ⟨hs, e₁, hhandling, -, rfl⟩
    · rfl
    · obtain ⟨-, _, _, _, _, hframe⟩ := Executor.prepare_frame executor
      rw [hframe]
    · obtain ⟨-, -, hsnapshot, -⟩ := hhandling.frame
      obtain ⟨_, _, hready, -⟩ := Executor.ready_frame env executor
      obtain ⟨_, _, _, _, hplanned, -⟩ := Executor.planned_frame env executor
      refine hsnapshot.trans ?_
      rw [hready, hplanned]
  · cases Executor.run_step h hsec with
    | failPendingFutures =>
      obtain ⟨futures, hframe⟩ := Executor.failPendingFutures_frame executor
      rw [hframe]
    | _ => rfl

theorem step_snapshot (h : s.step e = some s') : s'.executor.snapshot = s.executor.snapshot ∨
    ∃ snapshot, e = .poll snapshot ∧ s'.executor.snapshot = some snapshot := by
  cases e with
  | poll snapshot =>
    obtain rfl := Option.some.inj h
    exact .inr ⟨snapshot, rfl, rfl⟩
  | act t env =>
    simp only [step] at h
    split at h
    · cases h
    · obtain ⟨r, hrun, rfl⟩ := Option.map_eq_some_iff.mp h
      exact .inl (run_snapshot hrun)
  | submit id r reading =>
    simp only [step, Option.ite_none_right_eq_some, Option.some.injEq] at h
    obtain ⟨-, rfl⟩ := h
    unfold submit
    dsimp only
    split <;> exact .inl rfl
  | tick | start | append | cancel | workerTake | workerPut | workerLose | workerDie | round | call | deliver | contended
  | shutdown =>
    simp only [step] at h
    repeat' split at h
    all_goals cases h
    all_goals exact .inl rfl

/-- **An event on the machine** keeps watch of the tasks in flight. -/
theorem step_watched (h : s.step e = some s') (hon : OnPlatform M s e) (hreach : Reachable s)
    (hw : AllWatched M s.executor) (hpolled : Polled M s.executor) : AllWatched M s'.executor ∧ Polled M s'.executor := by
  obtain ⟨hs, -⟩ := hreach.sound
  obtain ⟨hroster, -⟩ := hreach.roster
  have hle := step_clock h
  constructor
  · cases step_stepped h with
    | outside | append | cancel | begin | contended | shutdown | again =>
      exact hw.of_same hle (List.Subset.refl _) (fun _ _ => rfl) le_rfl fun _ _ => rfl
    | submit work profiles _ hid =>
      refine hw.of_same hle (List.Subset.refl _) (fun x hx => ?_) le_rfl fun _ _ => rfl
      exact Function.update_of_ne (by rintro rfl; exact hs.not_flight_of_new hid hx) _ _
    | process hp =>
      exact hw.of_same hle (List.Subset.refl _) (fun _ _ => rfl) le_rfl fun v _ => modifyProcess_pid hp.pid v
    | @deliver t w i r _ hand hr =>
      exact hw.of_same hle (List.Subset.refl _) (fun _ _ => rfl) le_rfl fun v _ =>
        modifyProcess_pid (p := { (s.executor.slots w).process with
          resultQueue := (s.executor.slots w).process.resultQueue.eraseIdx i }) rfl v
    | @act t env sec rest r hand hrun =>
      by_cases hsec : sec = .maybeDispatch
      · subst hsec
        obtain ⟨hok, -⟩ := Executor.run_maybeDispatch hrun
        exact Executor.maybeDispatch_watched hs.queued_not_flight hon hw hok hs.pending hs.flight_nodup hroster
      · have hlands := Executor.run_lands hrun hsec hs.flight_nodup
        refine hw.of_same hle hlands.flight.subset (fun x hx => ?_) (Executor.run_thins hrun hsec hroster.nodup).next.ge
          fun v _ => (Executor.run_lasts hrun hsec v).pid
        exact hlands.works x hx fun howns => hs.not_mem_flight hand howns (hlands.flight.subset hx)
  · intro snapshot hsnapshot
    rcases step_snapshot h with hsame | ⟨polled, rfl, hsome⟩
    · obtain ⟨polledAt, hpoll, heq⟩ := hpolled snapshot (hsame ▸ hsnapshot)
      exact ⟨polledAt, hpoll.trans hle, heq⟩
    · obtain rfl := Option.some.inj (hsome.symm.trans hsnapshot)
      exact ⟨s.executor.clock, hle, hon⟩

section Run
variable {cfg : Config} {profiles : ProfileStore} (h : Relation.ReflTransGen (NextWhen (OnPlatform M)) (init cfg profiles) s)
include h

theorem run_watched : AllWatched M s.executor ∧ Polled M s.executor := by
  induction h with
  | refl => exact ⟨fun _ hx => (by cases hx), fun _ hsnapshot => by cases hsnapshot⟩
  | tail hrun hnext ih =>
    obtain ⟨e, hon, hstep⟩ := hnext
    exact step_watched hstep hon ⟨cfg, profiles, run_of_when hrun⟩ ih.1 ih.2

/-- **The observed usage is true**: in every run on a machine, with whatever crashes, retries and recycling, the observed
memory of a task in flight is what the RSS of its own worker has risen by from when the task was shipped until a later
time, and its observed VRAM what the process tree of that worker has risen by on the GPU of the worker. -/
theorem usage_watched {x : WorkId} (hx : x ∈ s.executor.inFlight) : ∃ w startedAt sampledAt,
    (s.executor.works x).workerId = some w ∧ (s.executor.works x).startedAt = some startedAt ∧
    startedAt ≤ sampledAt ∧ sampledAt ≤ s.executor.clock ∧
    (s.executor.works x).observedMemoryGb = risen (M.memoryGb startedAt (s.executor.slots w).process.pid)
      (M.memoryGb sampledAt (s.executor.slots w).process.pid) ∧
    (s.executor.works x).observedVramGb = match (s.executor.slots w).pinnedGpuId with
      | none => 0
      | some gpuId => risen (M.vramGb startedAt (s.executor.slots w).process.pid gpuId)
          (M.vramGb sampledAt (s.executor.slots w).process.pid gpuId) := by
  obtain ⟨w, -, startedAt, sampledAt, hworker, hwatched⟩ := (run_watched h).1 x hx
  have hreach : Reachable s := ⟨cfg, profiles, run_of_when h⟩
  have hpinned := (hreach.roster.2 x hx w hworker).2
  refine ⟨w, startedAt, sampledAt, hworker, hwatched.started, hwatched.order.1, hwatched.order.2, ?_, ?_⟩
  · rw [hwatched.memory, Platform.memoryRise, hwatched.started, hwatched.workerPid]
  · rw [hwatched.vram, Platform.vramRise, hwatched.started, hwatched.workerPid, hpinned]
    cases (s.executor.works x).assignedGpuId <;> rfl

/-- **What a plan can give out**: in every run on a machine, the free memory and the free VRAM of a plan exceed what the
estimates leave, of what the tasks in flight do not use in the snapshot, by no more than these tasks have allocated
between the poll and the samples; and no sample is older than the throttle allows. -/
theorem capacity_within {env : Env} {snapshot : ResourceSnapshot} (hanswers : M.Answers s.executor.clock env)
    (hsnapshot : s.executor.snapshot = some snapshot) : Fresh (s.executor.planned env) ∧
      ∃ polledAt ≤ s.executor.clock, snapshot = M.monitor.snapshot (M.readings polledAt) ∧
        Within M (s.executor.planned env) snapshot polledAt := by
  obtain ⟨hw, hpolled⟩ := run_watched h
  have hreach : Reachable s := ⟨cfg, profiles, run_of_when h⟩
  obtain ⟨hs, -⟩ := hreach.sound
  obtain ⟨hwatched, hfresh⟩ := Executor.planned_watched hs.queued_not_flight hanswers hw hs.flight_nodup
  obtain ⟨polledAt, hpoll, heq⟩ := hpolled snapshot hsnapshot
  obtain ⟨_, _, _, _, hframe, -⟩ := Executor.planned_frame env s.executor
  refine ⟨hfresh, polledAt, hpoll, heq, hwatched.within ?_ polledAt⟩
  rw [hframe]
  exact hsnapshot

end Run

/-- The run of events that depend on the state they happen in. -/
def playOn (s : System α) : List (System α → Event α) → Option (System α)
  | [] => some s
  | f :: fs => (s.step (f s)).bind fun s => playOn s fs

theorem playOn_run : ∀ {fs : List (System α → Event α)} {s s' : System α}, (∀ f ∈ fs, ∀ s, OnPlatform M s (f s)) →
    playOn s fs = some s' → Relation.ReflTransGen (NextWhen (OnPlatform M)) s s'
  | [], s, s', _, h => by
    obtain rfl := Option.some.inj h
    exact .refl
  | f :: fs, s, s', hfs, h => by
    obtain ⟨hf, hfs⟩ := List.forall_mem_cons.mp hfs
    obtain ⟨next, hnext, h⟩ := Option.bind_eq_some_iff.mp h
    exact .head ⟨f s, hf s, hnext⟩ (playOn_run hfs h)

/-- A machine with one GPU. The process 7 has 1 GB of memory at the time 0, and allocates 1 GB of memory and 1 GB of VRAM
in every second. -/
def growingPlatform : Platform where
  readings := fun t => oneGpuReadings (1000000000 * (1 + t)).floor.toNat (1000000000 * t).floor.toNat 0
  monitor := { gpuHandles := [(0, 0)] }

def growingEnv (t : ℚ) : Env where
  rssBytes := fun pid => ((growingPlatform.readings t).rss pid).map Int.ofNat
  processVramGb := growingPlatform.vramGb t
  spawnPid := fun _ => some 7
  kill := .terminated

theorem growingEnv_answers (t : ℚ) : growingPlatform.Answers t (growingEnv t) := ⟨fun _ => rfl, fun _ _ => rfl⟩

def oneGpuWorker : Config where
  maxWorkers := 1
  gpuIds := [0]

def gpuRequest : Executor.Request := { plainRequest with vramHint := some 4 }

/-- The monitor polls, a task that needs 4 GB of VRAM is shipped, and three seconds later another one is queued and waits. -/
def growingRun : List (System Unit → Event Unit) :=
  [fun s => .poll (growingPlatform.monitor.snapshot (growingPlatform.readings s.executor.clock)),
    fun _ => .submit "x" gpuRequest plainReading, fun _ => .append "x",
    fun _ => .call .dispatcher .maybeDispatch, fun s => .act .dispatcher (growingEnv s.executor.clock), fun _ => .tick 3,
    fun _ => .submit "y" gpuRequest plainReading, fun _ => .append "y",
    fun _ => .call .dispatcher .maybeDispatch, fun s => .act .dispatcher (growingEnv s.executor.clock)]

theorem growingRun_onPlatform : ∀ f ∈ growingRun, ∀ s, OnPlatform growingPlatform s (f s) := by
  unfold growingRun
  simp only [List.forall_mem_cons, List.not_mem_nil, OnPlatform, growingEnv_answers, implies_true, and_self, IsEmpty.forall_iff]

theorem usage_watched_growing : ∃ s : System Unit, (s.executor.works "x").observedMemoryGb = 3 ∧
    (s.executor.works "x").observedVramGb = 3 ∧ ∃ w startedAt sampledAt,
      (s.executor.works "x").workerId = some w ∧ (s.executor.works "x").startedAt = some startedAt ∧
      startedAt ≤ sampledAt ∧ sampledAt ≤ s.executor.clock ∧
      (s.executor.works "x").observedMemoryGb = risen (growingPlatform.memoryGb startedAt (s.executor.slots w).process.pid)
        (growingPlatform.memoryGb sampledAt (s.executor.slots w).process.pid) ∧
      (s.executor.works "x").observedVramGb = match (s.executor.slots w).pinnedGpuId with
        | none => 0
        | some gpuId => risen (growingPlatform.vramGb startedAt (s.executor.slots w).process.pid gpuId)
            (growingPlatform.vramGb sampledAt (s.executor.slots w).process.pid gpuId) := by
  have hfacts : (playOn (init oneGpuWorker {}) growingRun).any (fun s => decide ("x" ∈ s.executor.inFlight ∧
      (s.executor.works "x").observedMemoryGb = 3 ∧ (s.executor.works "x").observedVramGb = 3)) = true := by decide +kernel
  obtain ⟨s, hs, hfacts⟩ := (Option.any_eq_true _ _).mp hfacts
  obtain ⟨hflight, hmemory, hvram⟩ := of_decide_eq_true hfacts
  exact ⟨s, hmemory, hvram, usage_watched (playOn_run growingRun_onPlatform hs) hflight⟩

/-- The snapshot is three seconds old. -/
theorem capacity_within_growing : ∃ s : System Unit, s.executor.clock = 3 ∧
    Fresh (s.executor.planned (growingEnv 3)) ∧ ∃ polledAt ≤ s.executor.clock,
      growingPlatform.monitor.snapshot (growingPlatform.readings 0) =
        growingPlatform.monitor.snapshot (growingPlatform.readings polledAt) ∧
      Within growingPlatform (s.executor.planned (growingEnv 3))
        (growingPlatform.monitor.snapshot (growingPlatform.readings 0)) polledAt := by
  have hfacts : (playOn (init oneGpuWorker {}) growingRun).any (fun s => decide (s.executor.clock = 3 ∧
      s.executor.snapshot = some (growingPlatform.monitor.snapshot (growingPlatform.readings 0)))) = true := by decide +kernel
  obtain ⟨s, hs, hfacts⟩ := (Option.any_eq_true _ _).mp hfacts
  obtain ⟨hclock, hsnapshot⟩ := of_decide_eq_true hfacts
  refine ⟨s, hclock, capacity_within (playOn_run growingRun_onPlatform hs) ?_ hsnapshot⟩
  rw [hclock]
  exact growingEnv_answers 3

end System

end AdaptiveExecutor
