import AdaptiveExecutor.Executor.Estimates
import AdaptiveExecutor.Executor.Stall
import AdaptiveExecutor.Scheduling.Progress

/-!
# A dispatch cycle drives the machine

The machine of the scheduler is what the executor is between two dispatch cycles, and `_maybe_dispatch` is one cycle of
it: what the planner is told is read off the machine, and what is shipped is what the machine executes.

* `Executor.host`, `Executor.machine` : the machine of an executor;
* `planner_machine` : the plan of a cycle is the plan of the machine;
* `Ships` : tasks of the queue get into flight; `Ships.room`, `Ships.running` : so the machine starts them;
* `cycle_drives` : a cycle executes what it ships, and all of the plan when there is a worker for every decision and no
  future has been cancelled.
-/

namespace AdaptiveExecutor
open Backfill

def Machine.discard (ids : List String) (m : Machine) : Machine :=
  { m with pending := m.pending.filter fun task => task.id ∉ ids }

/-! ## Room -/

def emptyRoom (cfg : Config) (snapshot : Option ResourceSnapshot) : Room where
  memoryFree :=
    match snapshot with
    | none => ⊤
    | some snapshot => ((snapshot.memoryTotalGb - snapshot.memoryUsedGb - cfg.memoryHeadroomGb : ℚ) : Free)
  gpuFree := fun g =>
    if g ∈ cfg.gpuIds then
      match snapshot with
      | none => some ⊤
      | some snapshot => (snapshot.gpus.lookup g).map fun gpu =>
          ((gpu.vramTotalGb - gpu.vramUsedGb - cfg.vramHeadroomGb : ℚ) : Free)
    else none
  slots := 0

theorem coe_sub_free (x y : ℚ) : ((x - y : ℚ) : Free) = ((-y : ℚ) : Free) + (x : Free) := by
  rw [← WithTop.coe_add, neg_add_eq_sub]

theorem RunningTask.load_sum : ∀ os : List RunningTask, (os.map RunningTask.load).sum =
    ((os.map RunningTask.memoryGb).sum, (fun g => ((os.filter fun o => o.gpuId = some g).map RunningTask.vramGb).sum),
      (os.length : ℤ))
  | [] => rfl
  | o :: os => by
    rw [List.map_cons, List.sum_cons, RunningTask.load_sum os]
    refine Prod.ext rfl (Prod.ext (funext fun g => ?_) ?_)
    · change (if o.gpuId = some g then o.vramGb else 0) + ((os.filter fun o => o.gpuId = some g).map RunningTask.vramGb).sum =
        (((o :: os).filter fun o => o.gpuId = some g).map RunningTask.vramGb).sum
      by_cases hg : o.gpuId = some g
      · rw [if_pos hg, List.filter_cons_of_pos (by simpa using hg), List.map_cons, List.sum_cons]
      · rw [if_neg hg, List.filter_cons_of_neg (by simpa using hg), zero_add]
    · change (1 : ℤ) + os.length = (os.length + 1 : ℕ)
      push_cast
      ring

namespace Executor
variable {α : Type} {env : Env} {e e' : Executor α}

/-! ## The machine of an executor -/

def runningTask (e : Executor α) (id : WorkId) : RunningTask :=
  let w := e.works id
  { id := id
    memoryGb := committedGb w.estimate.memoryGb w.observedMemoryGb
    vramGb := committedGb w.estimate.vramGb w.observedVramGb
    gpuId := w.assignedGpuId
    exclusive := w.exclusive
    profileIdentity := w.profileIdentity
    startedAt := w.startedAt.getD 0
    expected := w.startedAt.bind fun _ => w.estimate.durationP90Seconds }

def host (e : Executor α) : Host := ⟨e.cfg.gpuIds, e.cfg.maxWorkers, e.snapshot.isSome⟩

def machine (e : Executor α) : Machine where
  memoryFreeGb := e.memoryFree
  gpuFreeVramGb := e.gpuFree
  nextGpuIndex := e.nextGpuIndex
  pending := e.pending.map e.pendingEntry
  running := e.inFlight.map e.runningTask

theorem runningTask_entry (e : Executor α) (now : ℚ) (id : WorkId) : (e.runningTask id).entry now = e.runningEntry now id := by
  unfold RunningTask.entry RunningTask.remaining runningTask runningEntry runningRemainingSeconds
  dsimp only
  cases (e.works id).startedAt <;> cases (e.works id).estimate.durationP90Seconds <;> rfl

theorem machine_capacity (e : Executor α) : e.machine.capacity e.host = e.capacity := by
  unfold Machine.capacity capacity machine host
  rw [List.length_map]

/-- What the planner is told of the executor is what it is told of the machine. -/
theorem machine_planner (e : Executor α) (now : ℚ) : e.machine.planner e.host now =
    Planner.init (e.pending.map e.pendingEntry) (e.inFlight.map (e.runningEntry now)) e.capacity := by
  have hrunning : e.machine.running.map (RunningTask.entry now) = e.inFlight.map (e.runningEntry now) := by
    unfold machine
    rw [List.map_map]
    exact List.map_congr_left fun id _ => e.runningTask_entry now id
  unfold Machine.planner
  rw [hrunning, machine_capacity]
  rfl

theorem planner_machine (env : Env) (e : Executor α) :
    e.planner env = ((e.planned env).machine.planner (e.planned env).host (e.planned env).clock).run := by
  rw [machine_planner]
  rfl

theorem machine_ids (e : Executor α) : e.machine.pending.map PendingEntry.id = e.pending := by
  unfold machine
  rw [List.map_map]
  exact List.map_id e.pending

theorem machine_valid (hnodup : e.pending.Nodup) : e.machine.Valid := by
  refine ⟨?_, fun task htask => ?_, fun o ho => ?_⟩
  · rwa [machine_ids]
  · obtain ⟨id, -, rfl⟩ := List.mem_map.mp htask
    exact ⟨(e.works id).estimate.memory_nonneg, (e.works id).estimate.vram_nonneg⟩
  · obtain ⟨id, -, rfl⟩ := List.mem_map.mp ho
    exact ⟨committedGb_nonneg _ _, committedGb_nonneg _ _⟩

/-! ## Its room -/

theorem committed_memory (e : Executor α) : totalCommittedGb (e.inFlight.map fun id =>
    ((e.works id).estimate.memoryGb, (e.works id).observedMemoryGb)) = (e.machine.running.map RunningTask.memoryGb).sum := by
  unfold totalCommittedGb machine
  rw [List.map_map, List.map_map]
  rfl

theorem committed_vram (e : Executor α) (g : GpuId) : committedVramPerGpu (e.inFlight.map fun id =>
    ⟨(e.works id).assignedGpuId, (e.works id).estimate.vramGb, (e.works id).observedVramGb⟩) g =
      ((e.machine.running.filter fun o => o.gpuId = some g).map RunningTask.vramGb).sum := by
  unfold committedVramPerGpu machine
  rw [List.filter_map, List.filter_map, List.map_map, List.map_map]
  rfl

/-- **The room of an executor** is what its snapshot leaves, less what the tasks in flight have committed. -/
theorem machine_room (e : Executor α) :
    e.machine.room = -(e.machine.running.map RunningTask.load).sum +ᵥ emptyRoom e.cfg e.snapshot := by
  rw [RunningTask.load_sum]
  refine Room.ext ?_ (fun g => ?_) ?_
  · change e.memoryFree = _
    unfold memoryFree
    rw [committed_memory]
    cases e.snapshot with
    | none => rfl
    | some snapshot => exact coe_sub_free _ _
  · change e.gpuFree g = _
    unfold gpuFree
    rw [committed_vram]
    rw [vadd_gpuFree]
    unfold emptyRoom
    dsimp only
    split_ifs
    · cases e.snapshot with
      | none => rfl
      | some snapshot =>
        dsimp only
        rw [Option.map_map]
        refine Option.map_congr fun gpu _ => ?_
        exact coe_sub_free _ _
    · rfl
  · change (e.machine.running.length : ℤ) = 0 - -(e.machine.running.length : ℤ)
    ring

/-- Once those that are due have given back what they hold, the others hold the rest. -/
theorem machine_project (e : Executor α) (t : WithTop ℚ) :
    project RunningTask.load RunningTask.expectedEnd e.machine.running e.machine.room t =
      -((e.machine.running.filter fun o => ¬ Backfill.Due o.expectedEnd t).map RunningTask.load).sum +ᵥ emptyRoom e.cfg e.snapshot := by
  have hsplit := (List.filter_append_perm (fun o => decide (Backfill.Due o.expectedEnd t)) e.machine.running).map RunningTask.load
  have hsum := hsplit.sum_eq
  rw [List.map_append, List.sum_append] at hsum
  have hnot : (e.machine.running.filter fun o => !decide (Backfill.Due o.expectedEnd t)) =
      e.machine.running.filter fun o => ¬ Backfill.Due o.expectedEnd t := List.filter_congr fun o _ => decide_not.symm
  rw [hnot] at hsum
  unfold project released
  rw [machine_room, vadd_vadd, ← hsum]
  rw [neg_add, add_neg_cancel_left]

/-! ## What gets into flight -/

/-- The decided tasks get into flight, as decided and at once, and the tasks that are there stay as they are. -/
structure Ships (e : Executor α) (ds : List DispatchDecision) (e' : Executor α) : Prop where
  cfg : e'.cfg = e.cfg
  snapshot : e'.snapshot = e.snapshot
  flight : e'.inFlight = e.inFlight ++ ds.map DispatchDecision.pendingId
  kept : ∀ x ∈ e.inFlight, e'.works x = e.works x
  started : ∀ d ∈ ds, e'.runningTask d.pendingId = (e.pendingEntry d.pendingId).start e.clock d.gpuId
  queued : ∀ d ∈ ds, d.pendingId ∈ e.pending

section Ships
variable {ds : List DispatchDecision} (h : Ships e ds e')
include h

theorem Ships.running : e'.machine.running =
    e.machine.running ++ ds.map fun d => (e.pendingEntry d.pendingId).start e.clock d.gpuId := by
  have hkept : e.inFlight.map e'.runningTask = e.inFlight.map e.runningTask := by
    refine List.map_congr_left fun x hx => ?_
    unfold runningTask
    rw [h.kept x hx]
  have hstarted : (ds.map DispatchDecision.pendingId).map e'.runningTask =
      ds.map fun d => (e.pendingEntry d.pendingId).start e.clock d.gpuId := by
    rw [List.map_map]
    exact List.map_congr_left fun d hd => h.started d hd
  unfold machine
  dsimp only
  rw [h.flight, List.map_append, hkept, hstarted]

theorem Ships.room : e'.machine.room =
    (ds.map fun d => (e.pendingEntry d.pendingId).start e.clock d.gpuId).foldl
      (fun r o => r.take o.memoryGb o.vramGb o.gpuId) e.machine.room := by
  rw [RunningTask.foldl_take, machine_room, machine_room, h.cfg, h.snapshot, h.running, List.map_append, List.sum_append,
    vadd_vadd, neg_add_rev]

theorem Ships.machine_started (hnodup : e.pending.Nodup) : e.machine.started e.clock ds =
    ds.map fun d => (e.pendingEntry d.pendingId).start e.clock d.gpuId := by
  have htask (d : DispatchDecision) (hd : d ∈ ds) :
      taskOf e.machine.pending d = some (e.pendingEntry d.pendingId) := by
    have hmem : e.pendingEntry d.pendingId ∈ e.machine.pending := List.mem_map_of_mem (h.queued d hd)
    exact taskOf_decision (a := ⟨e.pendingEntry d.pendingId, d.gpuId, none⟩) (by rwa [machine_ids]) hmem
  unfold Machine.started
  rw [← List.filterMap_eq_map]
  refine List.filterMap_congr fun d hd => ?_
  rw [htask d hd]
  rfl

/-- **What is shipped is what the machine executes**, when the queue has lost the shipped and the dropped tasks. -/
theorem Ships.execute (hnodup : e.pending.Nodup) {dropped : List WorkId} (hentry : e'.pendingEntry = e.pendingEntry)
    (hpending : e'.pending = e.pending.filter fun x => x ∉ ds.map DispatchDecision.pendingId ∧ x ∉ dropped) :
    e'.machine = (e.machine.execute e.clock ⟨ds, e'.nextGpuIndex⟩).discard dropped := by
  have hroom := h.room
  have hrunning := h.running
  rw [← h.machine_started hnodup] at hroom hrunning
  have hmemory := congrArg Room.memoryFree hroom
  have hgpu := congrArg Room.gpuFree hroom
  have hqueue : e'.machine.pending = (e.machine.pending.filter fun task =>
      task.id ∉ ds.map DispatchDecision.pendingId).filter fun task => task.id ∉ dropped := by
    unfold machine
    dsimp only
    rw [hentry, hpending, List.filter_map, List.filter_map, List.filter_filter]
    congr 1
    refine List.filter_congr fun x _ => ?_
    rw [Bool.decide_and, Bool.and_comm]
    rfl
  unfold Machine.execute Machine.discard
  dsimp only
  rw [← hmemory, ← hgpu, ← hrunning, ← hqueue]
  rfl

end Ships

/-! ## A dispatch cycle -/

theorem Handled.index {d : DispatchDecision} {fate : Fate} (h : Handled env e d fate e') :
    e'.nextGpuIndex = e.nextGpuIndex := by
  cases h with
  | left hacquire | dropped hacquire =>
    obtain ⟨_, _, _, _, rfl⟩ := acquireWorker_frame hacquire
    rfl
  | shipped hacquire hstarted =>
    obtain ⟨_, _, _, _, rfl⟩ := acquireWorker_frame hacquire
    rcases hstarted with ⟨-, rfl⟩ | ⟨-, -, rfl⟩ <;> rfl

theorem Handling.index {hs : List (DispatchDecision × Fate)} (h : Handling env e hs e') :
    e'.nextGpuIndex = e.nextGpuIndex := by
  induction h with
  | nil => rfl
  | cons h _ ih => exact ih.trans h.index

theorem pendingEntry_congr (hbasis : ∀ x, (e'.works x).basis = (e.works x).basis) (hprofiles : e'.profiles = e.profiles) :
    e'.pendingEntry = e.pendingEntry := by
  funext x
  have hsame := SameEstimate.of_basis (hbasis x)
  have hexclusive : (e'.works x).basis.exclusive = (e.works x).basis.exclusive := by rw [hbasis]
  change (e'.works x).exclusive = (e.works x).exclusive at hexclusive
  unfold pendingEntry identityOf
  dsimp only
  rw [hsame.estimate, hsame.memoryHint, hsame.vramHint, hsame.fnModule, hsame.fnName, hsame.profileKey, hexclusive,
    hprofiles]

def shippedDecisions (hs : List (DispatchDecision × Fate)) : List DispatchDecision := (hs.filter fun d => d.2.ships).map Prod.fst

def droppedIds (hs : List (DispatchDecision × Fate)) : List WorkId := fated (fun fate => decide (fate = .dropped)) hs

theorem mem_fated_iff {p : Fate → Bool} {hs : List (DispatchDecision × Fate)} {x : WorkId} :
    x ∈ fated p hs ↔ ∃ d ∈ hs, p d.2 = true ∧ d.1.pendingId = x := by
  unfold fated
  simp only [List.mem_map, List.mem_filter, and_assoc]

theorem shippedDecisions_ids (hs : List (DispatchDecision × Fate)) :
    (shippedDecisions hs).map DispatchDecision.pendingId = fated Fate.ships hs := by
  unfold shippedDecisions fated
  rw [List.map_map]
  rfl

theorem mem_fated_leaves {hs : List (DispatchDecision × Fate)} {x : WorkId} :
    x ∈ fated Fate.leaves hs ↔ x ∈ fated Fate.ships hs ∨ x ∈ droppedIds hs := by
  have hleaves (fate : Fate) : fate.leaves = true ↔ fate.ships = true ∨ decide (fate = .dropped) = true := by
    cases fate <;> simp [Fate.leaves, Fate.ships]
  unfold droppedIds
  simp only [mem_fated_iff, hleaves]
  constructor
  · rintro ⟨d, hd, hl | hl, hid⟩
    exacts [.inl ⟨d, hd, hl, hid⟩, .inr ⟨d, hd, hl, hid⟩]
  · rintro (⟨d, hd, hl, hid⟩ | ⟨d, hd, hl, hid⟩)
    exacts [⟨d, hd, .inl hl, hid⟩, ⟨d, hd, .inr hl, hid⟩]

section Cycle
variable {hs : List (DispatchDecision × Fate)} {e₁ : Executor α} (hhandling : Handling env (e.ready env) hs e₁)
  (hfst : hs.map Prod.fst = e.decisions env) (hnodup : e.pending.Nodup) (hqueued : ∀ x ∈ e.pending, x ∉ e.inFlight)
include hhandling

theorem handling_basis (x : WorkId) : (e₁.works x).basis = ((e.planned env).works x).basis := by
  obtain ⟨works, next, hready, hworks⟩ := ready_frame env e
  rw [hhandling.basis, hready]
  change (works x).basis = _
  rw [hworks]
  split_ifs <;> rfl

theorem handling_entry : e₁.pendingEntry = (e.planned env).pendingEntry := by
  refine pendingEntry_congr (handling_basis hhandling) ?_
  obtain ⟨works, next, hready, -⟩ := ready_frame env e
  rw [hhandling.frame.2.1, hready]

include hfst hnodup hqueued

theorem handling_ships : Ships (e.planned env) (shippedDecisions hs) e₁ := by
  obtain ⟨works, next, hready, hworks⟩ := ready_frame env e
  obtain ⟨hcfg, hprofiles, hsnapshot, hclock⟩ := hhandling.frame
  have hplanned : ((e.planned env).pending).Sublist e.pending := (planned_steps env [] hnodup).pending
  have hids : ((hs.map Prod.fst).map DispatchDecision.pendingId).Sublist e.pending := by
    rw [hfst]
    exact decisions_sublist env hnodup
  have hflying : (e.planned env).inFlight = e.inFlight := by
    obtain ⟨_, _, _, _, h, -⟩ := planned_frame env e
    rw [h]
  have hnew (d : DispatchDecision × Fate) (hd : d ∈ hs) : d.1.pendingId ∈ e.pending :=
    hids.subset (List.mem_map_of_mem (List.mem_map_of_mem hd))
  obtain ⟨hflight, hsame, hshipped⟩ := hhandling.flight (hnodup.sublist hids) fun d hd => by
    rw [ready_inFlight]
    exact hqueued _ (hnew d hd)
  have hdecided (d : DispatchDecision) (hd : d ∈ shippedDecisions hs) :
      d.pendingId ∈ (e.planned env).pending ∧ d.pendingId ∈ fated Fate.ships hs := by
    obtain ⟨d', hd', rfl⟩ := List.mem_map.mp hd
    have hmem := decisions_pending env e d'.1 (hfst ▸ List.mem_map_of_mem (List.mem_of_mem_filter hd'))
    rw [ready_pending] at hmem
    exact ⟨hmem, List.mem_map_of_mem hd'⟩
  refine ⟨?_, ?_, ?_, fun x hx => ?_, fun d hd => ?_, fun d hd => (hdecided d hd).1⟩
  · rw [hcfg, hready]
  · rw [hsnapshot, hready]
  · rw [hflight, ready_inFlight, hflying, shippedDecisions_ids]
  · rw [hflying] at hx
    have hout : x ∉ fated Fate.ships hs := fun hm => by
      obtain ⟨d, hd, -, rfl⟩ := mem_fated_iff.mp hm
      exact hqueued _ (hnew d hd) hx
    rw [hsame x hout, hready]
    change works x = _
    rw [hworks, if_neg fun hp => hqueued x (hplanned.subset hp) hx]
  · obtain ⟨hp, hfated⟩ := hdecided d hd
    have hstarted := hhandling.started (hnodup.sublist hids) hfated
    have hclock' : (e.ready env).clock = (e.planned env).clock := by rw [hready]
    obtain ⟨d, hd', rfl⟩ := List.mem_map.mp hd
    obtain ⟨hd, w, hw⟩ := fated_ships hd'
    have hdisp := hshipped d hd w hw
    have hidentity : (e₁.works d.1.pendingId).profileIdentity = some ((e.planned env).identityOf d.1.pendingId).1 := by
      rw [hdisp.profileIdentity, hready]
      change (works d.1.pendingId).profileIdentity = _
      rw [hworks, if_pos hp]
    have hbasis := handling_basis hhandling d.1.pendingId
    have hexclusive : (e₁.works d.1.pendingId).basis.exclusive = ((e.planned env).works d.1.pendingId).basis.exclusive := by
      rw [hbasis]
    change (e₁.works d.1.pendingId).exclusive = ((e.planned env).works d.1.pendingId).exclusive at hexclusive
    have hestimate := (SameEstimate.of_basis hbasis).estimate
    unfold runningTask pendingEntry PendingEntry.start
    dsimp only
    rw [hdisp.observedMemoryGb, hdisp.observedVramGb, hdisp.assignedGpuId, hidentity, hexclusive, hestimate, hstarted,
      committedGb_unobserved ((e.planned env).works d.1.pendingId).estimate.memory_nonneg,
      committedGb_unobserved ((e.planned env).works d.1.pendingId).estimate.vram_nonneg, hclock']
    rfl

/-- The loop over the decisions, as a cycle of the machine. -/
theorem handling_machine : ({ e₁ with pending := e₁.pending.filter fun id => id ∉ fated Fate.leaves hs } : Executor α).machine =
    ((e.planned env).machine.execute (e.planned env).clock
      ⟨shippedDecisions hs, (e.planner env).plan.nextGpuIndex⟩).discard (droppedIds hs) := by
  have hships := handling_ships hhandling hfst hnodup hqueued
  have hplanned : ((e.planned env).pending).Sublist e.pending := (planned_steps env [] hnodup).pending
  have hqueue : e₁.pending = (e.planned env).pending := by rw [hhandling.pending, ready_pending]
  have hindex : (e.planner env).plan.nextGpuIndex = e₁.nextGpuIndex := by
    rw [hhandling.index]
    rfl
  have hships' : Ships (e.planned env) (shippedDecisions hs)
      { e₁ with pending := e₁.pending.filter fun id => id ∉ fated Fate.leaves hs } :=
    ⟨hships.cfg, hships.snapshot, hships.flight, hships.kept, hships.started, hships.queued⟩
  rw [hindex]
  have hentry := handling_entry hhandling
  refine hships'.execute (hnodup.sublist hplanned) hentry ?_
  change e₁.pending.filter _ = _
  rw [hqueue, shippedDecisions_ids]
  refine List.filter_congr fun x _ => ?_
  rw [decide_eq_decide, mem_fated_leaves, not_or]

end Cycle

/-- **A dispatch cycle is a cycle of the machine**: the decisions of its plan that get a worker are executed, and the
tasks that turn out to be cancelled leave the queue. -/
theorem maybeDispatch_drives (h : e.maybeDispatch env = .ok e') (hnodup : e.pending.Nodup)
    (hqueued : ∀ x ∈ e.pending, x ∉ e.inFlight) (hplan : e.prepare.pending ≠ []) :
    ∃ hs e₁, Handling env (e.ready env) hs e₁ ∧ hs.map Prod.fst = (e.planner env).plan.decisions ∧
      e' = { e₁ with pending := e₁.pending.filter fun id => id ∉ fated Fate.leaves hs } ∧
      e'.machine = ((e.planned env).machine.execute (e.planned env).clock
        ⟨shippedDecisions hs, (e.planner env).plan.nextGpuIndex⟩).discard (droppedIds hs) := by
  rcases maybeDispatch_planned h with ⟨hempty, -⟩ | ⟨hswept, -⟩ | ⟨hs, e₁, hhandling, hfst, rfl⟩
  · have hnone := (prepare_steps env [] hnodup).pending
    rw [hempty] at hnone
    exact absurd (List.sublist_nil.mp hnone) hplan
  · exact absurd hswept hplan
  · exact ⟨hs, e₁, hhandling, hfst, rfl, handling_machine hhandling hfst hnodup hqueued⟩

/-- The cycle of the machine that a dispatch cycle is. -/
def machineCycle (env : Env) (e : Executor α) : Cycle := ((e.planned env).clock, (e.planned env).machine)

/-- Where a decision leaves its task: in flight, or dropped as cancelled, or still queued. -/
def Fares (e' : Executor α) (d : DispatchDecision) : Fate → Prop
  | .shipped w => d.pendingId ∈ e'.inFlight ∧ (e'.works d.pendingId).workerId = some w
  | .dropped => d.pendingId ∉ e'.inFlight ∧ e'.futures d.pendingId = .cancelledAndNotified
  | .left => d.pendingId ∉ e'.inFlight ∧ d.pendingId ∈ e'.pending

theorem handling_fares {hs : List (DispatchDecision × Fate)} {e₁ : Executor α} (hhandling : Handling env (e.ready env) hs e₁)
    (hfst : hs.map Prod.fst = e.decisions env) (hnodup : e.pending.Nodup) (hqueued : ∀ x ∈ e.pending, x ∉ e.inFlight) :
    ∀ d ∈ hs, Fares ({ e₁ with pending := e₁.pending.filter fun id => id ∉ fated Fate.leaves hs } : Executor α) d.1 d.2 := by
  intro d hd
  have hsub := decisions_sublist env hnodup
  rw [← hfst] at hsub
  have hids := hnodup.sublist hsub
  have hnew (d : DispatchDecision × Fate) (hd : d ∈ hs) : d.1.pendingId ∉ (e.ready env).inFlight := by
    rw [ready_inFlight]
    exact hqueued _ (hsub.subset (List.mem_map_of_mem (List.mem_map_of_mem hd)))
  obtain ⟨hflight, -, hdispatched⟩ := hhandling.flight hids hnew
  have hout (hships : d.2.ships = false) : d.1.pendingId ∉ e₁.inFlight := by
    rw [hflight, List.mem_append, not_or]
    refine ⟨hnew d hd, fun hm => ?_⟩
    rw [fated_unique hids hd hm] at hships
    cases hships
  cases hfate : d.2 with
  | left =>
    refine ⟨hout (by rw [hfate]; rfl), List.mem_filter.mpr ⟨?_, decide_eq_true fun hm => ?_⟩⟩
    · rw [hhandling.pending]
      exact decisions_pending env e d.1 (hfst ▸ List.mem_map_of_mem hd)
    · have hleaves := fated_unique hids hd hm
      rw [hfate] at hleaves
      cases hleaves
  | dropped => exact ⟨hout (by rw [hfate]; rfl), hhandling.dropped hids d hd hfate⟩
  | shipped w =>
    refine ⟨?_, (hdispatched d hd w hfate).workerId⟩
    change d.1.pendingId ∈ e₁.inFlight
    rw [hflight]
    exact List.mem_append_right _ (mem_fated hd (by rw [hfate]; rfl))

theorem Fares.ships {d : DispatchDecision} {fate : Fate} (h : Fares e' d fate) (hx : d.pendingId ∈ e'.inFlight) :
    fate.ships = true := by
  cases fate with
  | left | dropped => exact absurd hx h.1
  | shipped w => rfl

end Executor

/-! ## Runs -/

namespace System
open Executor
variable {α : Type} {s : System α} {env : Env} {e' : Executor α}

/-- **Every dispatch cycle of a run is a cycle of the machine**, from the machine that the refreshed estimates and
observations leave. The decisions that get a worker are executed, those without one stay queued, and cancelled tasks
leave the queue. When all are shipped, the cycle is exactly `Machine.dispatch`. -/
theorem cycle_drives (h : Reachable s) (hok : s.executor.maybeDispatch env = .ok e') (hplan : s.executor.prepare.pending ≠ []) :
    let host := (s.executor.planned env).host
    let c := s.executor.machineCycle env
    let plan := (c.planner host).run.plan
    c.2.Valid ∧ ∃ hs : List (DispatchDecision × Fate), hs.map Prod.fst = plan.decisions ∧ (∀ d ∈ hs, Fares e' d.1 d.2) ∧
      e'.machine = (c.2.execute c.1 ⟨shippedDecisions hs, plan.nextGpuIndex⟩).discard (droppedIds hs) ∧
      ((∀ d ∈ plan.decisions, d.pendingId ∈ e'.inFlight) → e'.machine = c.2.dispatch host c.1) := by
  obtain ⟨hsound, -⟩ := h.sound
  have hnodup := hsound.pending
  have hqueued := hsound.queued_not_flight
  obtain ⟨hs, e₁, hhandling, hfst, rfl, hmachine⟩ := maybeDispatch_drives hok hnodup hqueued hplan
  have hfares := handling_fares hhandling hfst hnodup hqueued
  rw [planner_machine] at hfst hmachine
  refine ⟨machine_valid (hnodup.sublist (planned_steps env [] hnodup).pending), hs, hfst, hfares, hmachine, fun hall => ?_⟩
  have hships (d : DispatchDecision × Fate) (hd : d ∈ hs) : d.2.ships = true :=
    (hfares d hd).ships (hall d.1 (hfst ▸ List.mem_map_of_mem hd))
  have hshipped : shippedDecisions hs = hs.map Prod.fst := by
    unfold shippedDecisions
    rw [List.filter_eq_self.mpr hships]
  have hdropped : droppedIds hs = [] := by
    refine List.map_eq_nil_iff.mpr (List.filter_eq_nil_iff.mpr fun d hd hfate => ?_)
    have hd := hships d hd
    rw [of_decide_eq_true hfate] at hd
    cases hd
  rw [hmachine, hshipped, hfst, hdropped]
  unfold Machine.discard Machine.dispatch
  rw [List.filter_eq_self.mpr fun task _ => decide_eq_true List.not_mem_nil]
  rfl

/-- **What a cycle promises a blocked head**: when the whole plan is shipped and leaves the head blocked with a
reservation, the head is first in the queue, nothing exclusive is in flight, and it fits into what the snapshot leaves
once all that is expected to be over by then has given back what it has committed. -/
theorem cycle_promises (h : Reachable s) (hok : s.executor.maybeDispatch env = .ok e') (hplan : s.executor.prepare.pending ≠ [])
    (hall : ∀ x ∈ s.executor.decided env, x ∈ e'.inFlight) {head : WorkId} {r deadline : ℚ}
    (hblocked : (s.executor.machineCycle env).Blocked (s.executor.planned env).host ((s.executor.planned env).pendingEntry head))
    (hr : ((s.executor.machineCycle env).planner (s.executor.planned env).host).front.1.reservation
      ((s.executor.planned env).pendingEntry head) = r)
    (hle : (s.executor.planned env).clock + r ≤ deadline) :
    e'.pending.head? = some head ∧ (∀ x ∈ e'.inFlight, (e'.works x).exclusive = false) ∧
      e'.capacity.Admits ((s.executor.planned env).pendingEntry head)
        (-((e'.machine.running.filter fun o => ¬ Due o.expectedEnd (deadline : WithTop ℚ)).map RunningTask.load).sum +ᵥ
          emptyRoom e'.cfg e'.snapshot) := by
  obtain ⟨hvalid, -, -, -, -, hdispatch⟩ := cycle_drives h hok hplan
  have hmachine := hdispatch fun d hd => by
    refine hall _ ?_
    rw [← decisions_ids, decisions_eq, planner_machine]
    exact List.mem_map_of_mem hd
  obtain ⟨-, ⟨rest, hfirst⟩, halone, hfits⟩ := promised_dispatch hvalid hblocked hr hle
  change e'.machine = (s.executor.machineCycle env).2.dispatch (s.executor.planned env).host (s.executor.planned env).clock
    at hmachine
  rw [← hmachine] at hfirst halone hfits
  refine ⟨?_, fun x hx => ?_, ?_⟩
  · have hids := congrArg (List.map PendingEntry.id) hfirst
    rw [machine_ids] at hids
    rw [hids]
    rfl
  · exact halone (e'.runningTask x) (List.mem_map_of_mem hx)
  · have hhost : e'.host = (s.executor.planned env).host := by
      obtain ⟨hsound, -⟩ := h.sound
      obtain ⟨_, -, hcfg, hsnapshot, -⟩ := maybeDispatch_flight hok hsound.pending hsound.queued_not_flight
      obtain ⟨_, _, _, _, hplanned, -⟩ := planned_frame env s.executor
      unfold Executor.host
      rw [hcfg, hsnapshot, hplanned]
    rw [← machine_project, ← machine_capacity, hhost]
    exact Machine.admits_capacity _ _ hfits

/-! ## A run -/

/-- The cycle ships both short tasks, one of them past the head of the queue. -/
theorem cycle_drives_behind : ∃ s : System Unit, s.executor.pending = ["x", "y", "z", "w"] ∧
    ∃ e', s.executor.maybeDispatch plainEnv = .ok e' ∧ e'.inFlight = ["x", "w"] ∧
      e'.machine = (s.executor.machineCycle plainEnv).2.dispatch (s.executor.planned plainEnv).host 0 := by
  have hfacts : ((init twoWorkers tenSeconds : System Unit).play queueFour).any (fun s =>
      (s.executor.maybeDispatch plainEnv).toOption.any fun e' => decide (
        s.executor.pending = ["x", "y", "z", "w"] ∧ s.executor.prepare.pending ≠ [] ∧
          (s.executor.machineCycle plainEnv).1 = 0 ∧ e'.inFlight = ["x", "w"] ∧
          ∀ d ∈ ((s.executor.machineCycle plainEnv).planner (s.executor.planned plainEnv).host).run.plan.decisions,
            d.pendingId ∈ e'.inFlight)) = true := by
    decide +kernel
  obtain ⟨s, hplay, hfacts⟩ := (Option.any_eq_true _ _).mp hfacts
  obtain ⟨e', he', hfacts⟩ := (Option.any_eq_true _ _).mp hfacts
  obtain ⟨hpending, hplan, hclock, hflight, hall⟩ := of_decide_eq_true hfacts
  obtain ⟨-, -, -, -, -, hdispatch⟩ := cycle_drives (play_reachable hplay) (of_toOption he') hplan
  exact ⟨s, hpending, e', of_toOption he', hflight, by rw [hdispatch hall, hclock]⟩

/-- The head has its place ten seconds later. -/
theorem cycle_promises_behind : ∃ e' : Executor Unit, e'.inFlight = ["x", "w"] ∧ e'.pending.head? = some "y" ∧
    (∀ x ∈ e'.inFlight, (e'.works x).exclusive = false) ∧ ∃ head : PendingEntry, head.id = "y" ∧
      e'.capacity.Admits head
        (-((e'.machine.running.filter fun o => ¬ Due o.expectedEnd ((10 : ℚ) : WithTop ℚ)).map RunningTask.load).sum +ᵥ
          emptyRoom e'.cfg e'.snapshot) := by
  have hfacts : ((init twoWorkers tenSeconds : System Unit).play queueFour).any (fun s =>
      let p := (s.executor.machineCycle plainEnv).planner (s.executor.planned plainEnv).host
      let head := (s.executor.planned plainEnv).pendingEntry "y"
      (s.executor.maybeDispatch plainEnv).toOption.any fun e' => decide (
        s.executor.prepare.pending ≠ [] ∧ (∀ x ∈ s.executor.decided plainEnv, x ∈ e'.inFlight) ∧
          (s.executor.planned plainEnv).clock + 10 ≤ 10 ∧ p.front.1.reservation head = ((10 : ℚ) : WithTop ℚ) ∧
          p.front.2 = true ∧ p.front.1.queue.head? = some head ∧ p.front.1.canaryBlocked head = false ∧
          e'.inFlight = ["x", "w"])) = true := by
    decide +kernel
  obtain ⟨s, hplay, hfacts⟩ := (Option.any_eq_true _ _).mp hfacts
  obtain ⟨e', he', hfacts⟩ := (Option.any_eq_true _ _).mp hfacts
  obtain ⟨hplan, hall, hle, hr, hstopped, hfirst, hcanary, hflight⟩ := of_decide_eq_true hfacts
  obtain ⟨hhead, halone, hfits⟩ := cycle_promises (play_reachable hplay) (of_toOption he') hplan hall
    ⟨hstopped, hfirst, hcanary⟩ hr hle
  exact ⟨e', hflight, hhead, halone, _, rfl, hfits⟩

end System

end AdaptiveExecutor
