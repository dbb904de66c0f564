import Mathlib.Data.List.Count
import AdaptiveExecutor.Executor.Roster
import AdaptiveExecutor.Executor.Spawn

/-!
# How many tasks a cycle can ship

* `supply` : the idle workers and the room in the pool;
* `acquireWorker_supply`, `Handled.supply` : a decision gets a worker while there is one, and only a task that is
  shipped keeps it;
* `Handling.ships` : the loop ships the first decisions on tasks that are not cancelled, as many as there are workers;
* `shipments`, `maybeDispatch_shipments` : so does the whole cycle.
-/

namespace AdaptiveExecutor
open Ledger (Future Tidy)

namespace Executor
variable {α : Type} {env : Env} {e e' : Executor α} {accepted held : List WorkId} {gpuId : Option GpuId} {w : WorkerId}

/-- The workers that a cycle can give work to: the idle ones, and those for which there is room in the pool. -/
def supply (e : Executor α) : Nat := e.workers.countP e.idle + (e.cfg.maxWorkers - e.workers.length).toNat

/-! ## A worker for a decision -/

theorem idle_of_slot (h : e'.slots w = e.slots w) : e'.idle w = e.idle w := by
  unfold idle
  rw [h]

theorem countP_erase_idle (hnodup : e.workers.Nodup) (hw : w ∈ e.workers) (hidle : e.idle w = true)
    (hsame : ∀ x, x ≠ w → e'.slots x = e.slots x) :
    (e.workers.erase w).countP e'.idle + 1 = e.workers.countP e.idle := by
  rw [(List.perm_cons_erase hw).countP_eq e.idle, List.countP_cons_of_pos hidle]
  refine congrArg (· + 1) (List.countP_congr fun x hx => ?_)
  rw [idle_of_slot (hsame x fun he => hnodup.not_mem_erase (he ▸ hx))]

theorem spawned_supply (hfresh : e.nextWorkerId ∉ e.workers) (pid : Int) (gpuId : Option GpuId) :
    (e.spawned pid gpuId).workers.countP (e.spawned pid gpuId).idle = e.workers.countP e.idle + 1 ∧
      (e.spawned pid gpuId).workers.length = e.workers.length + 1 := by
  have hworkers : (e.spawned pid gpuId).workers = e.workers ++ [e.nextWorkerId] := insertKey_of_not_mem hfresh
  rw [hworkers, List.countP_append, List.length_append]
  refine ⟨congrArg₂ (· + ·) (List.countP_congr fun x hx => ?_) ?_, rfl⟩
  · have hslot : (e.spawned pid gpuId).slots x = e.slots x :=
      Function.update_of_ne (fun he : x = e.nextWorkerId => hfresh (he ▸ hx)) _ _
    rw [idle_of_slot hslot]
  · rw [List.countP_singleton, if_pos (spawned_idle e pid gpuId)]

/-- **A decision gets a worker while there is one**, and the worker is still idle then. -/
theorem acquireWorker_supply {o : Option WorkerId} (h : e.acquireWorker env gpuId = .ok (e', o)) (hroster : Roster e) :
    e'.supply = e.supply ∧ (o = none ↔ e.supply = 0) := by
  have found {w : WorkerId} (hw : w ∈ e.workers) (hidle : e.idle w = true) : e.supply ≠ 0 := by
    have hpos : 0 < e.workers.countP e.idle := List.countP_pos_iff.mpr ⟨w, hw, hidle⟩
    unfold supply
    omega
  unfold acquireWorker at h
  split at h
  · rename_i w hw
    obtain ⟨rfl, rfl⟩ := Prod.mk.inj (Except.ok.inj h)
    have hidle := List.find?_some hw
    rw [Bool.and_eq_true] at hidle
    exact ⟨rfl, iff_of_false (fun ho => by cases ho) (found (List.mem_of_find?_eq_some hw) hidle.2)⟩
  split_ifs at h with hfull
  · split at h
    · rename_i hnone
      obtain ⟨rfl, rfl⟩ := Prod.mk.inj (Except.ok.inj h)
      refine ⟨rfl, iff_of_true rfl ?_⟩
      have hcount : e.workers.countP e.idle = 0 := List.countP_eq_zero.mpr (List.find?_eq_none.mp hnone)
      unfold supply
      omega
    · rename_i victim hvictim
      have hmem := List.mem_of_find?_eq_some hvictim
      have hidle := List.find?_some hvictim
      cases hv : (e.retireWorker victim).spawnWorker env gpuId with
      | error => rw [hv] at h; cases h
      | ok v =>
        rw [hv] at h
        obtain ⟨rfl, rfl⟩ := Prod.mk.inj (Except.ok.inj h)
        obtain ⟨pid, hs, -⟩ := spawnWorker_ok hv
        -- the new worker takes the place of the one that is evicted
        have hfresh : (e.retireWorker victim).nextWorkerId ∉ (e.retireWorker victim).workers := fun hm =>
          (hroster.spawned _ (List.mem_of_mem_erase hm)).ne rfl
        obtain ⟨hcount, hlength⟩ := spawned_supply hfresh pid gpuId
        have hretire : (e.retireWorker victim).workers.countP (e.retireWorker victim).idle + 1 =
            e.workers.countP e.idle :=
          countP_erase_idle hroster.nodup hmem hidle fun x hx => Function.update_of_ne hx _ _
        have hlength' : (e.retireWorker victim).workers.length = e.workers.length - 1 := List.length_erase_of_mem hmem
        have hpos := List.length_pos_of_mem hmem
        refine ⟨?_, iff_of_false (fun ho => by cases ho) (found hmem hidle)⟩
        rw [hs, supply, supply, hcount, hretire, hlength, hlength', Nat.sub_add_cancel hpos]
        rfl
  · cases hv : e.spawnWorker env gpuId with
    | error => rw [hv] at h; cases h
    | ok v =>
      rw [hv] at h
      obtain ⟨rfl, rfl⟩ := Prod.mk.inj (Except.ok.inj h)
      obtain ⟨pid, hs, -⟩ := spawnWorker_ok hv
      obtain ⟨hcount, hlength⟩ := spawned_supply (fun hm => (hroster.spawned _ hm).ne rfl) pid gpuId
      refine ⟨?_, iff_of_false (fun ho => by cases ho) ?_⟩
      · rw [hs, supply, supply, hcount, hlength]
        change _ + (e.cfg.maxWorkers - _).toNat = _
        omega
      · unfold supply
        omega

theorem ship_supply (hnodup : e.workers.Nodup) (id : WorkId) (hw : w ∈ e.workers) (hidle : e.idle w = true) :
    (e.ship env id gpuId w).supply + 1 = e.supply := by
  obtain ⟨item, -, hslots⟩ := ship_slots env e id gpuId w
  have hbusy : (e.ship env id gpuId w).idle w = false := by
    unfold idle
    rw [hslots, if_pos rfl]
    rfl
  have hcount : (e.workers.erase w).countP (e.ship env id gpuId w).idle + 1 = e.workers.countP e.idle :=
    countP_erase_idle hnodup hw hidle fun x hx => by rw [hslots, if_neg hx]
  have hship : (e.ship env id gpuId w).workers.countP (e.ship env id gpuId w).idle =
      (e.workers.erase w).countP (e.ship env id gpuId w).idle := by
    change e.workers.countP _ = _
    rw [(List.perm_cons_erase hw).countP_eq, List.countP_cons_of_neg (by rw [hbusy]; exact Bool.false_ne_true)]
  rw [supply, supply, hship, ← hcount]
  change _ + (e.cfg.maxWorkers - e.workers.length).toNat + 1 = _
  omega

theorem Handled.supply {d : DispatchDecision} {fate : Fate} (h : Handled env e d fate e') (hroster : Roster e) :
    (fate = .left ↔ e.supply = 0) ∧ e'.supply + (if fate.ships then 1 else 0) = e.supply := by
  cases h with
  | left hacquire =>
    obtain ⟨hsame, hnone⟩ := acquireWorker_supply hacquire hroster
    exact ⟨iff_of_true rfl (hnone.mp rfl), hsame⟩
  | dropped hacquire =>
    obtain ⟨hsame, hnone⟩ := acquireWorker_supply hacquire hroster
    exact ⟨iff_of_false (fun h => by cases h) fun h => (by cases hnone.mpr h), hsame⟩
  | @shipped e₁ e₂ w hacquire hstarted =>
    obtain ⟨hsame, hnone⟩ := acquireWorker_supply hacquire hroster
    obtain ⟨hw, hidle⟩ := (acquireWorker_steps [] hacquire).2.2 w rfl
    obtain ⟨hstaffs, -⟩ := acquireWorker_staffs hacquire hroster
    refine ⟨iff_of_false (fun h => by cases h) fun h => (by cases hnone.mpr h), ?_⟩
    change _ + 1 = _
    rw [← hsame]
    rcases hstarted with ⟨-, rfl⟩ | ⟨-, -, rfl⟩
    · exact ship_supply (hstaffs.roster hroster).nodup _ hw hidle
    · exact ship_supply (e := e₁.start d.pendingId) (hstaffs.roster hroster).nodup _ hw hidle

/-! ## The loop over the decisions -/

/-- With a worker there, a task is dropped when it is cancelled, and else it is shipped. -/
theorem Handled.ships_eq {d : DispatchDecision} {fate : Fate} (h : Handled env e d fate e') (hleft : fate ≠ .left)
    (hnew : (e.futures d.pendingId).isCancelled = true → (e.works d.pendingId).runningNotified = false) :
    fate.ships = !(e.futures d.pendingId).isCancelled := by
  cases h with
  | left => exact absurd rfl hleft
  | dropped hacquire _ hf =>
    obtain ⟨_, _, _, _, rfl⟩ := acquireWorker_frame hacquire
    have hf : e.futures d.pendingId = .cancelled := hf
    rw [hf]
    rfl
  | shipped hacquire hstarted =>
    obtain ⟨_, _, _, _, rfl⟩ := acquireWorker_frame hacquire
    cases hcancelled : (e.futures d.pendingId).isCancelled with
    | false => rfl
    | true =>
      rcases hstarted with ⟨hnotified, -⟩ | ⟨-, hf, -⟩
      · have hnotified : (e.works d.pendingId).runningNotified = true := hnotified
        rw [hnew hcancelled] at hnotified
        cases hnotified
      · have hf : e.futures d.pendingId = .pending := hf
        rw [hf] at hcancelled
        cases hcancelled

/-- **The loop ships the first decisions** on tasks that are not cancelled, as many as there are workers. -/
theorem Handling.ships {hs : List (DispatchDecision × Fate)} (h : Handling env e hs e') (hroster : Roster e)
    (hnodup : ((hs.map Prod.fst).map DispatchDecision.pendingId).Nodup)
    (hnew : ∀ d ∈ hs, (e.futures d.1.pendingId).isCancelled = true → (e.works d.1.pendingId).runningNotified = false) :
    (hs.filter fun d => d.2.ships).map Prod.fst =
      ((hs.map Prod.fst).filter fun d => !(e.futures d.pendingId).isCancelled).take e.supply := by
  induction h with
  | nil => exact List.take_nil.symm
  | @cons e e₁ e' d fate ds h _ ih =>
    rw [List.map_cons, List.map_cons, List.nodup_cons] at hnodup
    obtain ⟨hd, hnodup⟩ := hnodup
    obtain ⟨hdnew, hnew⟩ := List.forall_mem_cons.mp hnew
    obtain ⟨hleft, hsupply⟩ := h.supply hroster
    obtain ⟨hstaffs, -⟩ := h.staffs hroster
    have hapart (d' : DispatchDecision) (hd' : d' ∈ ds.map Prod.fst) :=
      h.apart d'.pendingId fun he => hd (he ▸ List.mem_map_of_mem hd')
    have hrest := ih (hstaffs.roster hroster) hnodup fun d' hd' => by
      obtain ⟨hworks, hfutures⟩ := hapart d'.1 (List.mem_map_of_mem hd')
      rw [hworks, hfutures]
      exact hnew d' hd'
    have hsame : ((ds.map Prod.fst).filter fun d => !(e₁.futures d.pendingId).isCancelled) =
        (ds.map Prod.fst).filter fun d => !(e.futures d.pendingId).isCancelled :=
      List.filter_congr fun d' hd' => by rw [(hapart d' hd').2]
    rw [hsame] at hrest
    by_cases hfate : fate = .left
    · -- there is no worker, now or later
      have hzero : e₁.supply = 0 := by
        have hnone := hleft.mp hfate
        omega
      rw [hzero, List.take_zero] at hrest
      rw [hleft.mp hfate, List.take_zero, List.filter_cons_of_neg (by rw [hfate]; exact Bool.false_ne_true)]
      exact hrest
    · have hships := h.ships_eq hfate hdnew
      rw [List.map_cons, List.filter_cons, List.filter_cons, ← hsupply]
      dsimp only
      rw [← hships]
      cases fate.ships with
      | false => exact hrest
      | true => exact congrArg (d :: ·) hrest

/-! ## The whole cycle -/

/-- The tasks that are in flight after a cycle and were not before, with their GPUs. -/
def shipments (before after : Executor α) : List DispatchDecision :=
  (after.inFlight.filter fun x => x ∉ before.inFlight).map fun x => ⟨x, (after.works x).assignedGpuId⟩

theorem Handling.shipments {hs : List (DispatchDecision × Fate)} (h : Handling env e hs e')
    (hnodup : ((hs.map Prod.fst).map DispatchDecision.pendingId).Nodup)
    (hnew : ∀ d ∈ hs, d.1.pendingId ∉ e.inFlight) :
    Executor.shipments e e' = (hs.filter fun d => d.2.ships).map Prod.fst := by
  obtain ⟨hflight, -, hshipped⟩ := h.flight hnodup hnew
  have hold : (e.inFlight.filter fun x => decide (x ∉ e.inFlight)) = [] :=
    List.filter_eq_nil_iff.mpr fun x hx => by simpa using hx
  have hadded : ((fated Fate.ships hs).filter fun x => decide (x ∉ e.inFlight)) = fated Fate.ships hs :=
    List.filter_eq_self.mpr fun x hx => by
      obtain ⟨d, hd, rfl, -⟩ := of_fated_ships hx
      simpa using hnew d hd
  rw [Executor.shipments, hflight, List.filter_append, hold, List.nil_append, hadded, fated, List.map_map]
  refine List.map_congr_left fun d hd => ?_
  obtain ⟨hd, hships⟩ := List.mem_filter.mp hd
  cases hfate : d.2 with
  | left => rw [hfate] at hships; cases hships
  | dropped => rw [hfate] at hships; cases hships
  | shipped w =>
    change DispatchDecision.mk d.1.pendingId (e'.works d.1.pendingId).assignedGpuId = d.1
    rw [(hshipped d hd w hfate).assignedGpuId]

theorem planned_futures (env : Env) {x : WorkId} (hx : x ∈ (e.planned env).pending) :
    (e.planned env).futures x = e.futures x := by
  obtain ⟨_, works, profiles, hreestimate⟩ := reestimatePending_frame e e.clock
  obtain ⟨works', hplanned, -⟩ := refreshObservations_frame env e.prepare e.prepare.clock
  obtain ⟨hkept, hsame, -⟩ := sweepInfeasible_spec (e.reestimatePending e.clock).snapshot
    (e.reestimatePending e.clock).pending (e.reestimatePending e.clock)
  have hfutures : (e.reestimatePending e.clock).futures = e.futures := by rw [hreestimate]
  rw [planned, hplanned] at hx ⊢
  have hx : x ∈ (sweepInfeasible (e.reestimatePending e.clock).snapshot (e.reestimatePending e.clock).pending
    (e.reestimatePending e.clock)).2 := hx
  rw [hkept, List.mem_filter, Bool.not_eq_true'] at hx
  rw [← hfutures]
  exact hsame x fun _ => hx.2

/-- **A cycle ships the first decisions of the plan** on tasks that are not cancelled, as many as there are workers. -/
theorem maybeDispatch_shipments (h : e.maybeDispatch env = .ok e') (hmark : Marked e accepted)
    (htidy : Tidy (e.book accepted held)) (hroster : Roster e) : shipments e e' =
      ((e.decisions env).filter fun d => !(e.futures d.pendingId).isCancelled).take e.supply := by
  have hqueued (x : WorkId) (hx : x ∈ e.pending) : x ∉ e.inFlight := fun hf =>
    htidy.not_mem_flight hx (List.mem_append_left _ hf)
  have hsub := decisions_sublist env htidy.nodup.of_append_left
  have hnone (hflight : e'.inFlight = e.inFlight) (hempty : (e.planned env).pending = []) : shipments e e' =
      ((e.decisions env).filter fun d => !(e.futures d.pendingId).isCancelled).take e.supply := by
    have hdecisions : e.decisions env = [] := List.eq_nil_iff_forall_not_mem.mpr fun d hd => by
      have hd := decisions_pending env e d hd
      rw [ready_pending, hempty] at hd
      cases hd
    rw [hdecisions, shipments, hflight]
    simp
  rcases maybeDispatch_planned h with ⟨hempty, rfl⟩ | ⟨hempty, rfl⟩ | ⟨hs, e₁, hhandling, hfst, rfl⟩
  · exact hnone rfl (List.sublist_nil.mp (hempty ▸ (planned_steps env [] htidy.nodup.of_append_left).pending))
  · obtain ⟨-, works, profiles, futures, pending, hprepare⟩ := prepare_frame e
    obtain ⟨_, _, _, pending', hplanned, -, hpending, -⟩ := planned_frame env e
    refine hnone (by rw [hprepare]) ?_
    rw [hplanned, ← hempty, hpending]
  · obtain ⟨works, next, hready, -⟩ := ready_frame env e
    obtain ⟨_, _, _, _, hplanned, -⟩ := planned_frame env e
    obtain ⟨hrun, hmark'⟩ := ready_moves env hmark htidy
    have htidy' := Ledger.run_tidy hrun htidy
    have hsupply : (e.ready env).supply = e.supply := by
      rw [hready, hplanned]
      rfl
    have hfutures (d : DispatchDecision) (hd : d ∈ e.decisions env) :
        (e.ready env).futures d.pendingId = e.futures d.pendingId := by
      have hd := decisions_pending env e d hd
      rw [ready_pending] at hd
      rw [← planned_futures env hd, hready]
    have hmem (d : DispatchDecision × Fate) (hd : d ∈ hs) : d.1 ∈ e.decisions env := hfst ▸ List.mem_map_of_mem hd
    have hnodup : ((hs.map Prod.fst).map DispatchDecision.pendingId).Nodup := by
      rw [hfst]
      exact htidy.nodup.of_append_left.sublist hsub
    have hships := hhandling.ships ((ready_staffs env e).roster hroster) hnodup fun d hd hcancelled => by
      rw [← Bool.not_eq_true]
      intro hnotified
      rcases hmark'.notified _ hnotified with hrunning | htold
      · rw [hrunning] at hcancelled
        cases hcancelled
      · have huntold := htidy'.queued _ (decisions_pending env e d.1 (hmem d hd))
        exact absurd (huntold.symm.trans htold) Bool.false_ne_true
    have hall := hhandling.shipments hnodup fun d hd => by
      rw [ready_inFlight]
      exact hqueued _ (hsub.subset (List.mem_map_of_mem (hmem d hd)))
    have hsame : ((e.decisions env).filter fun d => !((e.ready env).futures d.pendingId).isCancelled) =
        (e.decisions env).filter fun d => !(e.futures d.pendingId).isCancelled :=
      List.filter_congr fun d hd => by rw [hfutures d hd]
    rw [hships, hsupply, hfst, hsame] at hall
    rw [← hall]
    unfold shipments
    rw [ready_inFlight]

end Executor

end AdaptiveExecutor
