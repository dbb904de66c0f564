import AdaptiveExecutor.Executor.Callbacks

/-!
# A cycle in phases

`_maybe_dispatch` holds the lock from its first line to its last, but a caller that cancels takes no lock, and neither do
many sections. Here a cycle is a machine that stops after each of its steps, so that those can come between.

* `Phase`, `advance` : where a cycle stands, and its next step;
* `maybeDispatch_advances` : undisturbed, the phases are the cycle of the other modules;
* `queueAt` : the queue that the cycle will leave behind;
* `System.locks` : the events that wait for the lock; `Stepped.withPending` : the others do not look at the queue.
-/

namespace AdaptiveExecutor
open Ledger (Future Tidy)
open Relation (ReflTransGen)

inductive Phase
  /-- It has the lock. -/
  | begin
  /-- The infeasibility sweep, with the snapshot that was read before it. -/
  | sweep (snapshot : Option ResourceSnapshot) (todo feasible : List WorkId)
  | plan
  /-- The decisions that are left, and the tasks dispatched or found cancelled so far. -/
  | loop (ds : List DispatchDecision) (removed : List WorkId)
  /-- The worker of the decision is there, and its task needs the running handshake. -/
  | handshake (d : DispatchDecision) (w : WorkerId) (ds : List DispatchDecision) (removed : List WorkId)
  | ship (d : DispatchDecision) (w : WorkerId) (ds : List DispatchDecision) (removed : List WorkId)

namespace Executor
variable {α : Type} {env : Env} {e e' : Executor α}

/-- One step of a cycle, and where it stands then. -/
def advance (env : Env) (e : Executor α) : Phase → Raising (Executor α) (Executor α × Option Phase)
  | .begin =>
    if e.pending = [] then .ok (e, none)
    else
      let e := e.reestimatePending e.clock
      .ok (e, some (.sweep e.snapshot e.pending []))
  | .sweep _ [] feasible => .ok ({ e with pending := feasible }, if feasible = [] then none else some .plan)
  | .sweep snapshot (id :: todo) feasible =>
    match infeasibleEstimate e.cfg (e.works id).estimate snapshot (e.works id).retryCount with
    | none => .ok (e, some (.sweep snapshot todo (feasible ++ [id])))
    | some error => .ok (e.settle id (.exception (.infeasible error)), some (.sweep snapshot todo feasible))
  | .plan =>
    let (e, plan) := e.buildDispatchPlan env
    .ok (e, if plan.decisions = [] then none else some (.loop plan.decisions []))
  | .loop [] removed => .ok (e.without removed, none)
  | .loop (d :: ds) removed =>
    if d.pendingId ∈ e.pending then
      match e.acquireWorker env d.gpuId with
      | .error e => .error e
      | .ok (e, none) => .ok (e, some (.loop ds removed))
      | .ok (e, some w) =>
        .ok (e, some (if (e.works d.pendingId).runningNotified then .ship d w ds removed else .handshake d w ds removed))
    else .ok (e, some (.loop ds removed))
  | .handshake d w ds removed =>
    match (e.futures d.pendingId).setRunningOrNotifyCancel with
    | none => .error e
    | some (future, won) =>
      let e := { e with futures := Function.update e.futures d.pendingId future }
      if won then
        .ok (e.modifyWork d.pendingId fun work => { work with runningNotified := true }, some (.ship d w ds removed))
      else .ok (e, some (.loop ds (d.pendingId :: removed)))
  | .ship d w ds removed => .ok (e.ship env d.pendingId d.gpuId w, some (.loop ds (d.pendingId :: removed)))

def Advance (env : Env) (a b : Executor α × Option Phase) : Prop := ∃ ph, a.2 = some ph ∧ a.1.advance env ph = .ok b

/-! ## An undisturbed cycle -/

theorem advances_sweep (env : Env) (snapshot : Option ResourceSnapshot) : ∀ (todo feasible : List WorkId) (e : Executor α),
    ReflTransGen (Advance env) (e, some (.sweep snapshot todo feasible))
      ({ (sweepInfeasible snapshot todo e).1 with pending := feasible ++ (sweepInfeasible snapshot todo e).2 },
        if feasible ++ (sweepInfeasible snapshot todo e).2 = [] then none else some .plan)
  | [], feasible, e => by
    rw [sweepInfeasible, List.append_nil]
    exact .single ⟨_, rfl, rfl⟩
  | id :: todo, feasible, e => by
    unfold sweepInfeasible
    cases herror : infeasibleEstimate e.cfg (e.works id).estimate snapshot (e.works id).retryCount with
    | none =>
      have hrest := advances_sweep env snapshot todo (feasible ++ [id]) e
      rw [List.append_assoc] at hrest
      refine .head ⟨_, rfl, ?_⟩ hrest
      rw [advance, herror]
    | some error =>
      refine .head ⟨_, rfl, ?_⟩ (advances_sweep env snapshot todo feasible (e.settle id (.exception (.infeasible error))))
      rw [advance, herror]

theorem advances_handshake {d : DispatchDecision} {w : WorkerId} {ds : List DispatchDecision} {removed : List WorkId}
    (h : e.handshake env d.pendingId d.gpuId w = .ok e') : ReflTransGen (Advance env)
      (e, some (if (e.works d.pendingId).runningNotified then .ship d w ds removed else .handshake d w ds removed))
      (e', some (.loop ds (d.pendingId :: removed))) := by
  unfold handshake at h
  split_ifs at h with hn
  · obtain rfl := Except.ok.inj h
    rw [if_pos hn]
    exact .single ⟨_, rfl, rfl⟩
  · rw [if_neg hn]
    cases hset : (e.futures d.pendingId).setRunningOrNotifyCancel with
    | none =>
      rw [hset] at h
      cases h
    | some r =>
      obtain ⟨future, won⟩ := r
      rw [hset] at h
      dsimp only at h
      split_ifs at h with hwon
      · obtain rfl := Except.ok.inj h
        refine .head (b := (_, some (.ship d w ds removed))) ⟨_, rfl, ?_⟩ (.single ⟨_, rfl, rfl⟩)
        rw [advance, hset]
        dsimp only
        rw [if_pos hwon]
        rfl
      · obtain rfl := Except.ok.inj h
        refine .single ⟨_, rfl, ?_⟩
        rw [advance, hset]
        dsimp only
        rw [if_neg hwon]

theorem advances_loop : ∀ (ds : List DispatchDecision) (e : Executor α) (removed : List WorkId)
    (r : Executor α × List WorkId), dispatchLoop env ds e removed = .ok r →
    ReflTransGen (Advance env) (e, some (.loop ds removed)) (r.1.without r.2, none)
  | [], e, removed, r, h => by
    obtain rfl := Except.ok.inj h
    exact .single ⟨_, rfl, rfl⟩
  | d :: ds, e, removed, r, h => by
    unfold dispatchLoop at h
    split_ifs at h with hd
    · have hstep {b : Executor α × Option Phase} (hb : e.advance env (.loop (d :: ds) removed) = .ok b) :
          Advance env (e, some (.loop (d :: ds) removed)) b := ⟨_, rfl, hb⟩
      split at h
      · cases h
      · rename_i e₁ hacquire
        refine .head (hstep ?_) (advances_loop ds e₁ removed r h)
        rw [advance, if_pos hd, hacquire]
      · rename_i e₁ w hacquire
        split at h
        · cases h
        · rename_i e₂ hhand
          refine .head (hstep ?_) ((advances_handshake hhand).trans (advances_loop ds e₂ _ r h))
          rw [advance, if_pos hd, hacquire]
    · refine .head ⟨_, rfl, ?_⟩ (advances_loop ds e removed r h)
      rw [advance, if_neg hd]

/-- **Undisturbed, the phases are a cycle.** -/
theorem maybeDispatch_advances (h : e.maybeDispatch env = .ok e') :
    ReflTransGen (Advance env) (e, some .begin) (e', none) := by
  unfold maybeDispatch at h
  split_ifs at h with hempty
  · obtain rfl := Except.ok.inj h
    refine .single ⟨_, rfl, ?_⟩
    rw [advance, if_pos hempty]
  · have hsweep := advances_sweep env (e.reestimatePending e.clock).snapshot (e.reestimatePending e.clock).pending []
      (e.reestimatePending e.clock)
    rw [List.nil_append] at hsweep
    refine .head ⟨_, rfl, ?_⟩ (hsweep.trans ?_)
    · rw [advance, if_neg hempty]
    · change ReflTransGen (Advance env) (e.prepare, if e.prepare.pending = [] then none else some .plan) (e', none)
      dsimp only at h
      split_ifs at h ⊢ with hswept hnone
      · obtain rfl := Except.ok.inj h
        exact .refl
      · obtain rfl := Except.ok.inj h
        refine .single ⟨_, rfl, ?_⟩
        rw [advance]
        dsimp only
        rw [if_pos hnone]
      · cases hloop : dispatchLoop env (e.prepare.buildDispatchPlan env).2.decisions (e.prepare.buildDispatchPlan env).1 []
          with
        | error =>
          rw [hloop] at h
          cases h
        | ok r =>
          rw [hloop] at h
          obtain rfl := Except.ok.inj h
          refine .head ⟨_, rfl, ?_⟩ (advances_loop _ _ _ r hloop)
          rw [advance]
          dsimp only
          rw [if_neg hnone]

/-! ## What a step keeps -/

/-- The queue that the cycle would leave if it ended here. -/
def queueAt (e : Executor α) : Option Phase → List WorkId
  | some (.sweep _ todo feasible) => feasible ++ todo
  | some (.loop _ removed) | some (.handshake _ _ _ removed) | some (.ship _ _ _ removed) => (e.without removed).pending
  | some .begin | some .plan | none => e.pending

def withPending (e : Executor α) (pending : List WorkId) : Executor α := { e with pending := pending }

/-- The executor that the cycle would leave if it ended here. -/
def behind (e : Executor α) (ph : Option Phase) : Executor α := e.withPending (e.queueAt ph)

/-- No task is decided twice, and those that are left have not been removed. -/
structure Awaits (e : Executor α) (ds : List DispatchDecision) (removed : List WorkId) : Prop where
  queue : e.pending.Nodup
  once : (ds.map DispatchDecision.pendingId).Nodup
  left : ∀ d ∈ ds, d.pendingId ∉ removed

def Stands (e : Executor α) : Option Phase → Prop
  | some (.loop ds removed) => e.Awaits ds removed
  | some (.handshake d _ ds removed) =>
    d.pendingId ∈ e.pending ∧ e.Awaits (d :: ds) removed ∧ (e.works d.pendingId).runningNotified = false
  | some (.ship d _ ds removed) =>
    d.pendingId ∈ e.pending ∧ e.Awaits (d :: ds) removed ∧ (e.works d.pendingId).runningNotified = true
  | some .begin | some (.sweep _ _ _) | some .plan | none => True

section Keeps
variable {accepted held : List WorkId} {d : DispatchDecision} {w : WorkerId} {ds : List DispatchDecision}
  {removed : List WorkId} {ph : Phase} {ph' : Option Phase}

theorem Awaits.skip (h : e.Awaits (d :: ds) removed) : e.Awaits ds removed := by
  obtain ⟨hqueue, honce, hleft⟩ := h
  rw [List.map_cons, List.nodup_cons] at honce
  exact ⟨hqueue, honce.2, fun d' hd' => hleft d' (List.mem_cons_of_mem d hd')⟩

theorem Awaits.remove (h : e.Awaits (d :: ds) removed) : e.Awaits ds (d.pendingId :: removed) := by
  obtain ⟨hqueue, honce, hleft⟩ := h
  rw [List.map_cons, List.nodup_cons] at honce
  refine ⟨hqueue, honce.2, fun d' hd' hmem => ?_⟩
  rcases List.mem_cons.mp hmem with heq | hmem
  · exact honce.1 (heq ▸ List.mem_map_of_mem hd')
  · exact hleft d' (List.mem_cons_of_mem d hd') hmem

theorem Awaits.of_pending (h : e.Awaits ds removed) (hpending : e'.pending = e.pending) : e'.Awaits ds removed :=
  ⟨hpending ▸ h.queue, h.once, h.left⟩

/-- The task of the decision is still in the queue that the cycle would leave. -/
theorem Awaits.queued (h : e.Awaits (d :: ds) removed) (hd : d.pendingId ∈ e.pending) :
    d.pendingId ∈ (e.without removed).pending :=
  List.mem_filter.mpr ⟨hd, by simpa using h.left d List.mem_cons_self⟩

theorem Awaits.without_cons (h : e.Awaits (d :: ds) removed) :
    (e.without (d.pendingId :: removed)).pending = (e.without removed).pending.erase d.pendingId :=
  filter_not_mem_cons h.queue removed d.pendingId

/-- The places are kept, and the futures of the tasks that have not been accepted. -/
structure Keeps (accepted held : List WorkId) (e e' : Executor α) : Prop where
  marked : Marked e' accepted
  tidy : Tidy (e'.book accepted held)
  unknown : ∀ x ∉ accepted, e'.futures x = e.futures x

theorem Refreshed.keeps (h : Refreshed e e') (hmark : Marked e accepted) (htidy : Tidy (e.book accepted held)) :
    Keeps accepted held e e' := by
  obtain ⟨_, _, _, hworks, rfl⟩ := h
  exact ⟨hmark.of_same (fun id => ⟨(hworks id).runningNotified, (hworks id).resultIgnored⟩) rfl (List.Subset.refl _)
    (List.Subset.refl _), htidy, fun _ _ => rfl⟩

theorem DispatchSteps.keeps {decided : List WorkId} (h : DispatchSteps env decided e e') (hmark : Marked e accepted)
    (htidy : Tidy (e.book accepted held)) : Keeps accepted held e e' := by
  obtain ⟨hrun, hmark'⟩ := h.moves hmark htidy
  exact ⟨hmark', Ledger.run_tidy hrun htidy, fun x hx => Ledger.run_future_eq hrun htidy hx⟩

theorem Keeps.refl (hmark : Marked e accepted) (htidy : Tidy (e.book accepted held)) : Keeps accepted held e e :=
  ⟨hmark, htidy, fun _ _ => rfl⟩

/-- **The running handshake**: it is won, or the future turns out to be cancelled. -/
theorem advance_handshake (h : e.advance env (.handshake d w ds removed) = .ok (e', ph')) :
    e.futures d.pendingId = .pending ∧ e' = e.start d.pendingId ∧ ph' = some (.ship d w ds removed) ∨
      e.futures d.pendingId = .cancelled ∧
        e' = { e with futures := Function.update e.futures d.pendingId .cancelledAndNotified } ∧
        ph' = some (.loop ds (d.pendingId :: removed)) := by
  rw [advance] at h
  cases hf : e.futures d.pendingId with
  | pending =>
    rw [hf] at h
    obtain ⟨rfl, rfl⟩ := Prod.mk.inj (Except.ok.inj h)
    exact .inl ⟨rfl, rfl, rfl⟩
  | cancelled =>
    rw [hf] at h
    obtain ⟨rfl, rfl⟩ := Prod.mk.inj (Except.ok.inj h)
    exact .inr ⟨rfl, rfl, rfl⟩
  | running | cancelledAndNotified | finished =>
    rw [hf] at h
    cases h

theorem behind_loop_nil (e : Executor α) (ds : List DispatchDecision) : e.behind (some (.loop ds [])) = e := by
  simp [behind, withPending, queueAt, without]

/-- **Every step of a cycle** keeps the places, and what the cycle knows. -/
theorem advance_keeps (h : e.advance env ph = .ok (e', ph')) (hst : e.Stands (some ph))
    (hmark : Marked (e.behind (some ph)) accepted) (htidy : Tidy ((e.behind (some ph)).book accepted held)) :
    Keeps accepted held (e.behind (some ph)) (e'.behind ph') ∧ e'.Stands ph' := by
  cases ph with
  | begin =>
    rw [advance] at h
    split_ifs at h
    · obtain ⟨rfl, rfl⟩ := Prod.mk.inj (Except.ok.inj h)
      exact ⟨.refl hmark htidy, trivial⟩
    · obtain ⟨rfl, rfl⟩ := Prod.mk.inj (Except.ok.inj h)
      exact ⟨(reestimatePending_refreshed e e.clock).keeps hmark htidy, trivial⟩
  | sweep snapshot todo feasible =>
    cases todo with
    | nil =>
      obtain ⟨rfl, rfl⟩ := Prod.mk.inj (Except.ok.inj h)
      have hbehind : e.behind (some (.sweep snapshot [] feasible)) = { e with pending := feasible } :=
        congrArg e.withPending (List.append_nil feasible)
      rw [hbehind] at hmark htidy ⊢
      split_ifs
      exacts [⟨.refl hmark htidy, trivial⟩, ⟨.refl hmark htidy, trivial⟩]
    | cons id todo =>
      rw [advance] at h
      split at h
      · obtain ⟨rfl, rfl⟩ := Prod.mk.inj (Except.ok.inj h)
        have hbehind : e.behind (some (.sweep snapshot todo (feasible ++ [id]))) =
            e.behind (some (.sweep snapshot (id :: todo) feasible)) :=
          congrArg e.withPending (List.append_assoc feasible [id] todo)
        rw [hbehind]
        exact ⟨.refl hmark htidy, trivial⟩
      · rename_i error _
        obtain ⟨rfl, rfl⟩ := Prod.mk.inj (Except.ok.inj h)
        have hnodup : (feasible ++ id :: todo).Nodup := htidy.nodup.of_append_left
        have hfirst : id ∉ feasible := fun hmem => (List.nodup_append.mp hnodup).2.2 id hmem id List.mem_cons_self rfl
        have herase : (feasible ++ id :: todo).erase id = feasible ++ todo := by
          rw [List.erase_append_right _ hfirst, List.erase_cons_head]
        have hstep : DispatchStep env [] (e.behind (some (.sweep snapshot (id :: todo) feasible)))
            { (e.behind (some (.sweep snapshot (id :: todo) feasible))).settle id (.exception (.infeasible error)) with
              pending := (feasible ++ id :: todo).erase id } :=
          .fail (List.mem_append_right feasible List.mem_cons_self) error
        rw [herase] at hstep
        exact ⟨DispatchSteps.keeps (.single hstep) hmark htidy, trivial⟩
  | plan =>
    obtain ⟨rfl, rfl⟩ := Prod.mk.inj (Except.ok.inj h)
    have hrefresh := buildDispatchPlan_refreshed env e
    have hkeeps := hrefresh.keeps hmark htidy
    dsimp only
    split_ifs
    · exact ⟨hkeeps, trivial⟩
    · rw [behind_loop_nil]
      have hnodup : (e.refreshObservations env e.clock).pending.Nodup := by
        obtain ⟨_, _, _, -, hframe⟩ := refreshObservations_refreshed env e e.clock
        rw [hframe]
        exact htidy.nodup.of_append_left
      refine ⟨hkeeps, ?_, hnodup.sublist (dispatchPlan_sublist _ _), fun _ _ => List.not_mem_nil⟩
      exact hkeeps.tidy.nodup.of_append_left
  | loop ds removed =>
    cases ds with
    | nil =>
      obtain ⟨rfl, rfl⟩ := Prod.mk.inj (Except.ok.inj h)
      exact ⟨.refl hmark htidy, trivial⟩
    | cons d ds =>
      have hawaits : e.Awaits (d :: ds) removed := hst
      have acquired {e₁ : Executor α} {o : Option WorkerId} (hacquire : e.acquireWorker env d.gpuId = .ok (e₁, o)) :
          e₁.pending = e.pending ∧ Keeps accepted held (e.behind (some (.loop (d :: ds) removed)))
            (e₁.withPending (e₁.without removed).pending) := by
        obtain ⟨hsteps, hpending, -⟩ := acquireWorker_steps [] hacquire
        have hqueue : (e₁.without removed).pending = (e.without removed).pending := by
          rw [without, without, hpending]
        rw [hqueue]
        exact ⟨hpending, (hsteps (e.without removed).pending).keeps hmark htidy⟩
      rw [advance] at h
      split_ifs at h with hd
      · split at h
        · cases h
        · rename_i e₁ hacquire
          obtain ⟨rfl, rfl⟩ := Prod.mk.inj (Except.ok.inj h)
          obtain ⟨hpending, hkeeps⟩ := acquired hacquire
          exact ⟨hkeeps, hawaits.skip.of_pending hpending⟩
        · rename_i e₁ w hacquire
          obtain ⟨rfl, rfl⟩ := Prod.mk.inj (Except.ok.inj h)
          obtain ⟨hpending, hkeeps⟩ := acquired hacquire
          split_ifs with hnotified
          · exact ⟨hkeeps, hpending ▸ hd, hawaits.of_pending hpending, hnotified⟩
          · exact ⟨hkeeps, hpending ▸ hd, hawaits.of_pending hpending, Bool.not_eq_true _ ▸ hnotified⟩
      · obtain ⟨rfl, rfl⟩ := Prod.mk.inj (Except.ok.inj h)
        exact ⟨.refl hmark htidy, hawaits.skip⟩
  | handshake d w ds removed =>
    obtain ⟨hd, hawaits, hnotified⟩ := hst
    rcases advance_handshake h with ⟨-, rfl, rfl⟩ | ⟨hf, rfl, rfl⟩
    · have hknown : d.pendingId ∈ accepted := htidy.known d.pendingId (List.mem_append_left _ (hawaits.queued hd))
      refine ⟨⟨hmark.start d.pendingId, htidy.start d.pendingId, fun x hx => ?_⟩, hd, hawaits.of_pending rfl, ?_⟩
      · exact Function.update_of_ne (ne_of_mem_of_not_mem hknown hx).symm _ _
      · exact congrArg PendingWork.runningNotified (Function.update_self d.pendingId _ e.works)
    · have hstep : DispatchStep env [] (e.behind (some (.handshake d w ds removed))) _ := .drop (hawaits.queued hd) hf
      refine ⟨?_, hawaits.remove.of_pending rfl⟩
      have hqueue : (e.without (d.pendingId :: removed)).pending = (e.behind (some (.handshake d w ds removed))).pending.erase _ :=
        hawaits.without_cons
      change Keeps accepted held _ (withPending _ (e.without (d.pendingId :: removed)).pending)
      rw [hqueue]
      exact DispatchSteps.keeps (.single hstep) hmark htidy
  | ship d w ds removed =>
    obtain ⟨hd, hawaits, hnotified⟩ := hst
    obtain ⟨rfl, rfl⟩ := Prod.mk.inj (Except.ok.inj h)
    have hstarted : (e.behind (some (.ship d w ds removed))).Started d.pendingId (e.behind (some (.ship d w ds removed))) :=
      .inl ⟨hnotified, rfl⟩
    have hqueued := hawaits.queued hd
    have hmark' := @Started.ship_marked _ env _ _ _ _ d.gpuId w hstarted hmark hqueued
    have hrun := @Started.ship_moves _ env _ _ _ held _ d.gpuId w hstarted hmark htidy hqueued
    refine ⟨?_, hawaits.remove.of_pending rfl⟩
    change Keeps accepted held _ (withPending _ (e.without (d.pendingId :: removed)).pending)
    rw [hawaits.without_cons]
    exact ⟨hmark', Ledger.run_tidy hrun htidy, fun _ _ => rfl⟩

end Keeps

/-! ## Sections beside a cycle -/

theorem stopAllWorkers_withPending (e : Executor α) (pending : List WorkId) :
    (e.withPending pending).stopAllWorkers = ((e.stopAllWorkers).1.withPending pending, (e.stopAllWorkers).2) := by
  have hstop (f : WorkerSlot α → WorkerSlot α) : ∀ (ws : List WorkerId) (e : Executor α),
      ws.foldl (fun e w => e.modifySlot w f) (e.withPending pending) =
        (ws.foldl (fun e w => e.modifySlot w f) e).withPending pending := by
    intro ws
    induction ws with
    | nil => exact fun _ => rfl
    | cons w ws ih => exact fun e => ih (e.modifySlot w f)
  exact Prod.ext (hstop _ e.workers e) rfl

/-- **A section that does not take the lock** does not look at the queue. -/
theorem run_withPending {m : Section α} {body : List (Section α)} (h : e.run env m = some (e', body))
    (hfree : .lock .acquire ∉ e.acts m) (pending : List WorkId) :
    (e.withPending pending).run env m = some (e'.withPending pending, body) ∧ e'.pending = e.pending := by
  cases m with
  | maybeDispatch | failPendingFutures | sweep | processResult | checkWorkers | requeue | scanTimeouts | handleTimeout
  | testInFlight => exact absurd List.mem_cons_self hfree
  | takeLost w =>
    obtain ⟨rfl, rfl⟩ := run_eq (r := e.takeLost w) h
    have hnone : (e.slots w).currentWorkId = none := by
      by_contra hsome
      refine hfree ?_
      rw [acts, if_pos (Option.isSome_iff_ne_none.mpr hsome)]
      exact List.mem_cons_self
    have hnone' : ((e.withPending pending).slots w).currentWorkId = none := hnone
    simp only [run, takeLost, hnone, hnone', and_self]
  | getNowait w results =>
    obtain ⟨rfl, rfl⟩ := run_eq (r := e.getNowait w results) h
    have hslots : (e.withPending pending).slots = e.slots := rfl
    cases hqueue : (e.slots w).process.resultQueue with
    | nil => simp only [run, getNowait, hslots, hqueue, and_self]
    | cons r rest =>
      by_cases hdiscarded : (e.slots w).queueDiscarded = true
      · simp only [run, getNowait, hslots, hqueue, hdiscarded, if_true, and_self]
      · simp only [run, getNowait, hslots, hqueue, if_neg hdiscarded]
        exact ⟨rfl, rfl⟩
  | stopAllWorkers =>
    obtain ⟨rfl, rfl⟩ := run_eq (r := e.stopAllWorkers) h
    obtain ⟨slots, hframe⟩ := stopAllWorkers_frame e
    refine ⟨congrArg some (stopAllWorkers_withPending e pending), ?_⟩
    rw [hframe]
  | escalateKill w =>
    obtain ⟨rfl, rfl⟩ := run_eq h
    simp only [run, escalateKill, withPending]
    split <;> exact ⟨rfl, rfl⟩
  | readQueue | record | settle | discardQueue | penalizeEstimate | readClock | shutUnstarted | stopAccepting | stopThreads | finalDrain
  | pruneRetiring | leave =>
    obtain ⟨rfl, rfl⟩ := run_eq h
    exact ⟨rfl, rfl⟩

end Executor

/-! ## Events beside a cycle -/

namespace System
variable {α : Type} {s s' : System α} {e : Event α}

def locks (s : System α) : Event α → Bool
  | .append _ => true
  | .act t _ => (s.hands t).head?.any fun m => decide (.lock .acquire ∈ s.executor.acts m)
  | _ => false

def withPending (s : System α) (pending : List WorkId) : System α := { s with executor := s.executor.withPending pending }

/-- **An event that does not take the lock** does not look at the queue. -/
theorem Stepped.withPending (h : Stepped s e s') (hfree : s.locks e = false) (pending : List WorkId) :
    Stepped (s.withPending pending) e (s'.withPending pending) ∧ s'.executor.pending = s.executor.pending := by
  cases h with
  | outside clock snapshot profiles started hstarted =>
    exact ⟨.outside clock snapshot profiles started hstarted, rfl⟩
  | submit work profiles haccepting hid hwork => exact ⟨.submit work profiles haccepting hid hwork, rfl⟩
  | append => cases hfree
  | cancel hid => exact ⟨.cancel hid, rfl⟩
  | process hp => exact ⟨.process hp, rfl⟩
  | begin ht hand hbody => exact ⟨.begin ht hand hbody, rfl⟩
  | deliver ht hand hr hopen => exact ⟨.deliver ht hand hr hopen, rfl⟩
  | @act t env m rest r hand hrun =>
    have hacts : .lock .acquire ∉ s.executor.acts m := by
      rw [locks, hand] at hfree
      exact of_decide_eq_false hfree
    obtain ⟨e', body⟩ := r
    obtain ⟨hrun', hpending⟩ := Executor.run_withPending hrun hacts pending
    have hstep : Stepped (s.withPending pending) (.act t env) _ := .act hand hrun'
    exact ⟨hstep, hpending⟩
  | contended hand hreader => exact ⟨.contended hand hreader, rfl⟩
  | shutdown hstopping => exact ⟨.shutdown hstopping, rfl⟩
  | again hshutdown => exact ⟨.again hshutdown, rfl⟩

end System

end AdaptiveExecutor
