import AdaptiveExecutor.Executor.Phases
import AdaptiveExecutor.Executor.Spawn

/-!
# The running handshake

A queued task is cancelled by its caller, or dispatched: `set_running_or_notify_cancel` decides, once.

* `Aside` : what has no part in that: every section but a cycle (`run_aside`), and every step of a cycle but the
  handshake and the shipping (`advance_aside`, `advance_raises`);
* `Winner` : the flags, the futures and the two logs (the handshakes, the tasks shipped) agree;
-/

namespace AdaptiveExecutor
open Ledger (Future Tidy)
open Relation (ReflTransGen)

/-- The tasks on which the step calls `set_running_or_notify_cancel`. -/
def Phase.handshakes : Phase → List WorkId
  | .handshake d _ _ _ => [d.pendingId]
  | .begin | .sweep _ _ _ | .plan | .loop _ _ | .ship _ _ _ _ => []

/-- The tasks that the step puts on the work queue of a worker. -/
def Phase.ships : Phase → List WorkId
  | .ship d _ _ _ => [d.pendingId]
  | .begin | .sweep _ _ _ | .plan | .loop _ _ | .handshake _ _ _ _ => []

namespace Executor
variable {α : Type} {env : Env} {e e' : Executor α} {x : WorkId} {issued handshakes shipped : List WorkId}

/-! ## Steps that decide nothing -/

/-- No handshake is made, no task enters flight, and a future is at most settled. -/
structure Aside (e e' : Executor α) : Prop where
  notified : ∀ x, (e'.works x).runningNotified = (e.works x).runningNotified
  flight : e'.inFlight ⊆ e.inFlight
  futures : ∀ x, e'.futures x = e.futures x ∨ ∃ o, e'.futures x = (e.futures x).settle o

theorem Aside.of_same (hworks : ∀ x, (e'.works x).runningNotified = (e.works x).runningNotified)
    (hflight : e'.inFlight ⊆ e.inFlight) (hfutures : e'.futures = e.futures) : Aside e e' :=
  ⟨hworks, hflight, fun x => .inl (congrFun hfutures x)⟩

theorem Refreshed.aside (h : Refreshed e e') : Aside e e' := by
  obtain ⟨_, _, _, hworks, rfl⟩ := h
  exact .of_same (fun x => (hworks x).runningNotified) (List.Subset.refl _) rfl

theorem settle_aside (e : Executor α) (id : WorkId) (o : Outcome α) : Aside e (e.settle id o) := by
  refine ⟨fun _ => rfl, List.Subset.refl _, fun x => ?_⟩
  by_cases hx : x = id
  · subst hx
    exact .inr ⟨o, Function.update_self x _ e.futures⟩
  · exact .inl (Function.update_of_ne hx _ _)

theorem foldl_settle_futures (o : Outcome α) (x : WorkId) : ∀ (ids : List WorkId) (e : Executor α),
    (ids.foldl (fun e id => e.settle id o) e).futures x = e.futures x ∨
      (ids.foldl (fun e id => e.settle id o) e).futures x = (e.futures x).settle o
  | [], _ => .inl rfl
  | id :: ids, e => by
    rw [List.foldl_cons]
    by_cases hx : x = id
    · subst hx
      have hself : (e.settle x o).futures x = (e.futures x).settle o := Function.update_self x _ e.futures
      have htwice : ((e.futures x).settle o).settle o = (e.futures x).settle o := if_pos (Future.settle_done o _)
      have hrest := foldl_settle_futures o x ids (e.settle x o)
      rw [hself, htwice, or_self] at hrest
      exact .inr hrest
    · have hother : (e.settle id o).futures x = e.futures x := Function.update_of_ne hx _ _
      have hrest := foldl_settle_futures o x ids (e.settle id o)
      rwa [hother] at hrest

/-- **Every section but a dispatch cycle.** -/
theorem run_aside {m : Section α} {body : List (Section α)} (h : e.run env m = some (e', body))
    (hm : m ≠ .maybeDispatch) : Aside e e' := by
  cases run_step h hm with
  | workers | record => exact .of_same (fun _ => rfl) (List.Subset.refl _) rfl
  | leaves _ id _ _ _ hworks =>
    exact .of_same (ignored_keeps PendingWork.runningNotified (fun _ => rfl) hworks) List.erase_subset rfl
  | settle id o => exact settle_aside e id o
  | failPendingFutures =>
    obtain ⟨futures, hframe⟩ := failPendingFutures_frame e
    refine ⟨fun x => ?_, ?_, fun x => ?_⟩
    · rw [hframe]
    · rw [hframe]
      exact List.Subset.refl _
    · exact (foldl_settle_futures (.exception .shutDown) x e.pending e).imp id fun hsettled => ⟨_, hsettled⟩
  | penalizeEstimate id =>
    have hnotified := modifyWork_keeps e PendingWork.runningNotified
      (f := fun w => { w with estimate := penalized w.estimate, exclusive := true }) (fun _ => rfl) id
    exact .of_same hnotified (List.Subset.refl _) rfl
  | requeue id =>
    exact .of_same (modifyWork_keeps e PendingWork.runningNotified (f := retried) (fun _ => rfl) id) (List.Subset.refl _) rfl

/-- **Every step of a cycle** but the handshake and the shipping. -/
theorem advance_aside {ph : Phase} {ph' : Option Phase} (h : e.advance env ph = .ok (e', ph'))
    (hhand : ph.handshakes = []) (hship : ph.ships = []) : Aside e e' := by
  cases ph with
  | begin =>
    rw [advance] at h
    split_ifs at h
    · obtain ⟨rfl, -⟩ := Prod.mk.inj (Except.ok.inj h)
      exact (Refreshed.refl e).aside
    · obtain ⟨rfl, -⟩ := Prod.mk.inj (Except.ok.inj h)
      exact (reestimatePending_refreshed e e.clock).aside
  | sweep snapshot todo feasible =>
    cases todo with
    | nil =>
      obtain ⟨rfl, -⟩ := Prod.mk.inj (Except.ok.inj h)
      exact .of_same (fun _ => rfl) (List.Subset.refl _) rfl
    | cons id todo =>
      rw [advance] at h
      split at h
      · obtain ⟨rfl, -⟩ := Prod.mk.inj (Except.ok.inj h)
        exact (Refreshed.refl e).aside
      · obtain ⟨rfl, -⟩ := Prod.mk.inj (Except.ok.inj h)
        exact settle_aside e id _
  | plan =>
    obtain ⟨rfl, -⟩ := Prod.mk.inj (Except.ok.inj h)
    exact (buildDispatchPlan_refreshed env e).aside
  | loop ds removed =>
    cases ds with
    | nil =>
      obtain ⟨rfl, -⟩ := Prod.mk.inj (Except.ok.inj h)
      exact .of_same (fun _ => rfl) (List.Subset.refl _) rfl
    | cons d ds =>
      rw [advance] at h
      split_ifs at h
      · split at h
        · cases h
        · rename_i e₁ hacquire
          obtain ⟨rfl, -⟩ := Prod.mk.inj (Except.ok.inj h)
          obtain ⟨_, _, _, _, rfl⟩ := acquireWorker_frame hacquire
          exact .of_same (fun _ => rfl) (List.Subset.refl _) rfl
        · rename_i e₁ w hacquire
          obtain ⟨rfl, -⟩ := Prod.mk.inj (Except.ok.inj h)
          obtain ⟨_, _, _, _, rfl⟩ := acquireWorker_frame hacquire
          exact .of_same (fun _ => rfl) (List.Subset.refl _) rfl
      · obtain ⟨rfl, -⟩ := Prod.mk.inj (Except.ok.inj h)
        exact (Refreshed.refl e).aside
  | handshake => cases hhand
  | ship => cases hship

theorem advance_raises {ph : Phase} (h : e.advance env ph = .error e') : Aside e e' := by
  cases ph with
  | begin =>
    rw [advance] at h
    split_ifs at h
  | sweep snapshot todo feasible =>
    cases todo with
    | nil => cases h
    | cons id todo =>
      rw [advance] at h
      split at h <;> cases h
  | plan => cases h
  | loop ds removed =>
    cases ds with
    | nil => cases h
    | cons d ds =>
      rw [advance] at h
      split_ifs at h
      split at h
      · rename_i e₁ hacquire
        obtain rfl := Except.error.inj h
        obtain ⟨-, _, _, _, _, rfl⟩ := acquireWorker_error hacquire
        exact .of_same (fun _ => rfl) (List.Subset.refl _) rfl
      · cases h
      · cases h
  | handshake d w ds removed =>
    rw [advance] at h
    split at h
    · obtain rfl := Except.error.inj h
      exact (Refreshed.refl e).aside
    · dsimp only at h
      split_ifs at h
  | ship => cases h

/-! ## The winner -/

/-- The handshakes made so far, and the tasks shipped, agree with the flags and the futures. -/
structure Winner (e : Executor α) (issued handshakes shipped : List WorkId) : Prop where
  once : handshakes.Nodup
  called : ∀ x ∈ handshakes, x ∈ issued ∧ ((e.works x).runningNotified = true ∨ e.futures x = .cancelledAndNotified)
  won : ∀ x, (e.works x).runningNotified = true → x ∈ handshakes ∧ (e.futures x).cancels = false
  sent : ∀ x ∈ shipped, (e.works x).runningNotified = true
  flight : ∀ x ∈ e.inFlight, x ∈ shipped
  cancelled : ∀ x, (e.futures x).outcome = some none → x ∈ issued

theorem Winner.keeps (hw : Winner e issued handshakes shipped)
    (hnotified : ∀ x, (e'.works x).runningNotified = (e.works x).runningNotified) (hflight : e'.inFlight ⊆ e.inFlight)
    (hfutures : ∀ x, (e.futures x = .cancelledAndNotified → e'.futures x = .cancelledAndNotified) ∧
      ((e.futures x).cancels = false → (e'.futures x).cancels = false) ∧
      ((e'.futures x).outcome = some none → (e.futures x).outcome = some none ∨ x ∈ issued)) :
    Winner e' issued handshakes shipped := by
  refine ⟨hw.once, fun x hx => ?_, fun x hx => ?_, fun x hx => (hnotified x).trans (hw.sent x hx),
    fun x hx => hw.flight x (hflight hx), fun x hx => ?_⟩
  · exact ⟨(hw.called x hx).1, (hw.called x hx).2.imp (hnotified x).trans (hfutures x).1⟩
  · obtain ⟨hcalled, hf⟩ := hw.won x ((hnotified x).symm.trans hx)
    exact ⟨hcalled, (hfutures x).2.1 hf⟩
  · exact ((hfutures x).2.2 hx).elim (hw.cancelled x) id

theorem Winner.aside (hw : Winner e issued handshakes shipped) (h : Aside e e') :
    Winner e' issued handshakes shipped := by
  refine hw.keeps h.notified h.flight fun x => ?_
  rcases h.futures x with hsame | ⟨o, hsettled⟩
  · rw [hsame]
    exact ⟨id, id, .inl⟩
  · rw [hsettled]
    exact ⟨fun hf => by rw [hf]; rfl, Future.settle_cancels, fun hf => .inl (Future.of_settle_cancelled hf)⟩

theorem Winner.cancel (hw : Winner e issued handshakes shipped) {id : WorkId} (hid : id ∈ issued) :
    Winner { e with futures := Function.update e.futures id (e.futures id).cancel } issued handshakes shipped := by
  refine hw.keeps (fun _ => rfl) (List.Subset.refl _) fun x => ?_
  dsimp only
  by_cases hx : x = id
  · subst hx
    rw [Function.update_self]
    exact ⟨fun hf => by rw [hf]; rfl, fun hf => by rwa [Future.cancel_of_cancels hf], fun _ => .inr hid⟩
  · rw [Function.update_of_ne hx]
    exact ⟨fun hf => hf, fun hf => hf, .inl⟩

theorem Winner.submit (hw : Winner e issued handshakes shipped) {id : WorkId} (hid : id ∉ issued) {work : PendingWork}
    (hwork : System.FreshTask work) (profiles : ProfileStore) :
    Winner { e with
      profiles := profiles
      works := Function.update e.works id work
      futures := Function.update e.futures id .pending } (issued ++ [id]) handshakes shipped := by
  have hcalled : id ∉ handshakes := fun hmem => hid (hw.called id hmem).1
  have hnew : (e.works id).runningNotified = false := by
    rw [← Bool.not_eq_true]
    exact fun hn => hcalled (hw.won id hn).1
  have hnotified (x : WorkId) : (Function.update e.works id work x).runningNotified = (e.works x).runningNotified := by
    by_cases hx : x = id
    · rw [hx, Function.update_self, hnew, hwork.runningNotified]
    · rw [Function.update_of_ne hx]
  have hw' : Winner e (issued ++ [id]) handshakes shipped :=
    ⟨hw.once, fun x hx => ⟨List.mem_append_left _ (hw.called x hx).1, (hw.called x hx).2⟩, hw.won, hw.sent, hw.flight,
      fun x hx => List.mem_append_left _ (hw.cancelled x hx)⟩
  refine ⟨hw.once, fun x hx => ?_, fun x hx => ?_, fun x hx => (hnotified x).trans (hw.sent x hx), hw.flight,
    fun x hx => ?_⟩
  · have hne : x ≠ id := ne_of_mem_of_not_mem hx hcalled
    refine ⟨(hw'.called x hx).1, (hw.called x hx).2.imp (hnotified x).trans fun hf => ?_⟩
    exact (Function.update_of_ne hne _ _).trans hf
  · have hx := (hnotified x).symm.trans hx
    have hne : x ≠ id := ne_of_mem_of_not_mem (hw.won x hx).1 hcalled
    dsimp only
    rw [Function.update_of_ne hne]
    exact hw.won x hx
  · by_cases hxid : x = id
    · exact List.mem_append_right _ (List.mem_singleton.mpr hxid)
    · dsimp only at hx
      rw [Function.update_of_ne hxid] at hx
      exact hw'.cancelled x hx

theorem Winner.start (hw : Winner e issued handshakes shipped) {id : WorkId} (hid : id ∈ issued)
    (hnew : (e.works id).runningNotified = false) (hf : e.futures id = .pending) :
    Winner (e.start id) issued (handshakes ++ [id]) shipped := by
  have hcalled : id ∉ handshakes := fun hmem => by
    rcases (hw.called id hmem).2 with hn | hc
    · rw [hnew] at hn
      cases hn
    · rw [hf] at hc
      cases hc
  have hself : ((e.start id).works id).runningNotified = true :=
    congrArg PendingWork.runningNotified (Function.update_self id _ e.works)
  have hother {x : WorkId} (hx : x ≠ id) : (e.start id).works x = e.works x ∧ (e.start id).futures x = e.futures x :=
    ⟨Function.update_of_ne hx _ _, Function.update_of_ne hx _ _⟩
  have hrunning : (e.start id).futures id = .running := Function.update_self _ _ _
  refine ⟨hw.once.append (List.nodup_singleton id) (List.disjoint_singleton.mpr hcalled), fun x hx => ?_,
    fun x hx => ?_, fun x hx => ?_, hw.flight, fun x hx => ?_⟩ <;> by_cases hxid : x = id
  · subst hxid
    exact ⟨hid, .inl hself⟩
  · rw [(hother hxid).1, (hother hxid).2]
    exact hw.called x ((List.mem_append.mp hx).resolve_right fun hx => hxid (List.mem_singleton.mp hx))
  · subst hxid
    rw [hrunning]
    exact ⟨List.mem_append_right _ List.mem_cons_self, rfl⟩
  · rw [(hother hxid).1] at hx
    rw [(hother hxid).2]
    exact ⟨List.mem_append_left _ (hw.won x hx).1, (hw.won x hx).2⟩
  · exact hxid ▸ hself
  · rw [(hother hxid).1]
    exact hw.sent x hx
  · exact hxid ▸ hid
  · rw [(hother hxid).2] at hx
    exact hw.cancelled x hx

theorem Winner.drop (hw : Winner e issued handshakes shipped) {id : WorkId} (hnew : (e.works id).runningNotified = false)
    (hf : e.futures id = .cancelled) :
    Winner { e with futures := Function.update e.futures id .cancelledAndNotified } issued (handshakes ++ [id])
      shipped := by
  have hid : id ∈ issued := hw.cancelled id (by rw [hf]; rfl)
  have hcalled : id ∉ handshakes := fun hmem => by
    rcases (hw.called id hmem).2 with hn | hc
    · rw [hnew] at hn
      cases hn
    · rw [hf] at hc
      cases hc
  refine ⟨hw.once.append (List.nodup_singleton id) (List.disjoint_singleton.mpr hcalled), fun x hx => ?_,
    fun x hx => ?_, hw.sent, hw.flight, fun x hx => ?_⟩ <;> by_cases hxid : x = id
  · subst hxid
    exact ⟨hid, .inr (Function.update_self _ _ _)⟩
  · dsimp only
    rw [Function.update_of_ne hxid]
    exact hw.called x ((List.mem_append.mp hx).resolve_right fun hx => hxid (List.mem_singleton.mp hx))
  · subst hxid
    exact absurd (hnew.symm.trans hx) Bool.false_ne_true
  · dsimp only
    rw [Function.update_of_ne hxid]
    exact ⟨List.mem_append_left _ (hw.won x hx).1, (hw.won x hx).2⟩
  · exact hxid ▸ hid
  · dsimp only at hx
    rw [Function.update_of_ne hxid] at hx
    exact hw.cancelled x hx

theorem Winner.ship (hw : Winner e issued handshakes shipped) {id : WorkId} (hwon : (e.works id).runningNotified = true)
    (gpuId : Option GpuId) (w : WorkerId) : Winner (e.ship env id gpuId w) issued handshakes (shipped ++ [id]) := by
  have hnotified (x : WorkId) := (@ship_flags _ env e id gpuId w x).1
  refine ⟨hw.once, fun x hx => ?_, fun x hx => hw.won x ((hnotified x).symm.trans hx), fun x hx => ?_, fun x hx => ?_,
    hw.cancelled⟩
  · exact ⟨(hw.called x hx).1, (hw.called x hx).2.imp_left (hnotified x).trans⟩
  · rw [hnotified]
    rcases List.mem_append.mp hx with hx | hx
    · exact hw.sent x hx
    · exact List.mem_singleton.mp hx ▸ hwon
  · rcases mem_insertKey.mp hx with hx | hx
    · have hx : x ∈ e.inFlight := hx
      exact List.mem_append_left _ (hw.flight x hx)
    · exact List.mem_append_right _ (List.mem_singleton.mpr hx)

end Executor

end AdaptiveExecutor
