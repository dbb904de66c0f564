import AdaptiveExecutor.Executor.Pool

/-!
# Where the tasks are

The executor keeps the ledger of the futures that `submit` has handed out: a task is queued (`pending`), in flight
(`in_flight`), or in the hand of the thread that is about to settle or to requeue it.

* `Executor.book`, `System.book` : the ledger;
* `Marked` : the flags of a task agree with its future and its place;
* `maybeDispatch_ok`, `Reachable.maybeDispatch_ok` : a cycle raises only when the start of a worker does;
* `DispatchStep.moves`, `run_moves`, `Stepped.moves` : a small step of a cycle, a section and an event are runs of moves
  of the ledger, unless a task of a worker that has been stopped is lost (`Drops`);
* `Sound`, `Reachable.sound` : in every reachable state no task is in two places;
* `Serving`, `Reachable.serving` : while nobody has called `shutdown`, none is lost;
* `no_task_lost` : before shutdown every accepted task is in one place.
-/

namespace AdaptiveExecutor
open Ledger (Book Future Move Run Tidy Placed)
open Relation (ReflTransGen)

namespace Executor
variable {α : Type} {env : Env} {e e' : Executor α} {accepted held : List WorkId}

def book (e : Executor α) (accepted held : List WorkId) : Book WorkId (Outcome α) :=
  ⟨accepted, e.pending, e.inFlight, held, e.futures⟩

/-- The flags of a task: the handshake has been won exactly when its future runs or has run, and the result is
ignored only after the task has left. -/
structure Marked (e : Executor α) (accepted : List WorkId) : Prop where
  notified : ∀ id, (e.works id).runningNotified = true → e.futures id = .running ∨ (e.futures id).told = true
  running : ∀ id, e.futures id = .running → (e.works id).runningNotified = true
  ignored : ∀ id, (e.works id).resultIgnored = true → id ∈ accepted ∧ id ∉ e.pending ∧ id ∉ e.inFlight

theorem insertKey_of_not_mem {κ : Type} [DecidableEq κ] {ks : List κ} {k : κ} (h : k ∉ ks) :
    insertKey ks k = ks ++ [k] := if_neg h

/-! ## Flags -/

theorem Marked.of_same (h : Marked e accepted)
    (hworks : ∀ id, (e'.works id).runningNotified = (e.works id).runningNotified ∧
      (e'.works id).resultIgnored = (e.works id).resultIgnored)
    (hfutures : e'.futures = e.futures) (hpending : e'.pending ⊆ e.pending) (hflight : e'.inFlight ⊆ e.inFlight) :
    Marked e' accepted := by
  refine ⟨fun id hid => ?_, fun id hid => ?_, fun id hid => ?_⟩
  · rw [hfutures]
    exact h.notified id ((hworks id).1 ▸ hid)
  · rw [(hworks id).1]
    exact h.running id (hfutures ▸ hid)
  · obtain ⟨hacc, hp, hf⟩ := h.ignored id ((hworks id).2 ▸ hid)
    exact ⟨hacc, fun hm => hp (hpending hm), fun hm => hf (hflight hm)⟩

/-- A future that does not run gets another state in which it does not, and stays told when it was. -/
theorem Marked.of_update (h : Marked e accepted) {id : WorkId} {f : Future (Outcome α)}
    (hnotified : e.futures id = .running ∨ (e.futures id).told = true → f = .running ∨ f.told = true)
    (hrunning : f = .running → e.futures id = .running) :
    Marked { e with futures := Function.update e.futures id f } accepted := by
  refine ⟨fun x hx => ?_, fun x hx => ?_, h.ignored⟩
  · dsimp only
    by_cases hxid : x = id
    · subst hxid
      rw [Function.update_self]
      exact hnotified (h.notified x hx)
    · rw [Function.update_of_ne hxid]
      exact h.notified x hx
  · dsimp only at hx
    by_cases hxid : x = id
    · subst hxid
      rw [Function.update_self] at hx
      exact h.running x (hrunning hx)
    · rw [Function.update_of_ne hxid] at hx
      exact h.running x hx

theorem Marked.settle (h : Marked e accepted) (id : WorkId) (o : Outcome α) : Marked (e.settle id o) accepted := by
  refine h.of_update (fun hf => .inr (Future.settle_told hf)) fun hf => ?_
  have hdone := Future.settle_done o (e.futures id)
  rw [hf] at hdone
  cases hdone

theorem Marked.start (h : Marked e accepted) (id : WorkId) : Marked (e.start id) accepted := by
  have hignored := modifyWork_keeps e (f := fun w => { w with runningNotified := true }) (·.resultIgnored)
    (fun _ => rfl) id
  refine ⟨fun x hx => ?_, fun x hx => ?_, fun x hx => h.ignored x (hignored x ▸ hx)⟩ <;> by_cases hxid : x = id
  · exact .inl (hxid ▸ Function.update_self _ _ _)
  · have hworks : (e.start id).works x = e.works x := Function.update_of_ne hxid _ _
    have hfutures : (e.start id).futures x = e.futures x := Function.update_of_ne hxid _ _
    rw [hfutures]
    exact h.notified x (hworks ▸ hx)
  · subst hxid
    exact congrArg PendingWork.runningNotified (Function.update_self x _ e.works)
  · have hworks : (e.start id).works x = e.works x := Function.update_of_ne hxid _ _
    have hfutures : (e.start id).futures x = e.futures x := Function.update_of_ne hxid _ _
    rw [hworks]
    exact h.running x (hfutures ▸ hx)

/-! ## A dispatch cycle -/

theorem Started.marked {id : WorkId} (hs : e.Started id e') (h : Marked e accepted) : Marked e' accepted := by
  rcases hs with ⟨-, rfl⟩ | ⟨-, -, rfl⟩
  exacts [h, h.start id]

theorem Started.frame {id : WorkId} (hs : e.Started id e') (h : Marked e accepted)
    (hqueued : (e.futures id).told = false) :
    (e.futures id).done = false ∧ e' = { e with works := e'.works, futures := Function.update e.futures id .running } := by
  rcases hs with ⟨hn, rfl⟩ | ⟨-, hf, rfl⟩
  · have hrun : e'.futures id = .running := (h.notified id hn).resolve_right (by rw [hqueued]; exact Bool.false_ne_true)
    refine ⟨by rw [hrun]; rfl, ?_⟩
    rw [← hrun, Function.update_eq_self]
  · exact ⟨by rw [hf]; rfl, rfl⟩

theorem Started.ship_moves {id : WorkId} {gpuId : Option GpuId} {w : WorkerId} (hs : e.Started id e') (h : Marked e accepted)
    (htidy : Tidy (e.book accepted held)) (hid : id ∈ e.pending) : Run (e.book accepted held)
      (book { e'.ship env id gpuId w with pending := e.pending.erase id } accepted held) := by
  obtain ⟨hdone, he'⟩ := hs.frame h (htidy.queued id hid)
  have hflight : id ∉ e.inFlight := fun hm => htidy.not_mem_flight hid (List.mem_append_left _ hm)
  rw [he']
  change Run (e.book accepted held) ⟨accepted, _, insertKey e.inFlight id, held, _⟩
  rw [insertKey_of_not_mem hflight]
  exact .single (.ship hid hdone)

theorem ship_flags (e : Executor α) (id : WorkId) (gpuId : Option GpuId) (w : WorkerId) (x : WorkId) :
    ((e.ship env id gpuId w).works x).runningNotified = (e.works x).runningNotified ∧
      ((e.ship env id gpuId w).works x).resultIgnored = (e.works x).resultIgnored := by
  have hflags := modifyWork_keeps e (f := fun work => captureBaseline env e.clock (e.slots w).process.pid gpuId
    { work with assignedGpuId := gpuId, workerId := some w, startedAt := some e.clock })
    (fun work => (work.runningNotified, work.resultIgnored)) (fun _ => rfl) id x
  exact ⟨congrArg Prod.fst hflags, congrArg Prod.snd hflags⟩

theorem Started.ship_marked {id : WorkId} {gpuId : Option GpuId} {w : WorkerId} (hs : e.Started id e') (h : Marked e accepted)
    (hid : id ∈ e.pending) : Marked { e'.ship env id gpuId w with pending := e.pending.erase id } accepted := by
  have hpending : e'.pending = e.pending := by
    rcases hs with ⟨-, rfl⟩ | ⟨-, -, rfl⟩ <;> rfl
  have hmark := hs.marked h
  have hflags := @ship_flags _ env e' id gpuId w
  refine ⟨fun x hx => hmark.notified x ((hflags x).1.symm.trans hx), fun x hx => (hflags x).1.trans (hmark.running x hx),
    fun x hx => ?_⟩
  obtain ⟨hacc, hp, hf⟩ := hmark.ignored x ((hflags x).2.symm.trans hx)
  rw [hpending] at hp
  refine ⟨hacc, fun hm => hp (List.erase_subset hm), fun hm => ?_⟩
  rcases mem_insertKey.mp hm with hm | rfl
  · have hm : x ∈ e'.inFlight := hm
    exact hf hm
  · exact hp hid

theorem DispatchStep.moves {decided : List WorkId} (h : DispatchStep env decided e e') (hmark : Marked e accepted)
    (htidy : Tidy (e.book accepted held)) : Run (e.book accepted held) (e'.book accepted held) := by
  cases h with
  | refresh h =>
    obtain ⟨_, _, _, -, rfl⟩ := h
    exact .refl
  | fail hid error => exact .single (.drop hid (Future.settle_done _ _) fun r => Future.settle_outcome)
  | retire => exact .refl
  | spawn => exact .refl
  | @drop id hid hf =>
    refine .single (.drop hid rfl fun r hr => ?_)
    have hr : (e.futures id).outcome = some r := hr
    rw [hf] at hr
    exact hr
  | ship gpuId hid _ _ _ hs => exact hs.ship_moves hmark htidy hid

theorem DispatchStep.marked {decided : List WorkId} (h : DispatchStep env decided e e') (hmark : Marked e accepted) :
    Marked e' accepted := by
  cases h with
  | refresh h =>
    obtain ⟨_, _, _, hworks, rfl⟩ := h
    exact hmark.of_same (fun id => ⟨(hworks id).runningNotified, (hworks id).resultIgnored⟩) rfl (List.Subset.refl _)
      (List.Subset.refl _)
  | fail hid error =>
    exact (hmark.settle _ _).of_same (fun _ => ⟨rfl, rfl⟩) rfl List.erase_subset (List.Subset.refl _)
  | retire => exact hmark.of_same (fun _ => ⟨rfl, rfl⟩) rfl (List.Subset.refl _) (List.Subset.refl _)
  | spawn => exact hmark.of_same (fun _ => ⟨rfl, rfl⟩) rfl (List.Subset.refl _) (List.Subset.refl _)
  | drop hid hf =>
    refine (hmark.of_update (fun _ => .inr rfl) fun h => ?_).of_same (fun _ => ⟨rfl, rfl⟩) rfl List.erase_subset
      (List.Subset.refl _)
    cases h
  | ship gpuId hid _ _ _ hs => exact hs.ship_marked hmark hid

theorem DispatchSteps.moves {decided : List WorkId} (h : DispatchSteps env decided e e') (hmark : Marked e accepted)
    (htidy : Tidy (e.book accepted held)) :
    Run (e.book accepted held) (e'.book accepted held) ∧ Marked e' accepted := by
  induction h with
  | refl => exact ⟨.refl, hmark⟩
  | tail _ h ih => exact ⟨ih.1.trans (h.moves ih.2 (Ledger.run_tidy ih.1 htidy)), h.marked ih.2⟩

def Shippable (e : Executor α) (id : WorkId) : Prop :=
  (e.futures id).told = false ∧ (e.futures id = .running → (e.works id).runningNotified = true)

theorem acquireWorker_ok (hspawn : ∀ w, (env.spawnPid w).isSome = true) (e : Executor α) (gpuId : Option GpuId) :
    ∃ e' o, e.acquireWorker env gpuId = .ok (e', o) ∧ e'.works = e.works ∧ e'.futures = e.futures := by
  have hok (e : Executor α) : ∃ e' w, e.spawnWorker env gpuId = .ok (e', w) ∧ e'.works = e.works ∧
      e'.futures = e.futures := by
    obtain ⟨pid, hpid⟩ := Option.isSome_iff_exists.mp (hspawn e.nextWorkerId)
    refine ⟨e.spawned pid gpuId, e.nextWorkerId, ?_, rfl, rfl⟩
    unfold spawnWorker
    dsimp only
    rw [hpid]
    rfl
  unfold acquireWorker
  split
  · exact ⟨e, _, rfl, rfl, rfl⟩
  split_ifs
  · split
    · exact ⟨e, _, rfl, rfl, rfl⟩
    · rename_i victim _
      obtain ⟨e', w, h, hworks, hfutures⟩ := hok (e.retireWorker victim)
      rw [h]
      exact ⟨e', some w, rfl, hworks, hfutures⟩
  · obtain ⟨e', w, h, hworks, hfutures⟩ := hok e
    rw [h]
    exact ⟨e', some w, rfl, hworks, hfutures⟩

theorem handshake_ok (env : Env) {id : WorkId} (h : e.Shippable id) (gpuId : Option GpuId) (w : WorkerId) :
    ∃ e', e.handshake env id gpuId w = .ok e' ∧ ∀ x ≠ id, e.Shippable x → e'.Shippable x := by
  have hother {e' : Executor α} {x : WorkId} (hworks : e'.works x = e.works x) (hfutures : e'.futures x = e.futures x)
      (hx : e.Shippable x) : e'.Shippable x := by
    unfold Shippable
    rwa [hworks, hfutures]
  obtain ⟨htold, hrunning⟩ := h
  unfold handshake
  split_ifs with hn
  · exact ⟨_, rfl, fun x hx => hother (Function.update_of_ne hx _ _) rfl⟩
  · cases hf : e.futures id with
    | pending =>
      refine ⟨_, rfl, fun x hx => hother ?_ (Function.update_of_ne hx _ _)⟩
      exact (Function.update_of_ne hx _ _).trans (Function.update_of_ne hx _ _)
    | cancelled => exact ⟨_, rfl, fun x hx => hother rfl (Function.update_of_ne hx _ _)⟩
    | running => exact absurd (hrunning hf) hn
    | cancelledAndNotified | finished =>
      rw [hf] at htold
      cases htold

theorem dispatchLoop_ok (hspawn : ∀ w, (env.spawnPid w).isSome = true) : ∀ (ds : List DispatchDecision) (e : Executor α)
    (removed : List WorkId), (ds.map DispatchDecision.pendingId).Nodup → (∀ d ∈ ds, e.Shippable d.pendingId) →
      ∃ r, dispatchLoop env ds e removed = .ok r
  | [], e, removed, _, _ => ⟨(e, removed), rfl⟩
  | d :: ds, e, removed, hnodup, hship => by
    rw [List.map_cons, List.nodup_cons] at hnodup
    obtain ⟨hd, hds⟩ := List.forall_mem_cons.mp hship
    unfold dispatchLoop
    split_ifs
    · obtain ⟨e₁, o, hacquire, hworks, hfutures⟩ := acquireWorker_ok hspawn e d.gpuId
      have hsame (x : WorkId) (h : e.Shippable x) : e₁.Shippable x := by
        unfold Shippable
        rwa [hworks, hfutures]
      rw [hacquire]
      cases o with
      | none => exact dispatchLoop_ok hspawn ds e₁ removed hnodup.2 fun d' hd' => hsame _ (hds d' hd')
      | some w =>
        obtain ⟨e₂, hhand, hkeeps⟩ := handshake_ok env (hsame _ hd) d.gpuId w
        dsimp only
        rw [hhand]
        refine dispatchLoop_ok hspawn ds e₂ _ hnodup.2 fun d' hd' => hkeeps _ (fun he => hnodup.1 ?_) (hsame _ (hds d' hd'))
        exact he ▸ List.mem_map_of_mem hd'
    · exact dispatchLoop_ok hspawn ds e removed hnodup.2 hds

theorem maybeDispatch_ok (hspawn : ∀ w, (env.spawnPid w).isSome = true) (hmark : Marked e accepted)
    (htidy : Tidy (e.book accepted held)) : ∃ e', e.maybeDispatch env = .ok e' := by
  have hnodup : e.pending.Nodup := htidy.nodup.of_append_left
  have hrefresh := buildDispatchPlan_refreshed env e.prepare
  have hsteps := (prepare_steps env [] hnodup).tail (.refresh hrefresh)
  have hpending : (e.prepare.buildDispatchPlan env).1.pending = (e.planned env).pending := by
    obtain ⟨_, _, _, -, h⟩ := hrefresh
    obtain ⟨_, _, _, -, h'⟩ := refreshObservations_refreshed env e.prepare e.prepare.clock
    rw [h, planned, h']
  unfold maybeDispatch
  dsimp only
  split_ifs
  · exact ⟨_, rfl⟩
  · exact ⟨_, rfl⟩
  · exact ⟨_, rfl⟩
  · have hdecided : ((e.prepare.buildDispatchPlan env).2.decisions.map DispatchDecision.pendingId).Sublist
        (e.prepare.buildDispatchPlan env).1.pending := hpending ▸ decided_sublist env e
    obtain ⟨hrun, hmark'⟩ := DispatchSteps.moves hsteps hmark htidy
    have htidy' := Ledger.run_tidy hrun htidy
    obtain ⟨r, hr⟩ := dispatchLoop_ok hspawn (e.prepare.buildDispatchPlan env).2.decisions
      (e.prepare.buildDispatchPlan env).1 [] (htidy'.nodup.of_append_left.sublist hdecided) fun d hd =>
        ⟨htidy'.queued _ (hdecided.subset (List.mem_map_of_mem hd)), hmark'.running _⟩
    rw [hr]
    exact ⟨_, rfl⟩

/-! ## Sections -/

/-- The task that is lost when a dead worker turns out to have been stopped. -/
def Drops (e : Executor α) (m : Section α) (id : WorkId) : Prop :=
  ∃ w, m = .takeLost w ∧ (e.slots w).intentionallyStopped = true ∧ (e.slots w).currentWorkId = some id ∧
    id ∈ e.inFlight

/-- What `_handle_timeout` does to the tasks: nothing, or one leaves flight, perhaps with its result ignored. -/
theorem handleTimeout_cases (e : Executor α) (id : WorkId) :
    e.handleTimeout id = (e, []) ∨
      id ∈ e.inFlight ∧ (e.handleTimeout id).2.filterMap Section.owns = [id] ∧
        ∃ slots workers retiring works, (e.handleTimeout id).1 =
          { e with
            slots := slots
            workers := workers
            retiring := retiring
            works := works
            inFlight := e.inFlight.erase id } ∧
          (works = e.works ∨ works = (e.modifyWork id fun w => { w with resultIgnored := true }).works) := by
  unfold handleTimeout
  split_ifs with hcond
  · exact .inl rfl
  rw [not_or, not_not] at hcond
  refine .inr ⟨hcond.1, ?_⟩
  dsimp only
  split
  · split_ifs
    · exact ⟨rfl, _, _, _, _, rfl, .inl rfl⟩
    · exact ⟨rfl, _, _, _, _, rfl, .inl rfl⟩
  · split
    · exact ⟨rfl, _, _, _, _, rfl, .inr rfl⟩
    · split_ifs
      · exact ⟨rfl, _, _, _, _, rfl, .inr rfl⟩
      · exact ⟨rfl, _, _, _, _, rfl, .inr rfl⟩

theorem ignored_keeps {β : Type} (g : PendingWork → β) (hg : ∀ w, g { w with resultIgnored := true } = g w) {id : WorkId}
    {works : WorkId → PendingWork}
    (h : works = e.works ∨ works = (e.modifyWork id fun w => { w with resultIgnored := true }).works) (x : WorkId) :
    g (works x) = g (e.works x) := by
  rcases h with rfl | rfl
  exacts [rfl, modifyWork_keeps e g hg id x]

theorem failPendingFutures_moves (held : List WorkId) (hmark : Marked e accepted) (hnodup : e.pending.Nodup) :
    Run (e.book accepted held) (e.failPendingFutures.book accepted held) ∧ Marked e.failPendingFutures accepted := by
  have drops : ∀ (ids : List WorkId) (e : Executor α), Marked e accepted → ids.Nodup →
      Run ⟨accepted, ids, e.inFlight, held, e.futures⟩
          ⟨accepted, [], e.inFlight, held, (ids.foldl (fun e id => e.settle id (.exception .shutDown)) e).futures⟩ ∧
        Marked { ids.foldl (fun e id => e.settle id (.exception .shutDown)) e with pending := [] } accepted ∧
        (ids.foldl (fun e id => e.settle id (.exception .shutDown)) e).inFlight = e.inFlight := by
    intro ids
    induction ids with
    | nil =>
      exact fun e hmark _ => ⟨.refl, hmark.of_same (fun _ => ⟨rfl, rfl⟩) rfl (List.nil_subset _) (List.Subset.refl _), rfl⟩
    | cons id ids ih =>
      intro e hmark hnodup
      obtain ⟨hrun, hmark', hflight⟩ := ih _ (hmark.settle id (.exception .shutDown)) (List.nodup_cons.mp hnodup).2
      refine ⟨.head ?_ hrun, hmark', hflight⟩
      have hmove := Move.drop (b := ⟨accepted, id :: ids, e.inFlight, held, e.futures⟩) (x := id)
        List.mem_cons_self (Future.settle_done (.exception .shutDown) (e.futures id)) fun r => Future.settle_outcome
      rwa [List.erase_cons_head] at hmove
  obtain ⟨hrun, hmark', hflight⟩ := drops e.pending e hmark hnodup
  refine ⟨?_, hmark'⟩
  unfold failPendingFutures book
  dsimp only
  rw [hflight]
  exact hrun

/-- What a section does to the ledger and to the flags. -/
structure Moves (e : Executor α) (m : Section α) (accepted held : List WorkId) (e' : Executor α)
    (body : List (Section α)) : Prop where
  run : Run (e.book accepted (m.owns.toList ++ held)) (e'.book accepted (body.filterMap Section.owns ++ held)) ∨
    ∃ id, e.Drops m id ∧ e'.book accepted (body.filterMap Section.owns ++ held) =
      { e.book accepted (m.owns.toList ++ held) with flight := e.inFlight.erase id }
  marked : Marked e' accepted

theorem Moves.still {m : Section α} {body : List (Section α)} (hmark : Marked e accepted)
    (hbook : e'.book accepted held = e.book accepted held) (hworks : e'.works = e.works)
    (howns : body.filterMap Section.owns = m.owns.toList) : Moves e m accepted held e' body := by
  have hpending : e'.pending = e.pending := congrArg Book.queue hbook
  have hflight : e'.inFlight = e.inFlight := congrArg Book.flight hbook
  have hfutures : e'.futures = e.futures := congrArg Book.future hbook
  refine ⟨.inl ?_, hmark.of_same (fun id => by rw [hworks]; exact ⟨rfl, rfl⟩) hfutures ?_ ?_⟩
  · rw [howns, book, book, hpending, hflight, hfutures]
  · rw [hpending]
    exact List.Subset.refl _
  · rw [hflight]
    exact List.Subset.refl _

theorem Moves.take {m : Section α} {body : List (Section α)} {id : WorkId} (hid : id ∈ e.inFlight)
    (hbook : e'.book accepted held = (e.popInFlight id).book accepted held) (howns : m.owns = none)
    (hbody : body.filterMap Section.owns = [id]) (hmark : Marked e' accepted) :
    Moves e m accepted held e' body := by
  have hpending : e'.pending = e.pending := congrArg Book.queue hbook
  have hflight : e'.inFlight = e.inFlight.erase id := congrArg Book.flight hbook
  have hfutures : e'.futures = e.futures := congrArg Book.future hbook
  refine ⟨.inl ?_, hmark⟩
  rw [howns, hbody, book, book, hpending, hflight, hfutures]
  exact .single (.take hid)

theorem popInFlight_marked (hmark : Marked e accepted) (id : WorkId) : Marked (e.popInFlight id) accepted :=
  hmark.of_same (fun _ => ⟨rfl, rfl⟩) rfl (List.Subset.refl _) List.erase_subset

theorem processResult_moves (r : WorkResult α) (hmark : Marked e accepted) :
    Moves e (.processResult r) accepted held (e.processResult r).1 (e.processResult r).2 := by
  obtain ⟨slots, workers, retiring, hframe⟩ := clearWorker_frame e r
  unfold processResult
  dsimp only
  rw [hframe]
  split_ifs with hflight hignored
  · exact absurd hflight (hmark.ignored r.id hignored).2.2
  · refine .take hflight rfl rfl rfl ?_
    exact hmark.of_same (fun _ => ⟨rfl, rfl⟩) rfl (List.Subset.refl _) List.erase_subset
  · exact .still hmark rfl rfl rfl

theorem takeLost_moves (w : WorkerId) (hmark : Marked e accepted) :
    Moves e (.takeLost w) accepted held (e.takeLost w).1 (e.takeLost w).2 := by
  unfold takeLost
  split
  · exact .still hmark rfl rfl rfl
  · rename_i id hcur
    dsimp only
    by_cases hid : id ∈ e.inFlight
    · split_ifs with hstopped
      · exact ⟨.inr ⟨id, ⟨w, rfl, hstopped, hcur, hid⟩, rfl⟩, popInFlight_marked hmark id⟩
      · exact .take hid rfl rfl rfl (popInFlight_marked hmark id)
      · exact .take hid rfl rfl rfl (popInFlight_marked hmark id)
    · have hpop : e.popInFlight id = e := by rw [popInFlight, List.erase_of_not_mem hid]
      rw [hpop]
      split_ifs
      · exact .still hmark rfl rfl rfl
      · exact .still hmark rfl rfl rfl

theorem handleTimeout_moves (id : WorkId) (hmark : Marked e accepted) (htidy : Tidy (e.book accepted held)) :
    Moves e (.handleTimeout id) accepted held (e.handleTimeout id).1 (e.handleTimeout id).2 := by
  rcases handleTimeout_cases e id with hsame | ⟨hid, howns, slots, workers, retiring, works, heq, hworks⟩
  · rw [hsame]
    exact .still hmark rfl rfl rfl
  · refine .take hid (by rw [heq]; rfl) rfl howns ?_
    rw [heq]
    have hnotified := ignored_keeps PendingWork.runningNotified (fun _ => rfl) hworks
    refine ⟨fun x hx => hmark.notified x (hnotified x ▸ hx), fun x hx => (hnotified x).trans (hmark.running x hx),
      fun x hx => ?_⟩
    by_cases hxid : x = id
    · -- its result is ignored from now on: it has left the places
      subst hxid
      have hflight : x ∈ e.pending ++ (e.inFlight ++ held) :=
        List.mem_append_right _ (List.mem_append_left _ hid)
      refine ⟨htidy.known x hflight, fun hp => htidy.not_mem_flight hp (List.mem_append_left _ hid), ?_⟩
      exact List.Nodup.not_mem_erase (htidy.nodup.of_append_right.of_append_left)
    · have hignored : works x = e.works x := by
        rcases hworks with rfl | rfl
        exacts [rfl, (modifyWork_works e id _ x).trans (if_neg hxid)]
      obtain ⟨hacc, hp, hf⟩ := hmark.ignored x (hignored ▸ hx)
      exact ⟨hacc, hp, fun hm => hf (List.erase_subset hm)⟩

theorem requeue_moves (id : WorkId) (hmark : Marked e accepted) :
    Moves e (.requeue id) accepted held (e.requeue id) [] := by
  refine ⟨.inl (.single ?_), fun x hx => ?_, fun x hx => ?_, fun x hx => ?_⟩
  · have hmove := Move.requeue (b := e.book accepted (id :: held)) (x := id) List.mem_cons_self
    change Move _ { e.book accepted (id :: held) with queue := _, held := (id :: held).erase id } at hmove
    rwa [List.erase_cons_head] at hmove
  · exact hmark.notified x
      ((modifyWork_keeps e PendingWork.runningNotified (f := retried) (fun _ => rfl) id x).symm.trans hx)
  · exact (modifyWork_keeps e PendingWork.runningNotified (f := retried) (fun _ => rfl) id x).trans (hmark.running x hx)
  · by_cases hxid : x = id
    · subst hxid
      change ((e.modifyWork x retried).works x).resultIgnored = true at hx
      rw [modifyWork_works, if_pos rfl] at hx
      cases hx
    · change ((e.modifyWork id retried).works x).resultIgnored = true at hx
      rw [modifyWork_works, if_neg hxid] at hx
      obtain ⟨hacc, hp, hf⟩ := hmark.ignored x hx
      exact ⟨hacc, fun hm => hp ((List.mem_cons.mp hm).resolve_left hxid), hf⟩

theorem settle_moves (id : WorkId) (o : Outcome α) (hmark : Marked e accepted) :
    Moves e (.settle id o) accepted held (e.settle id o) [] := by
  refine ⟨.inl (.single ?_), hmark.settle id o⟩
  have hmove := Move.settle (b := e.book accepted (id :: held)) (x := id) o List.mem_cons_self
  change Move _ { e.book accepted (id :: held) with held := (id :: held).erase id, future := _ } at hmove
  rwa [List.erase_cons_head] at hmove

/-- **What a section does to the ledger and to the flags.** -/
theorem run_moves {m : Section α} {body : List (Section α)} (h : e.run env m = some (e', body))
    (hmark : Marked e accepted) (htidy : Tidy (e.book accepted (m.owns.toList ++ held))) :
    Moves e m accepted held e' body := by
  cases m with
  | maybeDispatch =>
    obtain ⟨hok, rfl⟩ := run_maybeDispatch h
    have hsteps := maybeDispatch_steps htidy.nodup.of_append_left hok
    obtain ⟨hrun, hmark'⟩ := hsteps.moves hmark htidy
    exact ⟨.inl hrun, hmark'⟩
  | processResult r =>
    obtain ⟨rfl, rfl⟩ := Prod.mk.inj (Option.some.inj h)
    exact processResult_moves r hmark
  | takeLost w =>
    obtain ⟨rfl, rfl⟩ := Prod.mk.inj (Option.some.inj h)
    exact takeLost_moves w hmark
  | handleTimeout id =>
    obtain ⟨rfl, rfl⟩ := Prod.mk.inj (Option.some.inj h)
    exact handleTimeout_moves id hmark htidy
  | requeue id =>
    obtain ⟨rfl, rfl⟩ := Prod.mk.inj (Option.some.inj h)
    exact requeue_moves id hmark
  | settle id o =>
    obtain ⟨rfl, rfl⟩ := Prod.mk.inj (Option.some.inj h)
    exact settle_moves id o hmark
  | failPendingFutures =>
    obtain ⟨rfl, rfl⟩ := Prod.mk.inj (Option.some.inj h)
    obtain ⟨hrun, hmark'⟩ := failPendingFutures_moves held hmark htidy.nodup.of_append_left
    exact ⟨.inl hrun, hmark'⟩
  | penalizeEstimate id =>
    obtain ⟨rfl, rfl⟩ := Prod.mk.inj (Option.some.inj h)
    have hflags := modifyWork_keeps e (f := fun w => { w with estimate := penalized w.estimate, exclusive := true })
      (fun w => (w.runningNotified, w.resultIgnored)) (fun _ => rfl) id
    refine ⟨.inl .refl, hmark.of_same (fun x => ?_) rfl (List.Subset.refl _) (List.Subset.refl _)⟩
    exact ⟨congrArg Prod.fst (hflags x), congrArg Prod.snd (hflags x)⟩
  | escalateKill w =>
    obtain ⟨rfl, rfl⟩ := run_eq h
    obtain ⟨slots, hframe⟩ := escalateKill_frame env e w
    rw [hframe]
    exact .still hmark rfl rfl rfl
  | stopAllWorkers =>
    have howns := run_filterMap Section.owns h fun m hm => by cases hm <;> rfl
    obtain ⟨rfl, -⟩ := run_eq (r := e.stopAllWorkers) h
    obtain ⟨slots, hframe⟩ := stopAllWorkers_frame e
    rw [hframe]
    exact .still hmark rfl rfl howns
  | getNowait w results =>
    have howns := run_filterMap Section.owns h fun m hm => by cases hm <;> rfl
    obtain ⟨rfl, -⟩ := run_eq (r := e.getNowait w results) h
    unfold getNowait
    split
    · exact .still hmark rfl rfl howns
    · split_ifs
      exacts [.still hmark rfl rfl howns, .still hmark rfl rfl howns]
  | checkWorkers | sweep | readClock | scanTimeouts | readQueue | testInFlight | finalDrain | record | discardQueue | shutUnstarted | stopAccepting
  | stopThreads | pruneRetiring | leave =>
    have howns := run_filterMap Section.owns h fun m hm => by cases hm <;> rfl
    obtain ⟨rfl, -⟩ := run_eq h
    exact .still hmark rfl rfl howns

end Executor

/-! ## Events -/

namespace System
open Executor (run_moves)
variable {α : Type} {s s' : System α} {e : Event α}

def book (s : System α) : Book WorkId (Outcome α) := s.executor.book s.accepted s.held

/-- No task is in two places, flags and futures agree, and nobody has touched a task that has not been accepted. -/
structure Sound (s : System α) : Prop where
  tidy : Tidy s.book
  marked : s.executor.Marked s.accepted
  unknown : ∀ id ∉ s.accepted, s.executor.futures id = .pending
  fresh : (s.accepted ++ s.submitting).Nodup
  issued : ∀ id ∈ s.accepted ++ s.submitting, id ∈ s.issued

/-- The event loses a task of a worker that has been stopped. -/
def Drops (s : System α) (e : Event α) (id : WorkId) : Prop :=
  ∃ t env m rest, e = .act t env ∧ s.hands t = m :: rest ∧ s.executor.Drops m id

theorem shutdownSections_owns (started wait : Bool) :
    ∀ m ∈ (Executor.shutdownSections started wait : List (Section α)), m.owns = none := by
  cases started <;> cases wait <;> simp [Executor.shutdownSections, Section.owns]

theorem Sound.tidy_of_perm (hs : Sound s) {held : List WorkId} (h : s.held.Perm held) :
    Tidy (s.executor.book s.accepted held) :=
  Move.tidy (.reorder h.symm) hs.tidy

/-- **An event is a run of moves of the ledger, unless it drops a task.** -/
theorem Stepped.moves (h : Stepped s e s') (hs : Sound s) : s'.executor.Marked s'.accepted ∧
    (Run s.book s'.book ∨ ∃ id ∈ s.book.flight, s.Drops e id ∧ Run (s.book.lose id) s'.book) := by
  cases h with
  | outside => exact ⟨hs.marked.of_same (fun _ => ⟨rfl, rfl⟩) rfl (List.Subset.refl _) (List.Subset.refl _), .inl .refl⟩
  | @submit id r reading work profiles _ hid hwork =>
    have hnew : id ∉ s.accepted := fun h => hid (hs.issued id (List.mem_append_left _ h))
    have hfutures : Function.update s.executor.futures id .pending = s.executor.futures := by
      rw [← hs.unknown id hnew, Function.update_eq_self]
    rw [book, book, hfutures]
    refine ⟨⟨fun x hx => ?_, fun x hx => ?_, fun x hx => ?_⟩, .inl .refl⟩ <;> by_cases hxid : x = id
    · subst hxid
      dsimp only at hx
      rw [Function.update_self, hwork.runningNotified] at hx
      cases hx
    · dsimp only at hx
      rw [Function.update_of_ne hxid] at hx
      exact hs.marked.notified x hx
    · subst hxid
      exact absurd ((hs.unknown x hnew).symm.trans hx) (by simp)
    · dsimp only
      rw [Function.update_of_ne hxid]
      exact hs.marked.running x hx
    · subst hxid
      dsimp only at hx
      rw [Function.update_self, hwork.resultIgnored] at hx
      cases hx
    · dsimp only at hx
      rw [Function.update_of_ne hxid] at hx
      exact hs.marked.ignored x hx
  | @append id hid =>
    have hnew : id ∉ s.accepted := fun h => (List.nodup_append.mp hs.fresh).2.2 id h id hid rfl
    refine ⟨⟨hs.marked.notified, hs.marked.running, fun x hx => ?_⟩, .inl (.single (.accept hnew (hs.unknown id hnew)))⟩
    obtain ⟨hacc, hp, hf⟩ := hs.marked.ignored x hx
    refine ⟨List.mem_append_left _ hacc, fun hm => ?_, hf⟩
    rcases List.mem_append.mp hm with hm | hm
    · exact hp hm
    · exact hnew (List.mem_singleton.mp hm ▸ hacc)
  | @cancel id hid =>
    exact ⟨hs.marked.of_update Future.cancel_told Future.of_cancel_running, .inl (.single (.cancel hid))⟩
  | process => exact ⟨hs.marked.of_same (fun _ => ⟨rfl, rfl⟩) rfl (List.Subset.refl _) (List.Subset.refl _), .inl .refl⟩
  | @begin _ t body _ hand hbody =>
    have hhands : Function.update s.hands t body = Function.update s.hands t (s.hands t ++ body) := by
      rw [hand, List.nil_append]
    exact ⟨hs.marked, .inl (.single (.reorder (filterMap_begin Section.owns _ (fun m hm => Section.owns_of_begins (hbody m hm)) hhands)))⟩
  | @deliver t w i r _ hand =>
    have hhands : Function.update s.hands t [.processResult r] =
        Function.update s.hands t (s.hands t ++ [.processResult r]) := by rw [hand, List.nil_append]
    exact ⟨hs.marked.of_same (fun _ => ⟨rfl, rfl⟩) rfl (List.Subset.refl _) (List.Subset.refl _),
      .inl (.single (.reorder (filterMap_begin Section.owns _ (fun m hm => by rw [List.mem_singleton.mp hm]; rfl) hhands)))⟩
  | @act t env m rest r hand hrun =>
    obtain ⟨others, hheld, hheld'⟩ := filterMap_act Section.owns { s with
      executor := r.1, hands := Function.update s.hands t (r.2 ++ rest), returned := s.returned || m.returns } hand rfl
    obtain ⟨hrun', hmark⟩ := run_moves hrun hs.marked (hs.tidy_of_perm hheld)
    refine ⟨hmark, ?_⟩
    rcases hrun' with hrun' | ⟨id, hdrops, hbook⟩
    · exact .inl (.head (.reorder hheld.symm) (hrun'.tail (.reorder hheld')))
    · obtain ⟨w, rfl, hstopped, hcur, hid⟩ := hdrops
      refine .inr ⟨id, hid, ⟨t, env, _, rest, rfl, hand, w, rfl, hstopped, hcur, hid⟩, .single ?_⟩
      have hqueue : r.1.pending = s.executor.pending := congrArg Book.queue hbook
      have hflight : r.1.inFlight = s.executor.inFlight.erase id := congrArg Book.flight hbook
      have hfutures : r.1.futures = s.executor.futures := congrArg Book.future hbook
      have howns : r.2.filterMap Section.owns ++ others = others := congrArg Book.held hbook
      rw [howns] at hheld'
      unfold book Executor.book
      dsimp only
      rw [hqueue, hflight, hfutures]
      exact .reorder (hheld'.trans hheld.symm)
  | shutdown =>
    exact ⟨hs.marked, .inl (.single (.reorder (filterMap_begin Section.owns _ (shutdownSections_owns _ _) rfl)))⟩
  | contended hand =>
    exact ⟨hs.marked, .inl (.single (.reorder (filterMap_contended Section.owns _ rfl (fun _ => rfl) hand rfl)))⟩
  | again => exact ⟨hs.marked, .inl .refl⟩

theorem Stepped.known (h : Stepped s e s') (hknown : ∀ x ∈ s.accepted ++ s.submitting, x ∈ s.issued) :
    ∀ x ∈ s'.accepted ++ s'.submitting, x ∈ s'.issued := by
  cases h with
  | submit =>
    intro x hx
    rw [← List.append_assoc] at hx
    exact List.mem_append.mpr ((List.mem_append.mp hx).imp_left (hknown x))
  | append hid =>
    intro x hx
    rw [List.append_assoc] at hx
    refine hknown x (List.mem_append.mpr ((List.mem_append.mp hx).imp_right fun hx => ?_))
    rcases List.mem_append.mp hx with hx | hx
    · exact List.mem_singleton.mp hx ▸ hid
    · exact List.erase_subset hx
  | _ => exact hknown

theorem Stepped.accepted_subset (h : Stepped s e s') : s.accepted ⊆ s'.accepted := by
  cases h with
  | append => exact List.subset_append_left _ _
  | _ => exact List.Subset.refl _

theorem Stepped.fresh (h : Stepped s e s') (hs : Sound s) : (s'.accepted ++ s'.submitting).Nodup := by
  cases h with
  | @submit id r reading work profiles _ hid =>
    have hnew : id ∉ s.accepted ++ s.submitting := fun h => hid (hs.issued id h)
    dsimp only
    rw [← List.append_assoc]
    exact hs.fresh.append (List.nodup_singleton id) (List.disjoint_singleton.mpr hnew)
  | @append id hid =>
    have hperm : (s.accepted ++ [id] ++ s.submitting.erase id).Perm (s.accepted ++ s.submitting) := by
      rw [List.append_assoc, List.singleton_append]
      exact List.Perm.append_left _ (List.perm_cons_erase hid).symm
    exact hperm.nodup_iff.mpr hs.fresh
  | _ => exact hs.fresh

/-- **Every event keeps the places.** -/
theorem Stepped.sound (h : Stepped s e s') (hs : Sound s) : Sound s' := by
  obtain ⟨hmark, hmoves⟩ := h.moves hs
  have hbook : Tidy s'.book ∧ ∀ id ∉ s'.accepted, s'.executor.futures id = s.executor.futures id := by
    rcases hmoves with hrun | ⟨id, hid, -, hrun⟩
    · exact ⟨Ledger.run_tidy hrun hs.tidy, fun x hx => Ledger.run_future_eq hrun hs.tidy hx⟩
    · have hlose := hs.tidy.lose hid
      exact ⟨Ledger.run_tidy hrun hlose, fun x hx => Ledger.run_future_eq hrun hlose hx⟩
  have hunknown : ∀ id ∉ s'.accepted, s'.executor.futures id = .pending := fun id hid =>
    (hbook.2 id hid).trans (hs.unknown id fun hold => hid (h.accepted_subset hold))
  exact ⟨hbook.1, hmark, hunknown, h.fresh hs, h.known hs.issued⟩

theorem Stepped.placed (h : Stepped s e s') (hs : Sound s) (hdrops : ∀ id, ¬ s.Drops e id) (hplaced : Placed s.book) :
    Placed s'.book := by
  rcases (h.moves hs).2 with hrun | ⟨id, -, hid, -⟩
  · exact Ledger.run_placed hrun hplaced
  · exact absurd hid (hdrops id)

theorem Stepped.outcome (h : Stepped s e s') (hs : Sound s) {id : WorkId} {r : Option (Outcome α)}
    (hr : (s.executor.futures id).outcome = some r) : (s'.executor.futures id).outcome = some r := by
  rcases (h.moves hs).2 with hrun | ⟨x, -, -, hrun⟩
  · exact Ledger.run_outcome hrun hr
  · have hlose : ((s.book.lose x).future id).outcome = some r := hr
    exact Ledger.run_outcome hrun hlose

theorem init_sound (cfg : Config) (profiles : ProfileStore) : Sound (init cfg profiles : System α) :=
  ⟨⟨List.nodup_nil, fun _ h => (by cases h), fun _ h => (by cases h), fun _ h => by cases h⟩,
    ⟨fun _ h => (by cases h), fun _ h => (by cases h), fun _ h => by cases h⟩, fun _ _ => rfl, List.nodup_nil,
    fun _ h => by cases h⟩

theorem Sound.pending (h : Sound s) : s.executor.pending.Nodup := h.tidy.nodup.of_append_left

theorem Sound.pool (hs : Sound s) (h : Stepped s e s') (hpool : s.executor.Pool s.lost) : s'.executor.Pool s'.lost :=
  (h.pool hs.pending hpool).1

theorem init_pool (cfg : Config) (profiles : ProfileStore) :
    (init cfg profiles : System α).executor.Pool (init cfg profiles : System α).lost :=
  ⟨List.nodup_nil, fun _ h => by cases h⟩

/-- Every reachable state is sound, during and after a shutdown as well. -/
theorem Reachable.sound (h : Reachable s) : Sound s ∧ s.executor.Pool s.lost := by
  obtain ⟨cfg, profiles, h⟩ := h
  induction h with
  | refl => exact ⟨init_sound cfg profiles, init_pool cfg profiles⟩
  | tail _ h ih =>
    obtain ⟨e, h⟩ := h
    exact ⟨(step_stepped h).sound ih.1, ih.1.pool (step_stepped h) ih.2⟩

theorem Reachable.maybeDispatch_ok (h : Reachable s) {env : Env} (hspawn : ∀ w, (env.spawnPid w).isSome = true) :
    ∃ executor, s.executor.maybeDispatch env = .ok executor :=
  Executor.maybeDispatch_ok hspawn h.sound.1.marked h.sound.1.tidy

/-! ## Before shutdown -/

/-- While nobody has called `shutdown`, no task is lost, no worker that has been stopped is in the pool, and no thread
runs a section of `shutdown`. -/
structure Serving (s : System α) : Prop where
  sound : Sound s
  pool : s.executor.Pool s.lost
  placed : Placed s.book
  unstopped : s.executor.Unstopped s.lost
  plain : ∀ m ∈ s.sections, m.control = false

theorem mem_lost {t : Thread} {w : WorkerId} {rest : List (Section α)} (h : s.hands t = .takeLost w :: rest) :
    w ∈ s.lost :=
  List.mem_filterMap.mpr ⟨_, mem_sections.mpr ⟨t, by rw [h]; exact List.mem_cons_self⟩, rfl⟩

theorem not_drops (hunst : s.executor.Unstopped s.lost) (id : WorkId) : ¬ s.Drops e id := by
  rintro ⟨t, env, m, rest, -, hand, w, rfl, hstopped, -⟩
  rw [hunst w (List.mem_append_right _ (mem_lost hand))] at hstopped
  cases hstopped

theorem Stepped.serving (h : Stepped s e s') (hs : Serving s) (hstopping : s'.stopping = false) : Serving s' := by
  have hstops : ¬ s.Stops e := by
    rintro ⟨t, env, rest, -, hand⟩
    have hcontrol := hs.plain .stopAllWorkers (System.mem_sections.mpr ⟨t, by rw [hand]; exact List.mem_cons_self⟩)
    cases hcontrol
  obtain ⟨hpool, hunst⟩ := h.pool hs.sound.pending hs.pool
  refine ⟨h.sound hs.sound, hpool, h.placed hs.sound (not_drops hs.unstopped) hs.placed, hunst hstops hs.unstopped,
    fun m hm => ?_⟩
  obtain ⟨t, hm⟩ := mem_sections.mp hm
  rcases h.mem_hands hm with hm | ⟨m', hm', hf⟩ | ⟨-, hm | ⟨r, rfl⟩⟩ | ⟨_, _, htrue, -⟩
  · exact hs.plain m (mem_sections.mpr ⟨t, hm⟩)
  · exact hf.control (hs.plain m' (mem_sections.mpr ⟨t, hm'⟩))
  · exact Section.control_of_begins hm
  · rfl
  · rw [hstopping] at htrue
    cases htrue

theorem stopping_of_next (h : Next s s') (hs' : s'.stopping = false) : s.stopping = false := by
  obtain ⟨e, h⟩ := h
  cases step_stepped h <;> first | exact hs' | cases hs'

theorem Reachable.serving (h : Reachable s) (hs : s.stopping = false) : Serving s := by
  obtain ⟨cfg, profiles, h⟩ := h
  induction h with
  | refl =>
    exact ⟨init_sound cfg profiles, init_pool cfg profiles, fun _ h => (by cases h), fun _ h => (by cases h),
      fun _ h => by cases h⟩
  | tail _ h ih =>
    have hserving := ih (stopping_of_next h hs)
    obtain ⟨e, h⟩ := h
    exact (step_stepped h).serving hserving hs

theorem run_outcome (h : ReflTransGen Next s s') (hs : Sound s) {id : WorkId} {r : Option (Outcome α)}
    (hr : (s.executor.futures id).outcome = some r) : (s'.executor.futures id).outcome = some r := by
  have hboth : Sound s' ∧ (s'.executor.futures id).outcome = some r := by
    induction h with
    | refl => exact ⟨hs, hr⟩
    | tail _ h ih =>
      obtain ⟨e, h⟩ := h
      exact ⟨(step_stepped h).sound ih.1, (step_stepped h).outcome ih.1 ih.2⟩
  exact hboth.2

/-- A task is once in the queue, or once in flight and running, or in neither and done. -/
def OnePlace (e : Executor α) (id : WorkId) : Prop :=
  e.pending.count id = 1 ∧ id ∉ e.inFlight ∨
    id ∉ e.pending ∧ e.inFlight.count id = 1 ∧ e.futures id = .running ∨
      id ∉ e.pending ∧ id ∉ e.inFlight ∧ (e.futures id).done = true

theorem Sound.onePlace (hs : Sound s) (hplaced : Placed s.book) (hheld : s.held = []) {id : WorkId}
    (hid : id ∈ s.accepted) : OnePlace s.executor id := by
  have hnodup : (s.executor.pending ++ (s.executor.inFlight ++ s.held)).Nodup := hs.tidy.nodup
  rw [hheld, List.append_nil, List.nodup_append] at hnodup
  obtain ⟨hpending, hflight, hdisjoint⟩ := hnodup
  by_cases hp : id ∈ s.executor.pending
  · exact .inl ⟨List.count_eq_one_of_mem hpending hp, fun hf => hdisjoint id hp id hf rfl⟩
  by_cases hf : id ∈ s.executor.inFlight
  · exact .inr (.inl ⟨hp, List.count_eq_one_of_mem hflight hf, hs.tidy.running id (List.mem_append_left _ hf)⟩)
  · refine .inr (.inr ⟨hp, hf, (hplaced id hid).resolve_left fun hm => ?_⟩)
    rcases List.mem_append.mp hm with hm | hm
    · exact hp hm
    · rcases List.mem_append.mp hm with hm | hm
      · exact hf hm
      · have hm : id ∈ s.held := hm
        rw [hheld] at hm
        cases hm

/-- **No task is lost, duplicated or settled twice**: before shutdown, whenever no thread is about to settle or to
requeue a task, every accepted task is in one place; what a done future tells stays; and a dispatch cycle keeps the
order of the queue. -/
theorem no_task_lost (h : Reachable s) (hrun : ReflTransGen Next s s') (hstopping : s'.stopping = false) :
    (s'.held = [] → ∀ id ∈ s'.accepted, OnePlace s'.executor id) ∧
      (∀ id ∈ s.accepted, ∀ r, (s.executor.futures id).outcome = some r →
        (s'.executor.futures id).outcome = some r) ∧
      ∀ env executor, s'.executor.maybeDispatch env = .ok executor → executor.pending.Sublist s'.executor.pending := by
  have h' : Reachable s' := by
    obtain ⟨cfg, profiles, h⟩ := h
    exact ⟨cfg, profiles, h.trans hrun⟩
  have hserving := h'.serving hstopping
  exact ⟨fun hheld id hid => hserving.sound.onePlace hserving.placed hheld hid,
    fun id _ r hr => run_outcome hrun h.sound.1 hr,
    fun env executor hok => (Executor.maybeDispatch_steps hserving.sound.pending hok).pending⟩

/-! ## A run -/

/-- Every worker starts, nothing can be observed of it, and SIGTERM ends it. -/
def plainEnv : Env where
  rssBytes := fun _ => none
  processVramGb := fun _ _ => none
  spawnPid := fun w => some w
  kill := .terminated

def oneWorker : Config where
  maxWorkers := 1
  gpuIds := []

def plainRequest : Executor.Request := ⟨"m", "f", none, none, none⟩

def plainReading : ResourceSnapshot := ⟨1, 16, []⟩

/-- A task is submitted, and one round of the dispatcher ships it. -/
def shipOne : List (Event Unit) :=
  [.submit "x" plainRequest plainReading, .append "x", .round .dispatcher, .act .dispatcher plainEnv,
    .act .dispatcher plainEnv]

theorem no_task_lost_shipped : ∃ s : System Unit, s.executor.inFlight = ["x"] ∧ OnePlace s.executor "x" := by
  obtain ⟨s, hs⟩ := Option.isSome_iff_exists.mp
    (show ((init oneWorker {} : System Unit).play shipOne).isSome = true by decide +kernel)
  have hfacts : ((init oneWorker {} : System Unit).play shipOne).map
      (fun s => (s.stopping, s.held, s.accepted, s.executor.inFlight)) = some (false, [], ["x"], ["x"]) := by
    decide +kernel
  rw [hs] at hfacts
  obtain ⟨hstopping, hheld, haccepted, hflight⟩ : s.stopping = false ∧ s.held = [] ∧ s.accepted = ["x"] ∧
      s.executor.inFlight = ["x"] := by simpa using hfacts
  refine ⟨s, hflight, (no_task_lost (play_reachable hs) .refl hstopping).1 hheld "x" ?_⟩
  rw [haccepted]
  exact List.mem_singleton.mpr rfl

end System

end AdaptiveExecutor
