import AdaptiveExecutor.Executor.Supply
import AdaptiveExecutor.Scheduling.Course

/-!
# Cancelled tasks in the queue

A cycle with cancelled tasks in its queue beside a cycle without them. Cancellation is noticed only for a task that the
plan has picked, after it has had its turn.

* `uncancelled` : the state without the cancelled tasks; `Alike` : the two cycles until they plan;
* `PassedOver` : the cancelled tasks are passed over at their turns of the plan;
* `cancelled_ships_alike` : then both cycles ship the same tasks to the same GPUs.
-/

namespace AdaptiveExecutor
open Ledger (Future Tidy)

namespace Executor
variable {α : Type} {env : Env} {s s' e e' : Executor α} {live : WorkId → Bool} {now : ℚ} {id : WorkId}

/-! ## Two cycles until they plan -/

/-- `s'` is `s` with only the live tasks in its queue; the two know the same about these and about the functions. -/
def Alike (live : WorkId → Bool) (s s' : Executor α) : Prop :=
  ∃ works futures profiles, (∀ x, live x = true → works x = s.works x) ∧ s.profiles.Same profiles ∧
    s' = { s with works := works, futures := futures, profiles := profiles, pending := s.pending.filter live }

theorem Alike.modifyWork (h : Alike live s s') (id : WorkId) (f : PendingWork → PendingWork) :
    Alike live (s.modifyWork id f) (s'.modifyWork id f) := by
  obtain ⟨works, futures, profiles, hworks, hsame, rfl⟩ := h
  refine ⟨Function.update works id (f (works id)), futures, profiles, fun x hx => ?_, hsame, rfl⟩
  change Function.update works id _ x = Function.update s.works id _ x
  rw [Function.update_apply, Function.update_apply, hworks x hx]
  split_ifs with hid
  · rw [← hid, hworks x hx]
  · rfl

theorem Alike.get (h : Alike live s s') (fnModule fnName : String) (profileKey : Option String) :
    Alike live { s with profiles := (s.profiles.get fnModule fnName profileKey).2 }
      { s' with profiles := (s'.profiles.get fnModule fnName profileKey).2 } := by
  obtain ⟨works, futures, profiles, hworks, hsame, rfl⟩ := h
  exact ⟨works, futures, _, hworks, (ProfileStore.same_get _ _ _).symm.trans (hsame.trans (ProfileStore.same_get _ _ _)), rfl⟩

theorem Alike.reestimateOne (h : Alike live s s') (hlive : live id = true) :
    Alike live (s.reestimateOne now id) (s'.reestimateOne now id) := by
  have hread := h.get (s.works id).fnModule (s.works id).fnName (s.works id).profileKey
  have hcfg : s'.cfg = s.cfg := by
    obtain ⟨_, _, _, -, -, rfl⟩ := h
    rfl
  have hwork : s'.works id = s.works id := by
    obtain ⟨_, _, _, hworks, -, rfl⟩ := h
    exact hworks id hlive
  have hprofile : (s'.profiles.get (s.works id).fnModule (s.works id).fnName (s.works id).profileKey).1 =
      (s.profiles.get (s.works id).fnModule (s.works id).fnName (s.works id).profileKey).1 := by
    obtain ⟨_, _, _, -, hsame, rfl⟩ := h
    exact hsame.get ..
  rw [hcfg] at hread
  unfold Executor.reestimateOne
  dsimp only
  rw [hwork, hcfg, hprofile]
  split_ifs
  · exact h
  · exact h
  · exact hread.modifyWork id _
  · exact hread.modifyWork id _

theorem Alike.reestimate_dead (h : Alike live s s') (hdead : live id = false) :
    Alike live (s.reestimateOne now id) s' := by
  obtain ⟨works, futures, profiles, hworks, hsame, rfl⟩ := h
  obtain ⟨hother, works', profiles', hframe⟩ := reestimateOne_frame now s id
  have hsame' : s.profiles.Same (s.reestimateOne now id).profiles := by
    unfold Executor.reestimateOne
    dsimp only
    split_ifs
    · exact .refl _
    · exact .refl _
    · exact ProfileStore.same_get _ _ _
    · exact ProfileStore.same_get _ _ _
  refine ⟨works, futures, profiles, fun x hx => ?_, hsame'.symm.trans hsame, by rw [hframe]⟩
  rw [hworks x hx, hother]
  rintro rfl
  rw [hdead] at hx
  cases hx

theorem Alike.reestimatePending (h : Alike live s s') (now : ℚ) :
    Alike live (s.reestimatePending now) (s'.reestimatePending now) := by
  have turns : ∀ (ids : List WorkId) (s s' : Executor α), Alike live s s' →
      Alike live (ids.foldl (Executor.reestimateOne now) s) ((ids.filter live).foldl (Executor.reestimateOne now) s') := by
    intro ids
    induction ids with
    | nil => exact fun _ _ h => h
    | cons id ids ih =>
      intro s s' h
      cases hlive : live id with
      | true =>
        rw [List.filter_cons_of_pos hlive]
        exact ih _ _ (h.reestimateOne hlive)
      | false =>
        rw [List.filter_cons_of_neg (by rw [hlive]; exact Bool.false_ne_true)]
        exact ih _ _ (h.reestimate_dead hlive)
  have hpending : s'.pending = s.pending.filter live := by
    obtain ⟨_, _, _, -, -, rfl⟩ := h
    rfl
  have hturns := turns s.pending s s' h
  rwa [← hpending] at hturns

theorem Alike.prepare (h : Alike live s s') : Alike live s.prepare s'.prepare := by
  have hclock : s'.clock = s.clock := by
    obtain ⟨_, _, _, -, -, rfl⟩ := h
    rfl
  have hread := h.reestimatePending s.clock
  unfold Executor.prepare
  rw [hclock]
  generalize s.reestimatePending s.clock = r at hread
  generalize s'.reestimatePending s.clock = r' at hread
  obtain ⟨works, futures, profiles, hworks, hsame, rfl⟩ := hread
  set r' : Executor α :=
    { r with works := works, futures := futures, profiles := profiles, pending := r.pending.filter live } with hr'
  obtain ⟨futures₁, hframe⟩ := sweepInfeasible_frame r.snapshot r.pending r
  obtain ⟨hkept, -⟩ := sweepInfeasible_spec r.snapshot r.pending r
  obtain ⟨futures₂, hframe'⟩ := sweepInfeasible_frame r'.snapshot r'.pending r'
  obtain ⟨hkept', -⟩ := sweepInfeasible_spec r'.snapshot r'.pending r'
  have hfeasible : (r'.pending.filter fun x => !r'.infeasible r'.snapshot x) =
      (r.pending.filter fun x => !r.infeasible r.snapshot x).filter live := by
    rw [hr', List.filter_filter, List.filter_filter]
    refine List.filter_congr fun x _ => ?_
    cases hlive : live x with
    | false => exact Bool.and_false _
    | true =>
      unfold infeasible
      dsimp only
      rw [hworks x hlive, Bool.and_true, Bool.true_and]
  dsimp only
  rw [hframe, hkept, hframe', hkept', hfeasible]
  exact ⟨works, futures₂, profiles, hworks, hsame, rfl⟩

theorem Alike.refreshObservations (h : Alike live s s') (hflight : ∀ x ∈ s.inFlight, live x = true) (env : Env) (now : ℚ) :
    Alike live (s.refreshObservations env now) (s'.refreshObservations env now) := by
  have turns : ∀ (ids : List WorkId), (∀ x ∈ ids, live x = true) → ∀ (s s' : Executor α), Alike live s s' →
      Alike live (ids.foldl (refreshOne env now) s) (ids.foldl (refreshOne env now) s') := by
    intro ids
    induction ids with
    | nil => exact fun _ _ _ h => h
    | cons id ids ih =>
      intro hids s s' h
      obtain ⟨hid, hids⟩ := List.forall_mem_cons.mp hids
      have hcond : ((s'.works id).observedRefreshedAt.any fun last => now - last < s'.cfg.observationRefreshSeconds) =
          (s.works id).observedRefreshedAt.any fun last => now - last < s.cfg.observationRefreshSeconds := by
        obtain ⟨_, _, _, hworks, -, rfl⟩ := h
        dsimp only
        rw [hworks id hid]
      refine ih hids _ _ ?_
      unfold refreshOne
      rw [hcond]
      split_ifs
      · exact h
      · exact h.modifyWork id _
  have hturns := turns s.inFlight hflight s s' h
  obtain ⟨_, _, _, -, -, rfl⟩ := h
  exact hturns

theorem Alike.planned (h : Alike live s s') (hflight : ∀ x ∈ s.inFlight, live x = true) (env : Env) :
    Alike live (s.planned env) (s'.planned env) := by
  have hprepare := h.prepare
  have hclock : s'.prepare.clock = s.prepare.clock := by
    obtain ⟨_, _, _, -, -, hframe⟩ := hprepare
    rw [hframe]
  obtain ⟨-, _, _, _, _, hframe⟩ := prepare_frame s
  unfold Executor.planned
  rw [hclock]
  refine hprepare.refreshObservations (fun x hx => hflight x ?_) env _
  rwa [hframe] at hx

/-! ## The plans -/

theorem Alike.pendingEntry (h : Alike live s s') (hlive : live id = true) : s'.pendingEntry id = s.pendingEntry id := by
  obtain ⟨works, futures, profiles, hworks, hsame, rfl⟩ := h
  unfold Executor.pendingEntry identityOf
  dsimp only
  simp only [hworks id hlive, hsame.estimationIdentity]

theorem Alike.runningEntry (h : Alike live s s') (hlive : live id = true) : s'.runningEntry now id = s.runningEntry now id := by
  obtain ⟨works, futures, profiles, hworks, -, rfl⟩ := h
  unfold Executor.runningEntry
  dsimp only
  rw [hworks id hlive]

theorem Alike.capacity (h : Alike live s s') (hflight : ∀ x ∈ s.inFlight, live x = true) : s'.capacity = s.capacity := by
  obtain ⟨works, futures, profiles, hworks, -, rfl⟩ := h
  have hmap {β : Type} (g : PendingWork → β) : (s.inFlight.map fun x => g (works x)) = s.inFlight.map fun x => g (s.works x) :=
    List.map_congr_left fun x hx => by rw [hworks x (hflight x hx)]
  unfold Executor.capacity memoryFree gpuFree
  dsimp only
  rw [hmap fun w => (w.estimate.memoryGb, w.observedMemoryGb),
    hmap fun w => (⟨w.assignedGpuId, w.estimate.vramGb, w.observedVramGb⟩ : ResourceUsage)]

def entries (env : Env) (e : Executor α) : List PendingEntry := (e.planned env).pending.map (e.planned env).pendingEntry

def course (env : Env) (e : Executor α) : Course :=
  (Planner.init (e.entries env) ((e.planned env).inFlight.map ((e.planned env).runningEntry (e.planned env).clock))
    (e.planned env).capacity).course

theorem decisions_course (env : Env) (e : Executor α) : e.decisions env = (e.course env).decisions (e.entries env) :=
  planDispatch_decisions _ _ _

/-- **Two alike cycles** plan from the same state, one of them for the live tasks only. -/
theorem Alike.decisions (h : Alike live s s') (hflight : ∀ x ∈ s.inFlight, live x = true) (env : Env) :
    s'.decisions env = (s.course env).decisions ((s.entries env).filter fun task => live task.id) := by
  have hplanned := h.planned hflight env
  have hflight' : ∀ x ∈ (s.planned env).inFlight, live x = true := fun x hx => by
    obtain ⟨_, _, _, _, hframe, -⟩ := planned_frame env s
    rw [hframe] at hx
    exact hflight x hx
  obtain ⟨hclock, hinFlight, hpending⟩ : (s'.planned env).clock = (s.planned env).clock ∧
      (s'.planned env).inFlight = (s.planned env).inFlight ∧
      (s'.planned env).pending = (s.planned env).pending.filter live := by
    obtain ⟨_, _, _, -, -, hframe⟩ := hplanned
    rw [hframe]
    exact ⟨rfl, rfl, rfl⟩
  have hentries : s'.entries env = (s.entries env).filter fun task => live task.id := by
    unfold entries
    rw [hpending, List.filter_map]
    exact List.map_congr_left fun x hx => hplanned.pendingEntry (List.mem_filter.mp hx).2
  have hrunning : ((s'.planned env).inFlight.map ((s'.planned env).runningEntry (s'.planned env).clock)) =
      (s.planned env).inFlight.map ((s.planned env).runningEntry (s.planned env).clock) := by
    rw [hclock, hinFlight]
    exact List.map_congr_left fun x hx => hplanned.runningEntry (hflight' x hx)
  rw [decisions_course, course, hrunning, hplanned.capacity hflight', hentries]
  exact Course.decisions_queue _ _ (Planner.init (s.entries env) _ _) _

/-! ## The cancelled tasks -/

/-- The state with the cancelled tasks taken out of the queue. -/
def uncancelled (e : Executor α) : Executor α :=
  { e with pending := e.pending.filter fun x => !(e.futures x).isCancelled }

/-- As long as there is a worker for another task, every cancelled task with a task behind it that is not cancelled has its
turn of the plan behind a blocked head, or after the end of the cycle, and is passed over. -/
def PassedOver (env : Env) (e : Executor α) : Prop :=
  Course.PassesOver (fun x => !(e.futures x).isCancelled) (e.entries env) e.supply (e.course env)

instance (env : Env) (e : Executor α) : Decidable (e.PassedOver env) := Course.decidablePassesOver _ _ _ _

theorem alike_uncancelled (e : Executor α) : Alike (fun x => !(e.futures x).isCancelled) e e.uncancelled :=
  ⟨e.works, e.futures, e.profiles, fun _ _ => rfl, .refl _, rfl⟩

/-- Without its cancelled tasks the ledger is as tidy, and the flags agree with it as before. -/
theorem uncancelled_tidy (hmark : Marked e accepted) (htidy : Tidy (e.book accepted held)) :
    Marked e.uncancelled accepted ∧ Tidy (e.uncancelled.book accepted held) := by
  have hsub : e.uncancelled.pending.Sublist e.pending := List.filter_sublist
  refine ⟨hmark.of_same (fun _ => ⟨rfl, rfl⟩) rfl hsub.subset (List.Subset.refl _), ⟨?_, fun x hx => ?_, htidy.running,
    fun x hx => htidy.queued x (hsub.subset hx)⟩⟩
  · exact htidy.nodup.sublist (hsub.append_right _)
  · exact htidy.known x ((hsub.append_right _).subset hx)

/-- **Cancelled tasks that are passed over** make no difference to what a cycle ships. -/
theorem PassedOver.ships_alike {e₁ e₂ : Executor α} (h : e.PassedOver env) (h₁ : e.maybeDispatch env = .ok e₁)
    (h₂ : e.uncancelled.maybeDispatch env = .ok e₂) (hmark : Marked e accepted) (htidy : Tidy (e.book accepted held))
    (hroster : Roster e) : shipments e e₁ = shipments e e₂ := by
  obtain ⟨hmark', htidy'⟩ := uncancelled_tidy hmark htidy
  have hroster' : Roster e.uncancelled :=
    ⟨hroster.nodup, hroster.size, hroster.spawned, hroster.retired, hroster.unpoisoned⟩
  have hflight : ∀ x ∈ e.inFlight, (!(e.futures x).isCancelled) = true := fun x hx => by
    rw [show e.futures x = .running from htidy.running x (List.mem_append_left _ hx)]
    rfl
  have hplan := (alike_uncancelled e).decisions hflight env
  -- every decision of the second plan is on a task that is not cancelled
  have hlive : ((e.uncancelled.decisions env).filter fun d => !(e.futures d.pendingId).isCancelled) =
      e.uncancelled.decisions env := List.filter_eq_self.mpr fun d hd =>
    (List.mem_filter.mp ((decisions_sublist env htidy'.nodup.of_append_left).subset (List.mem_map_of_mem hd))).2
  have hfirst := maybeDispatch_shipments h₁ hmark htidy hroster
  have hsecond := maybeDispatch_shipments h₂ hmark' htidy' hroster'
  have hsecond : shipments e e₂ = (e.uncancelled.decisions env).take e.supply := hlive ▸ hsecond
  rw [hfirst, hsecond, hplan, decisions_course]
  exact Course.take_decisions_of_passesOver h

end Executor

namespace System
open Executor (shipments of_toOption)
variable {α : Type} {s : System α}

/-- **Cancelled tasks in the queue**: a cycle ships the same tasks to the same GPUs as it would without them when they are
passed over. -/
theorem cancelled_ships_alike (h : Reachable s) (env : Env) :
    ((∀ w, (env.spawnPid w).isSome = true) → ∃ e₁ e₂, s.executor.maybeDispatch env = .ok e₁ ∧
      s.executor.uncancelled.maybeDispatch env = .ok e₂) ∧
    (s.executor.PassedOver env → ∀ e₁ e₂, s.executor.maybeDispatch env = .ok e₁ →
      s.executor.uncancelled.maybeDispatch env = .ok e₂ → shipments s.executor e₁ = shipments s.executor e₂) := by
  obtain ⟨hsound, -⟩ := h.sound
  obtain ⟨hroster, -⟩ := h.roster
  refine ⟨fun hspawn => ?_, fun hpassed e₁ e₂ h₁ h₂ => hpassed.ships_alike h₁ h₂ hsound.marked hsound.tidy hroster⟩
  obtain ⟨hmark, htidy⟩ := Executor.uncancelled_tidy hsound.marked hsound.tidy
  obtain ⟨e₁, h₁⟩ := Executor.maybeDispatch_ok hspawn hsound.marked hsound.tidy
  obtain ⟨e₂, h₂⟩ := Executor.maybeDispatch_ok hspawn hmark htidy
  exact ⟨e₁, e₂, h₁, h₂⟩

/-- The cancelled task waits behind the blocked one, and the task behind it is shipped, as it is without it. -/
theorem cancelled_ships_alike_behind : ∃ (s : System Unit) (e₁ e₂ : Executor Unit),
    s.executor.pending = ["x", "y", "z", "w"] ∧ (s.executor.futures "z").isCancelled = true ∧
      s.executor.maybeDispatch plainEnv = .ok e₁ ∧ s.executor.uncancelled.maybeDispatch plainEnv = .ok e₂ ∧
        shipments s.executor e₁ = [⟨"x", none⟩, ⟨"w", none⟩] ∧ shipments s.executor e₁ = shipments s.executor e₂ := by
  have hfacts : ((init twoWorkers tenSeconds : System Unit).play queueFour).any (fun s =>
      (s.executor.maybeDispatch plainEnv).toOption.any fun e₁ => decide (
        s.executor.pending = ["x", "y", "z", "w"] ∧ (s.executor.futures "z").isCancelled = true ∧
          s.executor.PassedOver plainEnv ∧ shipments s.executor e₁ = [⟨"x", none⟩, ⟨"w", none⟩])) = true := by decide +kernel
  obtain ⟨s, hplay, hfacts⟩ := (Option.any_eq_true _ _).mp hfacts
  obtain ⟨e₁, he₁, hfacts⟩ := (Option.any_eq_true _ _).mp hfacts
  obtain ⟨hpending, hcancelled, hpassed, hshipped⟩ := of_decide_eq_true hfacts
  obtain ⟨hok, halike⟩ := cancelled_ships_alike (play_reachable hplay) plainEnv
  obtain ⟨-, e₂, -, h₂⟩ := hok fun _ => rfl
  exact ⟨s, e₁, e₂, hpending, hcancelled, of_toOption he₁, h₂, hshipped, halike hpassed e₁ e₂ (of_toOption he₁) h₂⟩

/-- A task of 8 GB is queued, then one of 2 GB, and the caller cancels the first. -/
def cancelFirst : List (Event Unit) :=
  [.poll plainReading, .submit "x" ⟨"m", "f", some 8, none, none⟩ plainReading, .append "x",
    .submit "y" ⟨"m", "g", some 2, none, none⟩ plainReading, .append "y", .cancel "x"]

/-- The cancelled task takes the memory that the plan has for the other one, and nothing is shipped. -/
theorem cancelled_takes_memory : ∃ (s : System Unit) (e₁ e₂ : Executor Unit), Reachable s ∧
    s.executor.pending = ["x", "y"] ∧ (s.executor.futures "x").isCancelled = true ∧
      s.executor.maybeDispatch plainEnv = .ok e₁ ∧ s.executor.uncancelled.maybeDispatch plainEnv = .ok e₂ ∧
        shipments s.executor e₁ = [] ∧ shipments s.executor e₂ = [⟨"y", none⟩] := by
  have hfacts : ((init twoWorkers {} : System Unit).play cancelFirst).any (fun s =>
      (s.executor.maybeDispatch plainEnv).toOption.any fun e₁ =>
        (s.executor.uncancelled.maybeDispatch plainEnv).toOption.any fun e₂ => decide (
          s.executor.pending = ["x", "y"] ∧ (s.executor.futures "x").isCancelled = true ∧
            shipments s.executor e₁ = [] ∧ shipments s.executor e₂ = [⟨"y", none⟩])) = true := by decide +kernel
  obtain ⟨s, hplay, hfacts⟩ := (Option.any_eq_true _ _).mp hfacts
  obtain ⟨e₁, he₁, hfacts⟩ := (Option.any_eq_true _ _).mp hfacts
  obtain ⟨e₂, he₂, hfacts⟩ := (Option.any_eq_true _ _).mp hfacts
  obtain ⟨hpending, hcancelled, hnone, hone⟩ := of_decide_eq_true hfacts
  exact ⟨s, e₁, e₂, play_reachable hplay, hpending, hcancelled, of_toOption he₁, of_toOption he₂, hnone, hone⟩

end System

end AdaptiveExecutor
