import AdaptiveExecutor.Executor.Flight
import AdaptiveExecutor.Scheduling.Safety

/-!
# Exclusive tasks run alone

* `Alone` : an exclusive task in flight is the only one;
* `decided_exclusive` : what a cycle decides keeps it;
* `exclusive_alone` : in every reachable state, exclusive tasks are alone in flight.
-/

namespace AdaptiveExecutor

namespace Executor
variable {α : Type} {env : Env} {e e' : Executor α}

def Alone (e : Executor α) : Prop := ∀ x ∈ e.inFlight, (e.works x).exclusive = true → ∀ y ∈ e.inFlight, y = x

theorem Alone.of_subset (h : Alone e) (hflight : e'.inFlight ⊆ e.inFlight)
    (hexclusive : ∀ x ∈ e'.inFlight, (e'.works x).exclusive = (e.works x).exclusive) : Alone e' :=
  fun x hx hex y hy => h x (hflight hx) (hexclusive x hx ▸ hex) y (hflight hy)

/-! ## A dispatch cycle -/

theorem DispatchStep.flight {decided : List WorkId} (h : DispatchStep env decided e e') :
    (∀ x, (e'.works x).exclusive = (e.works x).exclusive) ∧
      (∀ x ∈ e.inFlight, x ∈ e'.inFlight) ∧ ∀ x ∈ e'.inFlight, x ∈ e.inFlight ∨ x ∈ decided := by
  cases h with
  | refresh h =>
    obtain ⟨_, _, _, hworks, rfl⟩ := h
    exact ⟨fun x => (hworks x).exclusive, fun _ h => h, fun _ => .inl⟩
  | fail | retire | spawn | drop => exact ⟨fun _ => rfl, fun _ h => h, fun _ => .inl⟩
  | @ship id s₁ w gpuId _ hdecided _ _ hs =>
    have hstart : s₁.inFlight = e.inFlight ∧ ∀ x, (s₁.works x).exclusive = (e.works x).exclusive := by
      rcases hs with ⟨-, rfl⟩ | ⟨-, -, rfl⟩
      · exact ⟨rfl, fun _ => rfl⟩
      · exact ⟨rfl, modifyWork_keeps e PendingWork.exclusive (f := fun w => { w with runningNotified := true })
          (fun _ => rfl) id⟩
    have hkeeps := modifyWork_keeps s₁ PendingWork.exclusive (f := fun work =>
      captureBaseline env s₁.clock (s₁.slots w).process.pid gpuId
        { work with assignedGpuId := gpuId, workerId := some w, startedAt := some s₁.clock }) (fun _ => rfl) id
    refine ⟨fun x => (hkeeps x).trans (hstart.2 x), fun x hx => ?_, fun x hx => ?_⟩
    · exact mem_insertKey.mpr (.inl (hstart.1.symm ▸ hx))
    · rcases mem_insertKey.mp hx with hx | rfl
      · exact .inl (hstart.1 ▸ hx)
      · exact .inr hdecided

theorem DispatchSteps.flight {decided : List WorkId} (h : DispatchSteps env decided e e') :
    (∀ x, (e'.works x).exclusive = (e.works x).exclusive) ∧
      (∀ x ∈ e.inFlight, x ∈ e'.inFlight) ∧ ∀ x ∈ e'.inFlight, x ∈ e.inFlight ∨ x ∈ decided := by
  induction h with
  | refl => exact ⟨fun _ => rfl, fun _ h => h, fun _ => .inl⟩
  | tail _ h ih =>
    obtain ⟨hworks, hold, hnew⟩ := ih
    obtain ⟨hworks', hold', hnew'⟩ := h.flight
    exact ⟨fun x => (hworks' x).trans (hworks x), fun x hx => hold' x (hold x hx),
      fun x hx => (hnew' x hx).elim (hnew x) .inr⟩

theorem nonnegEstimates (e : Executor α) (now : ℚ) : (Planner.init (e.pending.map e.pendingEntry)
    (e.inFlight.map (e.runningEntry now)) e.capacity).NonnegEstimates := by
  constructor
  · intro task htask
    obtain ⟨id, -, rfl⟩ := List.mem_map.mp htask
    exact ⟨(e.works id).estimate.memory_nonneg, (e.works id).estimate.vram_nonneg⟩
  · intro o ho
    obtain ⟨id, -, rfl⟩ := List.mem_map.mp ho
    exact ⟨committedGb_nonneg _ _, committedGb_nonneg _ _⟩

/-- **What a cycle decides**: nothing while an exclusive task is in flight, and an exclusive task only alone, when
nothing is in flight. -/
theorem decided_exclusive (env : Env) (hnodup : e.pending.Nodup) :
    (∀ x ∈ e.inFlight, (e.works x).exclusive = true → e.decided env = []) ∧
      ∀ x ∈ e.decided env, (e.works x).exclusive = true → e.inFlight = [] ∧ e.decided env = [x] := by
  obtain ⟨hworks, hflight, -⟩ := (planned_steps env [] hnodup).flight
  refine ⟨fun x hx hex => ?_, fun x hx hex => ?_⟩
  · refine congrArg (List.map DispatchDecision.pendingId) (planDispatch_running_exclusive
      (List.mem_map_of_mem (hflight x hx)) ?_)
    exact (hworks x).trans hex
  · obtain ⟨d, hd, rfl⟩ := List.mem_map.mp hx
    obtain ⟨a, ha, rfl⟩ := List.mem_map.mp hd
    have haex : a.task.exclusive = true := by
      rw [(planner_admitted ha).1]
      exact (hworks a.task.id).trans hex
    obtain ⟨hpending, hrunning⟩ := (e.planned env).nonnegEstimates (e.planned env).clock
    obtain ⟨hrun, hdecisions⟩ := planDispatch_exclusive (by simp [capacity, Planner.init]) hpending hrunning ha haex
    refine ⟨?_, congrArg (List.map DispatchDecision.pendingId) hdecisions⟩
    have hrun := List.map_eq_nil_iff.mp hrun
    refine List.eq_nil_iff_forall_not_mem.mpr fun y hy => ?_
    have hy' := hflight y hy
    rw [hrun] at hy'
    cases hy'

theorem maybeDispatch_alone (hnodup : e.pending.Nodup) (h : e.maybeDispatch env = .ok e') (halone : Alone e) :
    Alone e' := by
  obtain ⟨hworks, -, hnew⟩ := (maybeDispatch_steps hnodup h).flight
  obtain ⟨hrunning, hdecided⟩ := decided_exclusive env hnodup
  intro x hx hex y hy
  rw [hworks] at hex
  rcases hnew x hx with hx | hx
  · rw [hrunning x hx hex] at hnew
    exact halone x hx hex y ((hnew y hy).resolve_right List.not_mem_nil)
  · obtain ⟨hidle, honly⟩ := hdecided x hx hex
    rw [hidle, honly] at hnew
    exact List.mem_singleton.mp ((hnew y hy).resolve_left List.not_mem_nil)

end Executor

/-! ## Runs -/

namespace System
open Executor (Alone)
variable {α : Type} {s s' : System α} {e : Event α}

theorem Stepped.alone (h : Stepped s e s') (hs : Sound s) (halone : Alone s.executor) : Alone s'.executor := by
  rcases h.lands hs with ⟨env, hok⟩ | ⟨-, hflight, hworks⟩
  · exact Executor.maybeDispatch_alone hs.pending hok halone
  · exact halone.of_subset hflight.subset fun x hx => congrArg PendingWork.exclusive (hworks x hx nofun)

theorem Reachable.alone (h : Reachable s) : Alone s.executor := by
  obtain ⟨cfg, profiles, h⟩ := h
  induction h with
  | refl => exact fun x hx => by cases hx
  | tail hrun h ih =>
    obtain ⟨e, h⟩ := h
    exact (step_stepped h).alone (Reachable.sound ⟨cfg, profiles, hrun⟩).1 ih

/-- **Exclusive tasks run alone**: in every reachable state an exclusive task in flight is the only one, and a plan
decides an exclusive task only when nothing is running, and nothing else with it. -/
theorem exclusive_alone :
    (∀ s : System α, Reachable s → ∀ x ∈ s.executor.inFlight, (s.executor.works x).exclusive = true →
      s.executor.inFlight = [x]) ∧
    ∀ (pending : List PendingEntry) (running : List RunningEntry) (cap : Capacity),
      cap.runningCount = running.length → (∀ task ∈ pending, 0 ≤ task.memoryGb ∧ 0 ≤ task.vramGb) →
      (∀ o ∈ running, 0 ≤ o.memoryGb ∧ 0 ≤ o.vramGb) →
      ∀ a ∈ (cycle pending running cap).admitted, a.task.exclusive = true →
        running = [] ∧ (planDispatch pending running cap).decisions = [a.decision] := by
  refine ⟨fun s h x hx hex => ?_, fun pending running cap hcount hpending hrunning a => ?_⟩
  · have hnodup : s.executor.inFlight.Nodup := h.sound.1.tidy.nodup.of_append_right.of_append_left
    have hsame : ∀ y, y ∈ s.executor.inFlight ↔ y ∈ [x] := fun y =>
      ⟨fun hy => List.mem_singleton.mpr (h.alone x hx hex y hy), fun hy => List.mem_singleton.mp hy ▸ hx⟩
    exact List.perm_singleton.mp ((List.perm_ext_iff_of_nodup hnodup (List.nodup_singleton x)).mpr hsame)
  · exact planDispatch_exclusive hcount hpending hrunning

/-- The worker of the task is killed, and the crash retry is shipped to a new one. -/
def retryOne : List (Event Unit) :=
  shipOne ++ .workerDie 0 (-9) :: .round .dispatcher :: List.replicate 8 (.act .dispatcher plainEnv)

theorem exclusive_alone_retry : (∃ s : System Unit, Reachable s ∧ s.executor.inFlight = ["x"]) ∧
    ∃ a : Admission, a.task.exclusive = true ∧
      (planDispatch [⟨"x", 3, 0, 1, none, true, none, false⟩] [] (cpuHost 4 1 0)).decisions = [a.decision] := by
  obtain ⟨s, hs⟩ := Option.isSome_iff_exists.mp
    (show ((init oneWorker {} : System Unit).play retryOne).isSome = true by decide +kernel)
  have hfacts : ((init oneWorker {} : System Unit).play retryOne).map
      (fun s => (decide ("x" ∈ s.executor.inFlight), (s.executor.works "x").exclusive)) = some (true, true) := by
    decide +kernel
  rw [hs] at hfacts
  obtain ⟨hflight, hex⟩ : "x" ∈ s.executor.inFlight ∧ (s.executor.works "x").exclusive = true := by simpa using hfacts
  refine ⟨⟨s, play_reachable hs, (exclusive_alone.1 s (play_reachable hs) "x" hflight hex)⟩, ?_⟩
  refine ⟨⟨⟨"x", 3, 0, 1, none, true, none, false⟩, none, none⟩, rfl, ?_⟩
  exact ((exclusive_alone (α := Unit)).2 _ [] (cpuHost 4 1 0) rfl (by decide) (by simp) _ (by decide +kernel) rfl).2

end System

end AdaptiveExecutor
