import AdaptiveExecutor.Executor.Exclusive
import AdaptiveExecutor.Scheduling.Canary

/-!
# The cold-start canary over whole runs

* `Probes`, `OneProbe` : at most one task without a hint probes an identity of which nothing has been observed;
* `maybeDispatch_oneProbe` : a dispatch cycle keeps it;
* `step_unobserved` : no event forgets an observation;
* `coldStart_alone` : it holds in every reachable state, and no plan decides a cold task beside one of its identity.
-/

namespace AdaptiveExecutor

namespace Executor
variable {α : Type} {env : Env} {e e' : Executor α} {k : String} {x : WorkId}

/-- A task of the identity whose caller has given no hint. -/
structure Probes (e : Executor α) (k : String) (x : WorkId) : Prop where
  identity : (e.works x).profileIdentity = some k
  memoryHint : (e.works x).memoryHint = none
  vramHint : (e.works x).vramHint = none

/-- At most one task in flight probes an identity without observations. -/
def OneProbe (e : Executor α) : Prop :=
  ∀ k, e.profiles.Unobserved k → ∀ x ∈ e.inFlight, ∀ y ∈ e.inFlight, e.Probes k x → e.Probes k y → x = y

theorem OneProbe.of_subset (h : OneProbe e) (hprofiles : ∀ k, e'.profiles.Unobserved k → e.profiles.Unobserved k)
    (hflight : e'.inFlight ⊆ e.inFlight) (hworks : ∀ x ∈ e'.inFlight, ∀ k, e'.Probes k x → e.Probes k x) :
    OneProbe e' := by
  intro k hk x hx y hy hpx hpy
  apply h k (hprofiles k hk) x (hflight hx) y (hflight hy)
  · exact hworks x hx k hpx
  · exact hworks y hy k hpy

theorem Probes.of_works (h : e'.Probes k x) (hworks : e'.works x = e.works x) : e.Probes k x := by
  obtain ⟨hid, hmemory, hvram⟩ := h
  rw [hworks] at hid hmemory hvram
  exact ⟨hid, hmemory, hvram⟩

/-! ## Observations -/

theorem reestimateOne_unobserved {now : ℚ} {id : WorkId} (h : (e.reestimateOne now id).profiles.Unobserved k) :
    e.profiles.Unobserved k := by
  unfold reestimateOne at h
  dsimp only at h
  split_ifs at h
  · exact h
  · exact h
  · exact h.of_get
  · exact h.of_get

theorem planned_unobserved (h : (e.planned env).profiles.Unobserved k) : e.profiles.Unobserved k := by
  have turns : ∀ (ids : List WorkId) (e : Executor α),
      (ids.foldl (reestimateOne e.clock) e).profiles.Unobserved k → e.profiles.Unobserved k := by
    intro ids e
    generalize e.clock = now
    induction ids generalizing e with
    | nil => exact id
    | cons id ids ih => exact fun h => reestimateOne_unobserved (ih _ h)
  obtain ⟨works, profiles, futures, pending, hplanned, hprofiles, -⟩ := planned_frame env e
  rw [hplanned] at h
  have h : profiles.Unobserved k := h
  rw [← hprofiles] at h
  obtain ⟨futures', hsweep⟩ := sweepInfeasible_frame (e.reestimatePending e.clock).snapshot
    (e.reestimatePending e.clock).pending (e.reestimatePending e.clock)
  have hprepare : e.prepare.profiles = (e.reestimatePending e.clock).profiles := by
    unfold prepare
    dsimp only
    rw [hsweep]
  rw [hprepare] at h
  exact turns e.pending e h

/-! ## A dispatch cycle -/

/-- A task that the cycle ships and that probes an identity without observations was cold in the plan. -/
theorem shipped_cold {hs : List (DispatchDecision × Fate)} (hsub : (hs.map Prod.fst).Sublist (e.decisions env))
    (hshipped : ∀ d ∈ hs, ∀ w, d.2 = .shipped w →
      Dispatched d.1.gpuId w ((e.ready env).works d.1.pendingId) (e'.works d.1.pendingId))
    (hk : (e.planned env).profiles.Unobserved k) (hx : x ∈ fated Fate.ships hs) (hp : e'.Probes k x) :
    ∃ a ∈ (e.planner env).admitted, a.task.id = x ∧ a.task.cold = true ∧ a.task.profileIdentity = some k := by
  obtain ⟨⟨d, fate⟩, hd, rfl⟩ := List.mem_map.mp hx
  obtain ⟨hd, hfate⟩ := List.mem_filter.mp hd
  cases fate with
  | left => cases hfate
  | dropped => cases hfate
  | shipped w =>
    have hship := hshipped _ hd w rfl
    have hmem := hsub.subset (List.mem_map_of_mem hd)
    rw [decisions_eq] at hmem
    obtain ⟨a, ha, rfl⟩ := List.mem_map.mp hmem
    obtain ⟨hentry, hqueued⟩ := planner_admitted ha
    obtain ⟨works, next, hready, hworks⟩ := ready_frame env e
    have hstamped : (e.ready env).works a.task.id = { (e.planned env).works a.task.id with
        profileIdentity := some ((e.planned env).identityOf a.task.id).1 } := by
      rw [hready]
      change works a.task.id = _
      rw [hworks, if_pos hqueued]
    change Dispatched a.gpuId w ((e.ready env).works a.task.id) (e'.works a.task.id) at hship
    rw [hstamped] at hship
    have hid : ((e.planned env).identityOf a.task.id).1 = k :=
      Option.some.inj (hship.profileIdentity.symm.trans hp.identity)
    have hmemory : ((e.planned env).works a.task.id).memoryHint = none := hship.memoryHint.symm.trans hp.memoryHint
    have hvram : ((e.planned env).works a.task.id).vramHint = none := hship.vramHint.symm.trans hp.vramHint
    have hcount : ((e.planned env).identityOf a.task.id).2 = 0 := by
      apply ProfileStore.Unobserved.identity
      change ProfileStore.Unobserved _ ((e.planned env).identityOf a.task.id).1
      rw [hid]
      exact hk
    refine ⟨a, ha, rfl, ?_, ?_⟩
    · rw [hentry]
      simp [pendingEntry, hcount, hmemory, hvram]
    · rw [hentry, ← hid]
      rfl

theorem planner_cold {a b : Admission} (ha : a ∈ (e.planner env).admitted) (hb : b ∈ (e.planner env).admitted)
    (hacold : a.task.cold = true) (hbcold : b.task.cold = true) (hak : a.task.profileIdentity = some k)
    (hbk : b.task.profileIdentity = some k) : a = b := by
  obtain ⟨xs, ys, h⟩ := List.append_of_mem ha
  rw [h, List.mem_append, List.mem_cons] at hb
  rcases hb with hb | rfl | hb
  · exact absurd hbk ((cycle_cold h hacold hak).2 b hb)
  · rfl
  · obtain ⟨us, vs, rfl⟩ := List.append_of_mem hb
    have h : (e.planner env).admitted = (xs ++ a :: us) ++ b :: vs := by rw [h, List.append_assoc, List.cons_append]
    exact absurd hak ((cycle_cold h hbcold hbk).2 a (List.mem_append_right _ List.mem_cons_self))

/-- **A dispatch cycle keeps one probe for each identity.** -/
theorem maybeDispatch_oneProbe (h : e.maybeDispatch env = .ok e') (hnodup : e.pending.Nodup)
    (hqueued : ∀ x ∈ e.pending, x ∉ e.inFlight) (hone : OneProbe e) : OneProbe e' := by
  obtain ⟨hs, hsub, -, -, hprofiles, hflight, hold, -, hshipped⟩ := maybeDispatch_flight h hnodup hqueued
  rcases hprofiles with rfl | hprofiles
  · exact hone
  have holdProbes (k : String) (y : WorkId) (hy : y ∈ e.inFlight) (hp : e'.Probes k y) : e.Probes k y := by
    refine ⟨?_, ?_, ?_⟩
    · rw [← hp.identity, hold (·.profileIdentity) (updateObserved_keeps (fun _ _ _ _ => rfl) env e.clock) y hy]
    · rw [← hp.memoryHint, hold (·.memoryHint) (updateObserved_keeps (fun _ _ _ _ => rfl) env e.clock) y hy]
    · rw [← hp.vramHint, hold (·.vramHint) (updateObserved_keeps (fun _ _ _ _ => rfl) env e.clock) y hy]
  -- a cold task is not shipped beside one in flight
  have hbeside (k : String) (hk : (e.planned env).profiles.Unobserved k) (x y : WorkId) (hx : x ∈ fated Fate.ships hs)
      (hy : y ∈ e.inFlight) (hpx : e'.Probes k x) (hpy : e'.Probes k y) : False := by
    obtain ⟨a, ha, -, hcold, hak⟩ := shipped_cold hsub hshipped hk hx hpx
    obtain ⟨xs, ys, hadmitted⟩ := List.append_of_mem ha
    obtain ⟨works, profiles, futures, pending, hplanned, -, -, hkeeps⟩ := planned_frame env e
    have hy' : y ∈ (e.planned env).inFlight := by rwa [hplanned]
    apply (cycle_cold hadmitted hcold hak).1 _ (List.mem_map_of_mem hy')
    change ((e.planned env).works y).profileIdentity = some k
    rw [hplanned, ← (holdProbes k y hy hpy).identity]
    exact hkeeps (·.profileIdentity) (updateObserved_keeps (fun _ _ _ _ => rfl) env e.clock) y fun hp => hqueued y hp hy
  intro k hk x hx y hy hpx hpy
  rw [hprofiles] at hk
  rw [hflight, List.mem_append] at hx hy
  rcases hx with hx | hx
  · rcases hy with hy | hy
    · exact hone k (planned_unobserved hk) x hx y hy (holdProbes k x hx hpx) (holdProbes k y hy hpy)
    · exact (hbeside k hk y x hy hx hpy hpx).elim
  · rcases hy with hy | hy
    · exact (hbeside k hk x y hx hy hpx hpy).elim
    · obtain ⟨a, ha, rfl, hacold, hak⟩ := shipped_cold hsub hshipped hk hx hpx
      obtain ⟨b, hb, rfl, hbcold, hbk⟩ := shipped_cold hsub hshipped hk hy hpy
      rw [planner_cold ha hb hacold hbcold hak hbk]

/-! ## The other sections -/

theorem run_unobserved {m : Section α} {body : List (Section α)} (h : e.run env m = some (e', body))
    (hm : m ≠ .maybeDispatch) (hk : e'.profiles.Unobserved k) : e.profiles.Unobserved k := by
  cases run_step h hm with
  | workers | leaves | settle | requeue => exact hk
  | record => exact ProfileStore.Unobserved.of_record hk
  | penalizeEstimate => exact ProfileStore.Unobserved.of_recordMemoryFloor hk
  | failPendingFutures =>
    obtain ⟨futures, hframe⟩ := failPendingFutures_frame e
    rwa [hframe] at hk

end Executor

/-! ## Runs -/

namespace System
open Executor (OneProbe)
variable {α : Type} {s s' : System α} {e : Event α} {k : String}

/-- **No event but a dispatch cycle** forgets an observation; nor does a cycle, by `planned_unobserved`. -/
theorem step_unobserved (h : s.step e = some s') (hk : s'.executor.profiles.Unobserved k)
    (hcycle : ∀ env, s.executor.maybeDispatch env ≠ .ok s'.executor) : s.executor.profiles.Unobserved k := by
  cases hnext : s.nextSection e with
  | none =>
    rcases (step_outside h hnext).2 with hsame | ⟨fnModule, fnName, profileKey, hget⟩
    · rwa [hsame] at hk
    · rw [hget] at hk
      exact hk.of_get
  | some m =>
    obtain ⟨t, env, rest, body, rfl, hacted⟩ := acted_of_next h hnext
    by_cases hm : m = .maybeDispatch
    · subst hm
      exact absurd (Executor.run_maybeDispatch hacted.run).1 (hcycle env)
    · exact Executor.run_unobserved hacted.run hm hk

theorem Reachable.oneProbe (h : Reachable s) : OneProbe s.executor := by
  obtain ⟨cfg, profiles, h⟩ := h
  induction h with
  | refl => exact fun _ _ x hx => by cases hx
  | @tail s s' hrun h ih =>
    obtain ⟨e, h⟩ := h
    have hs := (Reachable.sound ⟨cfg, profiles, hrun⟩).1
    by_cases hcycle : ∃ env, s.executor.maybeDispatch env = .ok s'.executor
    · obtain ⟨env, hok⟩ := hcycle
      exact Executor.maybeDispatch_oneProbe hok hs.pending hs.queued_not_flight ih
    · obtain ⟨-, hflight, hworks⟩ := ((step_stepped h).lands hs).resolve_left hcycle
      refine ih.of_subset (fun k hk => ?_) hflight.subset fun x hx k hp => hp.of_works (hworks x hx nofun)
      exact step_unobserved h hk fun env hok => hcycle ⟨env, hok⟩

/-- **The cold-start canary**: in every reachable state at most one task in flight without a hint carries an identity of
which nothing has been observed, and no plan decides a cold task while another one of its identity is running or has
been decided before it. -/
theorem coldStart_alone :
    (∀ s : System α, Reachable s → ∀ k, s.executor.profiles.Unobserved k → ∀ x ∈ s.executor.inFlight,
      ∀ y ∈ s.executor.inFlight, s.executor.Probes k x → s.executor.Probes k y → x = y) ∧
    ∀ (pending : List PendingEntry) (running : List RunningEntry) (cap : Capacity) (xs ys : List Admission) (a : Admission),
      (cycle pending running cap).admitted = xs ++ a :: ys → a.task.cold = true →
      ∀ k, a.task.profileIdentity = some k →
        (∀ o ∈ running, o.profileIdentity ≠ some k) ∧ ∀ b ∈ xs, b.task.profileIdentity ≠ some k :=
  ⟨fun _ h => h.oneProbe, fun _ _ _ _ _ _ h hcold _ hk => cycle_cold h hcold hk⟩

theorem coldStart_alone_shipped :
    (∃ s : System Unit, Reachable s ∧ s.executor.profiles.Unobserved "m:f" ∧ s.executor.Probes "m:f" "x" ∧
      ∀ y ∈ s.executor.inFlight, s.executor.Probes "m:f" y → "x" = y) ∧
    let warm := { cpuTask "a" 1 none with profileIdentity := some "m:g" }
    let cold := { cpuTask "b" 1 none with profileIdentity := some "m:f", cold := true }
    let running := [{ cpuRunning "r" 1 none with profileIdentity := some "m:g" }]
    (cycle [warm, cold] running (cpuHost 4 3 1)).admitted = [⟨warm, none, none⟩] ++ ⟨cold, none, none⟩ :: [] ∧
      (∀ o ∈ running, o.profileIdentity ≠ some "m:f") ∧
        ∀ b ∈ [(⟨warm, none, none⟩ : Admission)], b.task.profileIdentity ≠ some "m:f" := by
  obtain ⟨s, hs⟩ := Option.isSome_iff_exists.mp
    (show ((init oneWorker {} : System Unit).play shipOne).isSome = true by decide +kernel)
  have hfacts : ((init oneWorker {} : System Unit).play shipOne).map (fun s => (decide ("x" ∈ s.executor.inFlight),
      s.executor.profiles.find "m:f", (s.executor.works "x").profileIdentity, (s.executor.works "x").memoryHint,
        (s.executor.works "x").vramHint)) = some (true, some {}, some "m:f", none, none) := by
    decide +kernel
  rw [hs] at hfacts
  obtain ⟨hflight, hfind, hid, hmemory, hvram⟩ : "x" ∈ s.executor.inFlight ∧ s.executor.profiles.find "m:f" = some {} ∧
      (s.executor.works "x").profileIdentity = some "m:f" ∧ (s.executor.works "x").memoryHint = none ∧
        (s.executor.works "x").vramHint = none := by simpa using hfacts
  have hk : s.executor.profiles.Unobserved "m:f" := fun p hp => by
    rw [hfind] at hp
    obtain rfl := Option.some.inj hp
    rfl
  have hp : s.executor.Probes "m:f" "x" := ⟨hid, hmemory, hvram⟩
  refine ⟨⟨s, play_reachable hs, hk, hp, fun y hy hpy => ?_⟩, ?_⟩
  · exact coldStart_alone.1 s (play_reachable hs) "m:f" hk "x" hflight y hy hp hpy
  · intro warm cold running
    have hadmitted : (cycle [warm, cold] running (cpuHost 4 3 1)).admitted =
        [⟨warm, none, none⟩] ++ ⟨cold, none, none⟩ :: [] := by decide +kernel
    refine ⟨hadmitted, ?_⟩
    exact (coldStart_alone (α := Unit)).2 _ _ _ _ _ _ hadmitted rfl "m:f" rfl

end System

end AdaptiveExecutor
