import AdaptiveExecutor.Executor.Commitments

/-!
# The credit for observed usage

The monitor and the observation of each task are two samplers. What a task has allocated is subtracted from its estimate
when its own sample shows it, and from the free memory when the snapshot does.

* `Sampled`, `Reports` : samples that were taken, and those that a refresh takes;
* `credit` : the part of the estimates that observed usage takes out of the commitment;
* `memoryFree_eq` : the free memory in terms of the credit;
* `memoryFree_le_iff` : exactly when the credit does not erode the headroom;
* `credit_le_of_samples` : it does not when no sample shows more than the snapshot.
-/

namespace AdaptiveExecutor

namespace Executor
variable {α : Type} {env : Env} {e e' : Executor α} {snapshot : ResourceSnapshot} {usage : WorkId → ℚ → ℚ}
  {sampledAt : WorkId → ℚ}

/-- The observed memory of every task in flight is its usage at the time of its sample. -/
def Sampled (e : Executor α) (usage : WorkId → ℚ → ℚ) (sampledAt : WorkId → ℚ) : Prop :=
  ∀ x ∈ e.inFlight, (e.works x).observedMemoryGb = usage x (sampledAt x)

/-- The task is due for a refresh of its observation. -/
def due (e : Executor α) (x : WorkId) : Bool :=
  !(e.works x).observedRefreshedAt.any fun last => e.clock - last < e.cfg.observationRefreshSeconds

def Reports (env : Env) (e : Executor α) (usage : WorkId → ℚ → ℚ) : Prop :=
  ∀ x ∈ e.inFlight, e.due x = true → (updateObserved env e.clock (e.works x)).observedMemoryGb = usage x e.clock

def resampledAt (e : Executor α) (sampledAt : WorkId → ℚ) (x : WorkId) : ℚ :=
  if e.due x then e.clock else sampledAt x

/-- What is observed of a process that can be read: its RSS above the baseline. -/
theorem updateObserved_memory {w : PendingWork} {now : ℚ} {pid baseline current : Int} (hpid : w.workerPid = some pid)
    (hbaseline : w.rssBaselineBytes = some baseline) (hcurrent : env.rssBytes pid = some current) :
    (updateObserved env now w).observedMemoryGb = max 0 (((current - baseline : Int) : ℚ) / 1000000000) := by
  unfold updateObserved
  dsimp only
  rw [hpid]
  dsimp only
  rw [hbaseline]
  dsimp only
  rw [hcurrent]
  split <;> rfl

/-! ## A refresh -/

theorem refreshObservations_works (env : Env) (e : Executor α) (hnodup : e.inFlight.Nodup) :
    ∀ x ∈ e.inFlight, (e.refreshObservations env e.clock).works x =
      if e.due x then updateObserved env e.clock (e.works x) else e.works x := by
  have one (s : Executor α) (now : ℚ) (id x : WorkId) : (refreshOne env now s id).cfg = s.cfg ∧
      (x ≠ id → (refreshOne env now s id).works x = s.works x) ∧
      (refreshOne env now s id).works id =
        if !(s.works id).observedRefreshedAt.any fun last => now - last < s.cfg.observationRefreshSeconds
        then updateObserved env now (s.works id) else s.works id := by
    unfold refreshOne
    split_ifs with hthrottled h h
    · rw [hthrottled] at h
      cases h
    · exact ⟨rfl, fun _ => rfl, rfl⟩
    · exact ⟨rfl, fun hx => Function.update_of_ne hx _ _, Function.update_self _ _ _⟩
    · rw [Bool.not_eq_true] at hthrottled
      rw [hthrottled] at h
      exact absurd rfl h
  have turns : ∀ (ids : List WorkId) (s : Executor α) (now : ℚ), ids.Nodup →
      (∀ x ∉ ids, (ids.foldl (refreshOne env now) s).works x = s.works x) ∧
      ∀ x ∈ ids, (ids.foldl (refreshOne env now) s).works x =
        if !(s.works x).observedRefreshedAt.any fun last => now - last < s.cfg.observationRefreshSeconds
        then updateObserved env now (s.works x) else s.works x := by
    intro ids
    induction ids with
    | nil => exact fun s now _ => ⟨fun _ _ => rfl, fun x hx => by cases hx⟩
    | cons id ids ih =>
      intro s now hnodup
      obtain ⟨hid, hnodup⟩ := List.nodup_cons.mp hnodup
      obtain ⟨ihother, ihself⟩ := ih (refreshOne env now s id) now hnodup
      refine ⟨fun x hx => ?_, fun x hx => ?_⟩
      · rw [List.mem_cons, not_or] at hx
        rw [List.foldl_cons, ihother x hx.2]
        exact (one s now id x).2.1 hx.1
      · rw [List.foldl_cons]
        rcases List.mem_cons.mp hx with rfl | hx
        · rw [ihother x hid]
          exact (one s now x x).2.2
        · have hne : x ≠ id := fun he => hid (he ▸ hx)
          rw [ihself x hx, (one s now id x).1, (one s now id x).2.1 hne]
  exact (turns e.inFlight e e.clock hnodup).2

/-- After a refresh the samples are those taken now, and the old ones of the tasks that were not due. -/
theorem Sampled.refresh (h : Sampled e usage sampledAt) (hreports : Reports env e usage) (hnodup : e.inFlight.Nodup) :
    Sampled (e.refreshObservations env e.clock) usage (e.resampledAt sampledAt) := by
  obtain ⟨works, hframe, -⟩ := refreshObservations_frame env e e.clock
  have hflight : (e.refreshObservations env e.clock).inFlight = e.inFlight := by rw [hframe]
  intro x hx
  rw [hflight] at hx
  rw [refreshObservations_works env e hnodup x hx]
  unfold resampledAt
  split_ifs with hdue
  · exact hreports x hx hdue
  · exact h x hx

/-! ## The credit -/

/-- The part of the estimates that the samples take out of the commitment. -/
def credit (e : Executor α) (usage : WorkId → ℚ → ℚ) (sampledAt : WorkId → ℚ) : ℚ :=
  (e.inFlight.map fun x => min (e.works x).estimate.memoryGb (usage x (sampledAt x))).sum

def usageInFlight (e : Executor α) (usage : WorkId → ℚ → ℚ) (t : ℚ) : ℚ := (e.inFlight.map fun x => usage x t).sum

theorem committedGb_eq (estimateGb observedGb : ℚ) :
    committedGb estimateGb observedGb = estimateGb - min estimateGb observedGb := by
  unfold committedGb
  dsimp only
  split_ifs with h
  · rw [min_eq_right (by linarith)]
  · rw [min_eq_left (by linarith), sub_self]

theorem Sampled.totalCommitted (h : Sampled e usage sampledAt) : totalCommittedGb (e.inFlight.map fun id =>
    ((e.works id).estimate.memoryGb, (e.works id).observedMemoryGb)) = e.memoryInFlight - e.credit usage sampledAt := by
  have hsum : ∀ ids : List WorkId, (∀ x ∈ ids, (e.works x).observedMemoryGb = usage x (sampledAt x)) →
      totalCommittedGb (ids.map fun id => ((e.works id).estimate.memoryGb, (e.works id).observedMemoryGb)) =
        (ids.map fun x => (e.works x).estimate.memoryGb).sum -
          (ids.map fun x => min (e.works x).estimate.memoryGb (usage x (sampledAt x))).sum := by
    intro ids
    unfold totalCommittedGb
    induction ids with
    | nil => exact fun _ => (sub_self _).symm
    | cons x ids ih =>
      intro hids
      obtain ⟨hx, hids⟩ := List.forall_mem_cons.mp hids
      rw [List.map_cons, List.map_cons, List.sum_cons, ih hids, committedGb_eq, hx]
      simp only [List.map_cons, List.sum_cons]
      ring
  exact hsum e.inFlight h

/-- **The free memory**, when the snapshot shows the usage of the tasks in flight at `polledAt` on top of `base`. -/
theorem memoryFree_eq (h : Sampled e usage sampledAt) (hsnapshot : e.snapshot = some snapshot) {base polledAt : ℚ}
    (hused : snapshot.memoryUsedGb = base + e.usageInFlight usage polledAt) :
    e.memoryFree = ((snapshot.memoryTotalGb - e.cfg.memoryHeadroomGb - base - e.memoryInFlight +
      (e.credit usage sampledAt - e.usageInFlight usage polledAt) : ℚ) : AdaptiveExecutor.Free) := by
  unfold memoryFree
  rw [hsnapshot]
  dsimp only
  rw [h.totalCommitted, hused]
  congr 1
  ring

theorem refreshObservations_estimates (env : Env) (e : Executor α) (now : ℚ) :
    (e.refreshObservations env now).memoryInFlight = e.memoryInFlight ∧
      ∀ usage sampledAt, (e.refreshObservations env now).credit usage sampledAt = e.credit usage sampledAt := by
  obtain ⟨works, hframe, hkeeps⟩ := refreshObservations_frame env e now
  have hestimate := hkeeps (fun w => w.estimate.memoryGb) fun w =>
    updateObserved_keeps (g := fun w => w.estimate.memoryGb) (fun _ _ _ _ => rfl) env now w
  rw [hframe]
  refine ⟨?_, fun usage sampledAt => ?_⟩
  · unfold memoryInFlight
    dsimp only
    rw [List.map_congr_left fun x _ => hestimate x]
  · unfold credit
    dsimp only
    rw [List.map_congr_left fun x _ => congrArg (min · _) (hestimate x)]

section Cycle
variable (hnodup : e.inFlight.Nodup) (hsampled : Sampled e usage sampledAt) (hreports : Reports env e usage)
  (hsnapshot : e.snapshot = some snapshot) {base polledAt : ℚ}
  (hused : snapshot.memoryUsedGb = base + e.usageInFlight usage polledAt)
include hnodup hsampled hreports hsnapshot hused

/-- **The credit never erodes the headroom, exactly when** it is at most what the snapshot shows of the tasks in flight:
then, and only then, the scheduler gets no more memory than the estimates leave. -/
theorem memoryFree_le_iff : (e.refreshObservations env e.clock).capacity.memoryFreeGb ≤
      ((snapshot.memoryTotalGb - e.cfg.memoryHeadroomGb - base - e.memoryInFlight : ℚ) : AdaptiveExecutor.Free) ↔
    e.credit usage (e.resampledAt sampledAt) ≤ e.usageInFlight usage polledAt := by
  obtain ⟨works, hframe, -⟩ := refreshObservations_frame env e e.clock
  have hsnapshot' : (e.refreshObservations env e.clock).snapshot = some snapshot := by rw [hframe]; exact hsnapshot
  have hcfg : (e.refreshObservations env e.clock).cfg = e.cfg := by rw [hframe]
  have husage : (e.refreshObservations env e.clock).usageInFlight usage polledAt = e.usageInFlight usage polledAt := by
    rw [hframe]
    rfl
  obtain ⟨hmemory, hcredit⟩ := refreshObservations_estimates env e e.clock
  have hfree := memoryFree_eq (hsampled.refresh hreports hnodup) hsnapshot' (hused.trans (by rw [husage]))
  rw [hmemory, hcredit, husage, hcfg] at hfree
  change (e.refreshObservations env e.clock).memoryFree ≤ _ ↔ _
  rw [hfree, WithTop.coe_le_coe]
  constructor
  · intro h
    linarith
  · intro h
    linarith

end Cycle

/-- No sample shows more of a task than the snapshot does: then the credit is harmless. -/
theorem credit_le_of_samples {polledAt : ℚ} (h : ∀ x ∈ e.inFlight, usage x (sampledAt x) ≤ usage x polledAt) :
    e.credit usage sampledAt ≤ e.usageInFlight usage polledAt := by
  apply List.sum_le_sum
  intro x hx
  exact (min_le_right _ _).trans (h x hx)

/-- One task is in flight, estimated at 4 GB and last observed at the time 0; now is the time 1. The monitor shows
`usedGb` of 16 GB. -/
def oneRunning (usedGb : ℚ) : Executor Unit where
  cfg := System.oneWorker
  works := fun _ =>
    { fnModule := "m"
      fnName := "f"
      estimate := ⟨4, 0, 1, 1, none, by norm_num, le_rfl⟩
      workerPid := some 7
      rssBaselineBytes := some 0
      observedRefreshedAt := some 0 }
  inFlight := ["x"]
  clock := 1
  snapshot := some ⟨usedGb, 16, []⟩

def threeGb : Env := { System.plainEnv with rssBytes := fun _ => some 3000000000 }

def growing (_ : WorkId) (t : ℚ) : ℚ := 3 * t

theorem oneRunning_sampled (usedGb : ℚ) : Sampled (oneRunning usedGb) growing fun _ => 0 := fun _ _ => by
  simp [oneRunning, growing]

theorem oneRunning_reports (usedGb : ℚ) : Reports threeGb (oneRunning usedGb) growing := fun x _ _ => by
  have h : (updateObserved threeGb (oneRunning usedGb).clock ((oneRunning usedGb).works x)).observedMemoryGb = _ :=
    updateObserved_memory rfl rfl rfl
  rw [h]
  norm_num [growing, oneRunning]

/-- The monitor has polled at the time 1. -/
theorem memoryFree_le_iff_polled : ((oneRunning 4).refreshObservations threeGb 1).capacity.memoryFreeGb ≤
      ((16 - 2 - 1 - (oneRunning 4).memoryInFlight : ℚ) : AdaptiveExecutor.Free) ↔
    (oneRunning 4).credit growing ((oneRunning 4).resampledAt fun _ => 0) ≤ (oneRunning 4).usageInFlight growing 1 :=
  memoryFree_le_iff (List.nodup_singleton "x") (oneRunning_sampled 4) (oneRunning_reports 4) rfl (by decide +kernel)

/-- The monitor has polled at the time 0, before the task grew: the scheduler gets 12 GB, and the estimate leaves 9. -/
theorem memoryFree_exceeds : Sampled (oneRunning 1) growing (fun _ => 0) ∧ Reports threeGb (oneRunning 1) growing ∧
    (1 : ℚ) = 1 + (oneRunning 1).usageInFlight growing 0 ∧
    ¬ ((oneRunning 1).refreshObservations threeGb 1).capacity.memoryFreeGb ≤
      ((16 - 2 - 1 - (oneRunning 1).memoryInFlight : ℚ) : AdaptiveExecutor.Free) :=
  ⟨oneRunning_sampled 1, oneRunning_reports 1, by decide +kernel, by decide +kernel⟩

end Executor

end AdaptiveExecutor
