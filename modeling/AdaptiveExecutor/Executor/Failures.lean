import AdaptiveExecutor.Executor.Runs
import AdaptiveExecutor.Executor.Transport
import AdaptiveExecutor.Profiles.Floors

/-!
# Failed runs and crash floors

A worker attaches an observation to a failure as it does to a success, and the collector records both. The profile does
not know which is which.

* `Execution`, `Pickling.execute` : what a worker reports of an item;
* `Executor.handleResult` : `_process_result` to its end; `handleResult_sections` : it is the sections of the collector;
* `ResultLog` : the executor, with the results recorded into each profile;
* `Happening` : a result is handled, or other threads go on meanwhile;
* `CountsFailure` : a result completes a row of low observations, and one of them is of a failed run;
* `successes_lift_iff` : successful runs alone lift floors in the runs in which that does not happen.
-/

namespace AdaptiveExecutor
open Pickling (Sample samplePickling)

/-! ## The worker -/

section Worker
variable {α β : Type}

/-- What becomes of an item: its function cannot be resolved, or it is run and measured. -/
inductive Execution (α : Type)
  | unresolved (exc : α)
  | executed (outcome : TaskOutcome α) (observation : ResourceObservation)

namespace Pickling

/-- `_execute`: `none` when an exception leaves it. -/
def execute (p : Pickling α β) : Execution α → Option (System.Report α)
  | .unresolved exc => (p.makePicklableException exc).map fun exc => ⟨false, none, some exc, ⟨0, 0, 0, 0⟩⟩
  | .executed outcome observation => p.executeWithObservation observation outcome

end Pickling

end Worker

/-! ## The collector -/

namespace Executor
variable {α : Type} {e : Executor α} {r : WorkResult α} {key : String}

/-- `_process_result` records the result: its task is in flight, and has not been given up. -/
def Records (e : Executor α) (r : WorkResult α) : Prop := r.id ∈ e.inFlight ∧ (e.works r.id).resultIgnored = false

instance (e : Executor α) (r : WorkResult α) : Decidable (e.Records r) := inferInstanceAs (Decidable (_ ∧ _))

def keysOf (e : Executor α) (id : WorkId) : List String :=
  storeKeys (e.works id).fnModule (e.works id).fnName (e.works id).profileKey

/-- `_process_result`, to its end. -/
def handleResult (e : Executor α) (r : WorkResult α) : Executor α :=
  let e := e.clearWorker r
  if r.id ∉ e.inFlight then e
  else if (e.works r.id).resultIgnored then e.popInFlight r.id
  else ((e.popInFlight r.id).record r.id r.observation).settle r.id r.outcome

/-- The collector comes to the same, section by section. -/
theorem handleResult_sections (env : Env) (e : Executor α) (r : WorkResult α) :
    (e.processResult r).2.foldlM (fun e m => (e.run env m).map Prod.fst) (e.processResult r).1 =
      some (e.handleResult r) := by
  unfold processResult handleResult
  dsimp only
  split_ifs
  · rfl
  · rfl
  · rfl

/-- **A result that is handled** goes into the profiles of its task, if it is recorded, and into no other. -/
theorem handleResult_profile (e : Executor α) (r : WorkResult α) (key : String) :
    (e.handleResult r).profiles.profile key =
      if e.Records r ∧ key ∈ e.keysOf r.id then (e.profiles.profile key).add r.observation
      else e.profiles.profile key := by
  have hsections := handleResult_sections ⟨fun _ => none, fun _ _ => none, fun _ => none, .failed⟩ e r
  obtain ⟨slots, workers, retiring, hclear⟩ := clearWorker_frame e r
  unfold processResult at hsections
  dsimp only at hsections
  rw [hclear] at hsections
  dsimp only at hsections
  unfold Records
  by_cases hin : r.id ∈ e.inFlight
  · rw [if_neg (not_not.mpr hin)] at hsections
    by_cases hignored : (e.works r.id).resultIgnored = true
    · rw [if_pos hignored] at hsections
      rw [← Option.some.inj hsections, if_neg (by simp [hignored])]
      rfl
    · rw [if_neg hignored] at hsections
      have hrecord := run_profile (.record (e.works r.id).fnModule (e.works r.id).fnName r.observation
        (e.works r.id).profileKey) e.profiles key
      rw [← Option.some.inj hsections]
      refine hrecord.trans (if_congr ?_ rfl rfl)
      simp only [Bool.not_eq_true] at hignored
      simp only [hin, hignored, true_and]
      rfl
  · rw [if_pos hin] at hsections
    rw [← Option.some.inj hsections, if_neg fun h => hin h.1.1]

end Executor

/-! ## What happens to the profiles -/

/-- A result of a profile, as far as recovery is about it. -/
structure LoggedResult where
  success : Bool
  observation : ResourceObservation
  deriving DecidableEq

/-- The collector handles a result; or other threads call the store, without an observation, or go on in another way. -/
inductive Happening (α : Type)
  | result (r : WorkResult α)
  | call (c : StoreCall) (unobserved : c.observation? = none)
  | elsewhere (e : Executor α)

namespace Happening
variable {α : Type} {e : Executor α} {x : Happening α} {key : String}

def run (e : Executor α) : Happening α → Executor α
  | .result r => e.handleResult r
  | .call c _ => { e with profiles := c.run e.profiles }
  | .elsewhere e' => { e' with profiles := e.profiles }

def logs (e : Executor α) : Happening α → String → Option LoggedResult
  | .result r, key => if e.Records r ∧ key ∈ e.keysOf r.id then some ⟨r.success, r.observation⟩ else none
  | .call .., _ | .elsewhere _, _ => none

theorem run_profile_of_some {l : LoggedResult} (h : x.logs e key = some l) :
    (x.run e).profiles.profile key = (e.profiles.profile key).add l.observation := by
  cases x with
  | result r =>
    simp only [logs] at h
    split_ifs at h with hrecords
    rw [← Option.some.inj h]
    exact (e.handleResult_profile r key).trans (if_pos hrecords)
  | call | elsewhere => cases h

theorem run_profile_of_none (h : x.logs e key = none) :
    (x.run e).profiles.profile key = e.profiles.profile key ∨
      ∃ floorGb, (x.run e).profiles.profile key = (e.profiles.profile key).setMemoryFloor floorGb := by
  cases x with
  | result r =>
    simp only [logs] at h
    split_ifs at h with hrecords
    exact .inl ((e.handleResult_profile r key).trans (if_neg hrecords))
  | call c unobserved =>
    have hprofile := run_profile c e.profiles key
    by_cases hkey : key ∈ c.keys
    · rw [if_pos hkey] at hprofile
      cases c with
      | record => cases unobserved
      | recordMemoryFloor m f floorGb k => exact .inr ⟨floorGb, hprofile⟩
      | get | estimationIdentity => exact .inl hprofile
    · exact .inl (hprofile.trans (if_neg hkey))
  | elsewhere e' => exact .inl rfl

end Happening

/-- The executor, and the results recorded into each profile. A profile has the last of their observations. -/
structure ResultLog (α : Type) where
  executor : Executor α
  log : String → List LoggedResult
  aligned : ∀ key, lastN (executor.profiles.profile key).maxObservations (executor.profiles.profile key).observations =
    lastN (executor.profiles.profile key).maxObservations ((log key).map LoggedResult.observation)

namespace ResultLog
variable {α : Type} {s : ResultLog α} {x : Happening α} {key : String} {l : LoggedResult} {floor : ℚ}

abbrev profile (s : ResultLog α) (key : String) : LearnedProfile := s.executor.profiles.profile key

def step (s : ResultLog α) (x : Happening α) : ResultLog α where
  executor := x.run s.executor
  log key := s.log key ++ (x.logs s.executor key).toList
  aligned key := by
    cases hlogs : x.logs s.executor key with
    | none =>
      rw [Option.toList_none, List.append_nil]
      rcases Happening.run_profile_of_none hlogs with hsame | ⟨floorGb, hset⟩
      · rw [hsame]
        exact s.aligned key
      · rw [hset]
        exact s.aligned key
    | some l =>
      rw [Happening.run_profile_of_some hlogs, Option.toList_some, List.map_append]
      exact LearnedProfile.add_window (s.aligned key) l.observation

def run (s : ResultLog α) (xs : List (Happening α)) : ResultLog α := xs.foldl step s

/-- What happens takes the floor of the profile from active to cleared. -/
def Clears (s : ResultLog α) (x : Happening α) (key : String) : Prop :=
  (s.profile key).memoryFloorGb ≠ none ∧ ((s.step x).profile key).memoryFloorGb = none

instance (s : ResultLog α) (x : Happening α) (key : String) : Decidable (s.Clears x key) :=
  inferInstanceAs (Decidable (_ ∧ _))

/-- The last `FLOOR_RECOVERY_OBSERVATIONS` results recorded into the profile were all successful. -/
def Succeeding (s : ResultLog α) (key : String) : Prop :=
  floorRecoveryObservations ≤ (s.log key).length ∧
    ∀ l ∈ lastN floorRecoveryObservations (s.log key), l.success = true

instance (s : ResultLog α) (key : String) : Decidable (s.Succeeding key) := inferInstanceAs (Decidable (_ ∧ _))

/-- A result is recorded into a profile with a floor, and completes a row of low observations, one of a failed run. -/
def CountsFailure (s : ResultLog α) (x : Happening α) : Prop :=
  ∃ key l floor, x.logs s.executor key = some l ∧ (s.profile key).memoryFloorGb = some floor ∧
    (s.profile key).CanRecover ∧ LearnedProfile.LowTail floor ((s.log key ++ [l]).map LoggedResult.observation) ∧
      ∃ failed ∈ lastN floorRecoveryObservations (s.log key ++ [l]), failed.success = false

theorem lowTail_iff (hrecover : (s.profile key).CanRecover) :
    LearnedProfile.LowTail floor ((s.profile key).observations ++ [l.observation]) ↔
      LearnedProfile.LowTail floor ((s.log key ++ [l]).map LoggedResult.observation) := by
  rw [List.map_append]
  exact hrecover.lowTail_iff l.observation (s.aligned key)

/-- **What clears a floor**: a result, with which the last ones recorded into the profile are low. -/
theorem clears_iff : s.Clears x key ↔ ∃ l floor, x.logs s.executor key = some l ∧
    (s.profile key).memoryFloorGb = some floor ∧ (s.profile key).CanRecover ∧
      LearnedProfile.LowTail floor ((s.log key ++ [l]).map LoggedResult.observation) := by
  constructor
  · rintro ⟨hactive, hcleared⟩
    obtain ⟨floor, hfloor⟩ := Option.ne_none_iff_exists'.mp hactive
    cases hlogs : x.logs s.executor key with
    | none =>
      exfalso
      rcases Happening.run_profile_of_none hlogs with hsame | ⟨floorGb, hset⟩
      · exact hactive ((congrArg LearnedProfile.memoryFloorGb hsame).symm.trans hcleared)
      · obtain ⟨own, hown, -⟩ := (s.profile key).setMemoryFloor_spec floorGb
        have hnone := (congrArg LearnedProfile.memoryFloorGb hset).symm.trans hcleared
        rw [hown] at hnone
        cases hnone
    | some l =>
      have hadd : ((s.profile key).add l.observation).memoryFloorGb = none :=
        (congrArg LearnedProfile.memoryFloorGb (Happening.run_profile_of_some hlogs)).symm.trans hcleared
      rw [LearnedProfile.add_floor_of_some hfloor, ite_eq_left_iff] at hadd
      obtain ⟨hrecover, hlow⟩ := not_not.mp fun h => absurd (hadd h) (by simp)
      exact ⟨l, floor, rfl, hfloor, hrecover, (lowTail_iff hrecover).mp hlow⟩
  · rintro ⟨l, floor, hlogs, hfloor, hrecover, hlow⟩
    refine ⟨by rw [hfloor]; simp, ?_⟩
    have hadd : (s.step x).profile key = (s.profile key).add l.observation := Happening.run_profile_of_some hlogs
    rw [hadd, LearnedProfile.add_floor_of_some hfloor]
    exact if_pos ⟨hrecover, (lowTail_iff hrecover).mpr hlow⟩

/-- **One happening**: a floor is cleared against a failed run exactly when such a run is counted. -/
theorem countsFailure_iff : s.CountsFailure x ↔ ∃ key, s.Clears x key ∧ ¬ (s.step x).Succeeding key := by
  have hlog {key : String} {l : LoggedResult} (h : x.logs s.executor key = some l) :
      (s.step x).log key = s.log key ++ [l] := by
    show s.log key ++ (x.logs s.executor key).toList = s.log key ++ [l]
    rw [h, Option.toList_some]
  constructor
  · rintro ⟨key, l, floor, hlogs, hfloor, hrecover, hlow, failed, hfailed, hno⟩
    refine ⟨key, clears_iff.mpr ⟨l, floor, hlogs, hfloor, hrecover, hlow⟩, ?_⟩
    rintro ⟨-, hall⟩
    rw [hlog hlogs] at hall
    rw [hall failed hfailed] at hno
    cases hno
  · rintro ⟨key, hclears, hnot⟩
    obtain ⟨l, floor, hlogs, hfloor, hrecover, hlow⟩ := clears_iff.mp hclears
    refine ⟨key, l, floor, hlogs, hfloor, hrecover, hlow, ?_⟩
    by_contra hnone
    apply hnot
    unfold Succeeding
    rw [hlog hlogs]
    refine ⟨by simpa using hlow.1, fun l' hl' => ?_⟩
    by_contra hfailed
    exact hnone ⟨l', hl', Bool.not_eq_true _ ▸ hfailed⟩

/-- **When failed runs never lift a crash floor**: in the runs in which no result completes a row of low observations
that has one of a failed run in it, and in no other. -/
theorem successes_lift_iff (s : ResultLog α) (xs : List (Happening α)) :
    (∀ done x, done ++ [x] <+: xs → ∀ key, (s.run done).Clears x key → ((s.run done).step x).Succeeding key) ↔
      ∀ done x, done ++ [x] <+: xs → ¬ (s.run done).CountsFailure x := by
  refine forall₃_congr fun done x _ => ?_
  rw [countsFailure_iff, not_exists]
  exact forall_congr' fun key => not_and_not_right.symm

/-- Five tasks of a function in flight, whose crash floor is 10 GB. -/
def flooredExecutor : Executor Sample where
  cfg := { maxWorkers := 5, gpuIds := [] }
  works := fun _ => { fnModule := "m", fnName := "f", estimate := ({} : LearnedProfile).estimate none none }
  inFlight := ["1", "2", "3", "4", "5"]
  profiles := ⟨[("m:f", { memoryFloorGb := some 10 })]⟩

def flooredLog : ResultLog Sample where
  executor := flooredExecutor
  log := fun _ => []
  aligned key := by
    have hempty : (flooredExecutor.profiles.profile key).observations = [] := by
      unfold ProfileStore.profile ProfileStore.find flooredExecutor
      simp only [List.lookup_cons, List.lookup_nil]
      split
      · rfl
      · rfl
    rw [hempty, List.map_nil]

/-- The report of a worker that does not find the function. -/
def unresolvedReport : System.Report Sample := ⟨false, none, some (.runtimeError "no module named m"), ⟨0, 0, 0, 0⟩⟩

def unresolvedResult (id : WorkId) : Happening Sample :=
  .result ⟨id, 0, unresolvedReport.success, unresolvedReport.result, unresolvedReport.exception, unresolvedReport.observation⟩

/-- Five runs that never started lift the floor. -/
theorem failures_lift : samplePickling.execute (.unresolved (.runtimeError "no module named m")) = some unresolvedReport ∧
    ¬ ∀ done x, done ++ [x] <+: ["1", "2", "3", "4", "5"].map unresolvedResult → ∀ key,
      (flooredLog.run done).Clears x key → ((flooredLog.run done).step x).Succeeding key := by
  refine ⟨rfl, fun h => ?_⟩
  obtain ⟨-, hall⟩ := h (["1", "2", "3", "4"].map unresolvedResult) (unresolvedResult "5") List.prefix_rfl "m:f"
    (by decide +kernel)
  exact absurd hall (by decide +kernel)

end ResultLog

end AdaptiveExecutor
