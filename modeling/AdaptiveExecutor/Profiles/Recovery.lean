import AdaptiveExecutor.Profiles.Document
import AdaptiveExecutor.Profiles.Floors

/-!
# The evidence that lifts a crash floor

A crash floor is lifted by low observations, and the recovery rule does not ask when they were made.

* `ProfileCall` : the calls of `add` and `set_memory_floor` on one profile;
* `Evidence` : the profile with what was observed before its floor was last set, raised or restored, and since;
* `Clears`, `Justified` : a call that clears the floor, and one for which the observations since are reason enough;
* `OldEvidence` : too few observations since, and low ones from before make up for them;
* `lifted_by_evidence_iff` : the floor is lifted by evidence gathered after it in the runs without such a call.
-/

namespace AdaptiveExecutor

inductive ProfileCall
  | add (obs : ResourceObservation)
  | setMemoryFloor (floorGb : ℚ)
  deriving DecidableEq

/-- A profile, and its observations by whether they are older than its floor. -/
structure Evidence where
  profile : LearnedProfile
  before : List ResourceObservation
  since : List ResourceObservation

namespace Evidence
variable {e : Evidence} {c : ProfileCall} {obs : ResourceObservation} {floor : ℚ}

/-- A profile whose floor has just been set, raised, or restored by a load. -/
def fresh (p : LearnedProfile) : Evidence := ⟨p, p.observations, []⟩

/-- A call that changes the floor makes all observations old. -/
def step (e : Evidence) : ProfileCall → Evidence
  | .add obs => { e with profile := e.profile.add obs, since := e.since ++ [obs] }
  | .setMemoryFloor floorGb =>
    let profile := e.profile.setMemoryFloor floorGb
    if profile.memoryFloorGb = e.profile.memoryFloorGb then { e with profile := profile } else fresh profile

def run (e : Evidence) (calls : List ProfileCall) : Evidence := calls.foldl step e

theorem run_append (calls more : List ProfileCall) : e.run (calls ++ more) = (e.run calls).run more :=
  List.foldl_append

/-! ## One call -/

def Clears (e : Evidence) (c : ProfileCall) : Prop :=
  e.profile.memoryFloorGb ≠ none ∧ (e.step c).profile.memoryFloorGb = none

instance (e : Evidence) (c : ProfileCall) : Decidable (e.Clears c) := inferInstanceAs (Decidable (_ ∧ _))

/-- The call adds an observation, and those since the floor was last set are enough to lift it. -/
def Justified (e : Evidence) : ProfileCall → Prop
  | .add obs => ∃ floor, e.profile.memoryFloorGb = some floor ∧ LearnedProfile.LowTail floor (e.since ++ [obs])
  | .setMemoryFloor _ => False

/-- The call adds an observation, with which there are too few since the floor was last set, and the most recent of
all that were made are low. -/
def OldEvidence (e : Evidence) : ProfileCall → Prop
  | .add obs => (e.since ++ [obs]).length < floorRecoveryObservations ∧ e.profile.CanRecover ∧
    ∃ floor, e.profile.memoryFloorGb = some floor ∧ LearnedProfile.LowTail floor (e.before ++ (e.since ++ [obs]))
  | .setMemoryFloor _ => False

def Tracks (e : Evidence) : Prop :=
  lastN e.profile.maxObservations e.profile.observations = lastN e.profile.maxObservations (e.before ++ e.since)

theorem tracks_fresh (p : LearnedProfile) : (fresh p).Tracks := by
  unfold Tracks fresh
  rw [List.append_nil]

theorem Tracks.step (h : e.Tracks) (c : ProfileCall) : (e.step c).Tracks := by
  cases c with
  | add obs =>
    show lastN (e.profile.add obs).maxObservations (e.profile.add obs).observations =
      lastN (e.profile.add obs).maxObservations (e.before ++ (e.since ++ [obs]))
    rw [← List.append_assoc]
    exact LearnedProfile.add_window h obs
  | setMemoryFloor floorGb =>
    unfold Evidence.step
    dsimp only
    split_ifs
    · exact h
    · exact tracks_fresh _

theorem Tracks.run (h : e.Tracks) (calls : List ProfileCall) : (e.run calls).Tracks := by
  induction calls generalizing e with
  | nil => exact h
  | cons c calls ih => exact ih (h.step c)

theorem Tracks.lowTail_iff (h : e.Tracks) (hrecover : e.profile.CanRecover) :
    LearnedProfile.LowTail floor (e.profile.observations ++ [obs]) ↔
      LearnedProfile.LowTail floor (e.before ++ (e.since ++ [obs])) := by
  rw [← List.append_assoc]
  exact hrecover.lowTail_iff obs h

theorem clears_add (hfloor : e.profile.memoryFloorGb = some floor) : e.Clears (.add obs) ↔
    e.profile.CanRecover ∧ LearnedProfile.LowTail floor (e.profile.observations ++ [obs]) := by
  unfold Clears step
  dsimp only
  rw [LearnedProfile.add_floor_of_some hfloor, hfloor]
  simp

theorem not_clears_setMemoryFloor (floorGb : ℚ) : ¬ e.Clears (.setMemoryFloor floorGb) := by
  rintro ⟨-, hnone⟩
  obtain ⟨own, hown, -⟩ := e.profile.setMemoryFloor_spec floorGb
  unfold step at hnone
  dsimp only at hnone
  split_ifs at hnone
  · rw [hown] at hnone
    cases hnone
  · exact absurd (hown.symm.trans hnone) (by simp)

/-- **One call**: a clearing that is not justified rests on old evidence. -/
theorem Tracks.oldEvidence_iff (h : e.Tracks) (c : ProfileCall) : e.OldEvidence c ↔ e.Clears c ∧ ¬ e.Justified c := by
  cases c with
  | setMemoryFloor floorGb => exact ⟨fun h => h.elim, fun h => not_clears_setMemoryFloor floorGb h.1⟩
  | add obs =>
    constructor
    · rintro ⟨hfew, hrecover, floor, hfloor, hlow⟩
      refine ⟨(clears_add hfloor).mpr ⟨hrecover, (h.lowTail_iff hrecover).mpr hlow⟩, ?_⟩
      rintro ⟨-, -, hfive, -⟩
      omega
    · rintro ⟨hclears, hunjustified⟩
      obtain ⟨floor, hfloor⟩ := Option.ne_none_iff_exists'.mp hclears.1
      obtain ⟨hrecover, hlow⟩ := (clears_add hfloor).mp hclears
      have hall := (h.lowTail_iff hrecover).mp hlow
      refine ⟨not_le.mp fun hfive => hunjustified ⟨floor, hfloor, hfive, ?_⟩, hrecover, floor, hfloor, hall⟩
      -- enough of them since: these are the most recent ones
      have hrecent : lastN floorRecoveryObservations (e.before ++ (e.since ++ [obs])) =
          lastN floorRecoveryObservations (e.since ++ [obs]) := lastN_append_right (by decide) hfive
      rw [← hrecent]
      exact hall.2

/-- **One call** that does not clear the floor does not lower it. -/
theorem floor_step (hfloor : e.profile.memoryFloorGb = some floor) (hkept : ¬ e.Clears c) :
    ∃ floor', (e.step c).profile.memoryFloorGb = some floor' ∧ floor ≤ floor' := by
  cases c with
  | add obs =>
    refine ⟨floor, ?_, le_rfl⟩
    show (e.profile.add obs).memoryFloorGb = some floor
    rw [LearnedProfile.add_floor_of_some hfloor]
    exact if_neg fun h => hkept ((clears_add hfloor).mpr h)
  | setMemoryFloor floorGb =>
    obtain ⟨own, hown, -, hprevious, -⟩ := e.profile.setMemoryFloor_spec floorGb
    refine ⟨own, ?_, hprevious floor hfloor⟩
    unfold step
    dsimp only
    split_ifs
    · exact hown
    · exact hown

end Evidence

/-! ## Runs -/

section Run
variable {p : LearnedProfile} {calls done : List ProfileCall}

/-- The evidence after the calls, from a profile whose floor has just been set or restored. -/
def gathered (p : LearnedProfile) (done : List ProfileCall) : Evidence := (Evidence.fresh p).run done

theorem gathered_append (done more : List ProfileCall) : gathered p (done ++ more) = (gathered p done).run more :=
  Evidence.run_append done more

theorem tracks_gathered (p : LearnedProfile) (done : List ProfileCall) : (gathered p done).Tracks :=
  (Evidence.tracks_fresh p).run done

/-- Every clearing of the run is justified by what was observed since the floor was last set, raised or restored. -/
def LiftedByEvidence (p : LearnedProfile) (calls : List ProfileCall) : Prop :=
  ∀ done c, done ++ [c] <+: calls → (gathered p done).Clears c → (gathered p done).Justified c

/-- In no part of the run without a clearing does the floor decrease. -/
def NeverDecreases (p : LearnedProfile) (calls : List ProfileCall) : Prop :=
  ∀ done more, done ++ more <+: calls →
    (∀ part c, part ++ [c] <+: more → ¬ (gathered p (done ++ part)).Clears c) →
      ∀ floor, (gathered p done).profile.memoryFloorGb = some floor →
        ∃ floor', (gathered p (done ++ more)).profile.memoryFloorGb = some floor' ∧ floor ≤ floor'

theorem neverDecreases (p : LearnedProfile) (calls : List ProfileCall) : NeverDecreases p calls := by
  intro done more hmore hkept floor hfloor
  induction more using List.reverseRecOn with
  | nil => exact ⟨floor, by rwa [List.append_nil], le_rfl⟩
  | append_singleton more c ih =>
    rw [← List.append_assoc] at hmore
    obtain ⟨floor', hfloor', hle⟩ := ih ((List.prefix_append _ [c]).trans hmore) fun part d hpart =>
      hkept part d (hpart.trans (List.prefix_append more [c]))
    obtain ⟨floor'', hfloor'', hle'⟩ := Evidence.floor_step hfloor' (hkept more c List.prefix_rfl)
    refine ⟨floor'', ?_, hle.trans hle'⟩
    rw [← List.append_assoc, gathered_append]
    exact hfloor''

/-- **When a crash floor is lifted only by evidence gathered after it**: in the runs in which no observation completes a
low row that began before the floor, and in no other. Between clearings it never decreases, in any run. -/
theorem lifted_by_evidence_iff (p : LearnedProfile) (calls : List ProfileCall) :
    LiftedByEvidence p calls ∧ NeverDecreases p calls ↔
      ∀ done c, done ++ [c] <+: calls → ¬ (gathered p done).OldEvidence c := by
  have hcall (done : List ProfileCall) (c : ProfileCall) : ¬ (gathered p done).OldEvidence c ↔
      ((gathered p done).Clears c → (gathered p done).Justified c) := by
    rw [(tracks_gathered p done).oldEvidence_iff]
    tauto
  constructor
  · intro h done c hdone
    exact (hcall done c).mpr (h.1 done c hdone)
  · intro h
    exact ⟨fun done c hdone => (hcall done c).mp (h done c hdone), neverDecreases p calls⟩

/-- Five runs of 1 GB, a crash under 10 GB, and one more run of 1 GB. -/
def crashAfterRuns : List ProfileCall :=
  List.replicate 5 (.add (usedMemory 1)) ++ [.setMemoryFloor 10, .add (usedMemory 1)]

/-- A profile with five runs of 1 GB and a floor of 10 GB, as a load restores it. -/
def restoredProfile : LearnedProfile where
  observations := List.replicate 5 (usedMemory 1)
  memoryFloorGb := some 10

/-- One run lifts the floor, be it set by a crash or restored by a load. -/
theorem lifted_by_old_runs : ¬ LiftedByEvidence {} crashAfterRuns ∧
    restoredProfile.toJson.profile = .ok restoredProfile ∧ ¬ LiftedByEvidence restoredProfile [.add (usedMemory 1)] := by
  refine ⟨fun h => ?_, LearnedProfile.profile_toJson ⟨rfl, by decide⟩, fun h => ?_⟩
  · obtain ⟨-, -, hfive, -⟩ := h (crashAfterRuns.take 6) (.add (usedMemory 1)) (by decide) (by decide +kernel)
    exact absurd hfive (by decide +kernel)
  · obtain ⟨-, -, hfive, -⟩ := h [] (.add (usedMemory 1)) List.prefix_rfl (by decide +kernel)
    exact absurd hfive (by decide +kernel)

end Run

end AdaptiveExecutor
