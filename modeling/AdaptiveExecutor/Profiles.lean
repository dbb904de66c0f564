import Mathlib.Algebra.BigOperators.Group.List.Basic
import Mathlib.Algebra.Order.Floor.Ring
import Mathlib.Data.List.Sort
import Mathlib.Data.Rat.Floor
import Mathlib.Tactic.Positivity

/-!
# Learned profiles

What the executor estimates from: observations and crash floors, by function and profile key.

* `LearnedProfile` : one profile, with `add`, `setMemoryFloor` and `estimate`;
* `ResourceEstimate` : an estimate carries that its memory and VRAM are not negative;
* `ProfileStore` : the store, with `get`, `estimationIdentity`, `record` and `recordMemoryFloor`;
* `ProfileStore.Unobserved` : nothing has been observed under a key; no operation makes it so again;
* `ProfileStore.Same` : two stores that read the same; reading does not change what is read.
-/

namespace AdaptiveExecutor

structure ResourceObservation where
  memoryDeltaGb : ℚ
  vramDeltaGb : ℚ
  cpuPercent : ℚ
  durationSeconds : ℚ
  deriving DecidableEq

/-- The resources a task is admitted under. An unknown duration is `none`. -/
structure ResourceEstimate where
  memoryGb : ℚ
  vramGb : ℚ
  cpuCores : ℚ
  confidence : ℚ
  durationP90Seconds : Option ℚ
  memory_nonneg : 0 ≤ memoryGb
  vram_nonneg : 0 ≤ vramGb

/-- The slice `xs[-n:]`. -/
def lastN {α : Type*} (n : Nat) (xs : List α) : List α := if n = 0 then xs else xs.drop (xs.length - n)

/-! ## One profile -/

def floorRecoveryObservations : Nat := 5

/-- The fraction of the floor below which an observation is low. -/
def floorRecoveryFraction : ℚ := 1 / 2

structure LearnedProfile where
  observations : List ResourceObservation := []
  maxObservations : Nat := 100
  memoryFloorGb : Option ℚ := none
  deriving DecidableEq

namespace LearnedProfile

def maybeRecoverFloor (p : LearnedProfile) : LearnedProfile :=
  match p.memoryFloorGb with
  | none => p
  | some floor =>
    let recent := lastN floorRecoveryObservations p.observations
    if recent.length < floorRecoveryObservations then p
    else if recent.all fun o => o.memoryDeltaGb < floor * floorRecoveryFraction then { p with memoryFloorGb := none }
    else p

def add (p : LearnedProfile) (obs : ResourceObservation) : LearnedProfile :=
  let observations := p.observations ++ [obs]
  let kept := if p.maxObservations < observations.length then lastN p.maxObservations observations else observations
  { p with observations := kept }.maybeRecoverFloor

/-- Ratchet the floor up to at least `floorGb`. -/
def setMemoryFloor (p : LearnedProfile) (floorGb : ℚ) : LearnedProfile :=
  { p with memoryFloorGb := some (match p.memoryFloorGb with | none => floorGb | some previous => max previous floorGb) }

def sampleCount (p : LearnedProfile) : Nat := p.observations.length

/-- The value at index `int((n - 1) * q)` of the sorted values, `0.0` for none. -/
def percentile (values : List ℚ) (q : ℚ) : ℚ :=
  (values.insertionSort (· ≤ ·)).getD ⌊((values.length : ℚ) - 1) * q⌋.toNat 0

/-- The estimate: a hint, else the p90, else the default; with a safety margin and the crash floor. -/
def estimate (p : LearnedProfile) (memoryHint vramHint : Option ℚ) : ResourceEstimate :=
  let memory := memoryHint.getD
    (if p.observations = [] then 1 else percentile (p.observations.map (·.memoryDeltaGb)) (9 / 10))
  let vram := vramHint.getD
    (if p.observations = [] then 0 else percentile (p.observations.map (·.vramDeltaGb)) (9 / 10))
  let cpuCores :=
    if p.observations = [] then 1 else (p.observations.map (·.cpuPercent)).sum / p.observations.length / 100
  let durationP90 :=
    if p.observations = [] then none else some (percentile (p.observations.map (·.durationSeconds)) (9 / 10))
  let confidence := min 1 ((p.sampleCount : ℚ) / 10)
  let safetyMultiplier := 1 + 1 / 2 * (1 - confidence)
  let memoryOut := max (1 / 10) (memory * safetyMultiplier)
  { memoryGb := match p.memoryFloorGb with | none => memoryOut | some floor => max memoryOut floor
    vramGb := max 0 (vram * safetyMultiplier)
    cpuCores := max (1 / 10) cpuCores
    confidence := confidence
    durationP90Seconds := durationP90
    memory_nonneg := by
      have h : 0 ≤ memoryOut := le_max_of_le_left (by norm_num)
      split
      exacts [h, le_max_of_le_left h]
    vram_nonneg := le_max_left _ _ }

end LearnedProfile

/-! ## The store -/

def deriveStoreKey (fnModule fnName : String) (profileKey : Option String) : String :=
  let base := fnModule ++ ":" ++ fnName
  match profileKey with
  | none => base
  | some key => base ++ "#" ++ key

structure ProfileStore where
  profiles : List (String × LearnedProfile) := []
  deriving DecidableEq

namespace ProfileStore
variable (store : ProfileStore)

/-- `self.profiles.get(key)`. -/
def find (key : String) : Option LearnedProfile := store.profiles.lookup key

/-- `f` on `self.profiles[key]`, which the `defaultdict` makes when it is missing. -/
def modify (key : String) (f : LearnedProfile → LearnedProfile) : ProfileStore where
  profiles :=
    match store.find key with
    | none => store.profiles ++ [(key, f {})]
    | some _ => store.profiles.map fun e => if e.1 = key then (e.1, f e.2) else e

def keyed (fnModule fnName : String) (profileKey : Option String) : Option (String × LearnedProfile) :=
  match profileKey with
  | none => none
  | some _ =>
    let key := deriveStoreKey fnModule fnName profileKey
    match store.find key with
    | none => none
    | some p => if p.observations = [] then none else some (key, p)

/-- The profile to estimate from, and the store: reading a missing base profile makes it. -/
def get (fnModule fnName : String) (profileKey : Option String) : LearnedProfile × ProfileStore :=
  match store.keyed fnModule fnName profileKey with
  | some (_, p) => (p, store)
  | none =>
    let base := deriveStoreKey fnModule fnName none
    ((store.find base).getD {}, store.modify base id)

/-- The key that estimation draws from, with its number of observations. -/
def estimationIdentity (fnModule fnName : String) (profileKey : Option String) : String × Nat :=
  match store.keyed fnModule fnName profileKey with
  | some (key, p) => (key, p.sampleCount)
  | none =>
    let base := deriveStoreKey fnModule fnName none
    (base, match store.find base with | none => 0 | some p => p.sampleCount)

/-- `f` on the base profile and, with a profile key, on the keyed one too. -/
def modifyBoth (fnModule fnName : String) (profileKey : Option String) (f : LearnedProfile → LearnedProfile) :
    ProfileStore :=
  let based := store.modify (deriveStoreKey fnModule fnName none) f
  match profileKey with
  | none => based
  | some _ => based.modify (deriveStoreKey fnModule fnName profileKey) f

def record (fnModule fnName : String) (observation : ResourceObservation) (profileKey : Option String) : ProfileStore :=
  store.modifyBoth fnModule fnName profileKey (·.add observation)

def recordMemoryFloor (fnModule fnName : String) (floorGb : ℚ) (profileKey : Option String) : ProfileStore :=
  store.modifyBoth fnModule fnName profileKey (·.setMemoryFloor floorGb)

/-! ## Observations are not forgotten -/

theorem lookup_cons_ite {β : Type*} (k key : String) (v : β) (entries : List (String × β)) :
    ((key, v) :: entries).lookup k = if k = key then some v else entries.lookup k := by
  rw [List.lookup_cons]
  by_cases h : k = key
  · simp [h]
  · rw [if_neg h, beq_false_of_ne h]

theorem lookup_map_update {β : Type*} (key k : String) (f : β → β) (entries : List (String × β)) :
    (entries.map fun e => if e.1 = key then (e.1, f e.2) else e).lookup k =
      if k = key then (entries.lookup key).map f else entries.lookup k := by
  induction entries with
  | nil => simp
  | cons entry entries ih =>
    obtain ⟨key', v⟩ := entry
    rw [List.map_cons, lookup_cons_ite, lookup_cons_ite]
    by_cases hkey : key' = key
    · subst hkey
      rw [if_pos rfl, lookup_cons_ite, ih, if_pos rfl]
      split_ifs <;> rfl
    · rw [if_neg hkey, lookup_cons_ite, ih, if_neg (Ne.symm hkey)]
      by_cases hk : k = key
      · subst hk
        simp [Ne.symm hkey]
      · simp [hk]

def Unobserved (key : String) : Prop := ∀ p ∈ store.find key, p.sampleCount = 0

variable {store} {key : String} {f : LearnedProfile → LearnedProfile}

theorem find_modify (key k : String) (f : LearnedProfile → LearnedProfile) :
    (store.modify key f).find k = if k = key then some (f ((store.find key).getD {})) else store.find k := by
  unfold modify
  split
  · rename_i hnone
    unfold find at *
    rw [List.lookup_append, lookup_cons_ite, hnone]
    split_ifs with hk
    · rw [hk, hnone]
      rfl
    · exact Option.or_none
  · rename_i p hsome
    unfold find at *
    rw [lookup_map_update, hsome]
    rfl

theorem Unobserved.of_modify {k : String} (hf : ∀ p, (f p).sampleCount = 0 → p.sampleCount = 0)
    (h : (store.modify key f).Unobserved k) : store.Unobserved k := fun p hp => by
  unfold Unobserved at h
  rw [find_modify] at h
  split_ifs at h with hk
  · subst hk
    have hp : store.find k = some p := hp
    rw [hp] at h
    exact hf p (h _ rfl)
  · exact h p hp

theorem Unobserved.of_modifyBoth {fnModule fnName : String} {profileKey : Option String} {k : String}
    (hf : ∀ p, (f p).sampleCount = 0 → p.sampleCount = 0)
    (h : (store.modifyBoth fnModule fnName profileKey f).Unobserved k) : store.Unobserved k := by
  unfold modifyBoth at h
  cases profileKey with
  | none => exact .of_modify hf h
  | some _ => exact .of_modify hf (.of_modify hf h)

theorem Unobserved.of_get {fnModule fnName : String} {profileKey : Option String} {k : String}
    (h : (store.get fnModule fnName profileKey).2.Unobserved k) : store.Unobserved k := by
  unfold get at h
  split at h
  · exact h
  · exact .of_modify (fun _ hp => hp) h

theorem Unobserved.of_recordMemoryFloor {fnModule fnName : String} {floorGb : ℚ} {profileKey : Option String} {k : String}
    (h : (store.recordMemoryFloor fnModule fnName floorGb profileKey).Unobserved k) : store.Unobserved k :=
  .of_modifyBoth (f := (·.setMemoryFloor floorGb)) (fun _ hp => hp) h

/-! ## Stores that read the same -/

variable {store' store'' : ProfileStore}

/-- Every key has the same profile, if it is only the empty one that reading makes. -/
def Same (store store' : ProfileStore) : Prop := ∀ key, (store'.find key).getD {} = (store.find key).getD {}

theorem Same.refl (store : ProfileStore) : store.Same store := fun _ => rfl

theorem Same.symm (h : store.Same store') : store'.Same store := fun key => (h key).symm

theorem Same.trans (h : store.Same store') (h' : store'.Same store'') : store.Same store'' := fun key =>
  (h' key).trans (h key)

theorem same_get (fnModule fnName : String) (profileKey : Option String) :
    store.Same (store.get fnModule fnName profileKey).2 := fun key => by
  unfold get
  split
  · rfl
  · dsimp only
    rw [find_modify]
    split_ifs with hkey
    · rw [hkey]
      rfl
    · rfl

theorem keyed_eq (fnModule fnName key : String) : store.keyed fnModule fnName (some key) =
    if ((store.find (deriveStoreKey fnModule fnName (some key))).getD {}).observations = [] then none
    else some (deriveStoreKey fnModule fnName (some key),
      (store.find (deriveStoreKey fnModule fnName (some key))).getD {}) := by
  unfold keyed
  dsimp only
  cases store.find (deriveStoreKey fnModule fnName (some key)) with
  | none => rfl
  | some p => rfl

theorem Same.keyed (h : store.Same store') (fnModule fnName : String) (profileKey : Option String) :
    store'.keyed fnModule fnName profileKey = store.keyed fnModule fnName profileKey := by
  cases profileKey with
  | none => rfl
  | some key => rw [keyed_eq, keyed_eq, h]

theorem Same.get (h : store.Same store') (fnModule fnName : String) (profileKey : Option String) :
    (store'.get fnModule fnName profileKey).1 = (store.get fnModule fnName profileKey).1 := by
  unfold ProfileStore.get
  rw [h.keyed]
  split
  · rfl
  · exact h _

theorem Same.estimationIdentity (h : store.Same store') (fnModule fnName : String) (profileKey : Option String) :
    store'.estimationIdentity fnModule fnName profileKey = store.estimationIdentity fnModule fnName profileKey := by
  have hcount (store : ProfileStore) (key : String) :
      (match store.find key with | none => 0 | some p => p.sampleCount) = ((store.find key).getD {}).sampleCount := by
    cases store.find key <;> rfl
  unfold ProfileStore.estimationIdentity
  rw [h.keyed]
  split
  · rfl
  · dsimp only
    rw [hcount, hcount, h]

end ProfileStore

theorem lastN_ne_nil {α : Type*} (n : Nat) {xs : List α} (h : xs ≠ []) : lastN n xs ≠ [] := by
  unfold lastN
  split_ifs with hn
  · exact h
  · have hlen : 0 < xs.length := List.length_pos_iff.mpr h
    rw [ne_eq, List.drop_eq_nil_iff]
    omega

theorem LearnedProfile.add_sampleCount (p : LearnedProfile) (obs : ResourceObservation) : (p.add obs).sampleCount ≠ 0 := by
  have hrecover (q : LearnedProfile) : q.maybeRecoverFloor.observations = q.observations := by
    unfold maybeRecoverFloor
    split
    · rfl
    · dsimp only
      split_ifs <;> rfl
  have hne : p.observations ++ [obs] ≠ [] := List.append_ne_nil_of_right_ne_nil _ (List.cons_ne_nil _ _)
  unfold sampleCount add
  rw [hrecover, ne_eq, List.length_eq_zero_iff]
  dsimp only
  split_ifs
  · exact lastN_ne_nil _ hne
  · exact hne

namespace ProfileStore
variable {store : ProfileStore} {fnModule fnName : String} {profileKey : Option String} {k : String}

theorem Unobserved.of_record {observation : ResourceObservation}
    (h : (store.record fnModule fnName observation profileKey).Unobserved k) : store.Unobserved k :=
  .of_modifyBoth (fun p hp => absurd hp (p.add_sampleCount observation)) h

theorem Unobserved.identity (h : store.Unobserved (store.estimationIdentity fnModule fnName profileKey).1) :
    (store.estimationIdentity fnModule fnName profileKey).2 = 0 := by
  unfold estimationIdentity at *
  split at h
  · rename_i key p hkeyed
    -- a keyed profile is only used when it has an observation
    unfold keyed at hkeyed
    split at hkeyed
    · cases hkeyed
    · dsimp only at hkeyed
      split at hkeyed
      · cases hkeyed
      · rename_i q hq
        split_ifs at hkeyed with hobs
        obtain ⟨rfl, rfl⟩ := Prod.mk.inj (Option.some.inj hkeyed)
        exact absurd (List.length_eq_zero_iff.mp (h q hq)) hobs
  · dsimp only at h ⊢
    split
    · rfl
    · rename_i p hp
      exact h p hp

end ProfileStore

end AdaptiveExecutor
