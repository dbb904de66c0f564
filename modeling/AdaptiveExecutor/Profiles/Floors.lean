import AdaptiveExecutor.Profiles.Log

/-!
# Keyed crash floors

A crash floor is written to two profiles, which recover by themselves, and estimates are drawn from one of them.

* `LearnedProfile.Recovers`, `add_memoryFloorGb` : the observations that clear a floor;
* `estimate_floor_iff` : what a profile's estimates have in common;
* `FloorsInForce` : no estimate for a key is below the floor of its profile; `floorsInForce_iff` : said of the two
  profiles;
* `Strands` : a call that leaves a key with a floor that nothing enforces;
* `floors_in_force_iff` : the floors are in force in a whole run exactly when no call of it strands one.
-/

namespace AdaptiveExecutor

/-! ## One profile -/

namespace LearnedProfile
variable {p : LearnedProfile} {obs : ResourceObservation} {floor : ℚ}

/-- With the new observation there are enough low ones in a row to clear the floor. -/
def Recovers (p : LearnedProfile) (obs : ResourceObservation) : Prop :=
  ∃ floor, p.memoryFloorGb = some floor ∧ floorRecoveryObservations ≤ (p.observations ++ [obs]).length ∧
    ∀ o ∈ lastN floorRecoveryObservations (p.observations ++ [obs]), o.memoryDeltaGb < floor * floorRecoveryFraction

theorem add_memoryFloorGb (hmax : p.maxObservations = 100) (obs : ResourceObservation) :
    (p.Recovers obs → (p.add obs).memoryFloorGb = none) ∧
      (¬ p.Recovers obs → (p.add obs).memoryFloorGb = p.memoryFloorGb) := by
  have hwide : p.CanRecover := .inr (hmax ▸ by decide)
  cases hfloor : p.memoryFloorGb with
  | none =>
    have hnone := add_floor_of_none hfloor obs
    exact ⟨fun _ => hnone, fun _ => hnone⟩
  | some floor =>
    rw [add_floor_of_some hfloor]
    constructor
    · rintro ⟨floor', hfloor', hlow⟩
      obtain rfl := Option.some.inj (hfloor.symm.trans hfloor')
      exact if_pos ⟨hwide, hlow⟩
    · intro hno
      exact if_neg fun h => hno ⟨floor, hfloor, h.2⟩

/-- A floor ratchets up: it is the new one or the previous one, and below neither. -/
theorem setMemoryFloor_spec (p : LearnedProfile) (floorGb : ℚ) : ∃ own, (p.setMemoryFloor floorGb).memoryFloorGb = some own ∧
    floorGb ≤ own ∧ (∀ previous, p.memoryFloorGb = some previous → previous ≤ own) ∧
      (own = floorGb ∨ p.memoryFloorGb = some own) := by
  unfold setMemoryFloor
  cases hprevious : p.memoryFloorGb with
  | none => exact ⟨floorGb, rfl, le_rfl, fun _ h => (by cases h), .inl rfl⟩
  | some previous =>
    refine ⟨max previous floorGb, rfl, le_max_right _ _, fun previous' h => ?_, ?_⟩
    · rw [← Option.some.inj h]
      exact le_max_left _ _
    · rcases max_choice previous floorGb with hmax | hmax
      · exact .inr (congrArg some hmax.symm)
      · exact .inl hmax

/-- The least that a hint can bring an estimate to is a tenth of a GB or the floor. -/
theorem estimate_floor_iff : (∀ memoryHint vramHint, floor ≤ (p.estimate memoryHint vramHint).memoryGb) ↔
    floor ≤ 1 / 10 ∨ ∃ own, p.memoryFloorGb = some own ∧ floor ≤ own := by
  constructor
  · intro h
    have hzero := h (some 0) none
    unfold estimate at hzero
    dsimp only [Option.getD_some] at hzero
    rw [zero_mul, max_eq_left (by norm_num)] at hzero
    cases hown : p.memoryFloorGb with
    | none =>
      rw [hown] at hzero
      exact .inl hzero
    | some own =>
      rw [hown] at hzero
      rcases le_max_iff.mp hzero with hle | hle
      · exact .inl hle
      · exact .inr ⟨own, rfl, hle⟩
  · intro h memoryHint vramHint
    unfold estimate
    dsimp only
    rcases h with hle | ⟨own, hown, hle⟩
    · split
      · exact le_max_of_le_left hle
      · exact le_max_of_le_left (le_max_of_le_left hle)
    · rw [hown]
      exact le_max_of_le_right hle

end LearnedProfile

/-! ## The two profiles of a key -/

/-- No estimate for a key of the function is below the floor of the key's profile. -/
def FloorsInForce (store : ProfileStore) (fnModule fnName : String) : Prop :=
  ∀ key floor, (store.profile (deriveStoreKey fnModule fnName (some key))).memoryFloorGb = some floor →
    ∀ memoryHint vramHint, floor ≤ ((store.get fnModule fnName (some key)).1.estimate memoryHint vramHint).memoryGb

section Store
variable {store : ProfileStore} {m f : String}

/-- The profile of the function, and the one of a key. -/
abbrev ProfileStore.base (store : ProfileStore) (m f : String) : LearnedProfile := store.profile (deriveStoreKey m f none)

abbrev ProfileStore.keyedAt (store : ProfileStore) (m f key : String) : LearnedProfile :=
  store.profile (deriveStoreKey m f (some key))

theorem get_some (store : ProfileStore) (m f key : String) : (store.get m f (some key)).1 =
    if (store.keyedAt m f key).observations = [] then store.base m f else store.keyedAt m f key := by
  have hkeyed : store.keyed m f (some key) = if (store.keyedAt m f key).observations = [] then none
      else some (deriveStoreKey m f (some key), store.keyedAt m f key) := ProfileStore.keyed_eq m f key
  by_cases hempty : (store.keyedAt m f key).observations = []
  · rw [ProfileStore.get, hkeyed, if_pos hempty, if_pos hempty]
    rfl
  · rw [ProfileStore.get, hkeyed, if_neg hempty, if_neg hempty]

/-- The floor of a key is backed by observations of the key, or by the floor of the function. -/
def Backed (store : ProfileStore) (m f key : String) (floor : ℚ) : Prop :=
  (store.keyedAt m f key).observations ≠ [] ∨ floor ≤ 1 / 10 ∨
    ∃ own, (store.base m f).memoryFloorGb = some own ∧ floor ≤ own

theorem floorsInForce_iff : FloorsInForce store m f ↔
    ∀ key floor, (store.keyedAt m f key).memoryFloorGb = some floor → Backed store m f key floor := by
  unfold FloorsInForce Backed
  refine forall_congr' fun key => forall_congr' fun floor => imp_congr_right fun hfloor => ?_
  rw [get_some, LearnedProfile.estimate_floor_iff]
  by_cases hempty : (store.keyedAt m f key).observations = []
  · rw [if_pos hempty]
    simp [hempty]
  · rw [if_neg hempty]
    have hown : ∃ own, (store.keyedAt m f key).memoryFloorGb = some own ∧ floor ≤ own := ⟨floor, hfloor, le_rfl⟩
    simp only [hown, or_true, ne_eq, hempty, not_false_eq_true, true_or]

/-! ## One call -/

/-- An observation clears the floor of the function, and leaves behind another key with a floor and no observation. -/
def Strands (store : ProfileStore) (m f : String) : StoreCall → Prop
  | .record _ _ observation profileKey => (store.base m f).Recovers observation ∧
    ∃ key, profileKey ≠ some key ∧ (store.keyedAt m f key).observations = [] ∧
      ∃ floor, (store.keyedAt m f key).memoryFloorGb = some floor ∧ 1 / 10 < floor
  | _ => False

theorem mem_storeKeys_base {k : Option String} : deriveStoreKey m f none ∈ storeKeys m f k := List.mem_cons_self

theorem mem_storeKeys_keyed {k : Option String} {key : String} :
    deriveStoreKey m f (some key) ∈ storeKeys m f k ↔ k = some key := by
  unfold storeKeys
  rw [List.mem_cons, Option.mem_toList, Option.map_eq_some_iff]
  constructor
  · rintro (h | ⟨key', rfl, h⟩)
    · exact absurd h (ProfileStore.deriveStoreKey_ne_base m f key)
    · have hlist := congrArg String.toList h
      rw [deriveStoreKey_some_toList, deriveStoreKey_some_toList] at hlist
      have htail := (List.cons.inj (List.append_cancel_left hlist)).2
      exact congrArg some (String.toList_inj.mp htail)
  · rintro rfl
    exact .inr ⟨key, rfl, rfl⟩

section Call
variable {observation : ResourceObservation} {k : Option String} {key : String}

theorem record_base : (store.record m f observation k).base m f = (store.base m f).add observation := by
  have h := store.profile_modifyBoth m f k (·.add observation) (deriveStoreKey m f none)
  rwa [if_pos mem_storeKeys_base] at h

theorem record_keyedAt : (store.record m f observation k).keyedAt m f key =
    if k = some key then (store.keyedAt m f key).add observation else store.keyedAt m f key := by
  have h := store.profile_modifyBoth m f k (·.add observation) (deriveStoreKey m f (some key))
  rwa [if_congr mem_storeKeys_keyed rfl rfl] at h

theorem recordMemoryFloor_base {floorGb : ℚ} :
    (store.recordMemoryFloor m f floorGb k).base m f = (store.base m f).setMemoryFloor floorGb := by
  have h := store.profile_modifyBoth m f k (·.setMemoryFloor floorGb) (deriveStoreKey m f none)
  rwa [if_pos mem_storeKeys_base] at h

theorem recordMemoryFloor_keyedAt {floorGb : ℚ} : (store.recordMemoryFloor m f floorGb k).keyedAt m f key =
    if k = some key then (store.keyedAt m f key).setMemoryFloor floorGb else store.keyedAt m f key := by
  have h := store.profile_modifyBoth m f k (·.setMemoryFloor floorGb) (deriveStoreKey m f (some key))
  rwa [if_congr mem_storeKeys_keyed rfl rfl] at h

/-- An observation under a key ends the need of a floor there, and takes nothing from the others as long as the floor
of the function stays. -/
theorem FloorsInForce.record (h : FloorsInForce store m f) (hmax : (store.base m f).maxObservations = 100)
    (hstrand : ¬ Strands store m f (.record m f observation k)) :
    FloorsInForce (store.record m f observation k) m f := by
  rw [floorsInForce_iff] at h ⊢
  intro key floor hfloor
  unfold Backed
  rw [record_keyedAt, record_base] at *
  by_cases hk : k = some key
  · rw [if_pos hk]
    exact .inl (List.length_eq_zero_iff.not.mp ((store.keyedAt m f key).add_sampleCount observation))
  · rw [if_neg hk] at hfloor ⊢
    rcases h key floor hfloor with hobs | hsmall | ⟨own, hown, hle⟩
    · exact .inl hobs
    · exact .inr (.inl hsmall)
    · by_cases hrecovers : (store.base m f).Recovers observation
      · -- the floor of the function goes: then the key is one that does not need it
        by_contra hno
        rw [not_or, not_or, not_not, not_le] at hno
        exact hstrand ⟨hrecovers, key, hk, hno.1, floor, hfloor, hno.2.1⟩
      · rw [(LearnedProfile.add_memoryFloorGb hmax observation).2 hrecovers]
        exact .inr (.inr ⟨own, hown, hle⟩)

theorem FloorsInForce.recordMemoryFloor {floorGb : ℚ} (h : FloorsInForce store m f) :
    FloorsInForce (store.recordMemoryFloor m f floorGb k) m f := by
  rw [floorsInForce_iff] at h ⊢
  intro key floor hfloor
  obtain ⟨own, hown, hnew, hold, -⟩ := (store.base m f).setMemoryFloor_spec floorGb
  have keep (hfloor : (store.keyedAt m f key).memoryFloorGb = some floor) :
      (store.keyedAt m f key).observations ≠ [] ∨ floor ≤ 1 / 10 ∨ ∃ own', some own = some own' ∧ floor ≤ own' := by
    rcases h key floor hfloor with hobs | hsmall | ⟨previous, hprevious, hle⟩
    · exact .inl hobs
    · exact .inr (.inl hsmall)
    · exact .inr (.inr ⟨own, rfl, hle.trans (hold previous hprevious)⟩)
  unfold Backed
  rw [recordMemoryFloor_base, hown]
  rw [recordMemoryFloor_keyedAt] at hfloor ⊢
  by_cases hk : k = some key
  · rw [if_pos hk] at hfloor ⊢
    obtain ⟨keyedOwn, hkeyed, -, -, hnewOrOld⟩ := (store.keyedAt m f key).setMemoryFloor_spec floorGb
    obtain rfl := Option.some.inj (hkeyed.symm.trans hfloor)
    rcases hnewOrOld with rfl | hsame
    · exact .inr (.inr ⟨own, rfl, hnew⟩)
    · exact keep hsame
  · rw [if_neg hk] at hfloor ⊢
    exact keep hfloor

theorem FloorsInForce.not_strands (hmax : (store.base m f).maxObservations = 100)
    (h : FloorsInForce (store.record m f observation k) m f) : ¬ Strands store m f (.record m f observation k) := by
  rintro ⟨hrecovers, key, hk, hobs, floor, hfloor, hlarge⟩
  have hbacked := floorsInForce_iff.mp h key floor (by rw [record_keyedAt, if_neg hk, hfloor])
  unfold Backed at hbacked
  rw [record_keyedAt, if_neg hk, record_base, (LearnedProfile.add_memoryFloorGb hmax observation).1 hrecovers] at hbacked
  rcases hbacked with hne | hsmall | ⟨own, hown, -⟩
  · exact hne hobs
  · linarith
  · cases hown

end Call

theorem FloorsInForce.of_same {store' : ProfileStore} (h : FloorsInForce store m f) (hsame : store.Same store') :
    FloorsInForce store' m f := by
  intro key floor hfloor
  have hprofile : store'.profile (deriveStoreKey m f (some key)) = store.profile (deriveStoreKey m f (some key)) := hsame _
  rw [hprofile] at hfloor
  rw [hsame.get m f (some key)]
  exact h key floor hfloor

end Store

/-! ## Runs -/

section Run
variable {m f : String} {calls : List StoreCall}

theorem replay_maxObservations (calls : List StoreCall) (key : String) :
    ((replay calls).profile key).maxObservations = 100 := by
  rw [replay_profile]
  exact (foldl_write _).1

theorem FloorsInForce.run {c : StoreCall} (hc : c.names = (m, f)) (h : FloorsInForce (replay calls) m f) :
    FloorsInForce (c.run (replay calls)) m f ↔ ¬ Strands (replay calls) m f c := by
  have hmax := replay_maxObservations calls (deriveStoreKey m f none)
  cases c with
  | record m' f' observation k =>
    obtain ⟨rfl, rfl⟩ := Prod.mk.inj hc
    exact ⟨FloorsInForce.not_strands hmax, h.record hmax⟩
  | recordMemoryFloor m' f' floorGb k =>
    obtain ⟨rfl, rfl⟩ := Prod.mk.inj hc
    exact ⟨fun _ h => h, fun _ => h.recordMemoryFloor⟩
  | get m' f' k => exact ⟨fun _ h => h, fun _ => h.of_same (ProfileStore.same_get m' f' k)⟩
  | estimationIdentity => exact ⟨fun _ h => h, fun _ => h⟩

/-- **When a keyed crash floor stays in force**: in the runs in which no observation clears the floor of the function
while another key has a floor above a tenth of a GB and no observation, and in no other. -/
theorem floors_in_force_iff (hcalls : ∀ c ∈ calls, c.names = (m, f)) :
    (∀ done, done <+: calls → FloorsInForce (replay done) m f) ↔
      ∀ done c, done ++ [c] <+: calls → ¬ Strands (replay done) m f c := by
  constructor
  · intro h done c hpre
    have hc := hcalls c (hpre.subset (List.mem_append_right done List.mem_cons_self))
    have hafter := h _ hpre
    rw [replay_append] at hafter
    exact ((h done ((List.prefix_append done [c]).trans hpre)).run hc).mp hafter
  · intro h done hdone
    induction done using List.reverseRecOn with
    | nil => exact fun _ _ hfloor => by cases hfloor
    | append_singleton done c ih =>
      have hc := hcalls c (hdone.subset (List.mem_append_right done List.mem_cons_self))
      rw [replay_append]
      exact ((ih ((List.prefix_append done [c]).trans hdone)).run hc).mpr (h done c hdone)

/-- A crash and a run under one key: one observation clears no floor. -/
def keyedCrash : List StoreCall := [.recordMemoryFloor "m" "f" 8 (some "k"), .record "m" "f" (usedMemory 1) (some "k")]

theorem floors_in_force_crash : FloorsInForce (replay keyedCrash) "m" "f" := by
  refine (floors_in_force_iff (by decide)).mpr (fun done c hdone => ?_) keyedCrash List.prefix_rfl
  rcases done with - | ⟨d, - | ⟨d', done⟩⟩
  · obtain ⟨rfl, -⟩ := List.cons_prefix_cons.mp hdone
    exact id
  · obtain ⟨rfl, hc⟩ := List.cons_prefix_cons.mp hdone
    obtain ⟨rfl, -⟩ := List.cons_prefix_cons.mp hc
    rintro ⟨⟨floor, -, hfive, -⟩, -⟩
    exact absurd hfive (by decide +kernel)
  · have hlen := hdone.length_le
    simp [keyedCrash] at hlen

/-- A crash under one key, and then the five small runs under another that clear the floor of the function. -/
def strandedCalls : List StoreCall :=
  .recordMemoryFloor "m" "f" 8 (some "k") :: List.replicate 5 (.record "m" "f" (usedMemory 1) (some "k'"))

/-- The profile of the key still has the floor, and the estimate for the key is at most 2 GB. -/
theorem floor_stranded : ((replay strandedCalls).profile (deriveStoreKey "m" "f" (some "k"))).memoryFloorGb = some 8 ∧
    (((replay strandedCalls).get "m" "f" (some "k")).1.estimate none none).memoryGb ≤ 2 :=
  ⟨by decide +kernel, by decide +kernel⟩

end Run

end AdaptiveExecutor
