import AdaptiveExecutor.Profiles.Document

/-!
# Damaged profile files

`_load` walks through whatever the file holds, and catches the exceptions of some classes.

* `Fault`, `Fault.caught` : what is raised on the way, and what `_load` catches;
* `RawProfile`, `RawStore`, `fill` : the profiles as the loop reads them, with no look at the types of their values;
* `Content`, `construct` : what a file can hold, and what the constructor of the store makes of it;
* `load_raw` : on a document of numbers this is the load of the store;
* `Describes`, `HoldsAll` : a value stands for a profile, and a store holds every profile of the file;
* `construct_iff` : when the constructor finishes with all profiles of the file or with none.
-/

namespace AdaptiveExecutor
open ProfileStore (lookup_cons_ite lookup_map_update)

/-- An exception, by the classes that `_load` tells apart. -/
inductive Fault
  | osError
  | unicodeDecodeError
  | jsonDecodeError
  /-- A value error of the parser that is not a `JSONDecodeError`. -/
  | valueError
  | recursionError
  | typeError
  | keyError
  | attributeError
  deriving DecidableEq

/-- `except (OSError, json.JSONDecodeError, TypeError, KeyError)`. -/
def Fault.caught : Fault → Bool
  | .osError | .jsonDecodeError | .typeError | .keyError => true
  | .unicodeDecodeError | .valueError | .recursionError | .attributeError => false

/-! ## Profiles as they are read -/

/-- A `ResourceObservation` of any values. -/
structure RawObservation where
  memoryDeltaGb : Json
  vramDeltaGb : Json
  cpuPercent : Json
  durationSeconds : Json

/-- A `LearnedProfile` of any values. The floor `None` is `null`. -/
structure RawProfile where
  observations : List RawObservation := []
  maxObservations : Nat := 100
  memoryFloorGb : Json := .null

/-- `add`, to a profile without a floor: there is nothing to recover from. -/
def RawProfile.add (p : RawProfile) (obs : RawObservation) : RawProfile :=
  let observations := p.observations ++ [obs]
  { p with
    observations := if p.maxObservations < observations.length then lastN p.maxObservations observations else observations }

theorem RawProfile.add_eq (p : RawProfile) (obs : RawObservation) :
    p.add obs = { p with observations := lastN p.maxObservations (p.observations ++ [obs]) } := by
  unfold add
  dsimp only
  split_ifs with h
  · rfl
  · rw [lastN_of_length_le (not_lt.mp h)]

namespace Json

/-- `ResourceObservation(**o)`. -/
def rawObservation : Json → Except Fault RawObservation
  | .object members =>
    let field (name : String) := (members.lookup name).getD .null
    if (members.all fun e => e.1 ∈ observationFields) && observationFields.all fun name => (members.lookup name).isSome then
      .ok ⟨field "memory_delta_gb", field "vram_delta_gb", field "cpu_percent", field "duration_seconds"⟩
    else .error .typeError
  | _ => .error .typeError

/-- `profile.add(ResourceObservation(**o))` for each `o`. -/
def addAllRaw : List Json → RawProfile → Except Fault RawProfile
  | [], p => .ok p
  | o :: os, p => do addAllRaw os (p.add (← o.rawObservation))

/-- One turn of the loop of `_load`, up to the assignment of the profile. -/
def rawProfile (value : Json) : Except Fault RawProfile :=
  match value.obsList.elements with
  | .error _ => .error .typeError
  | .ok os => (addAllRaw os {}).map fun p => { p with memoryFloorGb := value.floorValue.getD .null }

end Json

abbrev RawStore := List (String × RawProfile)

/-- `self.profiles[key] = profile`. -/
def RawStore.set (store : RawStore) (key : String) (p : RawProfile) : RawStore :=
  match store.lookup key with
  | none => store ++ [(key, p)]
  | some _ => store.map fun e => if e.1 = key then (e.1, p) else e

/-- The loop of `_load`: the store as far as it has been filled, and what has ended the loop early. -/
def RawStore.fill : List (String × Json) → RawStore → RawStore × Option Fault
  | [], store => (store, none)
  | (key, value) :: members, store =>
    match value.rawProfile with
    | .error fault => (store, some fault)
    | .ok p => fill members (store.set key p)

/-! ## Files -/

inductive Content
  /-- It cannot be read. -/
  | unreadable
  /-- Bytes that are not text. -/
  | undecodable
  /-- Text that is not JSON. -/
  | notJson
  /-- Text that nests deeper than the parser goes. -/
  | tooDeep
  /-- Text with an integer of more digits than the parser converts. -/
  | tooLong
  | document (data : Json)

/-- `json.loads(self.persist_path.read_text())`. -/
def Content.loads : Content → Except Fault Json
  | .unreadable => .error .osError
  | .undecodable => .error .unicodeDecodeError
  | .notJson => .error .jsonDecodeError
  | .tooDeep => .error .recursionError
  | .tooLong => .error .valueError
  | .document data => .ok data

/-- The `try` of `_load`. -/
def Content.read (content : Content) : RawStore × Option Fault :=
  match content.loads with
  | .error fault => ([], some fault)
  | .ok (.object members) => RawStore.fill members []
  | .ok _ => ([], some .attributeError)

/-- `ProfileStore(persist_path)` on an existing file. -/
def construct (content : Content) : Except Fault RawStore :=
  match content.read with
  | (store, none) => .ok store
  | (_, some fault) => if fault.caught then .ok [] else .error fault

/-! ## What the loop reads -/

section Fill
variable {value : Json} {members : List (String × Json)} {store store' : RawStore} {fault : Fault} {p q : RawProfile}
variable {key : String}

theorem Json.rawObservation_error {o : Json} (h : o.rawObservation = .error fault) : fault = .typeError := by
  unfold rawObservation at h
  split at h
  · dsimp only at h
    split_ifs at h
    exact (Except.error.inj h).symm
  · exact (Except.error.inj h).symm

theorem Json.addAllRaw_error : ∀ {os : List Json} {p : RawProfile}, addAllRaw os p = .error fault → fault = .typeError
  | [], _, h => by cases h
  | o :: os, p, h => by
    unfold addAllRaw at h
    cases hobs : o.rawObservation with
    | error fault' =>
      rw [hobs] at h
      obtain rfl := Except.error.inj h
      exact rawObservation_error hobs
    | ok obs =>
      rw [hobs] at h
      exact addAllRaw_error h

/-- **Whatever a value is**, nothing else is raised on it. -/
theorem Json.rawProfile_error (h : value.rawProfile = .error fault) : fault = .typeError := by
  unfold rawProfile at h
  split at h
  · exact (Except.error.inj h).symm
  · rename_i os hos
    cases hall : addAllRaw os {} with
    | error fault' =>
      rw [hall] at h
      obtain rfl := Except.error.inj h
      exact addAllRaw_error hall
    | ok p =>
      rw [hall] at h
      cases h

theorem Json.addAllRaw_ok : ∀ {os : List Json} {p q : RawProfile}, lastN p.maxObservations p.observations = p.observations →
    addAllRaw os p = .ok q → ∃ obs, List.Forall₂ (fun o obs => o.rawObservation = .ok obs) os obs ∧
      q = { p with observations := lastN p.maxObservations (p.observations ++ obs) }
  | [], p, q, hwindow, h => by
    refine ⟨[], .nil, ?_⟩
    rw [List.append_nil, hwindow]
    exact (Except.ok.inj h).symm
  | o :: os, p, q, hwindow, h => by
    obtain ⟨obs, hobs, h⟩ := bind_eq_ok.mp h
    rw [RawProfile.add_eq] at h
    obtain ⟨rest, hrest, rfl⟩ := addAllRaw_ok (by exact lastN_self _) h
    refine ⟨obs :: rest, .cons hobs hrest, ?_⟩
    dsimp only
    rw [lastN_append_lastN, List.append_assoc]
    rfl

/-- The profile that a value of the file stands for: the last 100 of its observations, and its floor. -/
def Json.Describes (value : Json) (p : RawProfile) : Prop :=
  ∃ os obs, value.obsList.elements = .ok os ∧ List.Forall₂ (fun o obs => Json.rawObservation o = .ok obs) os obs ∧
    p = { observations := lastN 100 obs, maxObservations := 100, memoryFloorGb := value.floorValue.getD .null }

theorem Json.rawProfile_ok (h : value.rawProfile = .ok p) : value.Describes p := by
  unfold rawProfile at h
  split at h
  · cases h
  · rename_i os hos
    obtain ⟨q, hq, rfl⟩ : ∃ q, addAllRaw os {} = .ok q ∧ p = { q with memoryFloorGb := value.floorValue.getD .null } := by
      cases hall : addAllRaw os {} with
      | error fault' =>
        rw [hall] at h
        cases h
      | ok q =>
        rw [hall] at h
        exact ⟨q, rfl, (Except.ok.inj h).symm⟩
    obtain ⟨obs, hobs, rfl⟩ := addAllRaw_ok rfl hq
    exact ⟨os, obs, hos, hobs, rfl⟩

theorem RawStore.lookup_set (store : RawStore) (key k : String) (p : RawProfile) :
    (store.set key p).lookup k = if k = key then some p else store.lookup k := by
  unfold set
  cases hfind : store.lookup key with
  | none =>
    dsimp only
    rw [List.lookup_append, lookup_cons_ite]
    split_ifs with hk
    · rw [hk, hfind]
      rfl
    · exact Option.or_none
  | some q =>
    dsimp only
    rw [lookup_map_update key k (fun _ => p) store, hfind]
    rfl

theorem RawStore.fill_error : ∀ {members : List (String × Json)} {store : RawStore},
    (fill members store).2 = some fault → fault = .typeError
  | [], _, h => by cases h
  | (key, value) :: members, store, h => by
    unfold fill at h
    split at h
    · rename_i fault' hvalue
      obtain rfl := Option.some.inj h
      exact Json.rawProfile_error hvalue
    · exact fill_error h

/-- **A loop that ends** has assigned the profile of every key, for a key that comes twice the last one. -/
theorem RawStore.fill_ok : ∀ {members : List (String × Json)} {store store' : RawStore},
    fill members store = (store', none) → ∀ key,
      (members.reverse.lookup key = none → store'.lookup key = store.lookup key) ∧
        ∀ value, members.reverse.lookup key = some value → ∃ p, store'.lookup key = some p ∧ value.Describes p
  | [], store, store', h, key => by
    obtain ⟨rfl, -⟩ := Prod.mk.inj h
    exact ⟨fun _ => rfl, fun value hvalue => by cases hvalue⟩
  | (k, v) :: members, store, store', h, key => by
    unfold fill at h
    split at h
    · cases h
    · rename_i p hp
      obtain ⟨hsame, hheld⟩ := fill_ok h key
      have hlookup : ((k, v) :: members).reverse.lookup key =
          (members.reverse.lookup key).or (if key = k then some v else none) := by
        rw [List.reverse_cons, List.lookup_append, lookup_cons_ite]
        rfl
      rw [hlookup]
      cases hrest : members.reverse.lookup key with
      | some value =>
        refine ⟨fun hnone => (by cases hnone), fun value' hvalue' => ?_⟩
        obtain rfl := Option.some.inj hvalue'
        exact hheld value hrest
      | none =>
        rw [Option.none_or, hsame hrest, lookup_set]
        by_cases hk : key = k
        · rw [if_pos hk, if_pos hk]
          refine ⟨fun hnone => (by cases hnone), fun value hvalue => ?_⟩
          obtain rfl := Option.some.inj hvalue
          exact ⟨p, rfl, Json.rawProfile_ok hp⟩
        · rw [if_neg hk, if_neg hk]
          exact ⟨fun _ => rfl, fun value hvalue => by cases hvalue⟩

end Fill

/-! ## Documents of numbers -/

def ResourceObservation.raw (o : ResourceObservation) : RawObservation :=
  ⟨.number o.memoryDeltaGb, .number o.vramDeltaGb, .number o.cpuPercent, .number o.durationSeconds⟩

def LearnedProfile.raw (p : LearnedProfile) : RawProfile where
  observations := p.observations.map ResourceObservation.raw
  maxObservations := p.maxObservations
  memoryFloorGb := p.memoryFloorGb.elim .null .number

def ProfileStore.raw (store : ProfileStore) : RawStore := store.profiles.map fun e => (e.1, e.2.raw)

section Load
variable {value : Json} {members : List (String × Json)} {store store' : ProfileStore} {p q : LearnedProfile}

theorem bind_eq_error {ε β γ : Type} {x : Except ε β} {f : β → Except ε γ} {error : ε} (h : x >>= f = .error error) :
    x = .error error ∨ ∃ b, x = .ok b ∧ f b = .error error := by
  cases x with
  | error e => exact .inl (congrArg Except.error (Except.error.inj h))
  | ok b => exact .inr ⟨b, rfl, h⟩

namespace Json

theorem argument_ok {name : String} {x : ℚ} (h : argument members name = .ok x) : members.lookup name = some (.number x) := by
  unfold argument at h
  split at h
  · cases h
  · rename_i v hv
    rw [hv]
    cases v with
    | number y => rw [← Except.ok.inj h]
    | _ => cases h

theorem argument_present {name : String} (hpresent : (members.lookup name).isSome) :
    argument members name ≠ .error .typeError := by
  unfold argument
  split
  · rename_i hnone
    rw [hnone] at hpresent
    cases hpresent
  · rename_i v _
    cases v with
    | _ => simp [toNumber]

theorem observation_ok {o : Json} {obs : ResourceObservation} (h : o.observation = .ok obs) :
    o.rawObservation = .ok obs.raw := by
  cases o with
  | object members =>
    simp only [observation] at h
    split_ifs at h with hfields
    obtain ⟨memory, hmemory, h⟩ := bind_eq_ok.mp h
    obtain ⟨vram, hvram, h⟩ := bind_eq_ok.mp h
    obtain ⟨cpu, hcpu, h⟩ := bind_eq_ok.mp h
    obtain ⟨duration, hduration, h⟩ := bind_eq_ok.mp h
    obtain rfl := Except.ok.inj h
    simp only [rawObservation]
    rw [if_pos hfields, argument_ok hmemory, argument_ok hvram, argument_ok hcpu, argument_ok hduration]
    rfl
  | _ => cases h

theorem observation_error {o : Json} (h : o.observation = .error .typeError) : o.rawObservation = .error .typeError := by
  cases o with
  | object members =>
    simp only [observation] at h
    simp only [rawObservation]
    split_ifs at h with hfields
    · exfalso
      have hpresent {name : String} (hname : name ∈ observationFields) : argument members name ≠ .error .typeError :=
        argument_present (List.all_eq_true.mp (Bool.and_eq_true_iff.mp hfields).2 name hname)
      rcases bind_eq_error h with h | ⟨memory, -, h⟩
      · exact hpresent (by decide) h
      rcases bind_eq_error h with h | ⟨vram, -, h⟩
      · exact hpresent (by decide) h
      rcases bind_eq_error h with h | ⟨cpu, -, h⟩
      · exact hpresent (by decide) h
      rcases bind_eq_error h with h | ⟨duration, -, h⟩
      · exact hpresent (by decide) h
      · cases h
    · exact if_neg hfields
  | _ => rfl

theorem raw_add (hfloor : p.memoryFloorGb = none) (obs : ResourceObservation) :
    (p.add obs).raw = p.raw.add obs.raw ∧ (p.add obs).memoryFloorGb = none := by
  refine ⟨?_, LearnedProfile.add_floor_of_none hfloor obs⟩
  rw [RawProfile.add_eq]
  unfold LearnedProfile.raw
  dsimp only
  rw [LearnedProfile.add_observations, LearnedProfile.add_maxObservations, LearnedProfile.add_floor_of_none hfloor, hfloor,
    map_lastN, List.map_append]
  rfl

theorem addAll_ok : ∀ {os : List Json} {p q : LearnedProfile}, p.memoryFloorGb = none → addAll os p = .ok q →
    addAllRaw os p.raw = .ok q.raw ∧ q.memoryFloorGb = none
  | [], p, q, hfloor, h => by
    obtain rfl := Except.ok.inj h
    exact ⟨rfl, hfloor⟩
  | o :: os, p, q, hfloor, h => by
    obtain ⟨obs, hobs, h⟩ := bind_eq_ok.mp h
    obtain ⟨hraw, hnone⟩ := raw_add hfloor obs
    obtain ⟨hall, hq⟩ := addAll_ok hnone h
    refine ⟨bind_eq_ok.mpr ⟨obs.raw, observation_ok hobs, ?_⟩, hq⟩
    rw [← hraw]
    exact hall

theorem addAll_error : ∀ {os : List Json} {p : LearnedProfile}, p.memoryFloorGb = none →
    addAll os p = .error .typeError → addAllRaw os p.raw = .error .typeError
  | [], _, _, h => by cases h
  | o :: os, p, hfloor, h => by
    unfold addAllRaw
    rcases bind_eq_error h with hobs | ⟨obs, hobs, h⟩
    · rw [observation_error hobs]
      rfl
    · obtain ⟨hraw, hnone⟩ := raw_add hfloor obs
      rw [observation_ok hobs]
      show addAllRaw os (p.raw.add obs.raw) = _
      rw [← hraw]
      exact addAll_error hnone h

theorem profile_ok (h : value.profile = .ok p) : value.rawProfile = .ok p.raw := by
  obtain ⟨os, hos, h⟩ := bind_eq_ok.mp h
  obtain ⟨q, hq, h⟩ := bind_eq_ok.mp h
  obtain ⟨floor, hfloor, h⟩ := bind_eq_ok.mp h
  obtain rfl := Except.ok.inj h
  have hvalue : value.floorValue.getD .null = floor.elim .null .number := by
    cases hv : value.floorValue with
    | none =>
      rw [hv] at hfloor
      rw [← Except.ok.inj hfloor]
      rfl
    | some v =>
      rw [hv] at hfloor
      cases v with
      | null | number =>
        rw [← Except.ok.inj hfloor]
        rfl
      | _ => cases hfloor
  unfold rawProfile
  rw [hos, hvalue]
  show (addAllRaw os (LearnedProfile.raw {})).map _ = _
  rw [(addAll_ok rfl hq).1]
  rfl

theorem toFloor_error {floor : Option Json} : toFloor floor ≠ .error .typeError := by
  cases floor with
  | none => simp [toFloor]
  | some v =>
    cases v with
    | _ => simp [toFloor, toNumber, Except.map]

theorem profile_error (h : value.profile = .error .typeError) : value.rawProfile = .error .typeError := by
  unfold rawProfile
  rcases bind_eq_error h with hos | ⟨os, hos, h⟩
  · rw [hos]
  · rw [hos]
    rcases bind_eq_error h with hq | ⟨q, -, h⟩
    · show (addAllRaw os (LearnedProfile.raw {})).map _ = _
      rw [addAll_error rfl hq]
      rfl
    · rcases bind_eq_error h with hfloor | ⟨floor, -, h⟩
      · exact absurd hfloor toFloor_error
      · cases h

end Json

theorem lookup_map_snd {β γ : Type*} (f : β → γ) (key : String) : ∀ entries : List (String × β),
    (entries.map fun e => (e.1, f e.2)).lookup key = (entries.lookup key).map f
  | [] => rfl
  | (k, b) :: entries => by
    rw [List.map_cons, lookup_cons_ite, lookup_cons_ite, lookup_map_snd f key entries]
    split_ifs
    · rfl
    · rfl

theorem raw_set (store : ProfileStore) (key : String) (p : LearnedProfile) :
    (store.set key p).raw = store.raw.set key p.raw := by
  have hfind : store.raw.lookup key = (store.find key).map LearnedProfile.raw := lookup_map_snd _ key store.profiles
  unfold RawStore.set ProfileStore.set ProfileStore.modify ProfileStore.raw
  rw [show List.lookup key (store.profiles.map fun e => (e.1, e.2.raw)) = _ from hfind]
  cases store.find key with
  | none => exact List.map_append
  | some q =>
    dsimp only [Option.map_some]
    rw [List.map_map, List.map_map]
    apply List.map_congr_left
    intro e _
    dsimp only [Function.comp]
    split_ifs
    · rfl
    · rfl

theorem setAll_ok : ∀ {members : List (String × Json)} {store store' : ProfileStore},
    ProfileStore.setAll members store = .ok store' → RawStore.fill members store.raw = (store'.raw, none)
  | [], _, _, h => by
    obtain rfl := Except.ok.inj h
    rfl
  | (key, value) :: members, store, store', h => by
    obtain ⟨p, hp, h⟩ := bind_eq_ok.mp h
    unfold RawStore.fill
    rw [Json.profile_ok hp]
    dsimp only
    rw [← raw_set]
    exact setAll_ok h

theorem setAll_error : ∀ {members : List (String × Json)} {store : ProfileStore},
    ProfileStore.setAll members store = .error .typeError → (RawStore.fill members store.raw).2 = some .typeError
  | [], _, h => by cases h
  | (key, value) :: members, store, h => by
    unfold RawStore.fill
    rcases bind_eq_error h with hp | ⟨p, hp, h⟩
    · rw [Json.profile_error hp]
    · rw [Json.profile_ok hp]
      dsimp only
      rw [← raw_set]
      exact setAll_error h

/-- **On a document of numbers** the constructor makes the store that `load` says. -/
theorem load_raw {data : Json} (h : ProfileStore.load data = .ok store) : construct (.document data) = .ok store.raw := by
  unfold ProfileStore.load at h
  cases data with
  | object members =>
    unfold construct Content.read Content.loads
    dsimp only
    split at h
    · rename_i herror
      obtain rfl := Except.ok.inj h
      have hfault := setAll_error herror
      rcases hfill : RawStore.fill members [] with ⟨partly, fault⟩
      obtain rfl : fault = some .typeError := (congrArg Prod.snd hfill).symm.trans hfault
      rfl
    · have hfill : RawStore.fill members [] = (store.raw, none) := setAll_ok h
      rw [hfill]
  | _ => cases h

end Load

/-! ## Every content -/

/-- The store holds the profile of every key of the file, and nothing else. -/
def Content.HoldsAll (content : Content) (store : RawStore) : Prop :=
  ∃ members, content = .document (.object members) ∧ ∀ key,
    (members.reverse.lookup key = none → store.lookup key = none) ∧
      ∀ value, members.reverse.lookup key = some value → ∃ p, store.lookup key = some p ∧ value.Describes p

def Content.Loadable : Content → Prop
  | .unreadable | .notJson | .document (.object _) => True
  | _ => False

/-- **When a damaged file does not stop the executor**: when it is text that is not JSON, or an object at the top. Then
the store holds every profile of the file or none. Whatever is inside of the object, it does no harm. -/
theorem construct_iff (content : Content) :
    (∃ store, construct content = .ok store ∧ (store = [] ∨ content.HoldsAll store)) ↔ content.Loadable := by
  constructor
  · rintro ⟨store, h, -⟩
    cases content with
    | unreadable | notJson => trivial
    | undecodable | tooDeep | tooLong => cases h
    | document data =>
      cases data with
      | object => trivial
      | _ => cases h
  · intro h
    cases content with
    | unreadable | notJson => exact ⟨[], rfl, .inl rfl⟩
    | undecodable | tooDeep | tooLong => exact h.elim
    | document data =>
      cases data with
      | object members =>
        unfold construct Content.read Content.loads
        dsimp only
        rcases hfill : RawStore.fill members [] with ⟨store, - | fault⟩
        · exact ⟨store, rfl, .inr ⟨members, rfl, RawStore.fill_ok hfill⟩⟩
        · have hfault := RawStore.fill_error (congrArg Prod.snd hfill)
          exact ⟨[], by rw [hfault]; rfl, .inl rfl⟩
      | _ => exact h.elim

/-- A file that holds an empty list stops the constructor, and so do bytes that are not text. -/
theorem construct_raises : (¬ ∃ store, construct (.document (.array [])) = .ok store ∧
    (store = [] ∨ (Content.document (.array [])).HoldsAll store)) ∧
      ¬ ∃ store, construct .undecodable = .ok store ∧ (store = [] ∨ Content.undecodable.HoldsAll store) := by
  constructor
  · rintro ⟨store, h, -⟩
    cases h
  · rintro ⟨store, h, -⟩
    cases h

end AdaptiveExecutor
