import AdaptiveExecutor.Profiles.Log

/-!
# The profile document

What the store writes to disk as JSON, and what it makes of a document when it starts.

* `LearnedProfile.toJson`, `ProfileStore.snapshot` : `_snapshot_locked`, with its two shapes of a profile;
* `Json.observation`, `Json.profile`, `ProfileStore.load` : `_load`, with the errors that it catches and those that it
  does not;
* `WellFormed` : distinct keys and windows that are not exceeded; every call keeps it, and every load gives it;
* `load_snapshot` : a store that is well formed loads as it was saved; `saving_lossless` : so does every reachable one;
* `restart_lossless` : and every one that has been loaded and changed since.
-/

namespace AdaptiveExecutor

inductive Json
  | null
  | bool (b : Bool)
  | number (x : ℚ)
  | string (s : String)
  | array (elements : List Json)
  | object (members : List (String × Json))

/-! ## Saving -/

/-- `asdict`. -/
def ResourceObservation.toJson (o : ResourceObservation) : Json :=
  .object [("memory_delta_gb", .number o.memoryDeltaGb), ("vram_delta_gb", .number o.vramDeltaGb),
    ("cpu_percent", .number o.cpuPercent), ("duration_seconds", .number o.durationSeconds)]

/-- A profile without a floor is a list of observations, one with a floor an object. -/
def LearnedProfile.toJson (p : LearnedProfile) : Json :=
  let obs := .array (p.observations.map ResourceObservation.toJson)
  match p.memoryFloorGb with
  | none => obs
  | some floor => .object [("observations", obs), ("memory_floor_gb", .number floor)]

/-- `_snapshot_locked`. -/
def ProfileStore.snapshot (store : ProfileStore) : Json := .object (store.profiles.map fun e => (e.1, e.2.toJson))

/-! ## Loading -/

inductive LoadError
  /-- Caught: the store starts empty. -/
  | typeError
  /-- Not caught: `data.items()` on something other than an object. -/
  | attributeError
  /-- Something other than a number where the types want one. The source takes it as it is; here this is the end. -/
  | untyped
  deriving DecidableEq

namespace Json

def toNumber : Json → Except LoadError ℚ
  | .number x => .ok x
  | _ => .error .untyped

/-- The parameters of `ResourceObservation`. -/
def observationFields : List String := ["memory_delta_gb", "vram_delta_gb", "cpu_percent", "duration_seconds"]

def argument (members : List (String × Json)) (name : String) : Except LoadError ℚ :=
  match members.lookup name with
  | none => .error .typeError
  | some value => value.toNumber

/-- `ResourceObservation(**o)`: all of the parameters and no other keyword. -/
def observation : Json → Except LoadError ResourceObservation
  | .object members =>
    if (members.all fun e => e.1 ∈ observationFields) && observationFields.all fun name => (members.lookup name).isSome then do
      let memory ← argument members "memory_delta_gb"
      let vram ← argument members "vram_delta_gb"
      let cpu ← argument members "cpu_percent"
      let duration ← argument members "duration_seconds"
      return ⟨memory, vram, cpu, duration⟩
    else .error .typeError
  | _ => .error .typeError

/-- What `for o in value` goes through. -/
def elements : Json → Except LoadError (List Json)
  | .array elements => .ok elements
  | .object members => .ok (members.map fun e => .string e.1)
  | .string s => .ok (s.toList.map fun c => .string c.toString)
  | .null | .bool _ | .number _ => .error .typeError

/-- `obs_list`: the observations of an object, or the value itself. -/
def obsList : Json → Json
  | .object members => (members.lookup "observations").getD (.array [])
  | value => value

/-- `floor`: the floor of an object, if it is there. -/
def floorValue : Json → Option Json
  | .object members => members.lookup "memory_floor_gb"
  | _ => none

/-- The floor that is set, `None` when there is none. -/
def toFloor : Option Json → Except LoadError (Option ℚ)
  | none | some .null => .ok none
  | some value => value.toNumber.map some

/-- `profile.add(ResourceObservation(**o))` for each `o`. -/
def addAll : List Json → LearnedProfile → Except LoadError LearnedProfile
  | [], p => .ok p
  | o :: os, p => do addAll os (p.add (← o.observation))

/-- One turn of the loop of `_load`. The floor is set after the observations have been added. -/
def profile (value : Json) : Except LoadError LearnedProfile := do
  let os ← value.obsList.elements
  let p ← addAll os {}
  let floor ← toFloor value.floorValue
  return { p with memoryFloorGb := floor }

end Json

namespace ProfileStore

/-- `self.profiles[key] = profile`. -/
def set (store : ProfileStore) (key : String) (profile : LearnedProfile) : ProfileStore := store.modify key fun _ => profile

/-- The loop of `_load`. -/
def setAll : List (String × Json) → ProfileStore → Except LoadError ProfileStore
  | [], store => .ok store
  | (key, value) :: members, store => do setAll members (store.set key (← value.profile))

def loadAll : Json → Except LoadError ProfileStore
  | .object members => setAll members {}
  | _ => .error .attributeError

/-- `_load`: the store that starts with the document. -/
def load (data : Json) : Except LoadError ProfileStore :=
  match loadAll data with
  | .error .typeError => .ok {}
  | r => r

end ProfileStore

/-! ## Well-formed stores -/

/-- A profile as the store makes it, with no more observations than its window. -/
structure LearnedProfile.Windowed (p : LearnedProfile) : Prop where
  maxObservations : p.maxObservations = 100
  length : p.observations.length ≤ 100

/-- The keys are distinct, as those of a dict are, and every profile is within its window. -/
structure ProfileStore.WellFormed (store : ProfileStore) : Prop where
  keys : (store.profiles.map Prod.fst).Nodup
  windowed : ∀ e ∈ store.profiles, e.2.Windowed

section WellFormed
variable {p : LearnedProfile} {store : ProfileStore} {key : String} {f : LearnedProfile → LearnedProfile}

theorem LearnedProfile.Windowed.add (h : p.Windowed) (obs : ResourceObservation) : (p.add obs).Windowed where
  maxObservations := (add_maxObservations p obs).trans h.maxObservations
  length := by
    rw [add_observations, h.maxObservations, length_lastN (by decide)]
    exact min_le_left _ _

theorem StoreCall.write_windowed (c : StoreCall) (h : p.Windowed) : (c.write p).Windowed := by
  cases c with
  | record m f o k => exact h.add o
  | recordMemoryFloor => exact ⟨h.maxObservations, h.length⟩
  | get | estimationIdentity => exact h

theorem mem_keys_of_find (h : store.find key = none) : key ∉ store.profiles.map Prod.fst := by
  intro hmem
  obtain ⟨e, he, rfl⟩ := List.mem_map.mp hmem
  rw [ProfileStore.find, List.lookup_eq_none_iff] at h
  simpa using h e he

theorem ProfileStore.WellFormed.modify (h : store.WellFormed) (hf : ∀ p, p.Windowed → (f p).Windowed) :
    (store.modify key f).WellFormed := by
  unfold ProfileStore.modify
  cases hfind : store.find key with
  | none =>
    refine ⟨?_, fun e he => ?_⟩
    · rw [List.map_append, List.nodup_append_comm]
      exact List.nodup_cons.mpr ⟨mem_keys_of_find hfind, h.keys⟩
    · rcases List.mem_append.mp he with he | he
      · exact h.windowed e he
      · rw [List.mem_singleton.mp he]
        exact hf {} ⟨rfl, Nat.zero_le _⟩
  | some p =>
    refine ⟨?_, fun e he => ?_⟩
    · have hkeys : (store.profiles.map fun e => if e.1 = key then (e.1, f e.2) else e).map Prod.fst =
          store.profiles.map Prod.fst := by
        rw [List.map_map]
        apply List.map_congr_left
        intro e _
        dsimp only [Function.comp]
        split_ifs <;> rfl
      rw [hkeys]
      exact h.keys
    · obtain ⟨e₀, he₀, rfl⟩ := List.mem_map.mp he
      split_ifs
      · exact hf _ (h.windowed e₀ he₀)
      · exact h.windowed e₀ he₀

theorem ProfileStore.WellFormed.modifyBoth (h : store.WellFormed) (hf : ∀ p, p.Windowed → (f p).Windowed)
    (fnModule fnName : String) (profileKey : Option String) :
    (store.modifyBoth fnModule fnName profileKey f).WellFormed := by
  unfold ProfileStore.modifyBoth
  cases profileKey with
  | none => exact h.modify hf
  | some _ => exact (h.modify hf).modify hf

/-- **Every call keeps a store well formed.** -/
theorem StoreCall.run_wellFormed (c : StoreCall) (h : store.WellFormed) : (c.run store).WellFormed := by
  cases c with
  | record m f o k => exact h.modifyBoth (fun _ => (StoreCall.record m f o k).write_windowed) m f k
  | recordMemoryFloor m f g k => exact h.modifyBoth (fun _ => (StoreCall.recordMemoryFloor m f g k).write_windowed) m f k
  | get m f k =>
    change (store.get m f k).2.WellFormed
    unfold ProfileStore.get
    split
    · exact h
    · exact h.modify fun _ hp => hp
  | estimationIdentity => exact h

theorem replay_wellFormed (calls : List StoreCall) : (replay calls).WellFormed := by
  induction calls using List.reverseRecOn with
  | nil => exact ⟨List.nodup_nil, fun _ h => by cases h⟩
  | append_singleton calls c ih =>
    rw [replay_append]
    exact c.run_wellFormed ih

end WellFormed

/-! ## What a load gives -/

section Load
variable {store : ProfileStore} {p : LearnedProfile}

theorem bind_eq_ok {ε β γ : Type} {x : Except ε β} {f : β → Except ε γ} {c : γ} :
    x >>= f = .ok c ↔ ∃ b, x = .ok b ∧ f b = .ok c := by
  cases x with
  | error e => exact ⟨fun h => (by cases h), fun ⟨_, h, _⟩ => (by cases h)⟩
  | ok b => exact ⟨fun h => ⟨b, rfl, h⟩, fun ⟨b', hb, h⟩ => Except.ok.inj hb ▸ h⟩

theorem Json.addAll_windowed : ∀ {os : List Json} {p q : LearnedProfile}, p.Windowed → addAll os p = .ok q → q.Windowed
  | [], _, _, hp, h => Except.ok.inj h ▸ hp
  | _ :: _, _, _, hp, h => by
    obtain ⟨obs, -, h⟩ := bind_eq_ok.mp h
    exact addAll_windowed (hp.add obs) h

theorem Json.profile_windowed {value : Json} (h : value.profile = .ok p) : p.Windowed := by
  obtain ⟨os, -, h⟩ := bind_eq_ok.mp h
  obtain ⟨q, hq, h⟩ := bind_eq_ok.mp h
  obtain ⟨floor, -, h⟩ := bind_eq_ok.mp h
  have hwindowed := addAll_windowed ⟨rfl, Nat.zero_le _⟩ hq
  obtain rfl := Except.ok.inj h
  exact ⟨hwindowed.maxObservations, hwindowed.length⟩

theorem ProfileStore.setAll_wellFormed : ∀ {members : List (String × Json)} {store store' : ProfileStore},
    store.WellFormed → setAll members store = .ok store' → store'.WellFormed
  | [], _, _, hstore, h => Except.ok.inj h ▸ hstore
  | (_, _) :: _, _, _, hstore, h => by
    obtain ⟨p, hp, h⟩ := bind_eq_ok.mp h
    exact setAll_wellFormed (hstore.modify fun _ _ => Json.profile_windowed hp) h

/-- **Every store that is loaded is well formed**, whatever the document. -/
theorem ProfileStore.load_wellFormed {data : Json} (h : load data = .ok store) : store.WellFormed := by
  have hempty : ({} : ProfileStore).WellFormed := replay_wellFormed []
  unfold load at h
  split at h
  · exact Except.ok.inj h ▸ hempty
  · cases data with
    | object members => exact setAll_wellFormed hempty h
    | _ => cases h

/-! ## The round trip -/

theorem ResourceObservation.observation_toJson (o : ResourceObservation) : o.toJson.observation = .ok o := rfl

theorem Json.addAll_toJson : ∀ (os : List ResourceObservation) (p : LearnedProfile), p.memoryFloorGb = none →
    p.maxObservations = 100 → (p.observations ++ os).length ≤ 100 →
    addAll (os.map ResourceObservation.toJson) p = .ok { p with observations := p.observations ++ os }
  | [], p, _, _, _ => by rw [List.append_nil]; rfl
  | o :: os, p, hfloor, hmax, hlen => by
    have hlen' : (p.observations ++ [o]).length ≤ 100 := by
      simp only [List.length_append, List.length_cons, List.length_nil] at hlen ⊢
      omega
    have hadd : p.add o = { p with observations := p.observations ++ [o] } := by
      rw [LearnedProfile.add_eq, hmax, lastN_of_length_le hlen']
      unfold LearnedProfile.maybeRecoverFloor
      dsimp only
      rw [hfloor]
    rw [List.map_cons, addAll, ResourceObservation.observation_toJson]
    change addAll _ (p.add o) = _
    rw [hadd, addAll_toJson os { p with observations := p.observations ++ [o] } hfloor hmax (by simpa using hlen)]
    simp

/-- **A profile loads as it was saved.** -/
theorem LearnedProfile.profile_toJson (h : p.Windowed) : p.toJson.profile = .ok p := by
  have hadd : Json.addAll (p.observations.map ResourceObservation.toJson) {} =
      .ok { p with memoryFloorGb := none } := by
    rw [Json.addAll_toJson p.observations {} rfl rfl h.length, ← h.maxObservations]
    rfl
  unfold toJson
  cases hfloor : p.memoryFloorGb with
  | none =>
    change (do
      let p ← Json.addAll (p.observations.map ResourceObservation.toJson) {}
      return { p with memoryFloorGb := none }) = Except.ok p
    rw [hadd, ← hfloor]
    rfl
  | some floor =>
    change (do
      let p ← Json.addAll (p.observations.map ResourceObservation.toJson) {}
      return { p with memoryFloorGb := some floor }) = Except.ok p
    rw [hadd, ← hfloor]
    rfl

theorem ProfileStore.setAll_toJson : ∀ (entries : List (String × LearnedProfile)) (store : ProfileStore),
    ((store.profiles ++ entries).map Prod.fst).Nodup → (∀ e ∈ entries, e.2.Windowed) →
    setAll (entries.map fun e => (e.1, e.2.toJson)) store = .ok ⟨store.profiles ++ entries⟩
  | [], store, _, _ => by rw [List.append_nil]; rfl
  | (key, p) :: entries, store, hkeys, hwindowed => by
    obtain ⟨hp, hentries⟩ := List.forall_mem_cons.mp hwindowed
    have hnew : store.find key = none := by
      rw [find, List.lookup_eq_none_iff]
      intro e he
      rw [List.map_append, List.nodup_append] at hkeys
      have hne := hkeys.2.2 e.1 (List.mem_map_of_mem he) key List.mem_cons_self
      simpa using Ne.symm hne
    have hset : store.set key p = ⟨store.profiles ++ [(key, p)]⟩ := by
      unfold set modify
      rw [hnew]
    rw [List.map_cons, setAll, LearnedProfile.profile_toJson hp]
    change setAll _ (store.set key p) = _
    rw [hset, setAll_toJson entries _ (by simpa using hkeys) hentries]
    simp

/-- **A well-formed store loads as it was saved**, with its keys in order. -/
theorem ProfileStore.load_snapshot (h : store.WellFormed) : load store.snapshot = .ok store := by
  have hall : loadAll store.snapshot = .ok store := setAll_toJson store.profiles {} h.keys h.windowed
  rw [load, hall]

end Load

/-- A document of the older format, in which every profile is a list of observations. -/
def plainDocument (entries : List (String × List ResourceObservation)) : Json :=
  .object (entries.map fun e => (e.1, .array (e.2.map ResourceObservation.toJson)))

/-- What a process makes of a document and of its calls is not lost by saving it. -/
theorem restart_lossless {data : Json} {store : ProfileStore} (h : ProfileStore.load data = .ok store)
    (calls : List StoreCall) : ProfileStore.load (replayFrom store calls).snapshot = .ok (replayFrom store calls) := by
  apply ProfileStore.load_snapshot
  have hstore := ProfileStore.load_wellFormed h
  induction calls using List.reverseRecOn with
  | nil => exact hstore
  | append_singleton calls c ih =>
    rw [replayFrom_append]
    exact c.run_wellFormed ih

/-- **Saving and loading profiles is lossless**: whatever calls have been made, the document of the store loads as the
same store. A document of the older format loads as its observations, without floors. -/
theorem saving_lossless : (∀ calls, ProfileStore.load (replay calls).snapshot = .ok (replay calls)) ∧
    ∀ entries : List (String × List ResourceObservation), (entries.map Prod.fst).Nodup →
      (∀ e ∈ entries, e.2.length ≤ 100) →
      ProfileStore.load (plainDocument entries) = .ok ⟨entries.map fun e => (e.1, { observations := e.2 })⟩ := by
  refine ⟨fun calls => ProfileStore.load_snapshot (replay_wellFormed calls), fun entries hkeys hlen => ?_⟩
  let store : ProfileStore := ⟨entries.map fun e => (e.1, { observations := e.2 })⟩
  have hdocument : plainDocument entries = store.snapshot := by
    unfold plainDocument ProfileStore.snapshot
    rw [List.map_map]
    rfl
  rw [hdocument]
  apply ProfileStore.load_snapshot
  refine ⟨?_, fun e he => ?_⟩
  · rw [List.map_map]
    exact hkeys
  · obtain ⟨e₀, he₀, rfl⟩ := List.mem_map.mp he
    exact ⟨rfl, hlen e₀ he₀⟩

theorem saving_lossless_plain :
    ProfileStore.load (plainDocument [("m:f", [usedMemory 2, usedMemory 3]), ("m:g", []), ("m:h", [usedMemory 1])]) =
      .ok ⟨[("m:f", { observations := [usedMemory 2, usedMemory 3] }), ("m:g", {}),
        ("m:h", { observations := [usedMemory 1] })]⟩ :=
  saving_lossless.2 [("m:f", [usedMemory 2, usedMemory 3]), ("m:g", []), ("m:h", [usedMemory 1])] (by decide) (by decide)

end AdaptiveExecutor
