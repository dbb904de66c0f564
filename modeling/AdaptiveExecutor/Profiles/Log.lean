import AdaptiveExecutor.Profiles

/-!
# The profile store as a log of observations

What the store answers after any sequence of calls.

* `StoreCall`, `replay` : the calls, and the store after them;
* `run_profile`, `replay_profile` : each profile is driven by the calls that write it, and by no other;
* `replay_observations` : a profile holds the last 100 observations of its log;
* `deriveStoreKey_inj` : names without separators have keys of their own;
* `replay_refines` : the answers of the store, said of the log.
-/

namespace AdaptiveExecutor

/-! ## Windows -/

section Window
variable {β : Type*} {n : Nat} {xs ys : List β}

theorem lastN_of_length_le (h : xs.length ≤ n) : lastN n xs = xs := by
  unfold lastN
  split_ifs
  · rfl
  · rw [Nat.sub_eq_zero_of_le h, List.drop_zero]

theorem length_lastN (hn : n ≠ 0) : (lastN n xs).length = min n xs.length := by
  rw [lastN, if_neg hn, List.length_drop]
  omega

theorem lastN_append_right (hn : n ≠ 0) (h : n ≤ ys.length) : lastN n (xs ++ ys) = lastN n ys := by
  have hlen : (xs ++ ys).length - n = xs.length + (ys.length - n) := by
    rw [List.length_append]
    omega
  rw [lastN, lastN, if_neg hn, if_neg hn, hlen, ← List.drop_drop, List.drop_left]

theorem map_lastN {γ : Type*} (f : β → γ) : (lastN n xs).map f = lastN n (xs.map f) := by
  unfold lastN
  split_ifs
  · rfl
  · rw [List.map_drop, List.length_map]

theorem take_append_lastN (hn : n ≠ 0) (xs : List β) : xs.take (xs.length - n) ++ lastN n xs = xs := by
  rw [lastN, if_neg hn, List.take_append_drop]

theorem lastN_lastN_append (hn : n ≠ 0) : lastN n (lastN n xs ++ ys) = lastN n (xs ++ ys) := by
  by_cases h : xs.length ≤ n
  · rw [lastN_of_length_le h]
  · have hlen : n ≤ (lastN n xs ++ ys).length := by
      rw [List.length_append, length_lastN hn]
      omega
    conv_rhs => rw [← take_append_lastN hn xs, List.append_assoc, lastN_append_right hn hlen]

theorem lastN_lastN {m : Nat} (hm : m ≠ 0) (h : m ≤ n) : lastN m (lastN n xs) = lastN m xs := by
  have hn : n ≠ 0 := by omega
  by_cases hlen : xs.length ≤ n
  · rw [lastN_of_length_le hlen]
  · have hwindow : m ≤ (lastN n xs).length := by
      rw [length_lastN hn]
      omega
    conv_rhs => rw [← take_append_lastN hn xs, lastN_append_right hm hwindow]

theorem lastN_append_lastN (xs ys : List β) : lastN n (lastN n xs ++ ys) = lastN n (xs ++ ys) := by
  by_cases hn : n = 0
  · rw [lastN, lastN, lastN, if_pos hn, if_pos hn, if_pos hn]
  · exact lastN_lastN_append hn

theorem lastN_self (xs : List β) : lastN n (lastN n xs) = lastN n xs := by
  simpa using lastN_append_lastN (n := n) xs []

end Window

/-! ## One profile -/

namespace LearnedProfile

theorem maybeRecoverFloor_frame (p : LearnedProfile) :
    p.maybeRecoverFloor = p ∨ p.maybeRecoverFloor = { p with memoryFloorGb := none } := by
  unfold maybeRecoverFloor
  split
  · exact .inl rfl
  · dsimp only
    split_ifs
    · exact .inl rfl
    · exact .inr rfl
    · exact .inl rfl

/-- The most recent `FLOOR_RECOVERY_OBSERVATIONS` observations all peak below the fraction of the floor. -/
def LowTail (floor : ℚ) (observations : List ResourceObservation) : Prop :=
  floorRecoveryObservations ≤ observations.length ∧
    ∀ o ∈ lastN floorRecoveryObservations observations, o.memoryDeltaGb < floor * floorRecoveryFraction

instance (floor : ℚ) (observations : List ResourceObservation) : Decidable (LowTail floor observations) :=
  inferInstanceAs (Decidable (_ ∧ _))

theorem lowTail_lastN_iff {floor : ℚ} {n : Nat} {observations : List ResourceObservation} :
    LowTail floor (lastN n observations) ↔ (n = 0 ∨ floorRecoveryObservations ≤ n) ∧ LowTail floor observations := by
  have hfive : floorRecoveryObservations = 5 := rfl
  by_cases hn : n = 0
  · have hall : lastN n observations = observations := if_pos hn
    rw [hall]
    simp [hn]
  · have hlen : (lastN n observations).length = min n observations.length := length_lastN hn
    unfold LowTail
    by_cases hwide : floorRecoveryObservations ≤ n
    · rw [hlen, lastN_lastN (by decide) hwide, le_min_iff]
      tauto
    · constructor
      · intro h
        omega
      · intro h
        omega

theorem maybeRecoverFloor_memoryFloorGb {p : LearnedProfile} {floor : ℚ} (h : p.memoryFloorGb = some floor) :
    p.maybeRecoverFloor.memoryFloorGb = if LowTail floor p.observations then none else some floor := by
  have hlen : (lastN floorRecoveryObservations p.observations).length = min floorRecoveryObservations
      p.observations.length := length_lastN (by decide)
  unfold maybeRecoverFloor
  rw [h]
  dsimp only
  by_cases hfive : floorRecoveryObservations ≤ p.observations.length
  · rw [if_neg (by omega)]
    by_cases hlow : ∀ o ∈ lastN floorRecoveryObservations p.observations, o.memoryDeltaGb < floor * floorRecoveryFraction
    · rw [if_pos (by simpa using hlow), if_pos ⟨hfive, hlow⟩]
    · rw [if_neg (by simpa using hlow), if_neg fun h => hlow h.2, h]
  · rw [if_pos (by omega), if_neg fun h => hfive h.1, h]

theorem add_eq (p : LearnedProfile) (obs : ResourceObservation) : p.add obs =
    { p with observations := lastN p.maxObservations (p.observations ++ [obs]) }.maybeRecoverFloor := by
  unfold add
  dsimp only
  split_ifs with h
  · rfl
  · rw [lastN_of_length_le (not_lt.mp h)]

theorem add_maxObservations (p : LearnedProfile) (obs : ResourceObservation) :
    (p.add obs).maxObservations = p.maxObservations := by
  rw [add_eq]
  rcases maybeRecoverFloor_frame { p with observations := _ } with h | h <;> rw [h]

theorem add_observations (p : LearnedProfile) (obs : ResourceObservation) :
    (p.add obs).observations = lastN p.maxObservations (p.observations ++ [obs]) := by
  rw [add_eq]
  rcases maybeRecoverFloor_frame { p with observations := _ } with h | h <;> rw [h]

/-- The window can hold the observations that clear a floor. -/
def CanRecover (p : LearnedProfile) : Prop := p.maxObservations = 0 ∨ floorRecoveryObservations ≤ p.maxObservations

instance (p : LearnedProfile) : Decidable p.CanRecover := inferInstanceAs (Decidable (_ ∨ _))

/-- **What clears a floor**: low observations up to the new one, in a window that can hold enough of them. -/
theorem add_floor_of_some {p : LearnedProfile} {floor : ℚ} (h : p.memoryFloorGb = some floor) (obs : ResourceObservation) :
    (p.add obs).memoryFloorGb =
      if p.CanRecover ∧ LowTail floor (p.observations ++ [obs]) then none else some floor := by
  have hadded : (p.add obs).memoryFloorGb = if LowTail floor (lastN p.maxObservations (p.observations ++ [obs])) then none
      else some floor := by
    rw [add_eq]
    exact maybeRecoverFloor_memoryFloorGb h
  rw [hadded]
  exact if_congr lowTail_lastN_iff rfl rfl

section Window
variable {p : LearnedProfile} {all : List ResourceObservation}

theorem add_window (h : lastN p.maxObservations p.observations = lastN p.maxObservations all)
    (obs : ResourceObservation) : lastN (p.add obs).maxObservations (p.add obs).observations =
      lastN (p.add obs).maxObservations (all ++ [obs]) := by
  rw [add_maxObservations, add_observations, lastN_self, ← lastN_append_lastN, h, lastN_append_lastN]

theorem CanRecover.lowTail_iff (hrecover : p.CanRecover) {floor : ℚ} (obs : ResourceObservation)
    (h : lastN p.maxObservations p.observations = lastN p.maxObservations all) :
    LowTail floor (p.observations ++ [obs]) ↔ LowTail floor (all ++ [obs]) := by
  have hwindow : lastN p.maxObservations (p.observations ++ [obs]) = lastN p.maxObservations (all ++ [obs]) := by
    rw [← lastN_append_lastN, h, lastN_append_lastN]
  have hseen (observations : List ResourceObservation) :
      LowTail floor (lastN p.maxObservations observations) ↔ LowTail floor observations :=
    lowTail_lastN_iff.trans (and_iff_right hrecover)
  rw [← hseen, hwindow, hseen]

end Window

theorem add_floor_of_none {p : LearnedProfile} (h : p.memoryFloorGb = none) (obs : ResourceObservation) :
    (p.add obs).memoryFloorGb = none := by
  rw [add_eq]
  rcases maybeRecoverFloor_frame { p with observations := _ } with hsame | hnone
  · rw [hsame, h]
  · rw [hnone]

end LearnedProfile

/-! ## Calls -/

inductive StoreCall
  | record (fnModule fnName : String) (observation : ResourceObservation) (profileKey : Option String)
  | recordMemoryFloor (fnModule fnName : String) (floorGb : ℚ) (profileKey : Option String)
  | get (fnModule fnName : String) (profileKey : Option String)
  | estimationIdentity (fnModule fnName : String) (profileKey : Option String)
  deriving DecidableEq

/-- The keys of the profiles that `record` and `record_memory_floor` write. -/
def storeKeys (fnModule fnName : String) (profileKey : Option String) : List String :=
  deriveStoreKey fnModule fnName none :: (profileKey.map fun key => deriveStoreKey fnModule fnName (some key)).toList

namespace StoreCall

def run : StoreCall → ProfileStore → ProfileStore
  | .record fnModule fnName observation profileKey, store => store.record fnModule fnName observation profileKey
  | .recordMemoryFloor fnModule fnName floorGb profileKey, store =>
    store.recordMemoryFloor fnModule fnName floorGb profileKey
  | .get fnModule fnName profileKey, store => (store.get fnModule fnName profileKey).2
  | .estimationIdentity .., store => store

def keys : StoreCall → List String
  | .record fnModule fnName _ profileKey | .recordMemoryFloor fnModule fnName _ profileKey =>
    storeKeys fnModule fnName profileKey
  | .get .. | .estimationIdentity .. => []

def write : StoreCall → LearnedProfile → LearnedProfile
  | .record _ _ observation _, p => p.add observation
  | .recordMemoryFloor _ _ floorGb _, p => p.setMemoryFloor floorGb
  | .get .., p | .estimationIdentity .., p => p

def observation? : StoreCall → Option ResourceObservation
  | .record _ _ observation _ => some observation
  | _ => none

end StoreCall

/-- The store after the calls, from `start`. -/
def replayFrom (start : ProfileStore) (calls : List StoreCall) : ProfileStore :=
  calls.foldl (fun store c => c.run store) start

def replay (calls : List StoreCall) : ProfileStore := replayFrom {} calls

namespace ProfileStore
variable {store : ProfileStore}

/-- `self.profiles[key]`, without the entry that reading may make. -/
def profile (store : ProfileStore) (key : String) : LearnedProfile := (store.find key).getD {}

theorem profile_modify (key k : String) (f : LearnedProfile → LearnedProfile) :
    (store.modify key f).profile k = if k = key then f (store.profile k) else store.profile k := by
  unfold profile
  rw [find_modify]
  split_ifs with h
  · rw [h]
    rfl
  · rfl

theorem deriveStoreKey_ne_base (fnModule fnName key : String) :
    deriveStoreKey fnModule fnName (some key) ≠ deriveStoreKey fnModule fnName none := by
  intro h
  have hlen := congrArg String.length h
  simp only [deriveStoreKey, String.length_append] at hlen
  have hsep : "#".length = 1 := rfl
  omega

theorem profile_modifyBoth (store : ProfileStore) (fnModule fnName : String) (profileKey : Option String)
    (f : LearnedProfile → LearnedProfile) (k : String) : (store.modifyBoth fnModule fnName profileKey f).profile k =
      if k ∈ storeKeys fnModule fnName profileKey then f (store.profile k) else store.profile k := by
  unfold modifyBoth storeKeys
  cases profileKey with
  | none =>
    rw [profile_modify]
    simp
  | some key =>
    have hne := deriveStoreKey_ne_base fnModule fnName key
    dsimp only
    rw [profile_modify, profile_modify]
    by_cases hkeyed : k = deriveStoreKey fnModule fnName (some key)
    · subst hkeyed
      simp [hne]
    · simp [hkeyed]

end ProfileStore

section Replay
variable {calls : List StoreCall} {key : String}

/-- **One call** writes the profiles of its keys, and no other. -/
theorem run_profile (c : StoreCall) (store : ProfileStore) (key : String) :
    (c.run store).profile key = if key ∈ c.keys then c.write (store.profile key) else store.profile key := by
  cases c with
  | record m f o k => exact store.profile_modifyBoth m f k _ key
  | recordMemoryFloor m f g k => exact store.profile_modifyBoth m f k _ key
  | get m f k => exact ProfileStore.same_get m f k key
  | estimationIdentity m f k => rfl

theorem replayFrom_append (start : ProfileStore) (calls : List StoreCall) (c : StoreCall) :
    replayFrom start (calls ++ [c]) = c.run (replayFrom start calls) := by
  unfold replayFrom
  rw [List.foldl_append]
  rfl

theorem replay_append (calls : List StoreCall) (c : StoreCall) : replay (calls ++ [c]) = c.run (replay calls) :=
  replayFrom_append {} calls c

/-- **Each profile is driven by the calls that write it.** -/
theorem replay_profile (calls : List StoreCall) (key : String) : (replay calls).profile key =
    (calls.filter fun c => key ∈ c.keys).foldl (fun p c => c.write p) {} := by
  induction calls using List.reverseRecOn with
  | nil => rfl
  | append_singleton calls c ih =>
    rw [replay_append, run_profile, ih, List.filter_append, List.foldl_append]
    by_cases h : key ∈ c.keys
    · simp [h]
    · simp [h]

/-- A profile that calls drive keeps the window of the source, and in it the last of its observations. -/
theorem foldl_write (calls : List StoreCall) :
    let p : LearnedProfile := calls.foldl (fun p c => c.write p) {}
    p.maxObservations = 100 ∧ p.observations = lastN 100 (calls.filterMap StoreCall.observation?) := by
  induction calls using List.reverseRecOn with
  | nil => exact ⟨rfl, rfl⟩
  | append_singleton calls c ih =>
    obtain ⟨hmax, hobs⟩ := ih
    rw [List.foldl_append, List.filterMap_append]
    dsimp only [List.foldl_cons, List.foldl_nil]
    cases c with
    | record m f o k =>
      refine ⟨(LearnedProfile.add_maxObservations _ o).trans hmax, ?_⟩
      refine (LearnedProfile.add_observations _ o).trans ?_
      rw [hmax, hobs]
      exact lastN_lastN_append (by decide)
    | recordMemoryFloor | get | estimationIdentity =>
      rw [List.filterMap_cons_none rfl, List.filterMap_nil, List.append_nil]
      exact ⟨hmax, hobs⟩

theorem replay_observations (calls : List StoreCall) (key : String) : ((replay calls).profile key).observations =
    lastN 100 ((calls.filter fun c => key ∈ c.keys).filterMap StoreCall.observation?) := by
  rw [replay_profile]
  exact (foldl_write _).2

theorem replay_same_writes (calls : List StoreCall) :
    (replay (calls.filter fun c => c.keys ≠ [])).Same (replay calls) := by
  intro key
  change (replay calls).profile key = (replay _).profile key
  rw [replay_profile, replay_profile, List.filter_filter]
  congr 1
  apply List.filter_congr
  intro c _
  by_cases h : key ∈ c.keys
  · simp [h, List.ne_nil_of_mem h]
  · simp [h]

end Replay

/-! ## The log -/

def PlainName (name : String) : Prop := ':' ∉ name.toList ∧ '#' ∉ name.toList

instance (name : String) : Decidable (PlainName name) := inferInstanceAs (Decidable (_ ∧ _))

theorem append_cons_inj_of_notMem {β : Type*} {a : β} {xs xs' ys ys' : List β} (h : a ∉ xs) (h' : a ∉ xs')
    (heq : xs ++ a :: ys = xs' ++ a :: ys') : xs = xs' ∧ ys = ys' := by
  rcases List.append_eq_append_iff.mp heq with ⟨zs, hxs, hys⟩ | ⟨zs, hxs, hys⟩
  · cases zs with
    | nil => exact ⟨by rw [hxs, List.append_nil], (List.cons.inj hys).2⟩
    | cons z zs =>
      obtain ⟨rfl, -⟩ := List.cons.inj hys
      exact absurd (hxs ▸ List.mem_append_right xs List.mem_cons_self) h'
  · cases zs with
    | nil => exact ⟨by rw [hxs, List.append_nil], (List.cons.inj hys).2.symm⟩
    | cons z zs =>
      obtain ⟨rfl, -⟩ := List.cons.inj hys
      exact absurd (hxs ▸ List.mem_append_right xs' List.mem_cons_self) h

section Keys
variable {m f m' f' : String} {k k' : Option String}

theorem deriveStoreKey_none_toList (m f : String) : (deriveStoreKey m f none).toList = m.toList ++ ':' :: f.toList := by
  simp [deriveStoreKey]

theorem deriveStoreKey_some_toList (m f key : String) :
    (deriveStoreKey m f (some key)).toList = (deriveStoreKey m f none).toList ++ '#' :: key.toList := by
  simp [deriveStoreKey]

theorem PlainName.base (hm : PlainName m) (hf : PlainName f) : '#' ∉ (deriveStoreKey m f none).toList := by
  rw [deriveStoreKey_none_toList]
  simp [hm.2, hf.2]

/-- **Plain names have keys of their own**, whatever the profile keys. -/
theorem deriveStoreKey_inj (hm : PlainName m) (hf : PlainName f) (hm' : PlainName m') (hf' : PlainName f')
    (h : deriveStoreKey m f k = deriveStoreKey m' f' k') : m = m' ∧ f = f' ∧ k = k' := by
  have hbase (h : deriveStoreKey m f none = deriveStoreKey m' f' none) : m = m' ∧ f = f' := by
    have hlist := congrArg String.toList h
    rw [deriveStoreKey_none_toList, deriveStoreKey_none_toList] at hlist
    obtain ⟨hmod, hname⟩ := append_cons_inj_of_notMem hm.1 hm'.1 hlist
    exact ⟨String.toList_inj.mp hmod, String.toList_inj.mp hname⟩
  have hlist := congrArg String.toList h
  cases k with
  | none =>
    cases k' with
    | none => exact ⟨(hbase h).1, (hbase h).2, rfl⟩
    | some key' =>
      rw [deriveStoreKey_some_toList] at hlist
      exact absurd (hlist ▸ List.mem_append_right _ List.mem_cons_self) (hm.base hf)
  | some key =>
    cases k' with
    | none =>
      rw [deriveStoreKey_some_toList] at hlist
      exact absurd (hlist ▸ List.mem_append_right _ List.mem_cons_self) (hm'.base hf')
    | some key' =>
      rw [deriveStoreKey_some_toList, deriveStoreKey_some_toList] at hlist
      obtain ⟨hbases, hkeys⟩ := append_cons_inj_of_notMem (hm.base hf) (hm'.base hf') hlist
      obtain ⟨rfl, rfl⟩ := hbase (String.toList_inj.mp hbases)
      exact ⟨rfl, rfl, congrArg some (String.toList_inj.mp hkeys)⟩

end Keys

def StoreCall.names : StoreCall → String × String
  | .record m f _ _ | .recordMemoryFloor m f _ _ | .get m f _ | .estimationIdentity m f _ => (m, f)

/-- The observations recorded for a function: under the key, or for no key under any or none. -/
def observed (fnModule fnName : String) (profileKey : Option String) (calls : List StoreCall) :
    List ResourceObservation :=
  calls.filterMap fun
    | .record m f observation key =>
      if m = fnModule ∧ f = fnName ∧ (profileKey = none ∨ key = profileKey) then some observation else none
    | _ => none

/-- The bucket that is drawn from: the keyed one if anything has been observed under the key, else all of the
function. -/
def bucket (fnModule fnName : String) (profileKey : Option String) (calls : List StoreCall) : Option String :=
  if observed fnModule fnName profileKey calls = [] then none else profileKey

section Refinement
variable {m f : String} {k : Option String} {calls : List StoreCall}

theorem mem_storeKeys {m' f' : String} {k' : Option String} (hm : PlainName m) (hf : PlainName f) (hm' : PlainName m')
    (hf' : PlainName f') :
    deriveStoreKey m f k ∈ storeKeys m' f' k' ↔ m' = m ∧ f' = f ∧ (k = none ∨ k' = k) := by
  unfold storeKeys
  rw [List.mem_cons, Option.mem_toList, Option.map_eq_some_iff]
  constructor
  · rintro (h | ⟨key, rfl, h⟩)
    · obtain ⟨rfl, rfl, rfl⟩ := deriveStoreKey_inj hm hf hm' hf' h
      exact ⟨rfl, rfl, .inl rfl⟩
    · obtain ⟨rfl, rfl, rfl⟩ := deriveStoreKey_inj hm' hf' hm hf h
      exact ⟨rfl, rfl, .inr rfl⟩
  · rintro ⟨rfl, rfl, rfl | rfl⟩
    · exact .inl rfl
    · cases k' with
      | none => exact .inl rfl
      | some key => exact .inr ⟨key, rfl, rfl⟩

/-- The log of a function and a key is what is written to their profile. -/
theorem observed_eq (hm : PlainName m) (hf : PlainName f)
    (hcalls : ∀ c ∈ calls, PlainName c.names.1 ∧ PlainName c.names.2) : observed m f k calls =
      (calls.filter fun c => deriveStoreKey m f k ∈ c.keys).filterMap StoreCall.observation? := by
  unfold observed
  rw [List.filterMap_filter]
  apply List.filterMap_congr
  intro c hc
  obtain ⟨hm', hf'⟩ := hcalls c hc
  cases c with
  | record m' f' o k' =>
    have hiff : deriveStoreKey m f k ∈ (StoreCall.record m' f' o k').keys ↔ m' = m ∧ f' = f ∧ (k = none ∨ k' = k) :=
      mem_storeKeys hm hf hm' hf'
    simp only [decide_eq_true_eq, hiff]
    rfl
  | recordMemoryFloor | get | estimationIdentity => simp [StoreCall.observation?]

theorem lastN_eq_nil_iff {β : Type*} {n : Nat} {xs : List β} : lastN n xs = [] ↔ xs = [] := by
  constructor
  · intro h
    by_contra hne
    exact lastN_ne_nil n hne h
  · rintro rfl
    simp [lastN]

theorem replay_keyed (hm : PlainName m) (hf : PlainName f)
    (hcalls : ∀ c ∈ calls, PlainName c.names.1 ∧ PlainName c.names.2) :
    (replay calls).keyed m f k = (bucket m f k calls).map fun key =>
      (deriveStoreKey m f (some key), (replay calls).profile (deriveStoreKey m f (some key))) := by
  unfold bucket
  cases k with
  | none => rw [ite_self]; rfl
  | some key =>
    have hempty : ((replay calls).profile (deriveStoreKey m f (some key))).observations = [] ↔
        observed m f (some key) calls = [] := by
      rw [replay_observations, lastN_eq_nil_iff, ← observed_eq hm hf hcalls]
    rw [ProfileStore.keyed_eq]
    change (if ((replay calls).profile _).observations = [] then _ else _) = _
    rw [if_congr hempty rfl rfl]
    split_ifs <;> rfl

theorem replay_get (hm : PlainName m) (hf : PlainName f)
    (hcalls : ∀ c ∈ calls, PlainName c.names.1 ∧ PlainName c.names.2) :
    ((replay calls).get m f k).1 = (replay calls).profile (deriveStoreKey m f (bucket m f k calls)) := by
  unfold ProfileStore.get
  rw [replay_keyed hm hf hcalls]
  cases bucket m f k calls <;> rfl

theorem replay_identity (hm : PlainName m) (hf : PlainName f)
    (hcalls : ∀ c ∈ calls, PlainName c.names.1 ∧ PlainName c.names.2) :
    (replay calls).estimationIdentity m f k = (deriveStoreKey m f (bucket m f k calls),
      ((replay calls).profile (deriveStoreKey m f (bucket m f k calls))).sampleCount) := by
  unfold ProfileStore.estimationIdentity
  rw [replay_keyed hm hf hcalls]
  cases bucket m f k calls with
  | some key => rfl
  | none =>
    unfold ProfileStore.profile
    dsimp only [Option.map_none]
    cases (replay calls).find (deriveStoreKey m f none) <;> rfl

end Refinement

/-- **What the answers of a store say of the log** of calls. -/
structure Refines (store : ProfileStore) (calls : List StoreCall) : Prop where
  get : ∀ m f k, PlainName m → PlainName f →
    (store.get m f k).1.observations = lastN 100 (observed m f (bucket m f k calls) calls)
  count : ∀ m f k, (store.estimationIdentity m f k).2 = (store.get m f k).1.observations.length
  identity : ∀ m f k m' f' k', PlainName m → PlainName f → PlainName m' → PlainName f' →
    ((store.estimationIdentity m f k).1 = (store.estimationIdentity m' f' k').1 ↔
      m = m' ∧ f = f' ∧ bucket m f k calls = bucket m' f' k' calls)
  /-- The calls that only read leave no trace in the answers. -/
  reads : ∀ m f k, let written := replay (calls.filter fun c => c.keys ≠ [])
    (store.get m f k).1 = (written.get m f k).1 ∧ store.estimationIdentity m f k = written.estimationIdentity m f k

theorem ProfileStore.identity_count (store : ProfileStore) (m f : String) (k : Option String) :
    (store.estimationIdentity m f k).2 = (store.get m f k).1.observations.length := by
  unfold ProfileStore.estimationIdentity ProfileStore.get
  cases store.keyed m f k with
  | some p => rfl
  | none =>
    dsimp only
    cases store.find (deriveStoreKey m f none) <;> rfl

/-- **The profile store refines a log of observations**: after any calls with names free of separators it answers with
the last 100 observations of the bucket, and identifies it. -/
theorem replay_refines {calls : List StoreCall} (hcalls : ∀ c ∈ calls, PlainName c.names.1 ∧ PlainName c.names.2) :
    Refines (replay calls) calls where
  get m f k hm hf := by
    rw [replay_get hm hf hcalls, replay_observations, ← observed_eq hm hf hcalls]
  count := ProfileStore.identity_count _
  identity m f k m' f' k' hm hf hm' hf' := by
    rw [replay_identity hm hf hcalls, replay_identity hm' hf' hcalls]
    constructor
    · exact deriveStoreKey_inj hm hf hm' hf'
    · rintro ⟨rfl, rfl, hbucket⟩
      rw [hbucket]
  reads m f k := by
    have hsame := replay_same_writes calls
    exact ⟨hsame.get m f k, hsame.estimationIdentity m f k⟩

/-- A run that used `memoryGb`. -/
def usedMemory (memoryGb : ℚ) : ResourceObservation := ⟨memoryGb, 0, 100, 1⟩

/-- One observation under a key that has separators, and one under none; the store is read in between. -/
def keyedCalls : List StoreCall :=
  [.record "m" "f" (usedMemory 1) (some "a#b"), .get "m" "g" none, .record "m" "f" (usedMemory 2) none]

theorem replay_refines_keyed : Refines (replay keyedCalls) keyedCalls ∧
    lastN 100 (observed "m" "f" (bucket "m" "f" (some "a#b") keyedCalls) keyedCalls) = [usedMemory 1] ∧
    lastN 100 (observed "m" "f" (bucket "m" "f" (some "b") keyedCalls) keyedCalls) = [usedMemory 1, usedMemory 2] :=
  ⟨replay_refines (by decide +kernel), by decide +kernel, by decide +kernel⟩

end AdaptiveExecutor
