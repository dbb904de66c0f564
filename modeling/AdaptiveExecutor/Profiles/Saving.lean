import AdaptiveExecutor.Ledger.Writeback
import AdaptiveExecutor.Profiles.Document

/-!
# Saving while others save

`record`, `record_memory_floor` and `flush` take a snapshot under the store lock and write it under the save lock, and
between the two any other thread may do the same. Every write succeeds here; those that fail are in `Profiles.Restart`.

* `Saver`, `Saver.step`, `Saver.play` : the store with its debouncing, the snapshots that wait for the save lock, and the
  file;
* `Kept` : what each snapshot holds;
* `Forward`, `FlushKept` : the file never goes backwards, nor behind a flush that has returned;
* `saving_forward` : this is so in every run in which no snapshot is written while an older one waits.
-/

namespace AdaptiveExecutor

structure SaveConfig where
  /-- `persist_path is not None` -/
  persists : Bool := true
  saveEveryN : Int := 20
  saveIntervalSeconds : ℚ := 5

/-- What a thread takes from the store lock to the save lock. -/
structure Snapshot where
  /-- The changes that had been made to the store. -/
  calls : List StoreCall
  data : Json
  /-- It is the one of a `flush`. -/
  flush : Bool

/-- A snapshot is as new as another if it includes all of its changes. -/
instance : Preorder Snapshot where
  le a b := a.calls <+: b.calls
  le_refl a := List.prefix_rfl
  le_trans _ _ _ h h' := h.trans h'

instance : DecidableLE Snapshot := fun a b => inferInstanceAs (Decidable (a.calls <+: b.calls))

structure Saver where
  cfg : SaveConfig
  store : ProfileStore := {}
  pendingSinceSave : Int := 0
  lastSaveTime : ℚ := 0
  /-- The threads with a snapshot, and the writes that have been completed. -/
  saves : Writeback.State Snapshot := {}
  file : Option Json := none
  /-- The changes so far. -/
  calls : List StoreCall := []

/-- A critical section of a thread: that of `record` or `record_memory_floor`, with the readings of the clock for
`_should_save_locked` and for `_last_save_time`; that of `flush`; or that of the save lock, for one of those who wait. -/
inductive SaveEvent
  | change (c : StoreCall) (checkedAt savedAt : ℚ)
  | flush (savedAt : ℚ)
  | write (i : Nat)

namespace Saver
variable (s : Saver)

/-- `_should_save_locked`. -/
def shouldSave (now : ℚ) : Bool :=
  if !s.cfg.persists then false
  else if s.pendingSinceSave ≤ 0 then false
  else if s.cfg.saveEveryN ≤ s.pendingSinceSave then true
  else decide (s.cfg.saveIntervalSeconds ≤ now - s.lastSaveTime)

def takeSnapshot (flush : Bool) (now : ℚ) : Saver :=
  { s with saves := s.saves.take ⟨s.calls, s.store.snapshot, flush⟩, pendingSinceSave := 0, lastSaveTime := now }

def change (c : StoreCall) : Saver :=
  { s with store := c.run s.store, calls := s.calls ++ [c], pendingSinceSave := s.pendingSinceSave + 1 }

def step : SaveEvent → Option Saver
  | .change c checkedAt savedAt =>
    if c.keys = [] then none
    else if (s.change c).shouldSave checkedAt then some ((s.change c).takeSnapshot false savedAt)
    else some (s.change c)
  | .flush savedAt => if s.cfg.persists then some (s.takeSnapshot true savedAt) else some s
  | .write i => (s.saves.write i).map fun r => { s with saves := r.1, file := some r.2.data }

def play : List SaveEvent → Saver → Option Saver
  | [], s => some s
  | e :: es, s => (s.step e).bind (play es)

/-- The event writes a snapshot while one that is not as new waits. -/
def Overtakes : SaveEvent → Prop
  | .write i => Writeback.Overtakes s.saves i
  | _ => False

instance : ∀ e, Decidable (s.Overtakes e)
  | .write i => inferInstanceAs (Decidable (Writeback.Overtakes s.saves i))
  | .change .. | .flush _ => inferInstanceAs (Decidable False)

def NoOvertaking : List SaveEvent → Saver → Prop
  | [], _ => True
  | e :: es, s => ¬ s.Overtakes e ∧ ∀ s' ∈ s.step e, NoOvertaking es s'

instance decidableNoOvertaking : ∀ (es : List SaveEvent) (s : Saver), Decidable (s.NoOvertaking es)
  | [], _ => inferInstanceAs (Decidable True)
  | e :: es, s =>
    have (s' : Saver) := decidableNoOvertaking es s'
    inferInstanceAs (Decidable (¬ s.Overtakes e ∧ ∀ s' ∈ s.step e, NoOvertaking es s'))

/-- **The file never goes backwards**: each completed write includes all that was in an earlier one. -/
def Forward : Prop := s.saves.written.Pairwise (· ≤ ·)

/-- **When a flush has returned**, the file includes all the changes before it. -/
def FlushKept : Prop :=
  ∀ a ∈ s.saves.written, a.flush = true → ∃ b, s.saves.written.getLast? = some b ∧ s.file = some b.data ∧ a ≤ b

/-! ## What the snapshots hold -/

/-- The store is what its changes make of `start`, so is the content of each snapshot, and the file has the last one that
was written. -/
structure Kept (start : ProfileStore) (s : Saver) : Prop where
  store : s.store = replayFrom start s.calls
  known : ∀ a ∈ s.saves.waiting ++ s.saves.written, a.calls <+: s.calls ∧
    a.data = (replayFrom start a.calls).snapshot
  file : s.file = s.saves.written.getLast?.map Snapshot.data

variable {s} {s' : Saver} {start : ProfileStore} {e : SaveEvent} {es : List SaveEvent}

theorem Kept.change (h : Kept start s) (c : StoreCall) : Kept start (s.change c) where
  store := by
    change c.run s.store = _
    rw [h.store]
    exact (replayFrom_append start s.calls c).symm
  known a ha := ⟨(h.known a ha).1.trans (List.prefix_append s.calls [c]), (h.known a ha).2⟩
  file := h.file

theorem Kept.takeSnapshot (h : Kept start s) (flush : Bool) (now : ℚ) : Kept start (s.takeSnapshot flush now) where
  store := h.store
  known a ha := by
    have hcases : a ∈ s.saves.waiting ++ s.saves.written ∨ a = ⟨s.calls, s.store.snapshot, flush⟩ := by
      change a ∈ s.saves.waiting ++ [_] ++ s.saves.written at ha
      simp only [List.mem_append, List.mem_singleton] at ha ⊢
      tauto
    rcases hcases with ha | rfl
    · exact h.known a ha
    · exact ⟨List.prefix_rfl, congrArg ProfileStore.snapshot h.store⟩
  file := h.file

theorem Kept.write {i : Nat} {saves : Writeback.State Snapshot} {b : Snapshot} (h : Kept start s)
    (hwrite : s.saves.write i = some (saves, b)) : Kept start { s with saves := saves, file := some b.data } := by
  obtain ⟨-, hmem, rfl⟩ := Writeback.write_some hwrite
  refine ⟨h.store, fun a ha => h.known a ?_, ?_⟩
  · have hsub := (List.eraseIdx_sublist s.saves.waiting i).subset
    simp only [List.mem_append, List.mem_singleton] at ha ⊢
    rcases ha with ha | ha | rfl
    · exact .inl (hsub ha)
    · exact .inr ha
    · exact .inl hmem
  · rw [List.getLast?_concat]
    rfl

/-- **One event**: the store changes, a snapshot is taken, or one is written. -/
theorem step_cases (h : s.step e = some s') :
    (∃ c, s' = s.change c) ∨ (∃ c now, s' = (s.change c).takeSnapshot false now) ∨
      (∃ now, e = .flush now ∧ s' = s.takeSnapshot true now) ∨ (∃ now, e = .flush now ∧ s' = s) ∨
      ∃ i saves b, e = .write i ∧ s.saves.write i = some (saves, b) ∧ s' = { s with saves := saves, file := some b.data } := by
  cases e with
  | change c checkedAt savedAt =>
    unfold step at h
    dsimp only at h
    split_ifs at h
    · exact .inr (.inl ⟨c, savedAt, (Option.some.inj h).symm⟩)
    · exact .inl ⟨c, (Option.some.inj h).symm⟩
  | flush now =>
    unfold step at h
    dsimp only at h
    split_ifs at h
    · exact .inr (.inr (.inl ⟨now, rfl, (Option.some.inj h).symm⟩))
    · exact .inr (.inr (.inr (.inl ⟨now, rfl, (Option.some.inj h).symm⟩)))
  | write i =>
    obtain ⟨⟨saves, b⟩, hwrite, rfl⟩ := Option.map_eq_some_iff.mp h
    exact .inr (.inr (.inr (.inr ⟨i, saves, b, rfl, hwrite, rfl⟩)))

theorem Kept.step (h : Kept start s) (hstep : s.step e = some s') : Kept start s' := by
  rcases step_cases hstep with ⟨c, rfl⟩ | ⟨c, now, rfl⟩ | ⟨now, -, rfl⟩ | ⟨now, -, rfl⟩ | ⟨i, saves, b, -, hwrite, rfl⟩
  · exact h.change c
  · exact (h.change c).takeSnapshot false now
  · exact h.takeSnapshot true now
  · exact h
  · exact h.write hwrite

/-! ## Runs -/

theorem play_cons (h : s.play (e :: es) = some s') : ∃ s₁, s.step e = some s₁ ∧ s₁.play es = some s' :=
  Option.bind_eq_some_iff.mp h

theorem step_ordered (hkept : Kept start s) (h : Writeback.Ordered s.saves) (hstep : s.step e = some s')
    (hno : ¬ s.Overtakes e) : Writeback.Ordered s'.saves := by
  have hold (a : Snapshot) (ha : a ∈ s.saves.written) : a.calls <+: s.calls :=
    (hkept.known a (List.mem_append_right _ ha)).1
  rcases step_cases hstep with ⟨c, rfl⟩ | ⟨c, now, rfl⟩ | ⟨now, -, rfl⟩ | ⟨now, -, rfl⟩ | ⟨i, saves, b, rfl, hwrite, rfl⟩
  · exact h
  · exact h.take fun a ha => (hold a ha).trans (List.prefix_append s.calls [c])
  · exact h.take hold
  · exact h
  · exact h.write hwrite hno

theorem play_ordered : ∀ {es : List SaveEvent} {s : Saver}, Kept start s → Writeback.Ordered s.saves →
    s.NoOvertaking es → s.play es = some s' → Writeback.Ordered s'.saves
  | [], _, _, h, _, hplay => Option.some.inj hplay ▸ h
  | _ :: _, _, hkept, h, hno, hplay => by
    obtain ⟨s₁, hstep, hplay⟩ := play_cons hplay
    exact play_ordered (hkept.step hstep) (step_ordered hkept h hstep hno.1) (hno.2 s₁ hstep) hplay

theorem Kept.play : ∀ {es : List SaveEvent} {s : Saver}, Kept start s → s.play es = some s' → Kept start s'
  | [], _, h, hplay => Option.some.inj hplay ▸ h
  | _ :: _, _, h, hplay => by
    obtain ⟨s₁, hstep, hplay⟩ := play_cons hplay
    exact (h.step hstep).play hplay

theorem play_overtaken {a b : Snapshot} : ∀ {es : List SaveEvent} {s : Saver}, Writeback.Overtaken a b s.saves →
    s.play es = some s' → Writeback.Overtaken a b s'.saves
  | [], _, h, hplay => Option.some.inj hplay ▸ h
  | _ :: _, _, h, hplay => by
    obtain ⟨s₁, hstep, hplay⟩ := play_cons hplay
    refine play_overtaken ?_ hplay
    rcases step_cases hstep with ⟨c, rfl⟩ | ⟨c, now, rfl⟩ | ⟨now, -, rfl⟩ | ⟨now, -, rfl⟩ | ⟨i, saves, b, -, hwrite, rfl⟩
    · exact h
    · exact h.take _
    · exact h.take _
    · exact h
    · exact h.write hwrite

/-- When all snapshots have been written and the file has only gone forward, then nothing has been overtaken. -/
theorem play_noOvertaking (hempty : s'.saves.waiting = []) (hforward : s'.Forward) : ∀ {es : List SaveEvent} {s : Saver},
    s.play es = some s' → s.NoOvertaking es
  | [], _, _ => trivial
  | e :: _, s, hplay => by
    obtain ⟨s₁, hstep, hplay⟩ := play_cons hplay
    refine ⟨fun hover => ?_, fun s₂ hs₂ => ?_⟩
    · cases e with
      | write i =>
        obtain ⟨⟨saves, a⟩, hwrite, rfl⟩ := Option.map_eq_some_iff.mp hstep
        obtain ⟨b, hnot, hovertaken⟩ := Writeback.Overtaken.of_write hwrite hover
        exact (play_overtaken hovertaken hplay).not_ordered hempty hnot hforward
      | change => exact hover
      | flush => exact hover
    · obtain rfl := Option.some.inj (hstep.symm.trans hs₂)
      exact play_noOvertaking hempty hforward hplay

/-- The file has the last snapshot, so all of them when they have been written in order. -/
theorem Kept.flushKept (h : Kept start s) (hforward : s.Forward) : s.FlushKept := by
  intro a ha _
  obtain ⟨before, b, hwritten⟩ := (List.eq_nil_or_concat' s.saves.written).resolve_left (List.ne_nil_of_mem ha)
  unfold Forward at hforward
  have hfile := h.file
  rw [hwritten] at ha hforward hfile ⊢
  rw [List.getLast?_concat] at hfile ⊢
  refine ⟨b, rfl, hfile, ?_⟩
  rcases List.mem_append.mp ha with ha | ha
  · exact (List.pairwise_append.mp hforward).2.2 a ha b List.mem_cons_self
  · rw [List.mem_singleton.mp ha]

/-- A store that has just been made, from what was on disk. -/
def init (cfg : SaveConfig) (start : ProfileStore) (now : ℚ) : Saver := { cfg := cfg, store := start, lastSaveTime := now }

/-- **When the profile file never goes backwards**: in the runs in which no thread gets the save lock while another waits
for it with a snapshot of fewer changes. When no one is left waiting, it is only in these. -/
theorem saving_forward {cfg : SaveConfig} {now : ℚ} (h : (init cfg start now).play es = some s) :
    Kept start s ∧ ((init cfg start now).NoOvertaking es → s.Forward ∧ s.FlushKept) ∧
      (s.saves.waiting = [] → s.Forward → (init cfg start now).NoOvertaking es) := by
  have hinit : Kept start (init cfg start now) := ⟨rfl, fun _ ha => (by cases ha), rfl⟩
  have hkept := hinit.play h
  refine ⟨hkept, fun hno => ?_, fun hempty hforward => play_noOvertaking hempty hforward h⟩
  have hordered := play_ordered hinit .empty hno h
  exact ⟨hordered.written, hkept.flushKept hordered.written⟩

def saveAlways : SaveConfig := { saveEveryN := 1 }

def firstChange : StoreCall := .record "m" "f" (usedMemory 1) none

/-- An observation, a crash floor, and a flush; two snapshots wait at a time, and the older one is written first. -/
theorem saving_forward_flush : ∃ s, (init saveAlways {} 0).play [.change firstChange 0 0,
    .change (.recordMemoryFloor "m" "f" 8 none) 0 0, .write 0, .flush 0, .write 0, .write 0] = some s ∧
      s.Forward ∧ s.FlushKept := by
  have hplays : ((init saveAlways {} 0).play [.change firstChange 0 0,
      .change (.recordMemoryFloor "m" "f" 8 none) 0 0, .write 0, .flush 0, .write 0, .write 0]).isSome = true := by
    decide +kernel
  obtain ⟨s, hs⟩ := Option.isSome_iff_exists.mp hplays
  exact ⟨s, hs, (saving_forward hs).2.1 (by decide +kernel)⟩

/-- The writer of the first snapshot comes last: the file has lost the floor, although a flush had returned with it. -/
theorem saving_backwards : ∃ s, (init saveAlways {} 0).play [.change firstChange 0 0,
      .change (.recordMemoryFloor "m" "f" 8 none) 0 0, .write 1, .flush 0, .write 1, .write 0] = some s ∧
    s.file = some (replay [firstChange]).snapshot ∧ ¬ s.Forward ∧ ¬ s.FlushKept := by
  refine ⟨_, rfl, rfl, fun h => ?_, fun h => ?_⟩
  · have hle := (List.pairwise_cons.mp h).1 _ (List.mem_cons_of_mem _ List.mem_cons_self)
    exact absurd hle.length_le (by decide)
  · obtain ⟨b, hlast, -, hle⟩ := h _ (List.mem_cons_of_mem _ List.mem_cons_self) rfl
    obtain rfl := Option.some.inj hlast
    exact absurd hle.length_le (by decide)

end Saver

end AdaptiveExecutor
