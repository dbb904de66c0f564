import AdaptiveExecutor.Profiles.Saving

/-!
# What a crash costs

Saving is debounced, so that the file is behind the store by the changes since the last snapshot.

* `Saver.recent`, `Saver.unsaved` : those changes, with the times at which it was decided not to save;
* `Behind`, `step_behind` : they are what `_pending_since_save` counts, and the newest snapshot has all the others;
* `loss_bounded` : fewer than `save_every_n`, and none later than `save_interval_seconds` after the last save.
-/

namespace AdaptiveExecutor

namespace Saver

def recent (s : Saver) (changes : List (StoreCall × ℚ)) : SaveEvent → List (StoreCall × ℚ)
  | .change c checkedAt _ => if (s.change c).shouldSave checkedAt then [] else changes ++ [(c, checkedAt)]
  | .flush _ => if s.cfg.persists then [] else changes
  | .write _ => changes

def unsaved : List SaveEvent → Saver → List (StoreCall × ℚ) → List (StoreCall × ℚ)
  | [], _, changes => changes
  | e :: es, s, changes =>
    match s.step e with
    | none => changes
    | some s' => unsaved es s' (s.recent changes e)

structure Behind (s : Saver) (changes : List (StoreCall × ℚ)) : Prop where
  pending : s.pendingSinceSave = changes.length
  few : 1 ≤ s.cfg.saveEveryN → changes.length < s.cfg.saveEveryN
  soon : ∀ r ∈ changes, r.2 - s.lastSaveTime < s.cfg.saveIntervalSeconds
  newest : ∃ saved, s.calls = saved ++ changes.map Prod.fst ∧
    (∀ a ∈ s.saves.waiting ++ s.saves.written, a.calls <+: saved) ∧
    (saved = [] ∨ ∃ a ∈ s.saves.waiting ++ s.saves.written, a.calls = saved)

variable {s s' : Saver} {changes : List (StoreCall × ℚ)} {e : SaveEvent} {start : ProfileStore} {now : ℚ}

/-- A snapshot has all changes. -/
theorem behind_takeSnapshot (hkept : s.Kept start) (flush : Bool) (now : ℚ) : (s.takeSnapshot flush now).Behind [] where
  pending := rfl
  few h := h
  soon _ h := by cases h
  newest := by
    refine ⟨s.calls, (List.append_nil _).symm, fun a ha => ?_, .inr ⟨⟨s.calls, s.store.snapshot, flush⟩, ?_, rfl⟩⟩
    · exact ((hkept.takeSnapshot flush now).known a ha).1
    · exact List.mem_append_left _ (List.mem_append_right _ List.mem_cons_self)

theorem not_shouldSave (hpersists : s.cfg.persists = true) (hpending : 0 < s.pendingSinceSave)
    (h : s.shouldSave now = false) :
    s.pendingSinceSave < s.cfg.saveEveryN ∧ now - s.lastSaveTime < s.cfg.saveIntervalSeconds := by
  have hcond : ¬ (!s.cfg.persists) = true := by simp [hpersists]
  unfold shouldSave at h
  rw [if_neg hcond, if_neg (not_le.mpr hpending)] at h
  split_ifs at h with hn
  exact ⟨not_le.mp hn, not_le.mp (of_decide_eq_false h)⟩

/-- **One event** leaves the newest snapshot with all changes but the recent ones. -/
theorem step_behind (hpersists : s.cfg.persists = true) (hkept : s.Kept start) (h : s.Behind changes)
    (hstep : s.step e = some s') : s'.cfg = s.cfg ∧ s'.Behind (s.recent changes e) := by
  cases e with
  | change c checkedAt savedAt =>
    unfold step at hstep
    dsimp only at hstep
    unfold recent
    dsimp only
    split_ifs at hstep with hkeys hsave
    · obtain rfl := Option.some.inj hstep
      rw [if_pos hsave]
      exact ⟨rfl, behind_takeSnapshot (hkept.change c) false savedAt⟩
    · obtain rfl := Option.some.inj hstep
      rw [if_neg hsave]
      have hpending : (s.change c).pendingSinceSave = (changes ++ [(c, checkedAt)]).length := by
        change s.pendingSinceSave + 1 = _
        rw [h.pending, List.length_append, List.length_singleton]
        push_cast
        rfl
      have hpositive : 0 < (s.change c).pendingSinceSave := by
        rw [hpending, List.length_append, List.length_singleton]
        omega
      obtain ⟨hfew, hsoon⟩ := not_shouldSave (s := s.change c) hpersists hpositive (eq_false_of_ne_true hsave)
      refine ⟨rfl, hpending, fun _ => hpending ▸ hfew, fun r hr => ?_, ?_⟩
      · rcases List.mem_append.mp hr with hr | hr
        · exact h.soon r hr
        · rw [List.mem_singleton.mp hr]
          exact hsoon
      · obtain ⟨saved, hcalls, hknown, hnewest⟩ := h.newest
        refine ⟨saved, ?_, hknown, hnewest⟩
        change s.calls ++ [c] = _
        rw [hcalls, List.map_append, List.append_assoc]
        rfl
  | flush savedAt =>
    unfold step at hstep
    dsimp only at hstep
    unfold recent
    dsimp only
    rw [if_pos hpersists] at hstep ⊢
    obtain rfl := Option.some.inj hstep
    exact ⟨rfl, behind_takeSnapshot hkept true savedAt⟩
  | write i =>
    obtain ⟨⟨saves, b⟩, hwrite, rfl⟩ := Option.map_eq_some_iff.mp hstep
    obtain ⟨saved, hcalls, hknown, hnewest⟩ := h.newest
    obtain ⟨hi, hmem, rfl⟩ := Writeback.write_some hwrite
    -- what waits or has been written is the same
    have hsame (a : Snapshot) : a ∈ s.saves.waiting.eraseIdx i ++ (s.saves.written ++ [b]) ↔
        a ∈ s.saves.waiting ++ s.saves.written := by
      obtain ⟨hlt, rfl⟩ := List.getElem?_eq_some_iff.mp hi
      have hperm := List.getElem_cons_eraseIdx_perm hlt
      simp only [List.mem_append, ← hperm.mem_iff (a := a), List.mem_cons, List.not_mem_nil, or_false]
      tauto
    refine ⟨rfl, h.pending, h.few, h.soon, saved, hcalls, fun a ha => hknown a ((hsame a).mp ha), ?_⟩
    refine hnewest.imp_right ?_
    rintro ⟨a, ha, heq⟩
    exact ⟨a, (hsame a).mpr ha, heq⟩

theorem play_behind : ∀ {es : List SaveEvent} {s : Saver} {changes : List (StoreCall × ℚ)}, s.cfg.persists = true →
    s.Kept start → s.Behind changes → s.play es = some s' →
      s'.cfg = s.cfg ∧ s'.Behind (unsaved es s changes)
  | [], _, _, _, _, h, hplay => by
    obtain rfl := Option.some.inj hplay
    exact ⟨rfl, h⟩
  | e :: es, s, changes, hpersists, hkept, h, hplay => by
    obtain ⟨s₁, hstep, hplay⟩ := play_cons hplay
    obtain ⟨hcfg, hbehind⟩ := step_behind hpersists hkept h hstep
    obtain ⟨hcfg', hbehind'⟩ := play_behind (by rw [hcfg, hpersists]) (hkept.step hstep) hbehind hplay
    unfold unsaved
    rw [hstep]
    exact ⟨hcfg'.trans hcfg, hbehind'⟩

theorem last_written (hempty : s.saves.waiting = []) (hforward : s.Forward) {saved : List StoreCall}
    (hknown : ∀ a ∈ s.saves.waiting ++ s.saves.written, a.calls <+: saved)
    (hnewest : ∃ a ∈ s.saves.waiting ++ s.saves.written, a.calls = saved) :
    ∃ b, s.saves.written.getLast? = some b ∧ b.calls = saved := by
  rw [hempty, List.nil_append] at hknown hnewest
  obtain ⟨a, ha, rfl⟩ := hnewest
  obtain ⟨before, b, hwritten⟩ := (List.eq_nil_or_concat' s.saves.written).resolve_left (List.ne_nil_of_mem ha)
  unfold Forward at hforward
  rw [hwritten] at ha hforward hknown ⊢
  refine ⟨b, List.getLast?_concat .., ?_⟩
  have hle : a.calls <+: b.calls := by
    rcases List.mem_append.mp ha with ha | ha
    · exact (List.pairwise_append.mp hforward).2.2 a ha b List.mem_cons_self
    · rw [List.mem_singleton.mp ha]
  have hge : b.calls <+: a.calls := hknown b (List.mem_append_right _ List.mem_cons_self)
  exact hge.eq_of_length (le_antisymm hge.length_le hle.length_le)

/-- **What a crash costs.** When no snapshot has overtaken an older one and none waits to be written, then the file has
all changes but those since the last snapshot: fewer than `save_every_n`, each of which was made less than
`save_interval_seconds` after the last save. -/
theorem loss_bounded {cfg : SaveConfig} {es : List SaveEvent} (hpersists : cfg.persists = true) (hn : 1 ≤ cfg.saveEveryN)
    (h : (init cfg start now).play es = some s) (hno : (init cfg start now).NoOvertaking es)
    (hempty : s.saves.waiting = []) :
    ∃ saved, s.calls = saved ++ (unsaved es (init cfg start now) []).map Prod.fst ∧
      (s.file = some (replayFrom start saved).snapshot ∨ s.file = none ∧ saved = []) ∧
      (unsaved es (init cfg start now) []).length < cfg.saveEveryN ∧
      ∀ r ∈ unsaved es (init cfg start now) [], r.2 - s.lastSaveTime < cfg.saveIntervalSeconds := by
  have hinit : Kept start (init cfg start now) := ⟨rfl, fun _ ha => (by cases ha), rfl⟩
  have hbehind : (init cfg start now).Behind [] :=
    ⟨rfl, id, fun _ hr => (by cases hr), [], rfl, fun _ ha => (by cases ha), .inl rfl⟩
  have hkept := hinit.play h
  have hordered := play_ordered hinit .empty hno h
  obtain ⟨hcfg, hafter⟩ := play_behind hpersists hinit hbehind h
  obtain ⟨saved, hcalls, hknown, hnewest⟩ := hafter.newest
  have hcfg : s.cfg = cfg := hcfg
  refine ⟨saved, hcalls, ?_, hcfg ▸ hafter.few (hcfg ▸ hn), fun r hr => hcfg ▸ hafter.soon r hr⟩
  by_cases hwritten : ∃ a ∈ s.saves.waiting ++ s.saves.written, a.calls = saved
  · obtain ⟨b, hlast, rfl⟩ := last_written hempty hordered.written hknown hwritten
    have hb := List.mem_append_right s.saves.waiting (List.mem_of_getLast? hlast)
    rw [hkept.file, hlast, Option.map_some, (hkept.known b hb).2]
    exact .inl rfl
  · obtain rfl := hnewest.resolve_right hwritten
    -- nothing has been saved yet, or a store without changes
    cases hlast : s.saves.written.getLast? with
    | none =>
      rw [hkept.file, hlast]
      exact .inr ⟨rfl, rfl⟩
    | some b =>
      have hb := List.mem_append_right s.saves.waiting (List.mem_of_getLast? hlast)
      exact absurd ⟨b, hb, List.prefix_nil.mp (hknown b hb)⟩ hwritten

/-- Two changes are saved together, and a third is not. -/
def threeChanges : List SaveEvent :=
  [.change firstChange 0 0, .change firstChange 1 1, .write 0, .change firstChange 2 2]

theorem loss_bounded_third : ∃ s, (init { saveEveryN := 2 } {} 0).play threeChanges = some s ∧
    ∃ saved, s.calls = saved ++ [firstChange] ∧
      (s.file = some (replayFrom {} saved).snapshot ∨ s.file = none ∧ saved = []) := by
  have hfacts : ((init { saveEveryN := 2 } {} 0).play threeChanges).any (fun s => s.saves.waiting.isEmpty) = true := by
    decide +kernel
  obtain ⟨s, hs, hempty⟩ := (Option.any_eq_true _ _).mp hfacts
  have hunsaved : unsaved threeChanges (init { saveEveryN := 2 } {} 0) [] = [(firstChange, 2)] := by decide +kernel
  obtain ⟨saved, hcalls, hfile, -⟩ := loss_bounded rfl (by decide) hs (by decide +kernel) (List.isEmpty_iff.mp hempty)
  rw [hunsaved] at hcalls
  exact ⟨s, hs, saved, hcalls, hfile⟩

end Saver

end AdaptiveExecutor
