import Mathlib.Algebra.Order.AddTorsor
import Mathlib.Algebra.Order.Group.Defs
import Mathlib.Algebra.BigOperators.Group.List.Basic
import Mathlib.Algebra.Order.BigOperators.Group.List
import Mathlib.Data.Finset.Max
import Mathlib.Order.WithBot

/-!
# Loads that come due

Holders occupy a room with loads from an ordered group and give them back at release times that may
be unknown. Nothing here says what a room or a load is.

* `Due r t` : the release time `r` is known and not after `t` (`t` may be infinite);
* `released load due os t` : the total load the holders `os` have given back by `t`
  (`released_mono`, `released_append`, `released_perm`);
* `project` : a room with those loads given back (`project_mono`);
* `firstFit` : the first of a list of times at which a test passes, infinite if there is none;
  `firstFit_le_iff` : over the release times it is the exact threshold of a monotone test.
-/

namespace Backfill

variable {L R T α : Type*}

/-! ## Release times -/

section Due
variable [LinearOrder T]

/-- A release time that is known and not after `t`. An unknown one is never due. -/
def Due (r : Option T) (t : WithTop T) : Prop := ∃ d, r = some d ∧ (d : WithTop T) ≤ t

instance (r : Option T) (t : WithTop T) : Decidable (Due r t) :=
  match r with
  | none => isFalse fun ⟨_, h, _⟩ => by cases h
  | some d => decidable_of_iff ((d : WithTop T) ≤ t) ⟨fun h => ⟨d, rfl, h⟩, fun ⟨_, h, hd⟩ => by cases h; exact hd⟩

@[simp] theorem not_due_none (t : WithTop T) : ¬ Due none t := fun ⟨_, h, _⟩ => by cases h

@[simp] theorem due_some {d : T} {t : WithTop T} : Due (some d) t ↔ (d : WithTop T) ≤ t :=
  ⟨fun ⟨_, h, hd⟩ => by cases h; exact hd, fun h => ⟨d, rfl, h⟩⟩

theorem Due.mono {r : Option T} {s t : WithTop T} (h : Due r s) (hst : s ≤ t) : Due r t := by
  obtain ⟨d, rfl, hd⟩ := h
  exact due_some.mpr (hd.trans hst)

end Due

/-! ## What has been given back -/

section Released
variable [AddCommGroup L] [LinearOrder T] (load : α → L) (release : α → Option T)

/-- The total load of the holders that are due by `t`. -/
def released (os : List α) (t : WithTop T) : L := ((os.filter fun o => Due (release o) t).map load).sum

@[simp] theorem released_nil (t : WithTop T) : released load release [] t = 0 := rfl

theorem released_cons (o : α) (os : List α) (t : WithTop T) :
    released load release (o :: os) t =
      (if Due (release o) t then load o else 0) + released load release os t := by
  unfold released
  by_cases h : Due (release o) t <;> simp [h]

theorem released_append (os ps : List α) (t : WithTop T) :
    released load release (os ++ ps) t = released load release os t + released load release ps t := by
  simp [released]

theorem released_perm {os ps : List α} (h : os.Perm ps) (t : WithTop T) :
    released load release os t = released load release ps t :=
  ((h.filter _).map load).sum_eq

/-- Two descriptions of the same holders that agree on what is due have given back the same. -/
theorem released_congr {β : Type*} {load' : β → L} {release' : β → Option T} {t t' : WithTop T}
    {os : List α} {ps : List β}
    (h : List.Forall₂ (fun o p => load o = load' p ∧ (Due (release o) t ↔ Due (release' p) t')) os ps) :
    released load release os t = released load' release' ps t' := by
  induction h with
  | nil => rfl
  | cons h _ ih => simp only [released_cons, h.1, h.2, ih]

variable [PartialOrder L] [IsOrderedAddMonoid L]

theorem released_nonneg {os : List α} (h : ∀ o ∈ os, 0 ≤ load o) (t : WithTop T) :
    0 ≤ released load release os t :=
  List.sum_nonneg fun x hx => by
    obtain ⟨o, ho, rfl⟩ := List.mem_map.mp hx
    exact h o (List.mem_of_mem_filter ho)

theorem released_mono {os : List α} (h : ∀ o ∈ os, 0 ≤ load o) {s t : WithTop T} (hst : s ≤ t) :
    released load release os s ≤ released load release os t := by
  induction os with
  | nil => exact le_rfl
  | cons o os ih =>
    rw [released_cons, released_cons]
    refine add_le_add ?_ (ih fun p hp => h p (List.mem_cons_of_mem o hp))
    by_cases hs : Due (release o) s
    · rw [if_pos hs, if_pos (hs.mono hst)]
    · rw [if_neg hs]
      split_ifs
      exacts [h o List.mem_cons_self, le_rfl]

theorem released_le_of_later {os ps : List α} {t : WithTop T} (hos : ∀ o ∈ os, 0 ≤ load o)
    (h : List.Forall₂ (fun o p => load o = load p ∧ (Due (release p) t → Due (release o) t)) os ps) :
    released load release ps t ≤ released load release os t := by
  induction h with
  | nil => exact le_rfl
  | @cons o p os ps hop _ ih =>
    obtain ⟨hload, hdue⟩ := hop
    obtain ⟨ho, hos⟩ := List.forall_mem_cons.mp hos
    rw [released_cons, released_cons]
    refine add_le_add ?_ (ih hos)
    by_cases hp : Due (release p) t
    · rw [if_pos hp, if_pos (hdue hp), hload]
    · rw [if_neg hp]
      split_ifs
      exacts [ho, le_rfl]

theorem released_le_sum {os : List α} (h : ∀ o ∈ os, 0 ≤ load o) (t : WithTop T) :
    released load release os t ≤ (os.map load).sum := by
  induction os with
  | nil => exact le_rfl
  | cons o os ih =>
    rw [released_cons, List.map_cons, List.sum_cons]
    refine add_le_add ?_ (ih fun p hp => h p (List.mem_cons_of_mem o hp))
    split_ifs
    exacts [le_rfl, h o List.mem_cons_self]

end Released

/-! ## Rooms with loads given back -/

section Project
variable [AddCommGroup L] [LinearOrder T] [AddAction L R] (load : α → L) (release : α → Option T)

/-- The room `r` with the loads due by `t` given back. -/
def project (os : List α) (r : R) (t : WithTop T) : R := released load release os t +ᵥ r

theorem vadd_project (l : L) (os : List α) (r : R) (t : WithTop T) :
    l +ᵥ project load release os r t = project load release os (l +ᵥ r) t := by
  rw [project, project, vadd_vadd, vadd_vadd, add_comm]

variable [PartialOrder L] [IsOrderedAddMonoid L] [Preorder R] [IsOrderedVAdd L R]

theorem project_mono {os : List α} (h : ∀ o ∈ os, 0 ≤ load o) (r : R) {s t : WithTop T} (hst : s ≤ t) :
    project load release os r s ≤ project load release os r t :=
  IsOrderedVAdd.vadd_le_vadd_right _ _ (released_mono load release h hst) r

end Project

/-! ## The first time at which a test passes -/

section FirstFit

/-- The first time in the list at which `ok` passes, `⊤` when there is none. -/
def firstFit (ok : WithTop T → Bool) : List T → WithTop T
  | [] => ⊤
  | d :: ds => if ok d then d else firstFit ok ds

theorem firstFit_ok {ok : WithTop T → Bool} {ds : List T} (h : firstFit ok ds ≠ ⊤) :
    ok (firstFit ok ds) = true := by
  induction ds with
  | nil => exact absurd rfl h
  | cons d ds ih =>
    unfold firstFit at h ⊢
    split_ifs at h ⊢ with hd
    exacts [hd, ih h]

variable [LinearOrder T]

theorem firstFit_le {ok : WithTop T → Bool} {ds : List T} (hs : ds.Pairwise (· ≤ ·)) {d : T}
    (hd : d ∈ ds) (hok : ok d = true) : firstFit ok ds ≤ d := by
  induction ds with
  | nil => cases hd
  | cons e ds ih =>
    rw [List.pairwise_cons] at hs
    unfold firstFit
    split_ifs with he
    · rcases List.mem_cons.mp hd with rfl | hd
      exacts [le_rfl, WithTop.coe_le_coe.mpr (hs.1 d hd)]
    · rcases List.mem_cons.mp hd with rfl | hd
      exacts [absurd hok he, ih hs.2 hd]

/-- **The threshold.** When `ds` is sorted and a monotone test that passes at `t` already passes at some
listed time not after `t`, the test passes exactly from `firstFit` on; an infinite one means never. -/
theorem firstFit_le_iff {ok : WithTop T → Bool} {ds : List T} (hs : ds.Pairwise (· ≤ ·))
    (hmono : ∀ s t, s ≤ t → ok s = true → ok t = true)
    (hback : ∀ t, ok t = true → ∃ d ∈ ds, (d : WithTop T) ≤ t ∧ ok d = true) (t : WithTop T) :
    ok t = true ↔ firstFit ok ds ≠ ⊤ ∧ firstFit ok ds ≤ t := by
  constructor
  · intro h
    obtain ⟨d, hd, hdt, hok⟩ := hback t h
    have hle := firstFit_le hs hd hok
    exact ⟨fun htop => by simp [htop] at hle, hle.trans hdt⟩
  · rintro ⟨hfin, hle⟩
    exact hmono _ t hle (firstFit_ok hfin)

end FirstFit

/-- At a time before every release nothing has been given back; at a later one the last release not
after it has given back as much. -/
theorem released_eq_at_release [AddCommGroup L] [LinearOrder T] (load : α → L) (release : α → Option T)
    (os : List α) (t : WithTop T) :
    released load release os t = 0 ∨
      ∃ d, some d ∈ os.map release ∧ (d : WithTop T) ≤ t ∧
        released load release os d = released load release os t := by
  classical
  set ds : List T := (os.filter fun o => Due (release o) t).filterMap release with hds
  have hmem : ∀ d, d ∈ ds ↔ some d ∈ os.map release ∧ (d : WithTop T) ≤ t := by
    intro d
    simp only [hds, List.mem_filterMap, List.mem_filter, List.mem_map, decide_eq_true_eq]
    constructor
    · rintro ⟨o, ⟨ho, hdue⟩, hr⟩
      exact ⟨⟨o, ho, hr⟩, by simpa [hr] using hdue⟩
    · rintro ⟨⟨o, ho, hr⟩, hle⟩
      exact ⟨o, ⟨ho, by simpa [hr] using hle⟩, hr⟩
  by_cases hne : ds = []
  · left
    have : (os.filter fun o => Due (release o) t) = [] := by
      rw [List.filter_eq_nil_iff]
      intro o ho hdue
      obtain ⟨d, hd, hle⟩ := of_decide_eq_true hdue
      have : d ∈ ds := (hmem d).mpr ⟨List.mem_map.mpr ⟨o, ho, hd⟩, hle⟩
      simp [hne] at this
    rw [released, this]
    rfl
  · right
    -- the last release among those due by `t` separates the same holders as `t` itself
    obtain ⟨d, hd, hmax⟩ := ds.toFinset.exists_max_image id (by simpa [Finset.nonempty_iff_ne_empty] using hne)
    simp only [List.mem_toFinset, id_eq] at hd hmax
    obtain ⟨hrel, hle⟩ := (hmem d).mp hd
    refine ⟨d, hrel, hle, ?_⟩
    unfold released
    congr 2
    apply List.filter_congr
    intro o ho
    rw [decide_eq_decide]
    refine ⟨fun h => h.mono hle, fun h => ?_⟩
    obtain ⟨e, he, het⟩ := h
    have : e ∈ ds := (hmem e).mpr ⟨List.mem_map.mpr ⟨o, ho, he⟩, het⟩
    exact ⟨e, he, WithTop.coe_le_coe.mpr (hmax e this)⟩

end Backfill
