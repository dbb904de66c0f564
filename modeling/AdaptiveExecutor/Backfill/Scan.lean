import AdaptiveExecutor.Backfill.Release

/-!
# Admissions that keep a promise

Something waits for a test `fits` on the room to pass. `Scan` is a run of admissions behind it, each
either *short* (the guarded time `s` is finite and it is due by then) or *held* (the test passes at `s`
with its load taken for good).

* `Scan.fits_project` : if the test passes at `s` before the scan, then from `s` on it passes after it,
  with the admitted loads among the holders;
* `Scan.eq_nil` : behind a test that never passes nothing is admitted;
* `fits_project_leave` : holders that leave, at any time, do not break a promise.
-/

namespace Backfill

variable {L R T α : Type*} [AddCommGroup L] [PartialOrder L] [IsOrderedAddMonoid L] [AddAction L R]
  [Preorder R] [IsOrderedVAdd L R] [LinearOrder T]
variable (fits : R → Prop) (load : α → L) (release : α → Option T)

/-- Admissions `as` from room `r` to room `r'` that guard the test at time `s` against holders `os`. -/
inductive Scan (os : List α) (s : WithTop T) : R → List α → R → Prop
  | nil (r : R) : Scan os s r [] r
  | short {r r' : R} {a : α} {as : List α} (hs : s ≠ ⊤) (hdue : Due (release a) s)
      (h : Scan os s (-load a +ᵥ r) as r') : Scan os s r (a :: as) r'
  | held {r r' : R} {a : α} {as : List α} (hfits : fits (-load a +ᵥ project load release os r s))
      (h : Scan os s (-load a +ᵥ r) as r') : Scan os s r (a :: as) r'

variable {fits load release} {os as : List α} {s : WithTop T} {r r' : R}

/-- A scan keeps the test at its own time, with what it has admitted so far (`ps`) among the holders. -/
theorem Scan.fits_at (hfits : Monotone fits) (h : Scan fits load release os s r as r') :
    ∀ ps : List α, (∀ a ∈ ps ++ as, 0 ≤ load a) → fits (project load release (os ++ ps) r s) →
      fits (project load release (os ++ (ps ++ as)) r' s) := by
  induction h with
  | nil r => intro ps _ h0; simpa using h0
  | @short r r' a as _ hdue _ ih =>
    intro ps hpos h0
    rw [List.append_cons] at hpos ⊢
    refine ih (ps ++ [a]) hpos ?_
    -- `a` is charged now and back by `s`, so at `s` the room is what it was
    have he : project load release (os ++ (ps ++ [a])) (-load a +ᵥ r) s =
        project load release (os ++ ps) r s := by
      rw [project, project, ← List.append_assoc, released_append _ _ (os ++ ps), released_cons, if_pos hdue,
        released_nil, add_zero, vadd_vadd, add_neg_cancel_right]
    rwa [he]
  | @held r r' a as hok _ ih =>
    intro ps hpos _
    rw [List.append_cons] at hpos ⊢
    refine ih (ps ++ [a]) hpos (hfits ?_ hok)
    rw [vadd_project, project, project, released_append]
    refine IsOrderedVAdd.vadd_le_vadd_right _ _ (le_add_of_nonneg_right ?_) _
    exact released_nonneg _ _ (fun p hp => hpos p (List.mem_append_left as hp)) s

/-- **A scan never breaks the promise it guards.** -/
theorem Scan.fits_project (hfits : Monotone fits) (h : Scan fits load release os s r as r')
    (hos : ∀ o ∈ os, 0 ≤ load o) (has : ∀ a ∈ as, 0 ≤ load a)
    (h0 : fits (project load release os r s)) {t : WithTop T} (hst : s ≤ t) :
    fits (project load release (os ++ as) r' t) := by
  have hs : fits (project load release (os ++ as) r' s) := by
    simpa using h.fits_at hfits [] (by simpa using has) (by simpa using h0)
  refine hfits (project_mono _ _ (fun a ha => ?_) r' hst) hs
  exact (List.mem_append.mp ha).elim (hos a) (has a)

theorem Scan.eq_nil (hfits : Monotone fits) (h : Scan fits load release os ⊤ r as r')
    (has : ∀ a ∈ as, 0 ≤ load a) (hno : ¬ fits (project load release os r ⊤)) : as = [] := by
  cases h with
  | nil => rfl
  | short hs _ _ => exact absurd rfl hs
  | @held _ _ a as hok _ =>
    refine absurd (hfits ?_ hok) hno
    have hneg : -load a ≤ 0 := neg_nonpos.mpr (has a List.mem_cons_self)
    simpa using IsOrderedVAdd.vadd_le_vadd_right _ _ hneg (project load release os r ⊤)

/-- Holders that leave give back their whole load, so a promise made with them holds without them. -/
theorem fits_project_leave (hfits : Monotone fits) {os stay gone : List α} (hperm : os.Perm (stay ++ gone))
    (hgone : ∀ o ∈ gone, 0 ≤ load o) {t : WithTop T} (h : fits (project load release os r t)) :
    fits (project load release stay ((gone.map load).sum +ᵥ r) t) := by
  refine hfits ?_ h
  rw [project, project, vadd_vadd, released_perm _ _ hperm, released_append]
  exact IsOrderedVAdd.vadd_le_vadd_right _ _ (add_le_add_right (released_le_sum _ _ hgone t) _) r

end Backfill
