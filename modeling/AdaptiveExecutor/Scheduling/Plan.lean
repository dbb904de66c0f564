import AdaptiveExecutor.Backfill.Scan
import AdaptiveExecutor.Scheduling.Room

/-!
# What one cycle admits

Front admission and the scan test a task in separate code; both are sequences of granted admissions.

* `Planner.Grants`, `Planner.Admissions` : one admission and what it was tested against; a sequence of them;
* `frontLoop_spec`, `offer_some`, `backfill_spec` : one spec lemma for each loop;
* `run_spec` : a cycle is front admission, and behind a blocked head that is not exclusive a
  `Backfill.Scan` that guards it.
-/

namespace AdaptiveExecutor
open Backfill

namespace Planner

/-! ## Granted admissions -/

/-- What has been tested when `_admit` is called, on either path. -/
structure Grants (p : Planner) (a : Admission) : Prop where
  canary : p.canaryBlocked a.task = false
  admits : p.cap.Admits a.task p.pools.toRoom
  gpu : 0 < a.task.vramGb → ∃ g ∈ p.cap.gpuRoundRobin, a.gpuId = some g ∧ HasRoom p.pools.gpuFree a.task.vramGb g
  noGpu : ¬ 0 < a.task.vramGb → a.gpuId = none

/-- The planner after the admission `a`, with the index that went with it. -/
def admitOne (p : Planner) (a : Admission) (rr : Int) : Planner :=
  p.admitTask a.task a.gpuId rr a.releasesBeforeReservation

/-- Granted admissions, one after another. The queue is the callers' business. -/
inductive Admissions : Planner → List Admission → Planner → Prop
  | nil (p : Planner) (q : List PendingEntry) : Admissions p [] { p with queue := q }
  | cons {p p' : Planner} {a : Admission} {as : List Admission} (rr : Int) (ha : p.Grants a)
      (h : Admissions (p.admitOne a rr) as p') : Admissions p (a :: as) p'

variable {p p' p'' : Planner} {a : Admission} {as bs : List Admission}

theorem admitOne_room (p : Planner) (a : Admission) (rr : Int) :
    (p.admitOne a rr).pools.toRoom = -a.load +ᵥ p.pools.toRoom := Room.take_eq _ _ _ _

theorem Admissions.refl (p : Planner) : Admissions p [] p := .nil p p.queue

theorem Admissions.of_queue {q : List PendingEntry} (h : Admissions { p with queue := q } as p') :
    Admissions p as p' := by
  generalize hp : ({ p with queue := q } : Planner) = p₀ at h
  induction h generalizing p q with
  | nil p₀ q' => subst hp; exact .nil p q'
  | @cons p₀ p' a as rr ha h ih =>
    subst hp
    exact .cons rr ⟨ha.canary, ha.admits, ha.gpu, ha.noGpu⟩ (ih (q := q) rfl)

theorem Admissions.trans (h : Admissions p as p') (h' : Admissions p' bs p'') : Admissions p (as ++ bs) p'' := by
  induction h with
  | nil p q => exact h'.of_queue
  | cons rr ha _ ih => exact .cons rr ha (ih h')

theorem Admissions.cap_eq (h : Admissions p as p') : p'.cap = p.cap := by
  induction h with
  | nil => rfl
  | cons _ _ _ ih => exact ih

theorem Admissions.admitted_eq (h : Admissions p as p') : p'.admitted = p.admitted ++ as := by
  induction h with
  | nil => simp
  | @cons p p' a as rr _ _ ih =>
    rw [ih]
    change (p.admitted ++ [a]) ++ as = _
    rw [List.append_assoc]; rfl

theorem Admissions.room (h : Admissions p as p') :
    p'.pools.toRoom = -(as.map Admission.load).sum +ᵥ p.pools.toRoom := by
  induction h with
  | nil => simp
  | cons rr _ _ ih => rw [ih, admitOne_room, List.map_cons, List.sum_cons, neg_add_rev, vadd_vadd]

theorem Admissions.held (h : Admissions p as p') (k : String) :
    k ∈ p'.heldIdentities ↔ k ∈ p.heldIdentities ∨ ∃ a ∈ as, a.task.profileIdentity = some k := by
  induction h with
  | nil => simp
  | @cons p p' a as rr _ _ ih =>
    rw [ih, List.exists_mem_cons_iff]
    change k ∈ a.task.profileIdentity.toList ++ p.heldIdentities ∨ _ ↔ _
    rw [List.mem_append, Option.mem_toList]
    tauto

theorem Admissions.occupants (h : Admissions p as p') :
    p'.occupants =
      p.occupants ++ (as.filter (·.releasesBeforeReservation.isNone)).map Admission.occupant := by
  induction h with
  | nil => simp
  | @cons p p' a as rr _ _ ih =>
    rw [ih]
    rcases a with ⟨task, gpuId, _ | b⟩
    · exact List.append_assoc _ _ _
    · rfl

/-! ## Front admission -/

/-- How front admission ends, in a planner `p'` with `p'.queue` left. -/
structure FrontEnd (p' : Planner) (as : List Admission) (blocked : Bool) : Prop where
  front : ∀ a ∈ as, a.releasesBeforeReservation = none
  /-- An exclusive admission is the last. -/
  last : ∀ xs a ys, as = xs ++ a :: ys → a.task.exclusive = true → ys = []
  /-- It stops at a head that the canary or the resources block, having admitted nothing exclusive. -/
  stop : blocked = true → (∀ a ∈ as, a.task.exclusive = false) ∧ ∃ head rest, p'.queue = head :: rest ∧
    (p'.canaryBlocked head = true ∨ ¬ p'.cap.Admits head p'.pools.toRoom)

theorem FrontEnd.nil {p' : Planner} {blocked : Bool} (h : blocked = true → ∃ head rest, p'.queue = head :: rest ∧
    (p'.canaryBlocked head = true ∨ ¬ p'.cap.Admits head p'.pools.toRoom)) : FrontEnd p' [] blocked :=
  ⟨fun _ h => (by cases h), fun xs _ _ h => absurd h.symm (List.append_ne_nil_of_right_ne_nil xs (List.cons_ne_nil _ _)),
    fun hb => ⟨fun _ h => (by cases h), h hb⟩⟩

theorem frontLoop_spec : ∀ (q : List PendingEntry) (p : Planner), ∃ as,
    Admissions p as (p.frontLoop q).1 ∧ q = as.map Admission.task ++ (p.frontLoop q).1.queue ∧
      FrontEnd (p.frontLoop q).1 as (p.frontLoop q).2
  | [], p => ⟨[], .nil p [], rfl, .nil (fun h => by cases h)⟩
  | head :: rest, p => by
    unfold frontLoop
    by_cases hc : p.canaryBlocked head = true
    · rw [if_pos hc]
      exact ⟨[], .nil p _, rfl, .nil fun _ => ⟨head, rest, rfl, .inl hc⟩⟩
    rw [if_neg hc]
    cases hfit : p.cap.fits head p.pools.toRoom p.pools.rr with
    | none =>
      have hno : ¬ p.cap.Admits head p.pools.toRoom := by
        rw [← Capacity.fits_isSome_iff p.pools.rr, hfit]; simp
      exact ⟨[], .nil p _, rfl, .nil fun _ => ⟨head, rest, rfl, .inr hno⟩⟩
    | some o =>
      obtain ⟨gpuId, rr⟩ := o
      obtain ⟨hadm, hgpu, hno⟩ := Capacity.fits_some hfit
      have hgrant : p.Grants ⟨head, gpuId, none⟩ := ⟨by simpa using hc, hadm, hgpu, hno⟩
      dsimp only
      by_cases hex : head.exclusive = true
      · rw [if_pos hex]
        refine ⟨[⟨head, gpuId, none⟩], .cons rr hgrant (.nil _ rest), rfl, fun a ha => ?_, fun xs a ys h _ => ?_,
          fun h => by cases h⟩
        · rw [List.mem_singleton.mp ha]
        · cases xs with
          | nil => exact (List.cons.inj h).2.symm
          | cons x xs => exact absurd (List.cons.inj h).2.symm (List.append_ne_nil_of_right_ne_nil xs (List.cons_ne_nil _ _))
      · rw [if_neg hex]
        obtain ⟨as, h, hq, hend⟩ := frontLoop_spec rest (p.admitTask head gpuId rr none)
        refine ⟨⟨head, gpuId, none⟩ :: as, .cons rr hgrant h, ?_, ?_, fun xs a ys hx ha => ?_, fun hb => ?_⟩
        · rw [List.map_cons, List.cons_append, ← hq]
        · exact List.forall_mem_cons.mpr ⟨rfl, hend.front⟩
        · cases xs with
          | nil => rw [← (List.cons.inj hx).1] at ha; exact absurd ha hex
          | cons x xs => exact hend.last xs a ys (List.cons.inj hx).2 ha
        · obtain ⟨hne, hstop⟩ := hend.stop hb
          exact ⟨List.forall_mem_cons.mpr ⟨by simpa using hex, hne⟩, hstop⟩

theorem front_admissions (p : Planner) : ∃ as, Admissions p as p.front.1 ∧
    p.queue = as.map Admission.task ++ p.front.1.queue ∧ FrontEnd p.front.1 as p.front.2 := by
  unfold front
  split_ifs
  · exact ⟨[], .refl p, rfl, .nil (fun h => by cases h)⟩
  · exact frontLoop_spec p.queue p

/-- Nothing is dispatched beside a running exclusive task. -/
theorem front_of_exclusive (p : Planner) (h : p.front.2 = true) : ∀ o ∈ p.occupants, o.exclusive = false := by
  unfold front at h
  split_ifs at h with hex
  intro o ho
  by_contra hne
  exact hex (List.any_eq_true.mpr ⟨o, ho, by simpa using hne⟩)

section First
variable {head : PendingEntry} {rest : List PendingEntry} (hocc : ∀ o ∈ p.occupants, o.exclusive = false)
  (hq : p.queue = head :: rest)
include hocc

theorem front_eq_frontLoop : p.front = p.frontLoop p.queue := by
  rw [front, if_neg]
  rw [List.any_eq_true]
  rintro ⟨o, ho, hex⟩
  rw [hocc o ho] at hex
  cases hex

include hq

/-- When the first task does not fit or the canary blocks it, front admission leaves everything as it is. -/
theorem front_of_blocked (h : p.canaryBlocked head = true ∨ ¬ p.cap.Admits head p.pools.toRoom) :
    p.front = (p, true) := by
  rw [front_eq_frontLoop hocc, hq]
  unfold frontLoop
  have hp : ({ p with queue := head :: rest } : Planner) = p := by rw [← hq]
  by_cases hc : p.canaryBlocked head = true
  · rw [if_pos hc, hp]
  · rw [if_neg hc]
    have hnone : p.cap.fits head p.pools.toRoom p.pools.rr = none := by
      rw [← Option.not_isSome_iff_eq_none, Capacity.fits_isSome_iff]
      exact h.resolve_left hc
    rw [hnone, hp]

/-- When the first task fits and the canary does not block it, it is admitted. -/
theorem front_of_admits (hc : p.canaryBlocked head = false) (h : p.cap.Admits head p.pools.toRoom) :
    ∃ a ∈ p.front.1.admitted, a.task = head := by
  rw [front_eq_frontLoop hocc, hq]
  unfold frontLoop
  obtain ⟨⟨gpuId, rr⟩, hfits⟩ := Option.isSome_iff_exists.mp ((Capacity.fits_isSome_iff p.pools.rr).mpr h)
  rw [hc, if_neg Bool.false_ne_true, hfits]
  have hmem : (⟨head, gpuId, none⟩ : Admission) ∈ (p.admitTask head gpuId rr none).admitted :=
    List.mem_append_right p.admitted (List.mem_singleton.mpr rfl)
  dsimp only
  split_ifs
  · exact ⟨_, hmem, rfl⟩
  · obtain ⟨as, has, -⟩ := frontLoop_spec rest (p.admitTask head gpuId rr none)
    rw [has.admitted_eq]
    exact ⟨_, List.mem_append_left as hmem, rfl⟩

end First

/-! ## The scan -/

theorem offer_some {head candidate : PendingEntry} {reservation : WithTop ℚ} {gpuId : Option GpuId} {rr : Int}
    {releases : Bool} (h : p.offer head reservation candidate = some (gpuId, rr, releases)) :
    p.Grants ⟨candidate, gpuId, some releases⟩ ∧
      (releases = true → reservation ≠ ⊤ ∧ Due candidate.durationP90Seconds reservation) ∧
      (releases = false → p.headStillFitsWithHold head candidate gpuId reservation = true) := by
  unfold offer at h
  split_ifs at h with hc hn
  rw [Bool.not_eq_true, Bool.not_eq_false', fitsNongpu_iff] at hn
  unfold placeBackfill at h
  obtain ⟨o, ho, hrule⟩ := List.exists_of_findSome?_eq_some h
  -- which rule answered
  have hans : o.1 = gpuId ∧ (releases = true → reservation ≠ ⊤ ∧ Due candidate.durationP90Seconds reservation) ∧
      (releases = false → p.headStillFitsWithHold head candidate gpuId reservation = true) := by
    split_ifs at hrule with hb ha
    · simp only [Option.some.injEq, Prod.mk.injEq] at hrule
      obtain ⟨rfl, -, rfl⟩ := hrule
      exact ⟨rfl, fun _ => by simpa using hb, fun h => by cases h⟩
    · simp only [Option.some.injEq, Prod.mk.injEq] at hrule
      obtain ⟨rfl, -, rfl⟩ := hrule
      exact ⟨rfl, fun h => (by cases h), fun _ => ha⟩
  obtain ⟨rfl, hb, ha⟩ := hans
  refine ⟨⟨by simpa using hc, ?_, ?_, ?_⟩, hb, ha⟩
  · refine ⟨hn.1, hn.2.1, hn.2.2.1, hn.2.2.2, fun hv => ?_⟩
    rw [if_neg (not_le.mpr hv), List.mem_map] at ho
    obtain ⟨x, hx, rfl⟩ := ho
    exact ⟨x.1, (mem_gpuOptions hx).1, (mem_gpuOptions hx).2⟩
  · intro hv
    rw [if_neg (not_le.mpr hv), List.mem_map] at ho
    obtain ⟨x, hx, rfl⟩ := ho
    exact ⟨x.1, (mem_gpuOptions hx).1, rfl, (mem_gpuOptions hx).2⟩
  · intro hv
    rw [if_pos (not_lt.mp hv), List.mem_singleton] at ho
    rw [ho]

/-- The scan: granted admissions over a sublist of the candidates, each of which the scan's guard covers. -/
theorem backfill_spec (head : PendingEntry) (reservation : WithTop ℚ) :
    ∀ (cs : List PendingEntry) (p : Planner), ∃ as, Admissions p as (p.backfill head reservation cs) ∧
      (as.map Admission.task).Sublist cs ∧ (∀ a ∈ as, a.releasesBeforeReservation.isSome) ∧
      (p.backfill head reservation cs).queue = p.queue ∧
      Scan (p.cap.Admits head) RunningEntry.load RunningEntry.remainingSeconds p.occupants reservation
        p.pools.toRoom (as.map Admission.occupant) (p.backfill head reservation cs).pools.toRoom
  | [], p => ⟨[], .refl p, .slnil, fun _ h => by (cases h), rfl, .nil _⟩
  | candidate :: rest, p => by
    unfold backfill
    split
    · obtain ⟨as, h, hsub, hsome, hq, hscan⟩ := backfill_spec head reservation rest p
      exact ⟨as, h, hsub.cons candidate, hsome, hq, hscan⟩
    · rename_i gpuId rr releases hoffer
      obtain ⟨hgrant, hb, ha⟩ := offer_some hoffer
      obtain ⟨as, h, hsub, hsome, hq, hscan⟩ :=
        backfill_spec head reservation rest (p.admitTask candidate gpuId rr (some releases))
      refine ⟨⟨candidate, gpuId, some releases⟩ :: as, .cons rr hgrant h, hsub.cons_cons candidate,
        List.forall_mem_cons.mpr ⟨rfl, hsome⟩, hq, ?_⟩
      rw [show (p.admitTask candidate gpuId rr (some releases)).pools.toRoom = _ from
        admitOne_room p ⟨candidate, gpuId, some releases⟩ rr] at hscan
      cases releases with
      | true => exact .short (hb rfl).1 (hb rfl).2 hscan
      | false =>
        refine .held ?_ hscan
        have hold := ha rfl
        rw [headStillFitsWithHold, Capacity.fits_isSome_iff, Room.take_eq, stateAt_eq] at hold
        exact hold

/-! ## The whole cycle -/

def backfilled (p : Planner) : List Admission := p.admitted.filter (·.releasesBeforeReservation.isSome)

/-- What a cycle does: the front admissions `as`, then the admissions `bs` of the scan. -/
structure RunSpec (p : Planner) (as bs : List Admission) : Prop where
  front : Admissions p as p.front.1
  back : Admissions p.front.1 bs p.run
  queue : p.queue = as.map Admission.task ++ p.front.1.queue
  frontEnd : FrontEnd p.front.1 as p.front.2
  backs : ∀ b ∈ bs, b.releasesBeforeReservation.isSome
  left : p.run.queue = p.front.1.queue
  /-- Anything the scan admits, it admits behind a blocked head that is not exclusive. -/
  scan : bs = [] ∨ ∃ head rest, p.front.2 = true ∧ p.front.1.queue = head :: rest ∧ head.exclusive = false ∧
    (bs.map Admission.task).Sublist rest ∧
    Scan (p.front.1.cap.Admits head) RunningEntry.load RunningEntry.remainingSeconds p.front.1.occupants
      (p.front.1.reservation head) p.front.1.pools.toRoom (bs.map Admission.occupant) p.run.pools.toRoom

theorem run_spec (p : Planner) : ∃ as bs, RunSpec p as bs := by
  obtain ⟨as, hf, hq, hend⟩ := p.front_admissions
  have early (h : p.run = p.front.1) : RunSpec p as [] :=
    ⟨hf, h ▸ .refl _, hq, hend, fun _ h => (by cases h), by rw [h], .inl rfl⟩
  cases hb : p.front.2 with
  | false => exact ⟨as, [], early (by rw [run, hb]; rfl)⟩
  | true =>
    have hrun : p.run = p.front.1.backfillRest := by rw [run, hb]; rfl
    obtain ⟨-, head, rest, hrest, -⟩ := hend.stop hb
    unfold backfillRest at hrun
    rw [hrest] at hrun
    dsimp only at hrun
    by_cases hex : head.exclusive = true
    · exact ⟨as, [], early (by rw [hrun, if_pos hex])⟩
    · rw [if_neg hex] at hrun
      obtain ⟨bs, hbk, hs, hsome, hq', hscan⟩ := backfill_spec head (p.front.1.reservation head) rest p.front.1
      rw [← hrun] at hbk hq' hscan
      exact ⟨as, bs, hf, hbk, hq, hend, hsome, hq', .inr ⟨head, rest, hb, hrest, by simpa using hex, hs, hscan⟩⟩

variable {as bs : List Admission}

theorem RunSpec.all (h : RunSpec p as bs) : Admissions p (as ++ bs) p.run := h.front.trans h.back

theorem RunSpec.sublist (h : RunSpec p as bs) : ((as ++ bs).map Admission.task).Sublist p.queue := by
  rw [List.map_append, h.queue]
  refine List.Sublist.append (.refl _) ?_
  rcases h.scan with rfl | ⟨head, rest, -, hq, -, hs, -⟩
  · exact List.nil_sublist _
  · rw [hq]; exact hs.cons head

theorem RunSpec.back_sublist (h : RunSpec p as bs) {head : PendingEntry} {rest : List PendingEntry}
    (hq : p.front.1.queue = head :: rest) : (bs.map Admission.task).Sublist rest := by
  rcases h.scan with rfl | ⟨head', rest', -, hq', -, hs, -⟩
  · exact List.nil_sublist rest
  · obtain ⟨-, rfl⟩ := List.cons.inj (hq.symm.trans hq')
    exact hs

theorem RunSpec.backfilled (h : RunSpec p as bs) (hp : p.admitted = []) : p.run.backfilled = bs := by
  rw [Planner.backfilled, h.all.admitted_eq, hp, List.nil_append, List.filter_append,
    List.filter_eq_nil_iff.mpr fun a ha => by simp [h.frontEnd.front a ha], List.nil_append,
    List.filter_eq_self.mpr fun b hb => h.backs b hb]

theorem RunSpec.occupants (h : RunSpec p as bs) :
    p.front.1.occupants = p.occupants ++ as.map Admission.occupant := by
  rw [h.front.occupants, List.filter_eq_self.mpr fun a ha => by simp [h.frontEnd.front a ha]]

theorem RunSpec.run_occupants (h : RunSpec p as bs) : p.run.occupants = p.front.1.occupants := by
  rw [h.back.occupants, List.filter_eq_nil_iff.mpr fun b hb => by simp [Option.isSome_iff_ne_none.mp (h.backs b hb)],
    List.map_nil, List.append_nil]

end Planner

/-! ## Plans -/

theorem cycle_admitted {pending : List PendingEntry} {running : List RunningEntry} {cap : Capacity}
    {as bs : List Admission} (h : Planner.RunSpec (Planner.init pending running cap) as bs) :
    (cycle pending running cap).admitted = as ++ bs := h.all.admitted_eq

/-- The tasks decided, in order, are a sublist of the queue. -/
theorem planDispatch_sublist (pending : List PendingEntry) (running : List RunningEntry) (cap : Capacity) :
    ((planDispatch pending running cap).decisions.map DispatchDecision.pendingId).Sublist
      (pending.map PendingEntry.id) := by
  obtain ⟨as, bs, h⟩ := Planner.run_spec (Planner.init pending running cap)
  change ((cycle pending running cap).admitted.map Admission.decision |>.map DispatchDecision.pendingId).Sublist _
  rw [cycle_admitted h]
  have hsub : ((as ++ bs).map Admission.task).Sublist pending := h.sublist
  simpa [Function.comp_def, Admission.decision] using hsub.map PendingEntry.id

theorem planDispatch_running_exclusive {pending : List PendingEntry} {running : List RunningEntry} {cap : Capacity}
    {o : RunningEntry} (ho : o ∈ running) (hex : o.exclusive = true) : (planDispatch pending running cap).decisions = [] := by
  have hfront : (Planner.init pending running cap).front = (Planner.init pending running cap, false) :=
    if_pos (List.any_eq_true.mpr ⟨o, ho, hex⟩)
  change (Planner.init pending running cap).run.admitted.map Admission.decision = []
  rw [Planner.run, hfront]
  rfl

end AdaptiveExecutor
