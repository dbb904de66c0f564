import AdaptiveExecutor.Scheduling.Canary
import AdaptiveExecutor.Scheduling.Gates

/-!
# One scan is enough

What a turn of the scan refuses, no later turn would admit: the admissions in between take room and identities, and give
nothing back.

* `Admissions.offer_none` : a refusal lasts;
* `backfill_refuses`, `second_scan_empty` : a second scan admits nothing;
* `LeavesRoom`, `cold_head_iff` : when a task right behind a canary-blocked head is admitted.
-/

namespace AdaptiveExecutor
open Backfill

namespace Planner
variable {p p' : Planner} {head candidate : PendingEntry} {reservation : WithTop ℚ} {as : List Admission}
variable {gpuId : Option GpuId}

/-! ## Less room -/

/-- A later planner: of the same capacity and occupants, with no more room, and with the identities that were held. -/
structure Tightens (p p' : Planner) : Prop where
  cap : p'.cap = p.cap
  occupants : p'.occupants = p.occupants
  room : p'.pools.toRoom ≤ p.pools.toRoom
  held : ∀ k ∈ p.heldIdentities, k ∈ p'.heldIdentities

theorem Admissions.tightens (h : Admissions p as p') (hback : ∀ a ∈ as, a.releasesBeforeReservation.isSome)
    (hload : ∀ a ∈ as, 0 ≤ a.load) : Tightens p p' where
  cap := h.cap_eq
  occupants := by
    rw [h.occupants, List.filter_eq_nil_iff.mpr fun a ha => by simp [Option.isSome_iff_ne_none.mp (hback a ha)],
      List.map_nil, List.append_nil]
  room := by
    rw [h.room]
    have hsum : -(as.map Admission.load).sum ≤ 0 :=
      neg_nonpos.mpr (List.sum_nonneg (List.forall_mem_map.mpr hload))
    simpa using IsOrderedVAdd.vadd_le_vadd_right _ _ hsum p.pools.toRoom
  held k hk := (h.held k).mpr (.inl hk)

namespace Tightens

theorem canaryBlocked (h : Tightens p p') (hfree : p'.canaryBlocked candidate = false) :
    p.canaryBlocked candidate = false := by
  by_contra hblocked
  rw [Bool.not_eq_false] at hblocked
  unfold Planner.canaryBlocked at hfree hblocked
  cases hidentity : candidate.profileIdentity with
  | none =>
    rw [hidentity] at hblocked
    simp at hblocked
  | some k =>
    rw [hidentity] at hfree hblocked
    simp only [Bool.and_eq_true, decide_eq_true_eq] at hblocked
    simp [hblocked.1, h.held k hblocked.2] at hfree

theorem fitsNongpu (h : Tightens p p') (hpass : p'.fitsNongpu candidate = true) : p.fitsNongpu candidate = true := by
  rw [fitsNongpu_iff, h.cap] at hpass
  rw [fitsNongpu_iff]
  obtain ⟨halone, hmax, heffective, hmemory⟩ := hpass
  have hslots := h.room.2.2
  exact ⟨fun hex => hslots.trans (halone hex), hslots.trans_lt hmax, hslots.trans_lt heffective,
    hmemory.trans_le h.room.1⟩

theorem places (h : Tightens p p') (hplace : p'.Places candidate gpuId) : p.Places candidate gpuId := by
  unfold Places at hplace ⊢
  by_cases hvram : 0 < candidate.vramGb
  · rw [if_pos hvram, h.cap] at hplace
    rw [if_pos hvram]
    obtain ⟨g, hring, hroom, hg⟩ := hplace
    exact ⟨g, hring, hroom.mono h.room, hg⟩
  · rw [if_neg hvram] at hplace ⊢
    exact hplace

theorem headStillFits (h : Tightens p p')
    (hhold : p'.headStillFitsWithHold head candidate gpuId reservation = true) :
    p.headStillFitsWithHold head candidate gpuId reservation = true := by
  unfold headStillFitsWithHold at hhold ⊢
  rw [Capacity.fits_isSome_iff, h.cap, stateAt_eq, h.occupants] at hhold
  rw [Capacity.fits_isSome_iff, stateAt_eq]
  refine p.cap.admits_mono head (Room.take_mono ?_ _ _ _) hhold
  exact IsOrderedVAdd.vadd_le_vadd_left _ _ h.room _

/-- **A refusal lasts.** -/
theorem offer_none (h : Tightens p p') (hnone : p.offer head reservation candidate = none) :
    p'.offer head reservation candidate = none := by
  by_contra hsome
  have hadmits := offer_isSome_iff.mp (Option.isSome_iff_ne_none.mpr hsome)
  obtain ⟨hcanary, hgate, gpuId, hplace, hrule⟩ := hadmits
  have hoffer := offer_isSome_iff.mpr
    ⟨h.canaryBlocked hcanary, h.fitsNongpu hgate, gpuId, h.places hplace, hrule.imp id h.headStillFits⟩
  rw [hnone] at hoffer
  cases hoffer

end Tightens

/-! ## The second scan -/

theorem backfill_tightens (head : PendingEntry) (reservation : WithTop ℚ) (p : Planner) {cs : List PendingEntry}
    (hcs : ∀ c ∈ cs, 0 ≤ c.memoryGb ∧ 0 ≤ c.vramGb) : Tightens p (p.backfill head reservation cs) := by
  obtain ⟨as, h, hsub, hback, -⟩ := backfill_spec head reservation cs p
  refine h.tightens hback fun a ha => ?_
  have hc := hcs a.task (hsub.subset (List.mem_map_of_mem ha))
  exact loadOn_nonneg hc.1 hc.2 a.gpuId

/-- **What a turn has refused**, the planner that the scan ends with refuses too. -/
theorem backfill_refuses (head : PendingEntry) (reservation : WithTop ℚ) : ∀ {cs : List PendingEntry} (p : Planner),
    (∀ c ∈ cs, 0 ≤ c.memoryGb ∧ 0 ≤ c.vramGb) → ∀ t ∈ p.scanTurns head reservation cs,
      t.admission head reservation = none → (p.backfill head reservation cs).offer head reservation t.candidate = none
  | [], _, _, t, ht, _ => by cases ht
  | candidate :: rest, p, hcs, t, ht, hnone => by
    obtain ⟨-, hrest⟩ := List.forall_mem_cons.mp hcs
    unfold scanTurns at ht
    unfold backfill
    cases ho : p.offer head reservation candidate with
    | none =>
      rw [ho] at ht
      dsimp only at ht ⊢
      rcases List.mem_cons.mp ht with rfl | ht
      · exact (backfill_tightens head reservation p hrest).offer_none ho
      · exact backfill_refuses head reservation p hrest t ht hnone
    | some o =>
      rw [ho] at ht
      dsimp only at ht ⊢
      rcases List.mem_cons.mp ht with rfl | ht
      · unfold Turn.admission at hnone
        rw [ho] at hnone
        cases hnone
      · exact backfill_refuses head reservation _ hrest t ht hnone

theorem backfill_eq_self : ∀ {cs : List PendingEntry}, (∀ c ∈ cs, p.offer head reservation c = none) →
    p.backfill head reservation cs = p
  | [], _ => rfl
  | candidate :: rest, h => by
    obtain ⟨hnone, hrest⟩ := List.forall_mem_cons.mp h
    unfold backfill
    rw [hnone]
    exact backfill_eq_self hrest

def leftovers (p : Planner) (head : PendingEntry) : List PendingEntry :=
  (p.cycleTurns.filter fun t => (t.admission head (p.front.1.reservation head)).isNone).map Turn.candidate

theorem turns_perm (head : PendingEntry) (reservation : WithTop ℚ) : ∀ ts : List Turn, (ts.map Turn.candidate).Perm
    ((ts.filterMap (Turn.admission head reservation)).map Admission.task ++
      (ts.filter fun t => (t.admission head reservation).isNone).map Turn.candidate)
  | [] => .refl _
  | t :: ts => by
    have ih := turns_perm head reservation ts
    cases hadmission : t.admission head reservation with
    | none =>
      rw [List.filterMap_cons_none hadmission, List.filter_cons_of_pos (by rw [hadmission]; rfl)]
      exact (ih.cons t.candidate).trans List.perm_middle.symm
    | some a =>
      rw [List.filterMap_cons_some hadmission, List.filter_cons_of_neg (by rw [hadmission]; exact Bool.false_ne_true)]
      rw [List.map_cons, List.map_cons, Turn.admission_task hadmission]
      exact ih.cons t.candidate

theorem scanTurns_candidates (head : PendingEntry) (reservation : WithTop ℚ) : ∀ (cs : List PendingEntry) (p : Planner),
    (p.scanTurns head reservation cs).map Turn.candidate = cs
  | [], _ => rfl
  | candidate :: rest, p => by
    unfold scanTurns
    rw [List.map_cons]
    refine congrArg (candidate :: ·) ?_
    split
    · exact scanTurns_candidates head reservation rest p
    · exact scanTurns_candidates head reservation rest _

/-- Why a planner does not backfill a candidate: the canary, no room for it, or the head. -/
def Refuses (p : Planner) (head : PendingEntry) (reservation : WithTop ℚ) (candidate : PendingEntry) : Prop :=
  p.canaryBlocked candidate = true ∨ p.cap.fits candidate p.pools.toRoom p.pools.rr = none ∨
    ¬ Short candidate reservation ∧ ∀ gpuId, p.Places candidate gpuId →
      p.headStillFitsWithHold head candidate gpuId reservation = false

theorem refuses_of_offer (h : p.offer head reservation candidate = none) : p.Refuses head reservation candidate := by
  by_contra hno
  unfold Refuses at hno
  rw [not_or, not_or, Bool.not_eq_true, ← ne_eq, ← Option.isSome_iff_ne_none] at hno
  obtain ⟨hcanary, hfits, hplaces⟩ := hno
  obtain ⟨hgate, hroom⟩ := (gates_pass hfits)
  have hoffer : (p.offer head reservation candidate).isSome = true := by
    rw [offer_isSome_iff]
    refine ⟨hcanary, hgate, ?_⟩
    by_cases hshort : Short candidate reservation
    · obtain ⟨gpuId, hplace⟩ := hroom
      exact ⟨gpuId, hplace, .inl hshort⟩
    · by_contra hnowhere
      refine hplaces ⟨hshort, fun gpuId hplace => ?_⟩
      by_contra hhold
      exact hnowhere ⟨gpuId, hplace, .inr (by simpa using hhold)⟩
  rw [h] at hoffer
  cases hoffer

end Planner

open Planner

variable {pending : List PendingEntry} {running : List RunningEntry} {cap : Capacity} {head : PendingEntry}

section Blocked
variable {rest : List PendingEntry} (hblocked : (init pending running cap).front.2 = true)
  (hq : (init pending running cap).front.1.queue = head :: rest) (hex : head.exclusive = false)
include hblocked hq hex

theorem cycle_of_blocked : cycle pending running cap = (init pending running cap).front.1.backfill head
    ((init pending running cap).front.1.reservation head) rest := by
  unfold cycle run
  rw [if_pos hblocked]
  unfold backfillRest
  rw [hq]
  dsimp only
  rw [hex, if_neg Bool.false_ne_true]

theorem cycleTurns_of_blocked : (init pending running cap).cycleTurns = (init pending running cap).front.1.scanTurns head
    ((init pending running cap).front.1.reservation head) rest := by
  unfold cycleTurns
  rw [if_pos hblocked, hq]
  dsimp only
  rw [hex, if_neg Bool.false_ne_true]

end Blocked

/-- **One scan is maximal.** Behind a blocked head that is not exclusive, the tasks are those that the scan admits and
its leftovers. A second scan over the leftovers, from where the first has ended and with the same reservation, admits
none of them: for each there is a reason in what the first scan has left. -/
theorem second_scan_empty (hpending : ∀ task ∈ pending, 0 ≤ task.memoryGb ∧ 0 ≤ task.vramGb) {rest : List PendingEntry}
    (hblocked : (init pending running cap).front.2 = true) (hq : (init pending running cap).front.1.queue = head :: rest)
    (hex : head.exclusive = false) :
    rest.Perm ((cycle pending running cap).backfilled.map Admission.task ++ (init pending running cap).leftovers head) ∧
    (cycle pending running cap).backfill head ((init pending running cap).front.1.reservation head)
        ((init pending running cap).leftovers head) = cycle pending running cap ∧
      ∀ candidate ∈ (init pending running cap).leftovers head,
        (cycle pending running cap).Refuses head ((init pending running cap).front.1.reservation head) candidate := by
  obtain ⟨as, bs, h⟩ := run_spec (init pending running cap)
  have hrest : ∀ c ∈ rest, 0 ≤ c.memoryGb ∧ 0 ≤ c.vramGb := by
    intro c hc
    refine hpending c ?_
    have hqueue : pending = as.map Admission.task ++ (head :: rest) := hq ▸ h.queue
    rw [hqueue]
    exact List.mem_append_right _ (List.mem_cons_of_mem head hc)
  have hturns := cycleTurns_of_blocked hblocked hq hex
  have hleft : ∀ candidate ∈ (init pending running cap).leftovers head, (cycle pending running cap).offer head
      ((init pending running cap).front.1.reservation head) candidate = none := by
    intro candidate hcandidate
    obtain ⟨t, ht, rfl⟩ := List.mem_map.mp hcandidate
    obtain ⟨ht, hnone⟩ := List.mem_filter.mp ht
    rw [cycle_of_blocked hblocked hq hex]
    exact backfill_refuses head _ _ hrest t (hturns ▸ ht) (Option.isNone_iff_eq_none.mp hnone)
  refine ⟨?_, backfill_eq_self hleft, fun candidate hcandidate => refuses_of_offer (hleft candidate hcandidate)⟩
  have hperm := turns_perm head ((init pending running cap).front.1.reservation head)
    (init pending running cap).cycleTurns
  rw [← (h.backs_turns rfl hq).1, hturns, scanTurns_candidates] at hperm
  rw [cycle, h.backfilled rfl, leftovers, hturns]
  exact hperm

/-- Behind a head of 8 GB, a short task is admitted, and one of 5 GB is left. -/
theorem second_scan_empty_short :
    let pending := [cpuTask "head" 8 none, cpuTask "short" 2 (some 5), cpuTask "large" 5 none]
    [cpuTask "short" 2 (some 5), cpuTask "large" 5 none].Perm
        ((cycle pending [cpuRunning "r" 6 (some 10)] (cpuHost 4 4 1)).backfilled.map Admission.task ++
          (init pending [cpuRunning "r" 6 (some 10)] (cpuHost 4 4 1)).leftovers (cpuTask "head" 8 none)) ∧
      (cycle pending [cpuRunning "r" 6 (some 10)] (cpuHost 4 4 1)).backfill (cpuTask "head" 8 none)
          ((init pending [cpuRunning "r" 6 (some 10)] (cpuHost 4 4 1)).front.1.reservation (cpuTask "head" 8 none))
          ((init pending [cpuRunning "r" 6 (some 10)] (cpuHost 4 4 1)).leftovers (cpuTask "head" 8 none)) =
        cycle pending [cpuRunning "r" 6 (some 10)] (cpuHost 4 4 1) ∧
      ∀ candidate ∈ (init pending [cpuRunning "r" 6 (some 10)] (cpuHost 4 4 1)).leftovers (cpuTask "head" 8 none),
        (cycle pending [cpuRunning "r" 6 (some 10)] (cpuHost 4 4 1)).Refuses (cpuTask "head" 8 none)
          ((init pending [cpuRunning "r" 6 (some 10)] (cpuHost 4 4 1)).front.1.reservation (cpuTask "head" 8 none))
          candidate :=
  second_scan_empty (by decide) (by decide +kernel) (by decide +kernel) rfl

/-! ## Behind a canary-blocked head -/

/-- With the candidate in place, the free memory, and the free VRAM on some GPU, are still enough for the head. -/
def Planner.LeavesRoom (p : Planner) (head candidate : PendingEntry) : Prop :=
  ∃ gpuId, p.Places candidate gpuId ∧
    (head.memoryGb : Free) < (p.pools.toRoom.take candidate.memoryGb candidate.vramGb gpuId).memoryFree ∧
    (0 < head.vramGb → ∃ g ∈ p.cap.gpuRoundRobin,
      HasRoom (p.pools.toRoom.take candidate.memoryGb candidate.vramGb gpuId).gpuFree head.vramGb g)

/-- A slot is left for the head beside a candidate, when the tasks whose duration is known have given theirs back. -/
def Planner.LeavesSlot (p : Planner) (head : PendingEntry) : Prop :=
  (p.stateAt ⊤).slots + 1 < p.cap.maxWorkers ∧ (p.stateAt ⊤).slots + 1 < p.cap.effectiveMax head

/-- A candidate that leaves room for a head is admitted if a slot is left too, and the head can share the machine. -/
theorem Planner.offer_of_leavesRoom {p : Planner} {candidate : PendingEntry} (hp : p.NonnegOccupants)
    (hfree : p.canaryBlocked candidate = false) (hfits : (p.cap.fits candidate p.pools.toRoom p.pools.rr).isSome = true)
    (hleaves : p.LeavesRoom head candidate) (hex : head.exclusive = false) (hslot : p.LeavesSlot head) :
    (p.offer head ⊤ candidate).isSome = true := by
  obtain ⟨gpuId, hplace, hmemory, hvram⟩ := hleaves
  refine offer_isSome_iff.mpr ⟨hfree, (gates_pass hfits).1, gpuId, hplace, .inr ?_⟩
  have hroom := Room.take_mono (pools_le_stateAt hp ⊤) candidate.memoryGb candidate.vramGb gpuId
  unfold headStillFitsWithHold
  rw [Capacity.fits_isSome_iff]
  refine ⟨fun hexclusive => ?_, hslot.1, hslot.2, hmemory.trans_le hroom.1, fun hneeds => ?_⟩
  · rw [hex] at hexclusive
    cases hexclusive
  · obtain ⟨g, hring, hg⟩ := hvram hneeds
    exact ⟨g, hring, hg.mono hroom⟩

theorem Planner.leavesSlot_of_offer {p : Planner} {candidate : PendingEntry}
    (h : (p.offer head ⊤ candidate).isSome = true) : p.LeavesSlot head := by
  obtain ⟨-, -, gpuId, -, hrule⟩ := offer_isSome_iff.mp h
  rcases hrule with ⟨hfinite, -⟩ | hhold
  · exact absurd rfl hfinite
  · unfold headStillFitsWithHold at hhold
    have hadmits := (Capacity.fits_isSome_iff p.pools.rr).mp hhold
    exact ⟨hadmits.slots, hadmits.effective⟩

/-- Behind a canary-blocked head, what the scan admits would pass at its start: there is no less room then. -/
theorem offer_of_backfilled (hpending : ∀ task ∈ pending, 0 ≤ task.memoryGb ∧ 0 ≤ task.vramGb)
    (hrunning : ∀ o ∈ running, 0 ≤ o.memoryGb ∧ 0 ≤ o.vramGb) {rest : List PendingEntry}
    (hq : (init pending running cap).front.1.queue = head :: rest)
    (hcold : (init pending running cap).front.1.canaryBlocked head = true) {b : Admission}
    (hb : b ∈ (cycle pending running cap).backfilled) :
    ((init pending running cap).front.1.offer head ⊤ b.task).isSome = true := by
  obtain ⟨as, bs, h⟩ := run_spec (init pending running cap)
  obtain ⟨hbs, hstate⟩ := h.canary_turns hq hcold
  have hbackfilled : (cycle pending running cap).backfilled = bs := h.backfilled rfl
  rw [hbackfilled, hbs] at hb
  obtain ⟨t, ht, hadmission⟩ := List.mem_filterMap.mp hb
  obtain ⟨xs, ys, hx⟩ := List.append_of_mem ht
  have hearlier : ∀ a ∈ xs.filterMap (Turn.admission head ⊤), a ∈ bs := by
    intro a ha
    rw [hbs, hx, List.filterMap_append]
    exact List.mem_append_left _ ha
  have htightens := (hstate xs t ys hx).tightens (fun a ha => h.backs a (hearlier a ha))
    fun a ha => h.load_nonneg ⟨hpending, hrunning⟩ (List.mem_append_right as (hearlier a ha))
  rw [Option.isSome_iff_ne_none]
  intro hnone
  have hrefused := htightens.offer_none hnone
  rw [Turn.admission_task hadmission] at hrefused
  unfold Turn.admission at hadmission
  rw [hrefused] at hadmission
  cases hadmission

/-- **When a canary-blocked head does not stall the task behind it**, which fits now and leaves enough memory and VRAM for
the head: when neither an exclusive task in flight nor an exclusive head ends the cycle, and a worker slot is left for the
head with the canary still in its own. -/
theorem cold_head_iff (hpending : ∀ task ∈ pending, 0 ≤ task.memoryGb ∧ 0 ≤ task.vramGb)
    (hrunning : ∀ o ∈ running, 0 ≤ o.memoryGb ∧ 0 ≤ o.vramGb) {candidate : PendingEntry} {rest : List PendingEntry}
    (hq : (init pending running cap).front.1.queue = head :: candidate :: rest)
    (hcold : (init pending running cap).front.1.canaryBlocked head = true)
    (hfree : (init pending running cap).front.1.canaryBlocked candidate = false)
    (hfits : (cap.fits candidate (init pending running cap).front.1.pools.toRoom
      (init pending running cap).front.1.pools.rr).isSome = true)
    (hleaves : (init pending running cap).front.1.LeavesRoom head candidate) :
    candidate ∈ (cycle pending running cap).backfilled.map Admission.task ↔
      (init pending running cap).front.2 = true ∧ head.exclusive = false ∧
        (init pending running cap).front.1.LeavesSlot head := by
  have hnn : (init pending running cap).NonnegEstimates := ⟨hpending, hrunning⟩
  obtain ⟨as, bs, h⟩ := run_spec (init pending running cap)
  have hbackfilled : (cycle pending running cap).backfilled = bs := h.backfilled rfl
  constructor
  · intro hmem
    obtain ⟨b, hb, rfl⟩ := List.mem_map.mp hmem
    rcases h.scan with rfl | ⟨head', rest', hblocked, hq', hex, -⟩
    · rw [hbackfilled] at hb
      cases hb
    obtain ⟨rfl, rfl⟩ := List.cons.inj (hq.symm.trans hq')
    refine ⟨hblocked, hex, ?_⟩
    exact leavesSlot_of_offer (offer_of_backfilled hpending hrunning hq hcold hb)
  · rintro ⟨hblocked, hex, hslot⟩
    have hoffer := offer_of_leavesRoom (h.front_nonneg hnn) hfree (by rwa [h.front.cap_eq]) hleaves hex hslot
    obtain ⟨o, ho⟩ := Option.isSome_iff_exists.mp hoffer
    have hinf : (init pending running cap).front.1.reservation head = ⊤ := if_pos hcold
    have hturns := cycleTurns_of_blocked hblocked hq hex
    rw [hinf, scanTurns] at hturns
    have hturn : Turn.admission head ⊤ ⟨(init pending running cap).front.1, candidate⟩ = some ⟨candidate, o.1, some o.2.2⟩ :=
      congrArg (Option.map _) ho
    rw [hbackfilled, (h.canary_turns hq hcold).1, hturns, List.filterMap_cons_some hturn]
    exact List.mem_map.mpr ⟨_, List.mem_cons_self, rfl⟩

/-- The canary of `f`, and a sibling that waits for it. -/
def canaryRunning : RunningEntry := { cpuRunning "canary" 2 none with profileIdentity := some "f" }

def coldSibling : PendingEntry := { cpuTask "head" 2 none with profileIdentity := some "f", cold := true }

theorem leavesRoom_small (maxWorkers : Int) :
    (init [coldSibling, cpuTask "small" 1 none] [canaryRunning] (cpuHost 8 maxWorkers 1)).LeavesRoom coldSibling
      (cpuTask "small" 1 none) := by
  refine ⟨none, ?_, ?_, fun hvram => ?_⟩
  · unfold Places
    rw [if_neg (by decide)]
  · show (2 : Free) < ((-1 : ℚ) : Free) + ((8 : ℚ) : Free)
    decide +kernel
  · exact absurd hvram (by decide)

/-- With three workers, a small task passes. -/
theorem cold_head_iff_small :
    cpuTask "small" 1 none ∈ (cycle [coldSibling, cpuTask "small" 1 none] [canaryRunning] (cpuHost 8 3 1)).backfilled.map
        Admission.task ↔
      (init [coldSibling, cpuTask "small" 1 none] [canaryRunning] (cpuHost 8 3 1)).front.2 = true ∧
        coldSibling.exclusive = false ∧
          (init [coldSibling, cpuTask "small" 1 none] [canaryRunning] (cpuHost 8 3 1)).front.1.LeavesSlot coldSibling := by
  have hfront : (init [coldSibling, cpuTask "small" 1 none] [canaryRunning] (cpuHost 8 3 1)).front = (_, true) :=
    front_of_blocked (by decide) rfl (.inl (by decide +kernel))
  have hq : (init [coldSibling, cpuTask "small" 1 none] [canaryRunning] (cpuHost 8 3 1)).front.1.queue =
      [coldSibling, cpuTask "small" 1 none] := by decide +kernel
  refine cold_head_iff (by decide) (by decide) hq (by decide +kernel) (by decide +kernel) (by decide +kernel) ?_
  rw [hfront]
  exact leavesRoom_small 3

/-- With two workers it waits for the canary, though half of the machine is free. -/
theorem cold_head_stalls :
    let p := (init [coldSibling, cpuTask "small" 1 none] [canaryRunning] (cpuHost 8 2 1)).front.1
    p.queue = [coldSibling, cpuTask "small" 1 none] ∧ p.canaryBlocked coldSibling = true ∧
      p.canaryBlocked (cpuTask "small" 1 none) = false ∧
      ((cpuHost 8 2 1).fits (cpuTask "small" 1 none) p.pools.toRoom p.pools.rr).isSome = true ∧
      p.LeavesRoom coldSibling (cpuTask "small" 1 none) ∧
      cpuTask "small" 1 none ∉
        (cycle [coldSibling, cpuTask "small" 1 none] [canaryRunning] (cpuHost 8 2 1)).backfilled.map Admission.task ∧
      (planDispatch [coldSibling, cpuTask "small" 1 none] [canaryRunning] (cpuHost 8 2 1)).decisions = [] := by
  have hfront : (init [coldSibling, cpuTask "small" 1 none] [canaryRunning] (cpuHost 8 2 1)).front = (_, true) :=
    front_of_blocked (by decide) rfl (.inl (by decide +kernel))
  refine ⟨by decide +kernel, by decide +kernel, by decide +kernel, by decide +kernel, ?_, by decide +kernel,
    by decide +kernel⟩
  rw [hfront]
  exact leavesRoom_small 2

end AdaptiveExecutor
