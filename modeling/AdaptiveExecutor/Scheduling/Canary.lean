import AdaptiveExecutor.Scheduling.Safety

/-!
# The cold-start canary and the scan

The scan turn by turn, and what it means for a head that the canary blocks, or may come to block.

* `cycleTurns` : the turns of the scan, each with the planner it finds; `RunSpec.backs_turns` : the backfilled
  tasks are the turns that are granted;
* `awaited`, `Turn.KeepsPlace`, `canaryPromise_of_awaited` : when a canary-blocked head starts no later than with nothing
  backfilled;
* `heldIdentity_iff` : exactly when no backfilled task takes the identity of the head;
* `cycle_cold` : a cold task is decided only while nobody has its identity.
-/

namespace AdaptiveExecutor
open Backfill

/-! ## Turns of the scan -/

/-- One turn of the scan: the planner it finds and the candidate. -/
structure Turn where
  planner : Planner
  candidate : PendingEntry

def Turn.admission (head : PendingEntry) (reservation : WithTop ℚ) (t : Turn) : Option Admission :=
  (t.planner.offer head reservation t.candidate).map fun o => ⟨t.candidate, o.1, some o.2.2⟩

namespace Planner

/-- The turns of `_backfill`. -/
def scanTurns (p : Planner) (head : PendingEntry) (reservation : WithTop ℚ) : List PendingEntry → List Turn
  | [] => []
  | candidate :: rest =>
    ⟨p, candidate⟩ :: match p.offer head reservation candidate with
      | none => scanTurns p head reservation rest
      | some (gpuId, rr, releases) => scanTurns (p.admitTask candidate gpuId rr (some releases)) head reservation rest

def cycleTurns (p : Planner) : List Turn :=
  if p.front.2 then
    match p.front.1.queue with
    | [] => []
    | head :: rest =>
      if head.exclusive then [] else p.front.1.scanTurns head (p.front.1.reservation head) rest
  else []

variable {p : Planner} {head : PendingEntry} {reservation : WithTop ℚ}

theorem backfill_admitted (head : PendingEntry) (reservation : WithTop ℚ) : ∀ (cs : List PendingEntry) (p : Planner),
    (p.backfill head reservation cs).admitted =
      p.admitted ++ (p.scanTurns head reservation cs).filterMap (Turn.admission head reservation)
  | [], p => (List.append_nil _).symm
  | candidate :: rest, p => by
    unfold backfill scanTurns
    cases ho : p.offer head reservation candidate with
    | none =>
      rw [List.filterMap_cons_none (by simp [Turn.admission, ho])]
      exact backfill_admitted head reservation rest p
    | some o =>
      rw [List.filterMap_cons_some (b := ⟨candidate, o.1, some o.2.2⟩) (by simp [Turn.admission, ho])]
      refine (backfill_admitted head reservation rest _).trans ?_
      change (p.admitted ++ [_]) ++ _ = _
      rw [List.append_assoc]; rfl

theorem scanTurns_admissions : ∀ {cs : List PendingEntry} {p : Planner} {xs : List Turn} {t : Turn} {ys : List Turn},
    p.scanTurns head reservation cs = xs ++ t :: ys →
      Admissions p (xs.filterMap (Turn.admission head reservation)) t.planner
  | [], p, xs, t, ys, h => absurd h.symm (List.append_ne_nil_of_right_ne_nil xs (List.cons_ne_nil _ _))
  | candidate :: rest, p, [], t, ys, h => by
    unfold scanTurns at h
    obtain rfl : _ = t := (List.cons.inj h).1
    exact .refl p
  | candidate :: rest, p, x :: xs, t, ys, h => by
    unfold scanTurns at h
    obtain ⟨rfl, hrest⟩ := List.cons.inj h
    cases ho : p.offer head reservation candidate with
    | none =>
      rw [ho] at hrest
      rw [List.filterMap_cons_none (by simp [Turn.admission, ho])]
      exact scanTurns_admissions hrest
    | some o =>
      rw [ho] at hrest
      rw [List.filterMap_cons_some (b := ⟨candidate, o.1, some o.2.2⟩) (by simp [Turn.admission, ho])]
      exact .cons o.2.1 (offer_some ho).1 (scanTurns_admissions hrest)

variable {as bs : List Admission}

/-- The turns of a cycle belong to its head, and the backfilled tasks are the turns that are granted. -/
theorem RunSpec.backs_turns (h : RunSpec p as bs) (hp : p.admitted = []) {rest : List PendingEntry}
    (hq : p.front.1.queue = head :: rest) :
    bs = p.cycleTurns.filterMap (Turn.admission head (p.front.1.reservation head)) ∧
      ∀ xs t ys, p.cycleTurns = xs ++ t :: ys → Admissions p.front.1
        (xs.filterMap (Turn.admission head (p.front.1.reservation head))) t.planner := by
  have hadm : p.run.admitted = as ++ bs := by rw [h.all.admitted_eq, hp]; rfl
  have hfront : p.front.1.admitted = as := by rw [h.front.admitted_eq, hp]; rfl
  have none_left (hc : p.cycleTurns = []) (hr : p.run = p.front.1) :
      bs = p.cycleTurns.filterMap (Turn.admission head (p.front.1.reservation head)) ∧
        ∀ xs t ys, p.cycleTurns = xs ++ t :: ys → Admissions p.front.1
          (xs.filterMap (Turn.admission head (p.front.1.reservation head))) t.planner := by
    rw [hr, hfront] at hadm
    rw [hc]
    exact ⟨by simpa using hadm, fun xs t ys hx =>
      absurd hx.symm (List.append_ne_nil_of_right_ne_nil xs (List.cons_ne_nil _ _))⟩
  cases hb : p.front.2 with
  | false => exact none_left (by simp [cycleTurns, hb]) (by simp [run, hb])
  | true =>
    by_cases hex : head.exclusive = true
    · exact none_left (by simp [cycleTurns, hb, hq, hex]) (by simp [run, hb, backfillRest, hq, hex])
    · have hturns : p.cycleTurns = p.front.1.scanTurns head (p.front.1.reservation head) rest := by
        simp [cycleTurns, hb, hq, hex]
      have hrun : p.run = p.front.1.backfill head (p.front.1.reservation head) rest := by
        simp [run, hb, backfillRest, hq, hex]
      rw [hrun, backfill_admitted, hfront] at hadm
      rw [hturns]
      exact ⟨(List.append_cancel_left hadm).symm, fun xs t ys hx => scanTurns_admissions hx⟩

end Planner

open Planner

variable {pending : List PendingEntry} {running : List RunningEntry} {cap : Capacity} {head : PendingEntry}

/-! ## A head that the canary blocks -/

/-- The occupant that an admission becomes, with the identity it holds. -/
def Admission.started (a : Admission) : RunningEntry :=
  { a.occupant with exclusive := a.task.exclusive, profileIdentity := a.task.profileIdentity }

def inFlight (pending : List PendingEntry) (running : List RunningEntry) (cap : Capacity) : List RunningEntry :=
  running ++ (init pending running cap).front.1.admitted.map Admission.started

/-- `S` is a part of `all` with every holder of `identity`. -/
def Finishing (all : List RunningEntry) (identity : Option String) (S : List RunningEntry) : Prop :=
  ∃ others, (S ++ others).Perm all ∧ ∀ o ∈ others, o.profileIdentity ≠ identity

/-- The room once the tasks `S` have finished. -/
def finish (S : List RunningEntry) (r : Room) : Room := S.foldl (fun r o => r.give o.memoryGb o.vramGb o.gpuId) r

theorem finish_eq : ∀ (S : List RunningEntry) (r : Room), finish S r = (S.map RunningEntry.load).sum +ᵥ r
  | [], r => by simp [finish]
  | o :: S, r => by
    unfold finish
    rw [List.foldl_cons]
    refine (finish_eq S _).trans ?_
    rw [Room.give_eq, List.map_cons, List.sum_cons, vadd_vadd, add_comm]
    rfl

theorem finish_mono {S T : List RunningEntry} (h : S.Subperm T) (hT : ∀ o ∈ T, 0 ≤ o.load) (r : Room) :
    finish S r ≤ finish T r := by
  obtain ⟨S', hperm, hsub⟩ := h
  rw [finish_eq, finish_eq, ← (hperm.map RunningEntry.load).sum_eq]
  exact IsOrderedVAdd.vadd_le_vadd_right _ _
    ((hsub.map _).sum_le_sum (List.forall_mem_map.mpr hT)) r

/-- **A canary-blocked head starts no later**: whatever finishes with the holders of its identity, if that lets
the head in with nothing backfilled, it lets it in beside the backfilled tasks. -/
def CanaryPromise (pending : List PendingEntry) (running : List RunningEntry) (cap : Capacity)
    (head : PendingEntry) : Prop :=
  ∀ S, Finishing (inFlight pending running cap) head.profileIdentity S →
    (cap.fits head (finish S (init pending running cap).front.1.pools.toRoom)
      (init pending running cap).front.1.pools.rr).isSome →
    (cap.fits head (finish S (cycle pending running cap).pools.toRoom) (cycle pending running cap).pools.rr).isSome

/-- The head waits for `o`: `o` holds its identity, or the head does not fit even when all the others have finished. -/
def Planner.awaits (p : Planner) (head : PendingEntry) (all : List RunningEntry) (o : RunningEntry) : Bool :=
  decide (o.profileIdentity = head.profileIdentity) ||
    (p.cap.fits head (finish (all.erase o) p.pools.toRoom) p.pools.rr).isNone

/-- The running and front-admitted tasks that a canary-blocked head waits for. -/
def awaited (pending : List PendingEntry) (running : List RunningEntry) (cap : Capacity) (head : PendingEntry) :
    List RunningEntry :=
  (inFlight pending running cap).filter ((init pending running cap).front.1.awaits head (inFlight pending running cap))

/-- `_head_still_fits_with_hold` with the tasks `S` finished and all others running. -/
def Planner.headFitsBeside (p : Planner) (head : PendingEntry) (a : Admission) (S : List RunningEntry) : Bool :=
  (p.cap.fits head ((finish S p.pools.toRoom).take a.task.memoryGb a.task.vramGb a.gpuId) p.pools.rr).isSome

/-- A turn that keeps the head's place: what it admits also passes the hold test when, in place of every task of known
duration, those that the head waits for have finished. -/
def Turn.KeepsPlace (pending : List PendingEntry) (running : List RunningEntry) (cap : Capacity) (head : PendingEntry)
    (t : Turn) : Prop :=
  ∀ a ∈ t.admission head ⊤, t.planner.headFitsBeside head a (awaited pending running cap head) = true

instance (t : Turn) : Decidable (t.KeepsPlace pending running cap head) :=
  inferInstanceAs (Decidable (∀ a ∈ t.admission head ⊤, _ = true))

theorem Planner.headFitsBeside_mono {p : Planner} {a : Admission} {S T : List RunningEntry} (h : S.Subperm T)
    (hT : ∀ o ∈ T, 0 ≤ o.load) (hfits : p.headFitsBeside head a S = true) : p.headFitsBeside head a T = true := by
  rw [headFitsBeside, Capacity.fits_isSome_iff] at hfits ⊢
  exact Capacity.admits_mono _ head (Room.take_mono (finish_mono h hT _) _ _ _) hfits

/-- Whatever lets the head in, with the holders of its identity, has all that it waits for. -/
theorem Finishing.awaited_subperm {p : Planner} {all S : List RunningEntry} (hS : Finishing all head.profileIdentity S)
    (hall : ∀ o ∈ all, 0 ≤ o.load) (hfits : (p.cap.fits head (finish S p.pools.toRoom) p.pools.rr).isSome) :
    (all.filter (p.awaits head all)).Subperm S := by
  obtain ⟨others, hperm, hothers⟩ := hS
  have hstays : others.filter (p.awaits head all) = [] := by
    rw [List.filter_eq_nil_iff]
    intro o ho hawaits
    have hrest : S.Subperm (all.erase o) := by
      have hsplit := (List.perm_middle.symm.trans ((List.perm_cons_erase ho).symm.append_left S)).trans
        (hperm.trans (List.perm_cons_erase (hperm.subset (List.mem_append_right S ho))))
      exact (List.sublist_append_left S _).subperm.trans hsplit.cons_inv.subperm
    have hwithout : (p.cap.fits head (finish (all.erase o) p.pools.toRoom) p.pools.rr).isSome := by
      rw [Capacity.fits_isSome_iff] at hfits ⊢
      exact Capacity.admits_mono _ head (finish_mono hrest (fun x hx => hall x (List.mem_of_mem_erase hx)) _) hfits
    rcases Bool.or_eq_true_iff.mp hawaits with hholds | hnone
    · exact hothers o ho (of_decide_eq_true hholds)
    · rw [Option.isNone_iff_eq_none.mp hnone] at hwithout
      cases hwithout
  have hfilter := (hperm.filter (p.awaits head all)).symm
  rw [List.filter_append, hstays, List.append_nil] at hfilter
  exact hfilter.subperm.trans List.filter_sublist.subperm

theorem awaited_finishing :
    Finishing (inFlight pending running cap) head.profileIdentity (awaited pending running cap head) := by
  refine ⟨_, List.filter_append_perm _ _, fun o ho hholds => ?_⟩
  have hnot : (init pending running cap).front.1.awaits head (inFlight pending running cap) o = false := by
    simpa using (List.mem_filter.mp ho).2
  rw [awaits, decide_eq_true hholds, Bool.true_or] at hnot
  cases hnot

namespace Planner.RunSpec
variable {as bs : List Admission} (h : RunSpec (init pending running cap) as bs)
include h

theorem inFlight_nonneg (hnn : (init pending running cap).NonnegEstimates) :
    ∀ o ∈ inFlight pending running cap, 0 ≤ o.load := by
  have hadm : (init pending running cap).front.1.admitted = as := h.front.admitted_eq
  intro o ho
  rw [inFlight, hadm] at ho
  rcases List.mem_append.mp ho with ho | ho
  · exact loadOn_nonneg (hnn.occupants o ho).1 (hnn.occupants o ho).2 o.gpuId
  · obtain ⟨a, ha, rfl⟩ := List.mem_map.mp ho
    exact h.load_nonneg hnn (List.mem_append_left bs ha)

variable {rest : List PendingEntry} (hq : (init pending running cap).front.1.queue = head :: rest)
  (hc : (init pending running cap).front.1.canaryBlocked head = true)
include hq hc

theorem canary_turns : bs = (init pending running cap).cycleTurns.filterMap (Turn.admission head ⊤) ∧
    ∀ xs t ys, (init pending running cap).cycleTurns = xs ++ t :: ys →
      Admissions (init pending running cap).front.1 (xs.filterMap (Turn.admission head ⊤)) t.planner := by
  have hinf : (init pending running cap).front.1.reservation head = ⊤ := by rw [reservation, hc, if_pos rfl]
  exact hinf ▸ h.backs_turns rfl hq

/-- The hold test of a granted turn asks about the room that the cycle leaves, with what the later turns take given
back. -/
theorem headFitsBeside_iff {xs ys : List Turn} {t : Turn} {a : Admission}
    (hx : (init pending running cap).cycleTurns = xs ++ t :: ys) (ha : t.admission head ⊤ = some a)
    (S : List RunningEntry) :
    t.planner.headFitsBeside head a S = true ↔ cap.Admits head
      (((ys.filterMap (Turn.admission head ⊤)).map Admission.load).sum +ᵥ
        finish S (cycle pending running cap).pools.toRoom) := by
  obtain ⟨hbs, hstate⟩ := h.canary_turns hq hc
  have hcap : t.planner.cap = cap := ((hstate xs t ys hx).cap_eq).trans h.front.cap_eq
  have hroom : (cycle pending running cap).pools.toRoom = _ := h.back.room
  have hsum : bs = xs.filterMap (Turn.admission head ⊤) ++ a :: ys.filterMap (Turn.admission head ⊤) := by
    rw [hbs, hx, List.filterMap_append, List.filterMap_cons_some ha]
  rw [headFitsBeside, hcap, Capacity.fits_isSome_iff, Room.take_eq, finish_eq, finish_eq, hroom,
    (hstate xs t ys hx).room, hsum, List.map_append, List.map_cons, List.sum_append, List.sum_cons]
  simp only [vadd_vadd, Admission.load]
  congr! 2
  abel

/-- The hold test of the last granted turn is about all that the scan has backfilled. -/
theorem admits_of_turns {S : List RunningEntry}
    (hfits : cap.Admits head (finish S (init pending running cap).front.1.pools.toRoom))
    (hturns : ∀ t ∈ (init pending running cap).cycleTurns, ∀ a ∈ t.admission head ⊤,
      t.planner.headFitsBeside head a S = true) :
    cap.Admits head (finish S (cycle pending running cap).pools.toRoom) := by
  obtain ⟨hbs, -⟩ := h.canary_turns hq hc
  rcases List.eq_nil_or_concat' bs with hnil | ⟨cs, a, hconcat⟩
  · have hroom : (cycle pending running cap).pools.toRoom = _ := h.back.room
    rw [hroom, hnil]
    simpa using hfits
  · obtain ⟨l₁, l₂, hl, -, h₂⟩ := List.filterMap_eq_append_iff.mp (hbs.symm.trans hconcat)
    obtain ⟨m₁, t, m₂, rfl, hm₁, ha, hm₂⟩ := List.filterMap_eq_cons_iff.mp h₂
    have hx : (init pending running cap).cycleTurns = (l₁ ++ m₁) ++ t :: m₂ := by rw [hl, List.append_assoc]
    have hlast := hturns t (hx ▸ List.mem_append_right _ List.mem_cons_self) a ha
    rw [h.headFitsBeside_iff hq hc hx ha, hm₂] at hlast
    simpa using hlast

/-- What fits beside all that the scan has backfilled fits beside what each turn admits. -/
theorem turns_of_admits (hnn : (init pending running cap).NonnegEstimates) {S : List RunningEntry}
    (hfits : cap.Admits head (finish S (cycle pending running cap).pools.toRoom)) :
    ∀ t ∈ (init pending running cap).cycleTurns, ∀ a ∈ t.admission head ⊤,
      t.planner.headFitsBeside head a S = true := by
  intro t ht a ha
  obtain ⟨hbs, -⟩ := h.canary_turns hq hc
  obtain ⟨xs, ys, hx⟩ := List.append_of_mem ht
  rw [h.headFitsBeside_iff hq hc hx ha]
  refine Capacity.admits_mono _ head ?_ hfits
  -- what the later turns take is not negative
  have hlater : 0 ≤ ((ys.filterMap (Turn.admission head ⊤)).map Admission.load).sum := by
    refine List.sum_nonneg (List.forall_mem_map.mpr fun b hb => h.load_nonneg hnn (List.mem_append_right as ?_))
    rw [hbs, hx, List.filterMap_append, List.filterMap_cons_some ha]
    exact List.mem_append_right _ (List.mem_cons_of_mem a hb)
  simpa using IsOrderedVAdd.vadd_le_vadd_right _ _ hlater (finish S (cycle pending running cap).pools.toRoom)

/-- The hold test of the scan itself is the one with every task of known duration finished. -/
theorem headFitsBeside_known {t : Turn} (ht : t ∈ (init pending running cap).cycleTurns) {a : Admission}
    (ha : t.admission head ⊤ = some a) : t.planner.headFitsBeside head a
      ((inFlight pending running cap).filter fun o => Due o.remainingSeconds (⊤ : WithTop ℚ)) = true := by
  obtain ⟨hbs, hstate⟩ := h.canary_turns hq hc
  obtain ⟨xs, ys, hx⟩ := List.append_of_mem ht
  have hadmissions := hstate xs t ys hx
  obtain ⟨⟨gpuId, rr, releases⟩, ho, rfl⟩ := Option.map_eq_some_iff.mp ha
  obtain ⟨-, hbefore, hhold⟩ := offer_some ho
  have hreleases : releases = false := by
    by_contra htrue
    exact (hbefore (Bool.not_eq_false _ ▸ htrue)).1 rfl
  have hpast : (xs.filterMap (Turn.admission head ⊤)).filter (·.releasesBeforeReservation.isNone) = [] := by
    rw [List.filter_eq_nil_iff]
    intro b hb hnone
    have hback := h.backs b (by
      rw [hbs, hx, List.filterMap_append]
      exact List.mem_append_left _ hb)
    rw [Option.isNone_iff_eq_none.mp hnone] at hback
    cases hback
  have hoccupants : t.planner.occupants = running ++ as.map Admission.occupant := by
    rw [hadmissions.occupants, hpast, List.map_nil, List.append_nil, h.occupants]
    rfl
  have hadm : (init pending running cap).front.1.admitted = as := h.front.admitted_eq
  have hreleased : released RunningEntry.load RunningEntry.remainingSeconds t.planner.occupants (⊤ : WithTop ℚ) =
      released RunningEntry.load RunningEntry.remainingSeconds (inFlight pending running cap) ⊤ := by
    rw [hoccupants, inFlight, hadm, released_append, released_append]
    congr 1
    refine released_congr _ _ (List.forall₂_map_left_iff.mpr (List.forall₂_map_right_iff.mpr ?_))
    exact List.forall₂_same.mpr fun b _ => ⟨rfl, Iff.rfl⟩
  have hhold := hhold hreleases
  rw [headStillFitsWithHold, stateAt_eq, project, hreleased] at hhold
  rw [headFitsBeside, finish_eq]
  exact hhold

end Planner.RunSpec

/-- **When the canary promise holds.** It does when every turn keeps the head's place, counting on no task but those that
the head waits for; this is exact when the head fits once these have finished; and all turns do when every task of
known duration is one of these. -/
theorem canaryPromise_of_awaited (hnn : (init pending running cap).NonnegEstimates)
    (hq : (init pending running cap).front.1.queue.head? = some head)
    (hc : (init pending running cap).front.1.canaryBlocked head = true) :
    ((∀ t ∈ (init pending running cap).cycleTurns, t.KeepsPlace pending running cap head) →
      CanaryPromise pending running cap head) ∧
    ((cap.fits head (finish (awaited pending running cap head) (init pending running cap).front.1.pools.toRoom)
        (init pending running cap).front.1.pools.rr).isSome → CanaryPromise pending running cap head →
      ∀ t ∈ (init pending running cap).cycleTurns, t.KeepsPlace pending running cap head) ∧
    ((∀ o ∈ inFlight pending running cap, o.remainingSeconds ≠ none → o ∈ awaited pending running cap head) →
      ∀ t ∈ (init pending running cap).cycleTurns, t.KeepsPlace pending running cap head) := by
  obtain ⟨rest, hq⟩ := List.head?_eq_some_iff.mp hq
  obtain ⟨as, bs, h⟩ := run_spec (init pending running cap)
  have hall := h.inFlight_nonneg hnn
  have hcap : (init pending running cap).front.1.cap = cap := h.front.cap_eq
  refine ⟨fun hkeeps S hS hfits => ?_, fun hfits hpromise => ?_, fun hknown t ht a ha => ?_⟩
  · have hsub : (awaited pending running cap head).Subperm S := hS.awaited_subperm hall (hcap.symm ▸ hfits)
    rw [Capacity.fits_isSome_iff] at hfits ⊢
    obtain ⟨others, hperm, -⟩ := hS
    refine h.admits_of_turns hq hc hfits fun t ht a ha => headFitsBeside_mono hsub (fun o ho => ?_) (hkeeps t ht a ha)
    exact hall o (hperm.subset (List.mem_append_left others ho))
  · exact h.turns_of_admits hq hc hnn ((Capacity.fits_isSome_iff _).mp (hpromise _ awaited_finishing hfits))
  · refine headFitsBeside_mono (List.Sublist.subperm ?_) (fun o ho => hall o (List.mem_of_mem_filter ho))
      (h.headFitsBeside_known hq hc ht ha)
    have hdue : (inFlight pending running cap).filter (fun o => Due o.remainingSeconds (⊤ : WithTop ℚ)) =
        (awaited pending running cap head).filter fun o => Due o.remainingSeconds (⊤ : WithTop ℚ) := by
      rw [awaited, List.filter_filter]
      refine List.filter_congr fun o ho => ?_
      by_cases hd : Due o.remainingSeconds (⊤ : WithTop ℚ)
      · have hmem := hknown o ho fun hnone => not_due_none _ (hnone ▸ hd)
        rw [(List.mem_filter.mp hmem).2, Bool.and_true]
      · rw [decide_eq_false hd, Bool.false_and]
    exact hdue ▸ List.filter_sublist

/-- The head of 8 GB waits for the canary and for a task of 5 GB. Behind it the scan refuses 2.5 GB, which would take
its place beside what is left, and backfills half a GB. -/
theorem canaryPromise_of_awaited_narrow :
    let holder := { cpuRunning "canary" 2 none with profileIdentity := some "f" }
    let head := { cpuTask "head" 8 none with profileIdentity := some "f", cold := true }
    let pending := [head, cpuTask "wide" (5 / 2) none, cpuTask "narrow" (1 / 2) none]
    let running := [holder, cpuRunning "long" 5 (some 100)]
    (planDispatch pending running (cpuHost 4 4 2)).decisions.map DispatchDecision.pendingId = ["narrow"] ∧
      CanaryPromise pending running (cpuHost 4 4 2) head :=
  ⟨by decide +kernel, (canaryPromise_of_awaited ⟨by decide +kernel, by decide +kernel⟩ (by decide +kernel)
    (by decide +kernel)).1 (by decide +kernel)⟩

/-- A task of 3 GB jumps a canary-blocked head of 5 GB because a task of 5 GB will have finished by infinity. When
the canary has finished and that task has not, the head would have had 6 GB and finds 3 GB. -/
theorem canaryPromise_fails :
    let holder := { cpuRunning "canary" 2 none with profileIdentity := some "f" }
    let head := { cpuTask "head" 5 none with profileIdentity := some "f", cold := true }
    let pending := [head, cpuTask "candidate" 3 none]
    let running := [holder, cpuRunning "long" 5 (some 100)]
    (init pending running (cpuHost 4 4 2)).front.1.queue.head? = some head ∧
      (init pending running (cpuHost 4 4 2)).front.1.canaryBlocked head = true ∧
      ¬ CanaryPromise pending running (cpuHost 4 4 2) head := by
  refine ⟨by decide +kernel, by decide +kernel, fun h => ?_⟩
  have hfits := h [{ cpuRunning "canary" 2 none with profileIdentity := some "f" }]
    ⟨[cpuRunning "long" 5 (some 100)], by decide +kernel, by decide⟩ (by decide +kernel)
  revert hfits
  decide +kernel

/-! ## A head that the scan puts behind the canary -/

/-- A turn whose candidate passes every test of the scan but the canary's. -/
def Turn.passes (head : PendingEntry) (reservation : WithTop ℚ) (t : Turn) : Bool :=
  t.planner.fitsNongpu t.candidate &&
    (t.planner.placeBackfill head t.candidate reservation
      (decide (reservation ≠ ⊤) && decide (Due t.candidate.durationP90Seconds reservation))).isSome

theorem Turn.admission_isSome {reservation : WithTop ℚ} {t : Turn} :
    (t.admission head reservation).isSome = (!t.planner.canaryBlocked t.candidate && t.passes head reservation) := by
  unfold admission passes Planner.offer
  rw [Option.isSome_map]
  cases t.planner.canaryBlocked t.candidate with
  | true => rfl
  | false => cases t.planner.fitsNongpu t.candidate <;> rfl

theorem Turn.admission_task {reservation : WithTop ℚ} {t : Turn} {a : Admission}
    (h : t.admission head reservation = some a) : a.task = t.candidate := by
  obtain ⟨o, -, rfl⟩ := Option.map_eq_some_iff.mp h
  rfl

theorem Planner.canaryBlocked_of_not_held {p : Planner} {task : PendingEntry} {k : String}
    (hk : task.profileIdentity = some k) (hheld : k ∉ p.heldIdentities) : p.canaryBlocked task = false := by
  unfold canaryBlocked
  rw [hk]
  simp [hheld]

/-- **Exactly when no backfilled task takes the identity of the head.** No task with that identity passes the
other tests of the scan at its turn: the canary test itself protects the head from none of them. -/
theorem heldIdentity_iff {k : String} (hq : (init pending running cap).front.1.queue.head? = some head)
    (hheld : k ∉ (init pending running cap).front.1.heldIdentities) :
    k ∉ (cycle pending running cap).heldIdentities ↔
      ∀ t ∈ (init pending running cap).cycleTurns, t.candidate.profileIdentity = some k →
        t.passes head ((init pending running cap).front.1.reservation head) = false := by
  obtain ⟨rest, hq⟩ := List.head?_eq_some_iff.mp hq
  obtain ⟨as, bs, h⟩ := run_spec (init pending running cap)
  obtain ⟨hbs, hstate⟩ := h.backs_turns rfl hq
  have hcycle : k ∈ (cycle pending running cap).heldIdentities ↔ ∃ b ∈ bs, b.task.profileIdentity = some k := by
    rw [cycle, h.back.held, or_iff_right hheld]
  rw [hcycle]
  constructor
  · intro hno t ht hk
    obtain ⟨xs, ys, hx⟩ := List.append_of_mem ht
    -- the identity is still free at this turn, so the canary does not block the candidate
    have hfree : k ∉ t.planner.heldIdentities := by
      rw [(hstate xs t ys hx).held]
      rintro (hk | ⟨b, hb, hk⟩)
      · exact hheld hk
      · refine hno ⟨b, ?_, hk⟩
        rw [hbs, hx, List.filterMap_append]
        exact List.mem_append_left _ hb
    by_contra hpass
    have hsome : (t.admission head ((init pending running cap).front.1.reservation head)).isSome = true := by
      rw [Turn.admission_isSome, canaryBlocked_of_not_held hk hfree]
      simpa using hpass
    obtain ⟨b, hb⟩ := Option.isSome_iff_exists.mp hsome
    refine hno ⟨b, ?_, (congrArg _ (Turn.admission_task hb)).trans hk⟩
    rw [hbs]
    exact List.mem_filterMap.mpr ⟨t, ht, hb⟩
  · rintro hrefused ⟨b, hb, hk⟩
    rw [hbs] at hb
    obtain ⟨t, ht, htb⟩ := List.mem_filterMap.mp hb
    rw [Turn.admission_task htb] at hk
    have hsome : (t.admission head ((init pending running cap).front.1.reservation head)).isSome = true := by
      rw [htb]; rfl
    rw [Turn.admission_isSome, hrefused t ht hk, Bool.and_false] at hsome
    cases hsome

/-- The scan refuses a hinted sibling of 3/2 GB, which would keep the head from its place, and backfills a short task. -/
theorem heldIdentity_iff_sibling :
    let head := { cpuTask "head" 5 none with profileIdentity := some "f", cold := true }
    let pending := [head, { cpuTask "hinted" (3 / 2) none with profileIdentity := some "f" }, cpuTask "short" 2 (some 5)]
    let running := [cpuRunning "r" 2 (some 10)]
    (planDispatch pending running (cpuHost 4 4 1)).decisions.map DispatchDecision.pendingId = ["short"] ∧
      "f" ∉ (cycle pending running (cpuHost 4 4 1)).heldIdentities := by
  intro head pending running
  have hq : (init pending running (cpuHost 4 4 1)).front.1.queue.head? = some head := by decide +kernel
  exact ⟨by decide +kernel, (heldIdentity_iff hq (by decide +kernel)).mpr (by decide +kernel)⟩

/-- A sibling that is not cold, its caller having given a hint, is short enough to jump a cold head of 5 GB. From
then on the canary blocks the head. -/
theorem heldIdentity_taken :
    let head := { cpuTask "head" 5 none with profileIdentity := some "f", cold := true }
    let pending := [head, { cpuTask "hinted" 1 (some 5) with profileIdentity := some "f" }]
    let running := [cpuRunning "r" 2 (some 10)]
    (init pending running (cpuHost 4 4 1)).front.1.queue.head? = some head ∧
      "f" ∉ (init pending running (cpuHost 4 4 1)).front.1.heldIdentities ∧
      "f" ∈ (cycle pending running (cpuHost 4 4 1)).heldIdentities ∧
      (cycle pending running (cpuHost 4 4 1)).canaryBlocked head = true :=
  ⟨by decide +kernel, by decide +kernel, by decide +kernel, by decide +kernel⟩

/-! ## Cold tasks -/

/-- **A cold task is decided only while nobody has its identity**: no running task, and none decided before it. -/
theorem cycle_cold {pending : List PendingEntry} {running : List RunningEntry} {cap : Capacity} {xs ys : List Admission}
    {a : Admission} (h : (cycle pending running cap).admitted = xs ++ a :: ys) (hcold : a.task.cold = true) {k : String}
    (hk : a.task.profileIdentity = some k) :
    (∀ o ∈ running, o.profileIdentity ≠ some k) ∧ ∀ b ∈ xs, b.task.profileIdentity ≠ some k := by
  obtain ⟨as, bs, hspec⟩ := run_spec (init pending running cap)
  have hall := hspec.all
  rw [← cycle_admitted hspec, h] at hall
  obtain ⟨q, rr, hq, hgrant, -⟩ := hall.split
  have hfree : k ∉ q.heldIdentities := by
    have hcanary := hgrant.canary
    unfold canaryBlocked at hcanary
    rw [hcold, hk] at hcanary
    simpa using hcanary
  rw [hq.held, not_or] at hfree
  refine ⟨fun o ho hid => hfree.1 ?_, fun b hb hid => hfree.2 ⟨b, hb, hid⟩⟩
  exact List.mem_filterMap.mpr ⟨o, ho, hid⟩

end AdaptiveExecutor
