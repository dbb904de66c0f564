import AdaptiveExecutor.Scheduling.Plan

/-!
# The blocked head

What the scan owes the head that front admission leaves, for estimates that are not negative.

* `RunSpec.backs_eq_nil` : behind a head that no release lets in, nothing is backfilled;
* `head_reservation` : the reservation of a head blocked by resources, as a threshold;
* `RunSpec.kept`, `backfill_never_delays` : whenever the head would fit with nothing backfilled, it fits beside the
  backfilled tasks.
-/

namespace AdaptiveExecutor
open Backfill

/-- The room with the tasks among `bs` given back whose known duration is over by `t`. -/
def giveBack (bs : List Admission) (t : WithTop ℚ) (r : Room) : Room :=
  bs.foldl (fun r b =>
    if Due b.task.durationP90Seconds t then r.give b.task.memoryGb b.task.vramGb b.gpuId else r) r

theorem giveBack_eq (t : WithTop ℚ) : ∀ (bs : List Admission) (r : Room),
    giveBack bs t r = project RunningEntry.load RunningEntry.remainingSeconds (bs.map Admission.occupant) r t
  | [], r => by simp [giveBack, project]
  | b :: bs, r => by
    unfold giveBack
    rw [List.foldl_cons]
    refine (giveBack_eq t bs _).trans ?_
    rw [project, project, List.map_cons, released_cons, add_comm, add_vadd]
    split_ifs with h h'
    · rw [Room.give_eq]; rfl
    · exact absurd h h'
    · rename_i h'; exact absurd h' h
    · rw [zero_vadd]

namespace Planner

structure NonnegEstimates (p : Planner) : Prop where
  queue : ∀ task ∈ p.queue, 0 ≤ task.memoryGb ∧ 0 ≤ task.vramGb
  occupants : ∀ o ∈ p.occupants, 0 ≤ o.memoryGb ∧ 0 ≤ o.vramGb

variable {p : Planner} {as bs : List Admission} {head : PendingEntry} {rest : List PendingEntry}

section Nonneg
variable (hnn : p.NonnegEstimates) (h : RunSpec p as bs)
include hnn h

theorem RunSpec.load_nonneg {a : Admission} (ha : a ∈ as ++ bs) : 0 ≤ a.load := by
  have hmem := hnn.queue a.task (h.sublist.subset (List.mem_map_of_mem ha))
  exact loadOn_nonneg hmem.1 hmem.2 a.gpuId

theorem RunSpec.backs_nonneg : ∀ o ∈ bs.map Admission.occupant, 0 ≤ o.load :=
  List.forall_mem_map.mpr fun _ hb => h.load_nonneg hnn (List.mem_append_right as hb)

theorem RunSpec.front_nonneg : p.front.1.NonnegOccupants := by
  intro o ho
  rw [h.occupants] at ho
  rcases List.mem_append.mp ho with ho | ho
  · exact loadOn_nonneg (hnn.occupants o ho).1 (hnn.occupants o ho).2 o.gpuId
  · obtain ⟨a, ha, rfl⟩ := List.mem_map.mp ho
    exact h.load_nonneg hnn (List.mem_append_left bs ha)

/-- **Nothing is backfilled behind a head that no release lets in.** -/
theorem RunSpec.backs_eq_nil (hq : p.front.1.queue = head :: rest) (hinf : p.front.1.reservation head = ⊤)
    (hno : ¬ p.cap.Admits head (p.front.1.stateAt ⊤)) : bs = [] := by
  rcases h.scan with hbs | ⟨head', rest', -, hq', -, -, hscan⟩
  · exact hbs
  obtain ⟨rfl, rfl⟩ := List.cons.inj (hq.symm.trans hq')
  rw [hinf, h.front.cap_eq] at hscan
  rw [stateAt_eq] at hno
  exact List.map_eq_nil_iff.mp (hscan.eq_nil (Capacity.admits_mono _ head) (h.backs_nonneg hnn) hno)

end Nonneg

/-- A head that front admission has left and that the canary does not block does not fit now. -/
theorem RunSpec.head_blocked (h : RunSpec p as bs) (hb : p.front.2 = true) (hq : p.front.1.queue = head :: rest)
    (hc : p.front.1.canaryBlocked head = false) : ¬ p.cap.Admits head p.front.1.pools.toRoom := by
  obtain ⟨-, head', rest', hq', hstop⟩ := h.frontEnd.stop hb
  obtain ⟨rfl, rfl⟩ := List.cons.inj (hq.symm.trans hq')
  rw [← h.front.cap_eq]
  exact hstop.resolve_left (by rw [hc]; exact Bool.false_ne_true)

/-- **The reservation of a resource-blocked head**: the head fits in the projection exactly from it on. -/
theorem RunSpec.head_reservation (h : RunSpec p as bs) (hnn : p.NonnegEstimates) (hb : p.front.2 = true)
    (hq : p.front.1.queue = head :: rest) (hc : p.front.1.canaryBlocked head = false) (t : WithTop ℚ) :
    p.cap.Admits head (p.front.1.stateAt t) ↔
      p.front.1.reservation head ≠ ⊤ ∧ p.front.1.reservation head ≤ t := by
  have hnow := h.head_blocked hb hq hc
  rw [reservation, if_neg (by rw [hc]; exact Bool.false_ne_true), ← h.front.cap_eq]
  exact computeReservation_le_iff (h.front_nonneg hnn) (by rwa [h.front.cap_eq]) t

/-- **The scan keeps what the head was promised**, with the backfilled tasks among those that come due. -/
theorem RunSpec.kept (h : RunSpec p as bs) (hnn : p.NonnegEstimates) (hq : p.front.1.queue = head :: rest)
    (hc : p.front.1.canaryBlocked head = false) {t : WithTop ℚ} (hfits : p.cap.Admits head (p.front.1.stateAt t)) :
    p.cap.Admits head (project RunningEntry.load RunningEntry.remainingSeconds
      (p.front.1.occupants ++ bs.map Admission.occupant) p.run.pools.toRoom t) := by
  rcases h.scan with rfl | ⟨head', rest', hb, hq', -, -, hscan⟩
  · have hroom : p.run.pools.toRoom = p.front.1.pools.toRoom := by simpa using h.back.room
    rwa [List.map_nil, List.append_nil, hroom, ← stateAt_eq]
  · obtain ⟨rfl, rfl⟩ := List.cons.inj (hq.symm.trans hq')
    have hres := h.head_reservation hnn hb hq hc
    obtain ⟨hfin, hle⟩ := (hres t).mp hfits
    have hat := (hres _).mpr ⟨hfin, le_rfl⟩
    rw [h.front.cap_eq] at hscan
    rw [stateAt_eq] at hat
    exact hscan.fits_project (Capacity.admits_mono _ head) (h.front_nonneg hnn) (h.backs_nonneg hnn) hat hle

end Planner

open Planner

/-- **Backfill never delays a resource-blocked head.** If the head fits in what the tasks running and
front-admitted leave at `t`, then it still does when every backfilled task has been admitted and only those
with a known duration of at most `t` have been released. -/
theorem backfill_never_delays {pending : List PendingEntry} {running : List RunningEntry} {cap : Capacity}
    (hpending : ∀ task ∈ pending, 0 ≤ task.memoryGb ∧ 0 ≤ task.vramGb)
    (hrunning : ∀ o ∈ running, 0 ≤ o.memoryGb ∧ 0 ≤ o.vramGb) {head : PendingEntry}
    (hq : (init pending running cap).front.1.queue.head? = some head)
    (hc : (init pending running cap).front.1.canaryBlocked head = false) (t : WithTop ℚ) (rr rr' : Int)
    (hfits : (cap.fits head ((init pending running cap).front.1.stateAt t) rr).isSome) :
    (cap.fits head (giveBack (cycle pending running cap).backfilled t ((cycle pending running cap).stateAt t))
      rr').isSome := by
  have hnn : (init pending running cap).NonnegEstimates := ⟨hpending, hrunning⟩
  obtain ⟨rest, hq⟩ := List.head?_eq_some_iff.mp hq
  obtain ⟨as, bs, h⟩ := run_spec (init pending running cap)
  rw [Capacity.fits_isSome_iff] at hfits ⊢
  have hkept := h.kept hnn hq hc hfits
  rw [cycle, h.backfilled rfl, giveBack_eq, stateAt_eq, h.run_occupants]
  rwa [project, project, vadd_vadd, ← released_append, released_perm _ _ List.perm_append_comm]

/-! ## CPU-only inputs, for concrete cases -/

def cpuTask (id : String) (memoryGb : ℚ) (duration : Option ℚ) : PendingEntry where
  id := id
  memoryGb := memoryGb
  vramGb := 0
  cpuCores := 1
  durationP90Seconds := duration

def cpuRunning (id : String) (memoryGb : ℚ) (remaining : Option ℚ) : RunningEntry where
  id := id
  memoryGb := memoryGb
  vramGb := 0
  gpuId := none
  remainingSeconds := remaining

def cpuHost (memoryFreeGb : ℚ) (maxWorkers runningCount : Int) : Capacity where
  memoryFreeGb := memoryFreeGb
  gpuFreeVramGb := fun _ => none
  gpuRoundRobin := []
  nextGpuIndex := 0
  maxWorkers := maxWorkers
  runningCount := runningCount
  snapshotPresent := true

/-- A short and a disjoint task jump a head of 8 GB that waits ten seconds for 6 GB. -/
theorem backfill_never_delays_short :
    let pending := [cpuTask "head" 8 none, cpuTask "short" 2 (some 5), cpuTask "disjoint" 1 none]
    ((cpuHost 6 4 1).fits (cpuTask "head" 8 none)
      (giveBack (cycle pending [cpuRunning "r" 6 (some 10)] (cpuHost 6 4 1)).backfilled (10 : ℚ)
        ((cycle pending [cpuRunning "r" 6 (some 10)] (cpuHost 6 4 1)).stateAt (10 : ℚ))) 0).isSome :=
  backfill_never_delays (by decide) (by decide) (by decide +kernel) (by decide +kernel) (10 : ℚ) 0 0 (by decide +kernel)

end AdaptiveExecutor
