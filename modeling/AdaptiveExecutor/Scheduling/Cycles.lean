import Mathlib.Logic.Relation
import AdaptiveExecutor.Scheduling.Machine

/-!
# The reservation over a whole run

Cycles at later and later times on one machine. Between two of them tasks leave, the known ones no later than
expected, and new ones queue up behind.

* `Machine.Elapse`, `NextCycle` : what happens between two cycles;
* `Promised` : the invariant: the head is first, and it fits once what is expected by the deadline has left;
* `promised_dispatch`, `promised_elapse` : a cycle makes or keeps the promise, and so does what follows it;
* `reservation_never_slips` : the reservation of a blocked head, over all later cycles.
-/

namespace AdaptiveExecutor
open Backfill Planner

namespace Machine

/-- From one cycle to the next, at `now`: the tasks `gone` have given back what they held, every known end is
still to come, and the new tasks are at the back of the queue. -/
structure Elapse (now : ℚ) (gone : List RunningTask) (arrivals : List PendingEntry) (m m' : Machine) : Prop where
  left : m.running.Perm (m'.running ++ gone)
  room : m'.room = gone.foldl (fun r o => r.give o.memoryGb o.vramGb o.gpuId) m.room
  ends : ∀ o ∈ m'.running, ∀ e, o.expectedEnd = some e → now < e
  pending : m'.pending = m.pending ++ arrivals
  index : m'.nextGpuIndex = m.nextGpuIndex

theorem Elapse.room_eq {now : ℚ} {gone : List RunningTask} {arrivals : List PendingEntry} {m m' : Machine}
    (h : Elapse now gone arrivals m m') : m'.room = (gone.map RunningTask.load).sum +ᵥ m.room := by
  rw [h.room, RunningTask.foldl_give]

end Machine

/-- A cycle is a time and the machine that it finds. -/
abbrev Cycle := ℚ × Machine

namespace Cycle

def planner (host : Host) (c : Cycle) : Planner := c.2.planner host c.1

/-- The cycle starts `task`. -/
def Decides (host : Host) (task : PendingEntry) (c : Cycle) : Prop :=
  task.id ∈ (c.planner host).run.plan.decisions.map DispatchDecision.pendingId

/-- The head is the first task left by front admission, and the canary does not block it. -/
structure Blocked (host : Host) (head : PendingEntry) (c : Cycle) : Prop where
  stopped : (c.planner host).front.2 = true
  first : (c.planner host).front.1.queue.head? = some head
  canary : (c.planner host).front.1.canaryBlocked head = false

end Cycle

/-- Two consecutive cycles: the decisions of the first are executed, and the machine elapses to the second. -/
def NextCycle (host : Host) (c c' : Cycle) : Prop :=
  c.1 ≤ c'.1 ∧ c'.2.Valid ∧ ∃ gone arrivals, Machine.Elapse c'.1 gone arrivals (c.2.dispatch host c.1) c'.2

/-! ## The invariant -/

/-- A machine at which `head` is first in the queue, nothing exclusive runs, and the head fits once every task
expected to end by the deadline has given back what it holds. -/
structure Promised (host : Host) (head : PendingEntry) (deadline : ℚ) (m : Machine) : Prop where
  valid : m.Valid
  first : ∃ rest, m.pending = head :: rest
  alone : ∀ o ∈ m.running, o.exclusive = false
  fits : (m.capacity host).Admits head
    (project RunningTask.load RunningTask.expectedEnd m.running m.room (deadline : WithTop ℚ))

section Promise
variable {host : Host} {head : PendingEntry} {deadline now : ℚ} {m m' : Machine}

theorem released_entry_le {os : List RunningTask} (hv : ∀ o ∈ os, 0 ≤ o.load) :
    released RunningEntry.load RunningEntry.remainingSeconds (os.map (RunningTask.entry now))
        ((deadline - now : ℚ) : WithTop ℚ) ≤
      released RunningTask.load RunningTask.expectedEnd os (deadline : WithTop ℚ) := by
  induction os with
  | nil => exact le_rfl
  | cons o os ih =>
    obtain ⟨ho, hos⟩ := List.forall_mem_cons.mp hv
    rw [List.map_cons, released_cons, released_cons]
    refine add_le_add ?_ (ih hos)
    split_ifs with h h'
    · exact le_rfl
    · have hdue := RunningTask.due_of_remaining (show Due (o.remaining now) _ from h)
      rw [add_sub_cancel] at hdue
      exact absurd hdue h'
    · exact ho
    · exact le_rfl

theorem released_entry_eq {os : List RunningTask} (hends : ∀ o ∈ os, ∀ e, o.expectedEnd = some e → now < e) :
    released RunningEntry.load RunningEntry.remainingSeconds (os.map (RunningTask.entry now))
        ((deadline - now : ℚ) : WithTop ℚ) =
      released RunningTask.load RunningTask.expectedEnd os (deadline : WithTop ℚ) := by
  refine released_congr _ _ ?_
  rw [List.forall₂_map_left_iff]
  refine List.forall₂_same.mpr fun o ho => ⟨rfl, ?_⟩
  have hdue := RunningTask.due_remaining_iff (s := deadline - now) (hends o ho)
  rwa [add_sub_cancel] at hdue

theorem released_occupant (cs : List Admission) :
    released RunningEntry.load RunningEntry.remainingSeconds (cs.map Admission.occupant)
        ((deadline - now : ℚ) : WithTop ℚ) =
      released RunningTask.load RunningTask.expectedEnd (cs.map (Admission.start now)) (deadline : WithTop ℚ) := by
  refine released_congr _ _ ?_
  rw [List.forall₂_map_left_iff, List.forall₂_map_right_iff]
  refine List.forall₂_same.mpr fun a _ => ⟨rfl, ?_⟩
  unfold RunningTask.expectedEnd Admission.start PendingEntry.start Admission.occupant
  cases a.task.durationP90Seconds with
  | none => simp
  | some d =>
    simp only [due_some, WithTop.coe_le_coe, Option.map_some]
    constructor <;> intro h <;> linarith

/-- **A cycle makes the promise**: after a cycle that leaves the head blocked with a reservation not after the
deadline, the head is promised for the deadline. -/
theorem promised_dispatch (hm : m.Valid) (hb : Cycle.Blocked host head (now, m)) {r : ℚ}
    (hr : (m.planner host now).front.1.reservation head = r) (hle : now + r ≤ deadline) :
    Promised host head deadline (m.dispatch host now) := by
  obtain ⟨hstop, hq, hc⟩ := hb
  obtain ⟨rest, hq⟩ := List.head?_eq_some_iff.mp hq
  obtain ⟨as, bs, h⟩ := run_spec (m.planner host now)
  have hnn := hm.nonneg host now
  have hsub : ((as ++ bs).map Admission.task).Sublist m.pending := h.sublist
  have hrun : (m.dispatch host now).running = _ := Machine.execute_running hm.ids h.all hsub
  have hroom : (m.dispatch host now).room = _ := Machine.execute_room hm.ids h.all hsub
  have hvalid : (m.dispatch host now).Valid := Machine.execute_valid hm.ids h.all hsub hm
  refine ⟨hvalid, ?_, ?_, ?_⟩
  · exact Machine.execute_first hm.ids (hq ▸ h.queue) (h.back_sublist hq) h.all
  · have hcount : (m.capacity host).runningCount = (m.running.map (RunningTask.entry now)).length := by
      simp [Machine.capacity]
    rw [hrun]
    refine List.forall_mem_append.mpr ⟨fun o ho => ?_, List.forall_mem_map.mpr fun a ha => ?_⟩
    · exact front_of_exclusive _ hstop (o.entry now) (List.mem_map_of_mem ho)
    · rcases List.mem_append.mp ha with ha | ha
      · exact (h.frontEnd.stop hstop).1 a ha
      · exact h.backs_not_exclusive hcount hnn.queue hnn.occupants a ha
  · have hres := h.head_reservation hnn hstop hq hc
    have hfits := (hres (r : WithTop ℚ)).mpr ⟨by rw [hr]; exact WithTop.coe_ne_top, hr.le⟩
    have hlater : (m.planner host now).cap.Admits head
        ((m.planner host now).front.1.stateAt ((deadline - now : ℚ) : WithTop ℚ)) := by
      refine (hres _).mpr ⟨((hres _).mp hfits).1, ?_⟩
      rw [hr, WithTop.coe_le_coe]
      linarith
    -- the head fits beside what the cycle starts, in its own times and so in absolute ones
    refine Machine.admits_capacity m _ ((Capacity.admits_mono _ head) ?_ (h.kept hnn hq hc hlater))
    rw [hroom, hrun, h.occupants, List.append_assoc, ← List.map_append, project, project, released_append,
      released_append, released_occupant]
    refine IsOrderedVAdd.vadd_le_vadd_right _ _ (add_le_add_left (released_entry_le hm.load_nonneg) _) _

theorem promised_elapse {gone : List RunningTask} {arrivals : List PendingEntry}
    (h : Promised host head deadline m) (hm' : m'.Valid) (he : m.Elapse now gone arrivals m') :
    Promised host head deadline m' := by
  obtain ⟨rest, hfirst⟩ := h.first
  refine ⟨hm', ⟨rest ++ arrivals, by rw [he.pending, hfirst]; rfl⟩, fun o ho => ?_, ?_⟩
  · exact h.alone o (he.left.mem_iff.mpr (List.mem_append_left gone ho))
  · rw [he.room_eq]
    refine Machine.admits_capacity m _ (fits_project_leave (Capacity.admits_mono _ head) he.left (fun o ho => ?_) h.fits)
    exact h.valid.load_nonneg o (he.left.mem_iff.mpr (List.mem_append_right m'.running ho))

/-- A promised head is admitted, or it is blocked with a reservation that ends by the deadline, which is still
to come. -/
theorem promised_cycle (h : Promised host head deadline m) (hcold : head.cold = false)
    (hends : ∀ o ∈ m.running, ∀ e, o.expectedEnd = some e → now < e) :
    Cycle.Decides host head (now, m) ∨ now < deadline ∧ Cycle.Blocked host head (now, m) ∧
      ∃ r : ℚ, (m.planner host now).front.1.reservation head = r ∧ now + r ≤ deadline := by
  obtain ⟨rest, hfirst⟩ := h.first
  have hocc : ∀ o ∈ (m.planner host now).occupants, o.exclusive = false := List.forall_mem_map.mpr h.alone
  have hc : (m.planner host now).canaryBlocked head = false := by simp [canaryBlocked, hcold]
  obtain ⟨as, bs, hspec⟩ := run_spec (m.planner host now)
  by_cases hnow : (m.planner host now).cap.Admits head (m.planner host now).pools.toRoom
  · left
    obtain ⟨a, ha, rfl⟩ := front_of_admits hocc hfirst hc hnow
    have hmem : a ∈ (m.planner host now).run.admitted := by
      rw [hspec.back.admitted_eq]
      exact List.mem_append_left bs ha
    exact List.mem_map.mpr ⟨a.decision, List.mem_map_of_mem hmem, rfl⟩
  · right
    have hfront := front_of_blocked hocc hfirst (.inr hnow)
    have hqueue : (m.planner host now).front.1.queue = head :: rest := by rw [hfront]; exact hfirst
    have hstop : (m.planner host now).front.2 = true := by rw [hfront]
    have hc' : (m.planner host now).front.1.canaryBlocked head = false := by rw [hfront]; exact hc
    -- the projection of the planner to the deadline is the promised one
    have hfits : (m.planner host now).cap.Admits head
        ((m.planner host now).front.1.stateAt ((deadline - now : ℚ) : WithTop ℚ)) := by
      have hproj : (m.planner host now).stateAt ((deadline - now : ℚ) : WithTop ℚ) =
          project RunningTask.load RunningTask.expectedEnd m.running m.room (deadline : WithTop ℚ) := by
        rw [stateAt_eq, project, project, ← released_entry_eq hends]
        rfl
      rw [hfront, hproj]
      exact h.fits
    obtain ⟨hfin, hle⟩ := (hspec.head_reservation (h.valid.nonneg host now) hstop hqueue hc' _).mp hfits
    obtain ⟨r, hr⟩ := WithTop.ne_top_iff_exists.mp hfin
    rw [← hr, WithTop.coe_le_coe] at hle
    refine ⟨?_, ⟨hstop, List.head?_eq_some_iff.mpr ⟨rest, hqueue⟩, hc'⟩, r, hr.symm, by linarith⟩
    -- were the deadline past, nothing would be due by it
    by_contra hpast
    refine hnow ?_
    rw [hfront, stateAt_eq, project] at hfits
    have hnone : released RunningEntry.load RunningEntry.remainingSeconds (m.planner host now).occupants
        ((deadline - now : ℚ) : WithTop ℚ) = 0 := by
      unfold released
      rw [List.filter_eq_nil_iff.mpr ?_]
      · rfl
      · intro o ho
        obtain ⟨o, hor, rfl⟩ := List.mem_map.mp ho
        rw [decide_eq_true_eq]
        rintro ⟨d, hd, hdle⟩
        unfold RunningTask.entry RunningTask.remaining at hd
        rw [WithTop.coe_le_coe] at hdle
        cases he : o.expected with
        | none => simp [he] at hd
        | some expected =>
          simp only [he] at hd
          split_ifs at hd with hover
          rw [Option.some.injEq] at hd
          linarith
    rwa [hnone, zero_vadd] at hfits

end Promise

/-! ## The run -/

/-- The promise over a run: at every later cycle before which the head has not been admitted. -/
theorem promised_run {host : Host} {head : PendingEntry} {c c' : Cycle} {r : ℚ} (hm : c.2.Valid)
    (hb : c.Blocked host head) (hcold : head.cold = false)
    (hr : (c.planner host).front.1.reservation head = r)
    (hrun : Relation.TransGen (fun c c' => NextCycle host c c' ∧ ¬ c.Decides host head) c c') :
    Promised host head (c.1 + r) c'.2 ∧ ∀ o ∈ c'.2.running, ∀ e, o.expectedEnd = some e → c'.1 < e := by
  induction hrun with
  | single h =>
    obtain ⟨⟨-, hv, gone, arrivals, he⟩, -⟩ := h
    exact ⟨promised_elapse (promised_dispatch hm hb hr le_rfl) hv he, he.ends⟩
  | @tail c₁ c₂ _ h ih =>
    obtain ⟨⟨-, hv, gone, arrivals, he⟩, hno⟩ := h
    obtain ⟨hp, hends⟩ := ih
    obtain ⟨-, hb₁, r₁, hr₁, hle⟩ := (promised_cycle hp hcold hends).resolve_left hno
    exact ⟨promised_elapse (promised_dispatch hp.valid hb₁ hr₁ hle) hv he, he.ends⟩

/-- **The reservation never slips.** A head that a cycle at `c.1` leaves blocked with reservation `r` is at every
later cycle admitted, or blocked with a reservation that ends no later than `c.1 + r`; from `c.1 + r` on it is
admitted. -/
theorem reservation_never_slips {host : Host} {head : PendingEntry} {c c' : Cycle} {r : ℚ} (hm : c.2.Valid)
    (hb : c.Blocked host head) (hcold : head.cold = false)
    (hr : (c.planner host).front.1.reservation head = r)
    (hrun : Relation.TransGen (fun c c' => NextCycle host c c' ∧ ¬ c.Decides host head) c c') :
    (c'.Decides host head ∨ c'.Blocked host head ∧
      ∃ r' : ℚ, (c'.planner host).front.1.reservation head = r' ∧ c'.1 + r' ≤ c.1 + r) ∧
    (c.1 + r ≤ c'.1 → c'.Decides host head) := by
  obtain ⟨hp, hends⟩ := promised_run hm hb hcold hr hrun
  rcases promised_cycle hp hcold hends with hdec | ⟨hlt, hblocked, hres⟩
  · exact ⟨.inl hdec, fun _ => hdec⟩
  · exact ⟨.inr ⟨hblocked, hres⟩, fun hle => absurd hlt (not_lt.mpr hle)⟩

/-- A head of 8 GB waits for 6 GB that are expected back after ten seconds. -/
def waitingMachine : Machine where
  memoryFreeGb := (4 : ℚ)
  gpuFreeVramGb := fun _ => none
  nextGpuIndex := 0
  pending := [cpuTask "head" 8 none, cpuTask "short" 2 (some 5)]
  running := [(cpuTask "r" 6 (some 10)).start 0 none]

theorem reservation_never_slips_waiting :
    let host : Host := ⟨[], 4, true⟩
    let head := cpuTask "head" 8 none
    let c' : Cycle := (4, waitingMachine.dispatch host 0)
    (c'.Decides host head ∨ c'.Blocked host head ∧
      ∃ r' : ℚ, (c'.planner host).front.1.reservation head = r' ∧ c'.1 + r' ≤ 0 + 10) ∧
    (0 + 10 ≤ c'.1 → c'.Decides host head) := by
  refine reservation_never_slips (c := (0, waitingMachine)) ⟨by decide, by decide, by decide⟩
    ⟨by decide +kernel, by decide +kernel, by decide +kernel⟩ rfl (by decide +kernel) (.single ⟨⟨by decide, ?_, [], [], ?_⟩, ?_⟩)
  · exact ⟨by decide +kernel, by decide +kernel, by decide +kernel⟩
  · exact ⟨by decide +kernel, rfl, by decide +kernel, (List.append_nil _).symm, rfl⟩
  · unfold Cycle.Decides
    decide +kernel

end AdaptiveExecutor
