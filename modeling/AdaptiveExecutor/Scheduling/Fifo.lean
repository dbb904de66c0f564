import Mathlib.Order.Monotone.Basic
import AdaptiveExecutor.Scheduling.Canary
import AdaptiveExecutor.Scheduling.Machine

/-!
# The scan against strict FIFO

Two runs of one workload, with the same cycle times, arrivals and actual run times: one driven by the planner,
one by its front admission alone.

* `Workload`, `Workload.machine` : a workload and the machine before each cycle, for a policy;
* `Ready` : the head can start at a time once what is really over by then has left; `ready_pass`,
  `ready_admission` : time keeps it, and an admission keeps it exactly when it is harmless;
* `starts_no_later_iff` : the head starts no later than under strict FIFO exactly when every task that jumps it
  is harmless for the time at which strict FIFO starts it.
-/

namespace AdaptiveExecutor
open Backfill Planner

/-! ## Workloads -/

/-- What a run is given: the machine before the first cycle, the times of the cycles, the arrivals after each, and
for how long each task really runs (for ever if `none`). -/
structure Workload where
  host : Host
  start : Machine
  time : ℕ → ℚ
  arrivals : ℕ → List PendingEntry
  runTime : String → Option ℚ
  valid : start.Valid
  time_mono : Monotone time
  ids : ∀ n, ((start.pending ++ (List.range n).flatMap arrivals).map PendingEntry.id).Nodup
  nonneg : ∀ n, ∀ task ∈ arrivals n, 0 ≤ task.memoryGb ∧ 0 ≤ task.vramGb
  /-- Nothing runs for longer than expected. -/
  within_running : ∀ o ∈ start.running, ∀ d, o.expected = some d → ∃ x, runTime o.id = some x ∧ x ≤ d
  within : ∀ n, ∀ task ∈ start.pending ++ (List.range n).flatMap arrivals, ∀ d,
    task.durationP90Seconds = some d → ∃ x, runTime task.id = some x ∧ x ≤ d

def Planner.fifo (p : Planner) : Planner := p.front.1

namespace Workload
variable (w : Workload)

def actualEnd (o : RunningTask) : Option ℚ := (w.runTime o.id).map (o.startedAt + ·)

/-- Until `now` tasks leave at their actual ends, and new ones arrive. -/
def pass (now : ℚ) (arrivals : List PendingEntry) (m : Machine) : Machine :=
  let gone := m.running.filter fun o => Due (w.actualEnd o) (now : WithTop ℚ)
  let room := gone.foldl (fun r o => r.give o.memoryGb o.vramGb o.gpuId) m.room
  { memoryFreeGb := room.memoryFree
    gpuFreeVramGb := room.gpuFree
    nextGpuIndex := m.nextGpuIndex
    pending := m.pending ++ arrivals
    running := m.running.filter fun o => ¬ Due (w.actualEnd o) (now : WithTop ℚ) }

/-- The machine before cycle `n`. -/
def machine (policy : Planner → Planner) : ℕ → Machine
  | 0 => w.start
  | n + 1 =>
    let m := machine policy n
    w.pass (w.time (n + 1)) (w.arrivals n) (m.execute (w.time n) (policy (m.planner w.host (w.time n))).plan)

/-- The planner of cycle `n`. -/
def planner (policy : Planner → Planner) (n : ℕ) : Planner := (w.machine policy n).planner w.host (w.time n)

theorem machine_succ (policy : Planner → Planner) (n : ℕ) :
    w.machine policy (n + 1) = w.pass (w.time (n + 1)) (w.arrivals n)
      ((w.machine policy n).execute (w.time n) (policy (w.planner policy n)).plan) := rfl

/-- Cycle `n` starts `task`. -/
def Decides (policy : Planner → Planner) (task : PendingEntry) (n : ℕ) : Prop :=
  task.id ∈ (policy (w.planner policy n)).plan.decisions.map DispatchDecision.pendingId

/-- Cycle `n` is the one that starts `task`. -/
def StartsAt (policy : Planner → Planner) (task : PendingEntry) (n : ℕ) : Prop :=
  w.Decides policy task n ∧ ∀ k < n, ¬ w.Decides policy task k

instance (policy : Planner → Planner) (task : PendingEntry) (n : ℕ) : Decidable (w.Decides policy task n) :=
  inferInstanceAs (Decidable (_ ∈ _))

instance (policy : Planner → Planner) (task : PendingEntry) (n : ℕ) : Decidable (w.StartsAt policy task n) :=
  inferInstanceAs (Decidable (_ ∧ _))

theorem pass_room (now : ℚ) (arrivals : List PendingEntry) (m : Machine) : (w.pass now arrivals m).room =
    ((m.running.filter fun o => Due (w.actualEnd o) (now : WithTop ℚ)).map RunningTask.load).sum +ᵥ m.room := by
  have hroom := RunningTask.foldl_give (m.running.filter fun o => Due (w.actualEnd o) (now : WithTop ℚ)) m.room
  have hslots : ∀ os : List RunningTask, (os.map RunningTask.load).sum.2.2 = os.length := by
    intro os
    induction os with
    | nil => rfl
    | cons o os ih =>
      rw [List.map_cons, List.sum_cons, Prod.snd_add, Prod.snd_add, ih, List.length_cons]
      change 1 + (os.length : ℤ) = _
      push_cast
      ring
  refine Room.ext ?_ (fun g => ?_) ?_
  · rw [← hroom]; rfl
  · rw [← hroom]; rfl
  · rw [vadd_slots, hslots]
    have hlen := (List.filter_append_perm (fun o => decide (Due (w.actualEnd o) (now : WithTop ℚ))) m.running).length_eq
    rw [List.length_append] at hlen
    change ((m.running.filter fun o => ¬ Due (w.actualEnd o) (now : WithTop ℚ)).length : ℤ) = m.running.length - _
    simp only [decide_not] at hlen ⊢
    omega

/-! ## When the head can start -/

end Workload

/-- A holder of `identity` keeps the head behind the canary. -/
def PendingEntry.Shares (head : PendingEntry) (identity : Option String) : Prop :=
  head.cold = true ∧ ∃ k, head.profileIdentity = some k ∧ identity = some k

namespace Planner
variable {p : Planner} {head : PendingEntry} {rest : List PendingEntry}

theorem canaryBlocked_iff : p.canaryBlocked head = true ↔
    head.cold = true ∧ ∃ k, head.profileIdentity = some k ∧ k ∈ p.heldIdentities := by
  unfold canaryBlocked
  cases head.profileIdentity with
  | none => simp
  | some k => simp

structure CanStart (p : Planner) (head : PendingEntry) : Prop where
  admits : p.cap.Admits head p.pools.toRoom
  canary : p.canaryBlocked head = false
  alone : ∀ o ∈ p.occupants, o.exclusive = false

theorem CanStart.admitted (h : p.CanStart head) (hq : p.queue = head :: rest) :
    ∃ a ∈ p.front.1.admitted, a.task = head := front_of_admits h.alone hq h.canary h.admits

theorem front_of_not_canStart (h : ¬ p.CanStart head) (hq : p.queue = head :: rest) : p.front.1 = p := by
  by_cases hocc : ∀ o ∈ p.occupants, o.exclusive = false
  · rw [front_of_blocked hocc hq ?_]
    by_cases hc : p.canaryBlocked head = true
    · exact .inl hc
    · exact .inr fun hadm => h ⟨hadm, by simpa using hc, hocc⟩
  · push Not at hocc
    obtain ⟨o, ho, hex⟩ := hocc
    rw [front, if_pos (List.any_eq_true.mpr ⟨o, ho, by simpa using hex⟩)]

end Planner

namespace Workload
variable {w : Workload} {head : PendingEntry} {deadline now : ℚ} {os : List RunningTask} {r : Room}

/-- Beside the tasks `os`, in the room `r`, the head can start at the deadline: it fits once those over by then
have left, and none of the others is exclusive or holds its identity. -/
structure Ready (w : Workload) (head : PendingEntry) (deadline : ℚ) (os : List RunningTask) (r : Room) : Prop where
  fits : (w.start.capacity w.host).Admits head
    (project RunningTask.load w.actualEnd os r (deadline : WithTop ℚ))
  clear : ∀ o ∈ os, ¬ Due (w.actualEnd o) (deadline : WithTop ℚ) →
    o.exclusive = false ∧ ¬ head.Shares o.profileIdentity

theorem ready_pass (hle : now ≤ deadline) :
    w.Ready head deadline (os.filter fun o => ¬ Due (w.actualEnd o) (now : WithTop ℚ))
        (((os.filter fun o => Due (w.actualEnd o) (now : WithTop ℚ)).map RunningTask.load).sum +ᵥ r) ↔
      w.Ready head deadline os r := by
  have hlater : ∀ o, Due (w.actualEnd o) (now : WithTop ℚ) → Due (w.actualEnd o) (deadline : WithTop ℚ) :=
    fun o h => h.mono (WithTop.coe_le_coe.mpr hle)
  have hproj : project RunningTask.load w.actualEnd (os.filter fun o => ¬ Due (w.actualEnd o) (now : WithTop ℚ))
        (((os.filter fun o => Due (w.actualEnd o) (now : WithTop ℚ)).map RunningTask.load).sum +ᵥ r)
        (deadline : WithTop ℚ) =
      project RunningTask.load w.actualEnd os r (deadline : WithTop ℚ) := by
    rw [project, project, vadd_vadd]
    congr 1
    induction os with
    | nil => simp
    | cons o os ih =>
      by_cases hnow : Due (w.actualEnd o) (now : WithTop ℚ)
      · simp only [List.filter_cons, hnow, not_true, decide_true, decide_false, if_true, Bool.false_eq_true,
          if_false, List.map_cons, List.sum_cons, released_cons, hlater o hnow] at ih ⊢
        rw [← ih]
        abel
      · simp only [List.filter_cons, hnow, not_false_eq_true, decide_true, decide_false, if_true,
          Bool.false_eq_true, if_false, released_cons] at ih ⊢
        rw [← ih]
        abel
  constructor
  · rintro ⟨hfits, hclear⟩
    rw [hproj] at hfits
    refine ⟨hfits, fun o ho hdue => hclear o (List.mem_filter.mpr ⟨ho, ?_⟩) hdue⟩
    simpa using fun h => hdue (hlater o h)
  · rintro ⟨hfits, hclear⟩
    exact ⟨hproj ▸ hfits, fun o ho => hclear o (List.mem_of_mem_filter ho)⟩

/-- What is free at the deadline, when those over by then have left. -/
def roomAt (w : Workload) (deadline : ℚ) (os : List RunningTask) (r : Room) : Room :=
  (os.filter fun o => Due (w.actualEnd o) (deadline : WithTop ℚ)).foldl
    (fun r o => r.give o.memoryGb o.vramGb o.gpuId) r

/-- A task that is admitted `now` beside `os` in the room `r` is harmless to the head for the deadline: it is over
by then, or it does not hold the identity of the head, which fits beside it in what is free then. -/
def Harmless (w : Workload) (head : PendingEntry) (deadline now : ℚ) (os : List RunningTask) (r : Room)
    (a : Admission) : Prop :=
  Due (w.actualEnd (a.start now)) (deadline : WithTop ℚ) ∨ ¬ head.Shares a.task.profileIdentity ∧
    ((w.start.capacity w.host).fits head
      ((w.roomAt deadline os r).take a.task.memoryGb a.task.vramGb a.gpuId) 0).isSome

/-- An admission keeps it exactly when it is harmless. -/
theorem ready_admission {a : Admission} (hload : 0 ≤ a.load) (hex : a.task.exclusive = false) :
    w.Ready head deadline (os ++ [a.start now]) (-a.load +ᵥ r) ↔
      w.Ready head deadline os r ∧ w.Harmless head deadline now os r a := by
  have hroom : (w.roomAt deadline os r).take a.task.memoryGb a.task.vramGb a.gpuId =
      -a.load +ᵥ project RunningTask.load w.actualEnd os r (deadline : WithTop ℚ) := by
    rw [Room.take_eq, roomAt, RunningTask.foldl_give]
    rfl
  rw [Harmless, hroom, Capacity.fits_isSome_iff]
  by_cases hdue : Due (w.actualEnd (a.start now)) (deadline : WithTop ℚ)
  · -- what it takes it has given back by the deadline
    have hproj : project RunningTask.load w.actualEnd (os ++ [a.start now]) (-a.load +ᵥ r) (deadline : WithTop ℚ) =
        project RunningTask.load w.actualEnd os r (deadline : WithTop ℚ) := by
      rw [project, project, released_append, released_cons, if_pos hdue, released_nil, add_zero, vadd_vadd,
        Admission.start_load, add_neg_cancel_right]
    constructor
    · rintro ⟨hfits, hclear⟩
      exact ⟨⟨hproj ▸ hfits, fun o ho => hclear o (List.mem_append_left _ ho)⟩, .inl hdue⟩
    · rintro ⟨⟨hfits, hclear⟩, -⟩
      refine ⟨hproj ▸ hfits, List.forall_mem_append.mpr ⟨hclear, ?_⟩⟩
      exact List.forall_mem_singleton.mpr fun hno => absurd hdue hno
  · have hproj : project RunningTask.load w.actualEnd (os ++ [a.start now]) (-a.load +ᵥ r) (deadline : WithTop ℚ) =
        -a.load +ᵥ project RunningTask.load w.actualEnd os r (deadline : WithTop ℚ) := by
      rw [vadd_project, project, project, released_append, released_cons, if_neg hdue, released_nil, add_zero, add_zero]
    have hless : -a.load +ᵥ project RunningTask.load w.actualEnd os r (deadline : WithTop ℚ) ≤
        project RunningTask.load w.actualEnd os r (deadline : WithTop ℚ) := by
      simpa using IsOrderedVAdd.vadd_le_vadd_right _ _ (neg_nonpos.mpr hload)
        (project RunningTask.load w.actualEnd os r (deadline : WithTop ℚ))
    constructor
    · rintro ⟨hfits, hclear⟩
      rw [hproj] at hfits
      exact ⟨⟨Capacity.admits_mono _ head hless hfits, fun o ho => hclear o (List.mem_append_left _ ho)⟩,
        .inr ⟨(hclear (a.start now) (List.mem_append_right os List.mem_cons_self) hdue).2, hfits⟩⟩
    · rintro ⟨⟨-, hclear⟩, hharm⟩
      obtain ⟨hshares, hfits⟩ := hharm.resolve_left hdue
      refine ⟨hproj ▸ hfits, List.forall_mem_append.mpr ⟨hclear, ?_⟩⟩
      exact List.forall_mem_singleton.mpr fun _ => ⟨hex, hshares⟩

/-! ## One cycle -/

/-- The turns of a cycle that admit something admit something harmless. -/
def HarmlessTurns (w : Workload) (head : PendingEntry) (deadline now : ℚ) (m : Machine) : Prop :=
  ∀ t ∈ (m.planner w.host now).cycleTurns, ∀ a,
    t.admission head ((m.planner w.host now).front.1.reservation head) = some a →
      w.Harmless head deadline now (m.running ++ t.planner.admitted.map (Admission.start now)) t.planner.pools.toRoom a

/-- **A whole cycle keeps it exactly when every turn is harmless.** -/
theorem ready_cycle {m : Machine} {as bs : List Admission} {rest : List PendingEntry} (hm : m.Valid)
    (h : RunSpec (m.planner w.host now) as bs) (hq : (m.planner w.host now).front.1.queue = head :: rest) :
    w.Ready head deadline (m.dispatch w.host now).running (m.dispatch w.host now).room ↔
      w.Ready head deadline (m.running ++ as.map (Admission.start now)) (m.planner w.host now).front.1.pools.toRoom ∧
        w.HarmlessTurns head deadline now m := by
  have hnn := hm.nonneg w.host now
  have hcount : (m.capacity w.host).runningCount = (m.running.map (RunningTask.entry now)).length := by
    simp [Machine.capacity]
  obtain ⟨hbs, hstate⟩ := h.backs_turns rfl hq
  set adm := Turn.admission head ((m.planner w.host now).front.1.reservation head) with hadm
  have hfront : (m.planner w.host now).front.1.admitted = as := by rw [h.front.admitted_eq]; rfl
  -- turn by turn
  have prefix_iff : ∀ xs ys, (m.planner w.host now).cycleTurns = xs ++ ys →
      (w.Ready head deadline (m.running ++ (as ++ xs.filterMap adm).map (Admission.start now))
          (-((xs.filterMap adm).map Admission.load).sum +ᵥ (m.planner w.host now).front.1.pools.toRoom) ↔
        w.Ready head deadline (m.running ++ as.map (Admission.start now)) (m.planner w.host now).front.1.pools.toRoom ∧
          ∀ t ∈ xs, ∀ a, adm t = some a → w.Harmless head deadline now
            (m.running ++ t.planner.admitted.map (Admission.start now)) t.planner.pools.toRoom a) := by
    intro xs
    induction xs using List.reverseRecOn with
    | nil => intro ys _; simp
    | append_singleton xs t ih =>
      intro ys hx
      rw [List.append_assoc] at hx
      have hstep := ih ([t] ++ ys) hx
      simp only [List.forall_mem_append, List.forall_mem_singleton]
      cases ha : adm t with
      | none =>
        rw [List.filterMap_append, List.filterMap_cons_none ha, List.filterMap_nil, List.append_nil, hstep]
        simp
      | some a =>
        have hmem : a ∈ bs := by
          rw [hbs, hx, List.filterMap_append, List.singleton_append, List.filterMap_cons_some ha]
          exact List.mem_append_right _ List.mem_cons_self
        have hadms := hstate xs t ys hx
        have hone := @ready_admission w head deadline now
          (m.running ++ (as ++ xs.filterMap adm).map (Admission.start now))
          (-((xs.filterMap adm).map Admission.load).sum +ᵥ (m.planner w.host now).front.1.pools.toRoom) a
          (h.load_nonneg hnn (List.mem_append_right as hmem))
          (h.backs_not_exclusive hcount hnn.queue hnn.occupants a hmem)
        rw [List.filterMap_append, List.filterMap_cons_some ha, List.filterMap_nil, @List.map_append _ _ _ _ [a],
          List.sum_append, List.map_singleton, List.sum_singleton, neg_add_rev, ← vadd_vadd, ← List.append_assoc as,
          @List.map_append _ _ _ _ [a], ← List.append_assoc m.running, List.map_singleton, hone, hstep,
          hadms.room, hadms.admitted_eq, hfront]
        simp only [Option.some.injEq, forall_eq', and_assoc]
  have hall := prefix_iff (m.planner w.host now).cycleTurns [] (List.append_nil _).symm
  rw [← hbs] at hall
  have hrun : (m.dispatch w.host now).running = _ := Machine.execute_running hm.ids h.all h.sublist
  have hroom : (m.dispatch w.host now).room = _ := Machine.execute_room hm.ids h.all h.sublist
  rw [hrun, hroom, h.back.room, hall]
  rfl

/-! ## Both runs -/

/-- The policies compared: front admission, and then some of what the scan admits. -/
def Drives (policy : Planner → Planner) : Prop :=
  ∀ p as bs, RunSpec p as bs → ∃ cs, Admissions p (as ++ cs) (policy p) ∧ cs.Sublist bs

theorem drives_fifo : Drives fifo := fun _ as bs h => ⟨[], by rw [List.append_nil]; exact h.front, List.nil_sublist bs⟩

theorem drives_run : Drives run := fun _ _ bs h => ⟨bs, h.all, .refl bs⟩

section Policy
variable {policy : Planner → Planner}

theorem machine_pending (w : Workload) (policy : Planner → Planner) (n : ℕ) :
    (w.machine policy n).pending.Sublist (w.start.pending ++ (List.range n).flatMap w.arrivals) := by
  induction n with
  | zero => simp [machine]
  | succ n ih =>
    rw [List.range_succ, List.flatMap_append, ← List.append_assoc, List.flatMap_singleton]
    exact (List.filter_sublist.trans ih).append (.refl _)

variable (hpolicy : Drives policy)
include hpolicy

theorem machine_valid (w : Workload) (n : ℕ) : (w.machine policy n).Valid := by
  have hids : ∀ n, ((w.machine policy n).pending.map PendingEntry.id).Nodup := fun n =>
    (w.ids n).sublist ((w.machine_pending policy n).map _)
  induction n with
  | zero => exact w.valid
  | succ n ih =>
    obtain ⟨as, bs, h⟩ := run_spec (w.planner policy n)
    obtain ⟨cs, hcs, hsub⟩ := hpolicy _ as bs h
    have hvalid := Machine.execute_valid ih.ids hcs (((hsub.append_left as).map _).trans h.sublist) ih
    refine ⟨hids (n + 1), fun task ht => ?_, fun o ho => hvalid.running o (List.mem_of_mem_filter ho)⟩
    rcases List.mem_append.mp ht with ht | ht
    exacts [hvalid.pending task ht, w.nonneg n task ht]

variable {rest : List PendingEntry} {n : ℕ}

theorem decides_iff_canStart (hq : (w.machine policy n).pending = head :: rest) :
    w.Decides policy head n ↔ (w.planner policy n).CanStart head := by
  obtain ⟨as, bs, h⟩ := run_spec (w.planner policy n)
  obtain ⟨cs, hcs, hsub⟩ := hpolicy _ as bs h
  have hdec : w.Decides policy head n ↔ head.id ∈ (as ++ cs).map fun a => a.task.id := by
    rw [Decides, Machine.plan_decisions hcs, List.map_map]
    rfl
  rw [hdec]
  constructor
  · intro hmem
    by_contra hno
    have hfront := front_of_not_canStart hno hq
    have hqueue : (w.machine policy n).pending = as.map Admission.task ++ head :: rest := by
      have hfrontq : (w.planner policy n).front.1.queue = head :: rest := by rw [hfront]; exact hq
      exact hfrontq ▸ h.queue
    refine Machine.left_not_decided (machine_valid hpolicy w n).ids hqueue ?_ hmem
    exact (hsub.map _).trans (h.back_sublist (by rw [hfront]; exact hq))
  · intro hcan
    obtain ⟨a, ha, rfl⟩ := hcan.admitted hq
    rw [h.front.admitted_eq] at ha
    exact List.mem_map_of_mem (f := fun a : Admission => a.task.id) (List.mem_append_left cs ha)

end Policy

theorem ready_of_canStart {m : Machine} (hm : m.Valid) (h : (m.planner w.host now).CanStart head) :
    w.Ready head deadline m.running m.room := by
  refine ⟨?_, fun o ho _ => ⟨h.alone (o.entry now) (List.mem_map_of_mem ho), fun hshare => ?_⟩⟩
  · refine Machine.admits_capacity m _ (Capacity.admits_mono _ head ?_ h.admits)
    have hle := IsOrderedVAdd.vadd_le_vadd_right _ _
      (released_nonneg RunningTask.load w.actualEnd hm.load_nonneg (deadline : WithTop ℚ)) m.room
    rwa [zero_vadd] at hle
  · obtain ⟨hcold, k, hk, hok⟩ := hshare
    have hc := h.canary
    rw [Bool.eq_false_iff, Ne, canaryBlocked_iff] at hc
    exact hc ⟨hcold, k, hk, List.mem_filterMap.mpr ⟨o.entry now, List.mem_map_of_mem ho, hok⟩⟩

theorem canStart_of_ready {m : Machine} (hover : ∀ o ∈ m.running, ¬ Due (w.actualEnd o) (now : WithTop ℚ))
    (h : w.Ready head now m.running m.room) : (m.planner w.host now).CanStart head := by
  refine ⟨?_, ?_, List.forall_mem_map.mpr fun o ho => (h.clear o ho (hover o ho)).1⟩
  · have hfits := h.fits
    have hnone : released RunningTask.load w.actualEnd m.running (now : WithTop ℚ) = 0 := by
      rw [released, List.filter_eq_nil_iff.mpr fun o ho => by simpa using hover o ho]
      rfl
    rw [project, hnone, zero_vadd] at hfits
    exact Machine.admits_capacity w.start m hfits
  · rw [Bool.eq_false_iff, Ne, canaryBlocked_iff]
    rintro ⟨hcold, k, hk, hheld⟩
    obtain ⟨e, he, hek⟩ := List.mem_filterMap.mp hheld
    obtain ⟨o, ho, rfl⟩ := List.mem_map.mp he
    exact (h.clear o ho (hover o ho)).2 ⟨hcold, k, hk, hek⟩

/-- The machine before the next cycle, when this one leaves the head first: it is first again, and being ready goes
back to what front admission has left. `H` is what the rest of the cycle asks. -/
theorem ready_succ {policy : Planner → Planner} (hpolicy : Drives policy) {H : Prop} {n : ℕ} {as bs : List Admission}
    {rest : List PendingEntry} (h : RunSpec (w.planner policy n) as bs)
    (hq : (w.planner policy n).front.1.queue = head :: rest) (hle : w.time (n + 1) ≤ deadline)
    (hcycle : w.Ready head deadline
        ((w.machine policy n).execute (w.time n) (policy (w.planner policy n)).plan).running
        ((w.machine policy n).execute (w.time n) (policy (w.planner policy n)).plan).room ↔
      w.Ready head deadline ((w.machine policy n).running ++ as.map (Admission.start (w.time n)))
        (w.planner policy n).front.1.pools.toRoom ∧ H) :
    (∃ rest', (w.machine policy (n + 1)).pending = head :: rest') ∧
      (w.Ready head deadline (w.machine policy (n + 1)).running (w.machine policy (n + 1)).room ↔
        w.Ready head deadline ((w.machine policy n).running ++ as.map (Admission.start (w.time n)))
          (w.planner policy n).front.1.pools.toRoom ∧ H) := by
  obtain ⟨cs, hcs, hsub⟩ := hpolicy _ as bs h
  obtain ⟨rest', hrest'⟩ := Machine.execute_first (machine_valid hpolicy w n).ids (hq ▸ h.queue)
    ((hsub.map _).trans (h.back_sublist hq)) hcs
  refine ⟨⟨rest' ++ w.arrivals n, ?_⟩, ?_⟩
  · rw [machine_succ, pass, hrest', List.cons_append]
  · rw [← hcycle, machine_succ, pass_room]
    exact ready_pass hle

section Head
variable {rest : List PendingEntry} (hq : (w.planner run 0).front.1.queue = head :: rest)
include hq

/-- Up to the deadline, while the head waits: it is first in both runs, and being ready goes back to what the first
front admission has left, in the run of the planner with every turn since then harmless. -/
theorem ready_run {policy : Planner → Planner} (hpolicy : Drives policy) (H : ℚ → Machine → Prop)
    (hcycle : ∀ m now as bs rest, m.Valid → RunSpec (m.planner w.host now) as bs →
      (m.planner w.host now).front.1.queue = head :: rest →
      (w.Ready head deadline (m.execute now (policy (m.planner w.host now)).plan).running
          (m.execute now (policy (m.planner w.host now)).plan).room ↔
        w.Ready head deadline (m.running ++ as.map (Admission.start now)) (m.planner w.host now).front.1.pools.toRoom ∧
          H now m)) {as bs : List Admission} (h0 : RunSpec (w.planner run 0) as bs) :
    ∀ n, (∀ k ≤ n, ¬ w.Decides policy head k) → w.time (n + 1) ≤ deadline →
      (∃ rest', (w.machine policy (n + 1)).pending = head :: rest') ∧
      (w.Ready head deadline (w.machine policy (n + 1)).running (w.machine policy (n + 1)).room ↔
        w.Ready head deadline (w.start.running ++ as.map (Admission.start (w.time 0)))
          (w.planner run 0).front.1.pools.toRoom ∧ ∀ k ≤ n, H (w.time k) (w.machine policy k))
  | 0, _, hle => by
    have hstep := ready_succ hpolicy h0 hq hle (hcycle _ _ as bs rest (machine_valid hpolicy w 0) h0 hq)
    refine ⟨hstep.1, hstep.2.trans (and_congr_right fun _ => ?_)⟩
    exact ⟨fun hH k hk => Nat.le_zero.mp hk ▸ hH, fun hH => hH 0 le_rfl⟩
  | n + 1, hno, hle => by
    obtain ⟨⟨rest', hrest'⟩, hready⟩ := ready_run hpolicy H hcycle h0 n (fun k hk => hno k (hk.trans n.le_succ))
      ((w.time_mono (n + 1).le_succ).trans hle)
    have hcan : ¬ (w.planner policy (n + 1)).CanStart head := fun hcan =>
      hno (n + 1) le_rfl ((decides_iff_canStart hpolicy hrest').mpr hcan)
    have hfront := front_of_not_canStart hcan hrest'
    have hq' : (w.planner policy (n + 1)).front.1.queue = head :: rest' := by rw [hfront]; exact hrest'
    obtain ⟨as', bs', h⟩ := run_spec (w.planner policy (n + 1))
    -- front admission takes nothing
    obtain rfl : as' = [] := by
      have hlen := congrArg List.length h.queue
      rw [hfront, List.length_append, List.length_map] at hlen
      exact List.length_eq_zero_iff.mp (by omega)
    have hstep := ready_succ hpolicy h hq' hle (hcycle _ _ [] bs' rest' (machine_valid hpolicy w (n + 1)) h hq')
    refine ⟨hstep.1, hstep.2.trans ?_⟩
    rw [hfront, List.map_nil, List.append_nil]
    change w.Ready head deadline (w.machine policy (n + 1)).running (w.machine policy (n + 1)).room ∧ _ ↔ _
    rw [hready, and_assoc]
    refine and_congr_right fun _ => ⟨fun hH k hk => ?_, fun hH => ⟨fun k hk => hH k (hk.trans n.le_succ), hH _ le_rfl⟩⟩
    rcases Nat.le_succ_iff.mp hk with hk | rfl
    exacts [hH.1 k hk, hH.2]

theorem not_decides_zero {policy : Planner → Planner} (hpolicy : Drives policy) : ¬ w.Decides policy head 0 := by
  obtain ⟨as, bs, h⟩ := run_spec (w.planner run 0)
  obtain ⟨cs, hcs, hsub⟩ := hpolicy _ as bs h
  have hdec : w.Decides policy head 0 ↔ head.id ∈ (as ++ cs).map fun a => a.task.id := by
    rw [Decides, show (policy (w.planner policy 0)).plan.decisions = _ from Machine.plan_decisions hcs, List.map_map]
    rfl
  rw [hdec]
  exact Machine.left_not_decided (m := w.start) w.valid.ids (hq ▸ h.queue) ((hsub.map _).trans (h.back_sublist hq))

end Head

theorem machine_over (w : Workload) (policy : Planner → Planner) (n : ℕ) :
    ∀ o ∈ (w.machine policy (n + 1)).running, ¬ Due (w.actualEnd o) (w.time (n + 1) : WithTop ℚ) :=
  fun _ ho => of_decide_eq_true (List.mem_filter.mp ho).2

/-- **Never later than strict FIFO**: whenever strict FIFO starts the head, the planner has started it by then. -/
def NeverLater (w : Workload) (head : PendingEntry) : Prop :=
  ∀ n, w.StartsAt fifo head n → ∃ k ≤ n, w.StartsAt run head k

/-- **Exactly when the head starts no later than under strict FIFO**: every task that the scan lets jump the
waiting head is harmless for the time at which strict FIFO starts it. -/
theorem neverLater_iff (hq : (w.planner run 0).front.1.queue.head? = some head) :
    w.NeverLater head ↔ ∀ n, w.StartsAt fifo head n → ∀ k < n, (∀ j ≤ k, ¬ w.Decides run head j) →
      w.HarmlessTurns head (w.time n) (w.time k) (w.machine run k) := by
  obtain ⟨rest, hq⟩ := List.head?_eq_some_iff.mp hq
  obtain ⟨as, bs, h0⟩ := run_spec (w.planner run 0)
  refine forall_congr' fun n => forall_congr' fun hfifo => ?_
  obtain _ | n := n
  · exact absurd hfifo.1 (not_decides_zero hq drives_fifo)
  -- strict FIFO starts the head, so it is ready for that time when the first front admission is over
  have hready0 : w.Ready head (w.time (n + 1)) (w.start.running ++ as.map (Admission.start (w.time 0)))
      (w.planner run 0).front.1.pools.toRoom := by
    have hwait := ready_run hq drives_fifo (fun _ _ => True) (fun m now as bs rest hm h hq => by
      have hadm : Admissions (m.planner w.host now) as (m.planner w.host now).fifo := h.front
      have hsub : (as.map Admission.task).Sublist m.pending := ((List.sublist_append_left as bs).map _).trans h.sublist
      rw [Machine.execute_running hm.ids hadm hsub, Machine.execute_room hm.ids hadm hsub, and_true]
      rfl) h0 n (fun k hk => hfifo.2 k (Nat.lt_succ_of_le hk)) le_rfl
    obtain ⟨⟨rest', hrest'⟩, hiff⟩ := hwait
    have hcan := (decides_iff_canStart drives_fifo hrest').mp hfifo.1
    exact (hiff.mp (ready_of_canStart (machine_valid drives_fifo w (n + 1)) hcan)).1
  have hwait := fun k (hle : w.time (k + 1) ≤ w.time (n + 1)) (hno : ∀ j ≤ k, ¬ w.Decides run head j) =>
    ready_run hq drives_run (fun now m => w.HarmlessTurns head (w.time (n + 1)) now m)
      (fun _ _ _ _ _ hm h hq => ready_cycle hm h hq) h0 k hno hle
  constructor
  · rintro ⟨_ | k, hk, hstart⟩ j hj hno
    · exact absurd hstart.1 (not_decides_zero hq drives_run)
    obtain ⟨⟨rest', hrest'⟩, hiff⟩ := hwait k (w.time_mono hk) fun i hi => hstart.2 i (Nat.lt_succ_of_le hi)
    have hcan := (decides_iff_canStart drives_run hrest').mp hstart.1
    refine (hiff.mp (ready_of_canStart (machine_valid drives_run w (k + 1)) hcan)).2 j ?_
    exact Nat.le_of_lt_succ (not_le.mp fun hkj => hno (k + 1) hkj hstart.1)
  · intro hharm
    by_contra hnone
    have hno : ∀ k ≤ n + 1, ¬ w.Decides run head k := by
      intro k
      induction k using Nat.strong_induction_on with
      | _ k ih => exact fun hk hdec => hnone ⟨k, hk, hdec, fun j hj => ih j hj (hj.le.trans hk)⟩
    obtain ⟨⟨rest', hrest'⟩, hiff⟩ := hwait n le_rfl fun j hj => hno j (hj.trans n.le_succ)
    refine hno (n + 1) le_rfl ((decides_iff_canStart drives_run hrest').mpr ?_)
    refine canStart_of_ready (w.machine_over run n) (hiff.mpr ⟨hready0, fun k hk => ?_⟩)
    exact hharm k (Nat.lt_succ_of_le hk) fun j hj => hno j ((hj.trans hk).trans n.le_succ)

/-- A task of 6 GB is expected to run for ten seconds and is over after two. A head of 8 GB waits for it, and a task
of 3 GB is short enough to jump the head. -/
def earlyFinish : Workload where
  host := ⟨[], 4, true⟩
  start :=
    { memoryFreeGb := (4 : ℚ)
      gpuFreeVramGb := fun _ => none
      nextGpuIndex := 0
      pending := [cpuTask "head" 8 (some 10), cpuTask "short" 3 (some 10)]
      running := [(cpuTask "r" 6 (some 10)).start 0 none] }
  time n := 2 * n
  arrivals _ := []
  runTime id := if id = "r" then some 2 else some 10
  valid := ⟨by decide, by decide, by decide⟩
  time_mono := fun m n h => by
    have : (m : ℚ) ≤ n := Nat.cast_le.mpr h
    linarith
  ids n := by
    have hnil : (List.range n).flatMap (fun _ => ([] : List PendingEntry)) = [] := by simp
    rw [hnil]
    decide
  nonneg _ _ h := by cases h
  within_running := by decide
  within n := by
    have hnil : (List.range n).flatMap (fun _ => ([] : List PendingEntry)) = [] := by simp
    rw [hnil]
    decide

theorem neverLater_iff_earlyFinish :
    earlyFinish.NeverLater (cpuTask "head" 8 (some 10)) ↔
      ∀ n, earlyFinish.StartsAt fifo (cpuTask "head" 8 (some 10)) n → ∀ k < n,
        (∀ j ≤ k, ¬ earlyFinish.Decides run (cpuTask "head" 8 (some 10)) j) →
        earlyFinish.HarmlessTurns (cpuTask "head" 8 (some 10)) (earlyFinish.time n) (earlyFinish.time k)
          (earlyFinish.machine run k) :=
  neverLater_iff (by decide +kernel)

/-- Strict FIFO starts the head at two seconds, when the task that jumped it still holds 3 GB. -/
theorem neverLater_fails :
    (earlyFinish.planner run 0).front.2 = true ∧
      (earlyFinish.planner run 0).front.1.queue.head? = some (cpuTask "head" 8 (some 10)) ∧
      (earlyFinish.planner run 0).front.1.canaryBlocked (cpuTask "head" 8 (some 10)) = false ∧
      ¬ earlyFinish.NeverLater (cpuTask "head" 8 (some 10)) := by
  refine ⟨by decide +kernel, by decide +kernel, by decide +kernel, fun h => ?_⟩
  obtain ⟨k, hk, hdec, -⟩ := h 1 (by decide +kernel)
  have hno : ∀ k ≤ 1, ¬ earlyFinish.Decides run (cpuTask "head" 8 (some 10)) k := by decide +kernel
  exact hno k hk hdec

end Workload

end AdaptiveExecutor
