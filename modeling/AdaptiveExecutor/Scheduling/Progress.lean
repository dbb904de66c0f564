import Mathlib.Algebra.Order.Archimedean.Basic
import AdaptiveExecutor.Backfill.Line
import AdaptiveExecutor.Scheduling.Cycles

/-!
# No task starves

Cycle after cycle on one machine, with tasks of known durations. Whatever queues up behind a task, and whatever is
backfilled, the task is started after a time that only depends on its place in the queue.

* `Machine.idleRoom` : what is free when nothing runs; no cycle, and nothing that happens in between, changes it;
* `ServedRun` : a run in which every queued task fits on the idle machine, and cycles go on;
* `Expected` : the invariant: the head is first, and promised for the deadline, or waits for an exclusive task to end;
* `expected_start`, `expected_next`, `expected_decides` : it begins, lasts, and ends with the start of the head;
* `ServedRun.no_starvation` : every queued task is started, within a bound for each place in the queue.
-/

namespace AdaptiveExecutor
open Backfill Planner

/-! ## The idle machine -/

namespace Machine

/-- What is free when everything that runs has given back what it holds. -/
def idleRoom (m : Machine) : Room := (m.running.map RunningTask.load).sum +ᵥ m.room

section Idle
variable {host : Host} {now deadline : ℚ} {m m' : Machine} {gone : List RunningTask} {arrivals : List PendingEntry}

theorem project_idle (h : ∀ o ∈ m.running, Due o.expectedEnd (deadline : WithTop ℚ)) :
    project RunningTask.load RunningTask.expectedEnd m.running m.room (deadline : WithTop ℚ) = m.idleRoom := by
  unfold project released idleRoom
  rw [List.filter_eq_self.mpr fun o ho => decide_eq_true (h o ho)]

theorem dispatch_idle (hm : m.Valid) : (m.dispatch host now).idleRoom = m.idleRoom := by
  obtain ⟨as, bs, h⟩ := run_spec (m.planner host now)
  have hsub : ((as ++ bs).map Admission.task).Sublist m.pending := h.sublist
  have hrun : (m.dispatch host now).running = _ := execute_running hm.ids h.all hsub
  have hroom : (m.dispatch host now).room = _ := execute_room hm.ids h.all hsub
  have hload : ((as ++ bs).map (Admission.start now)).map RunningTask.load = (as ++ bs).map Admission.load := by
    rw [List.map_map]
    rfl
  unfold idleRoom
  rw [hroom, hrun, h.all.room, List.map_append, List.sum_append, hload, vadd_vadd, add_neg_cancel_right]
  rfl

theorem Elapse.idle (h : Elapse now gone arrivals m m') : m'.idleRoom = m.idleRoom := by
  unfold idleRoom
  rw [h.room_eq, (h.left.map RunningTask.load).sum_eq, List.map_append, List.sum_append, add_vadd]

/-- What a cycle runs: what ran before, and tasks from the queue that start now. -/
theorem dispatch_running (hm : m.Valid) {o : RunningTask} (ho : o ∈ (m.dispatch host now).running) :
    o ∈ m.running ∨ ∃ task ∈ m.pending, ∃ gpuId, o = task.start now gpuId := by
  obtain ⟨as, bs, h⟩ := run_spec (m.planner host now)
  have hsub : ((as ++ bs).map Admission.task).Sublist m.pending := h.sublist
  have hrun : (m.dispatch host now).running = _ := execute_running hm.ids h.all hsub
  rw [hrun] at ho
  rcases List.mem_append.mp ho with ho | ho
  · exact .inl ho
  · obtain ⟨a, ha, rfl⟩ := List.mem_map.mp ho
    exact .inr ⟨a.task, hsub.subset (List.mem_map_of_mem ha), a.gpuId, rfl⟩

theorem dispatch_of_exclusive (h : ∃ o ∈ m.running, o.exclusive = true) : m.dispatch host now = m := by
  obtain ⟨o, ho, hex⟩ := h
  have hany : (m.planner host now).occupants.any (·.exclusive) = true :=
    List.any_eq_true.mpr ⟨o.entry now, List.mem_map_of_mem ho, hex⟩
  have hrun : (m.planner host now).run = m.planner host now := by
    unfold Planner.run front
    rw [if_pos hany]
    rfl
  unfold dispatch
  rw [hrun]
  have hpending : (m.pending.filter fun task => task.id ∉ ([] : List String)) = m.pending :=
    List.filter_eq_self.mpr fun task _ => decide_eq_true List.not_mem_nil
  change ({ m with pending := m.pending.filter fun task => task.id ∉ [], running := m.running ++ [] } : Machine) = m
  rw [List.append_nil, hpending]

end Idle

end Machine

/-! ## Runs -/

instance (host : Host) (task : PendingEntry) (c : Cycle) : Decidable (c.Decides host task) :=
  inferInstanceAs (Decidable (_ ∈ _))

/-- A task that fits on the idle machine, is warm, and takes `longest` at most. -/
structure Plannable (host : Host) (longest : ℚ) (m : Machine) (task : PendingEntry) : Prop where
  fits : (m.capacity host).Admits task m.idleRoom
  warm : task.cold = false
  known : ∃ d, task.durationP90Seconds = some d ∧ d ≤ longest

/-- A running task is expected to end, after now and within `longest`. -/
def EndsWithin (longest now : ℚ) (o : RunningTask) : Prop := ∃ e, o.expectedEnd = some e ∧ now < e ∧ e ≤ now + longest

/-- A run of cycles, at most `gap` apart and without an end, in which every queued task can be planned for. -/
structure ServedRun (host : Host) (longest gap : ℚ) where
  cycle : ℕ → Cycle
  next : ∀ n, NextCycle host (cycle n) (cycle (n + 1))
  valid : (cycle 0).2.Valid
  running : ∀ o ∈ (cycle 0).2.running, EndsWithin longest (cycle 0).1 o
  plannable : ∀ n, ∀ task ∈ (cycle n).2.pending, Plannable host longest (cycle 0).2 task
  longest_nonneg : 0 ≤ longest
  soon : ∀ n, (cycle (n + 1)).1 ≤ (cycle n).1 + gap
  goes : ∀ t, ∃ n, t ≤ (cycle n).1

structure Served (host : Host) (longest : ℚ) (idle : Room) (c : Cycle) : Prop where
  valid : c.2.Valid
  idle : c.2.idleRoom = idle
  running : ∀ o ∈ c.2.running, EndsWithin longest c.1 o

/-- Until the deadline `head` comes first, promised for the deadline, or behind an exclusive task that is over by then. -/
def Expected (host : Host) (head : PendingEntry) (deadline : ℚ) (m : Machine) : Prop :=
  Promised host head deadline m ∨ m.Valid ∧ (∃ rest, m.pending = head :: rest) ∧ (∃ o ∈ m.running, o.exclusive = true) ∧
    ∀ o ∈ m.running, Due o.expectedEnd (deadline : WithTop ℚ)

section Step
variable {host : Host} {longest deadline : ℚ} {m : Machine} {idle : Room} {head : PendingEntry} {c c' : Cycle}

theorem Served.ends (h : Served host longest idle c) : ∀ o ∈ c.2.running, ∀ e, o.expectedEnd = some e → c.1 < e := by
  intro o ho e he
  obtain ⟨e', he', hlater, -⟩ := h.running o ho
  obtain rfl := Option.some.inj (he.symm.trans he')
  exact hlater

theorem Served.next (h : Served host longest idle c) (hknown : ∀ task ∈ c.2.pending, Plannable host longest m task)
    (hnext : NextCycle host c c') : Served host longest idle c' := by
  obtain ⟨hle, hvalid, gone, arrivals, helapse⟩ := hnext
  refine ⟨hvalid, ?_, fun o ho => ?_⟩
  · rw [helapse.idle, Machine.dispatch_idle h.valid, h.idle]
  · have hend : ∃ e, o.expectedEnd = some e ∧ e ≤ c.1 + longest := by
      have hmem : o ∈ (c.2.dispatch host c.1).running := helapse.left.mem_iff.mpr (List.mem_append_left gone ho)
      rcases Machine.dispatch_running h.valid hmem with hold | ⟨task, htask, gpuId, rfl⟩
      · obtain ⟨e, he, -, hlate⟩ := h.running o hold
        exact ⟨e, he, hlate⟩
      · obtain ⟨d, hd, hlong⟩ := (hknown task htask).known
        refine ⟨c.1 + d, ?_, by linarith⟩
        unfold RunningTask.expectedEnd PendingEntry.start
        rw [hd]
        rfl
    obtain ⟨e, he, hlate⟩ := hend
    exact ⟨e, he, helapse.ends o ho e he, by linarith⟩

/-- Once everything that runs is over by the deadline, the first task in the queue is expected then. -/
theorem expected_of_due (hvalid : m.Valid) (hfirst : ∃ rest, m.pending = head :: rest)
    (hdue : ∀ o ∈ m.running, Due o.expectedEnd (deadline : WithTop ℚ)) (m₀ : Machine)
    (hfits : (m₀.capacity host).Admits head m.idleRoom) : Expected host head deadline m := by
  by_cases hex : ∃ o ∈ m.running, o.exclusive = true
  · exact .inr ⟨hvalid, hfirst, hex, hdue⟩
  · refine .inl ⟨hvalid, hfirst, fun o ho => ?_, ?_⟩
    · exact Bool.not_eq_true _ ▸ fun h => hex ⟨o, ho, h⟩
    · rw [Machine.project_idle hdue]
      exact Machine.admits_capacity m₀ m hfits

theorem expected_start (h : Served host longest m.idleRoom c) (hhead : Plannable host longest m head)
    (hfirst : ∃ rest, c.2.pending = head :: rest) : Expected host head (c.1 + longest) c.2 := by
  refine expected_of_due h.valid hfirst (fun o ho => ?_) m ?_
  · obtain ⟨e, he, -, hlate⟩ := h.running o ho
    exact ⟨e, he, WithTop.coe_le_coe.mpr hlate⟩
  · rw [h.idle]
    exact hhead.fits

/-- **From one cycle to the next** the head stays expected for the deadline, unless it is started. -/
theorem expected_next (h : Expected host head deadline c.2) (hs : Served host longest m.idleRoom c)
    (hhead : Plannable host longest m head) (hno : ¬ c.Decides host head) (hnext : NextCycle host c c') :
    Expected host head deadline c'.2 := by
  obtain ⟨-, hvalid, gone, arrivals, helapse⟩ := hnext
  rcases h with hpromised | ⟨-, ⟨rest, hfirst⟩, hex, hdue⟩
  · obtain ⟨-, hblocked, r, hr, hle⟩ := (promised_cycle hpromised hhead.warm hs.ends).resolve_left hno
    exact .inl (promised_elapse (promised_dispatch hpromised.valid hblocked hr hle) hvalid helapse)
  · rw [Machine.dispatch_of_exclusive hex] at helapse
    refine expected_of_due hvalid ⟨rest ++ arrivals, ?_⟩ (fun o ho => ?_) m ?_
    · rw [helapse.pending, hfirst]
      rfl
    · exact hdue o (helapse.left.mem_iff.mpr (List.mem_append_left gone ho))
    · rw [helapse.idle, hs.idle]
      exact hhead.fits

/-- At the deadline the head is started. -/
theorem expected_decides (h : Expected host head deadline c.2) (hs : Served host longest idle c)
    (hwarm : head.cold = false) (hdeadline : deadline ≤ c.1) : c.Decides host head := by
  rcases h with hpromised | ⟨-, -, ⟨o, ho, -⟩, hdue⟩
  · exact (promised_cycle hpromised hwarm hs.ends).resolve_right fun h => absurd h.1 (not_lt.mpr hdeadline)
  · obtain ⟨e, he, hle⟩ := hdue o ho
    exact absurd ((hs.ends o ho e he).trans_le (WithTop.coe_le_coe.mp hle)) (not_lt.mpr hdeadline)

end Step

namespace ServedRun
variable {host : Host} {longest gap : ℚ} (r : ServedRun host longest gap) {n j : ℕ} {head : PendingEntry}
  {rest : List PendingEntry}

theorem served : ∀ n, Served host longest (r.cycle 0).2.idleRoom (r.cycle n)
  | 0 => ⟨r.valid, rfl, r.running⟩
  | n + 1 => (served n).next (r.plannable n) (r.next n)

theorem time_mono : Monotone fun n => (r.cycle n).1 := monotone_nat_of_le_succ fun n => (r.next n).1

theorem expected (hfirst : (r.cycle n).2.pending = head :: rest) (hle : n ≤ j)
    (hno : ∀ i, n ≤ i → i < j → ¬ (r.cycle i).Decides host head) :
    Expected host head ((r.cycle n).1 + longest) (r.cycle j).2 := by
  have hhead : Plannable host longest (r.cycle 0).2 head := r.plannable n head (hfirst ▸ List.mem_cons_self)
  induction j, hle using Nat.le_induction with
  | base => exact expected_start (r.served n) hhead ⟨rest, hfirst⟩
  | succ j hj ih =>
    have hexpected := ih fun i hi hlt => hno i hi (hlt.trans (Nat.lt_succ_self j))
    exact expected_next hexpected (r.served j) hhead (hno j hj (Nat.lt_succ_self j)) (r.next j)

/-- The task that comes first is started by the first cycle after `longest`. -/
theorem first_decides (hfirst : (r.cycle n).2.pending = head :: rest) :
    ∃ j, n ≤ j ∧ (r.cycle j).Decides host head ∧ (r.cycle (j + 1)).1 ≤ (r.cycle n).1 + (longest + 2 * gap) := by
  have hlong := r.longest_nonneg
  have hgap : 0 ≤ gap := by linarith [r.time_mono (Nat.zero_le 1), r.soon 0]
  have hlate : ∃ m, n ≤ m ∧ (r.cycle n).1 + longest ≤ (r.cycle m).1 := by
    obtain ⟨m, hm⟩ := r.goes ((r.cycle n).1 + longest)
    exact ⟨max n m, le_max_left n m, hm.trans (r.time_mono (le_max_right n m))⟩
  -- the first cycle after the deadline
  classical
  obtain ⟨hn, hm⟩ := Nat.find_spec hlate
  have hfound : (r.cycle (Nat.find hlate)).1 ≤ (r.cycle n).1 + longest + gap := by
    rcases hn.eq_or_lt with heq | hlt
    · rw [← heq]
      linarith
    · obtain ⟨m, hsucc⟩ := Nat.exists_eq_succ_of_ne_zero (Nat.ne_of_gt (Nat.zero_le n |>.trans_lt hlt))
      have hearly := Nat.find_min hlate (m := m) (by omega)
      rw [not_and, not_le] at hearly
      have hbefore := hearly (by omega)
      rw [hsucc]
      exact (r.soon m).trans (by linarith)
  have hdecides : ∃ j, n ≤ j ∧ j ≤ Nat.find hlate ∧ (r.cycle j).Decides host head := by
    by_contra hnone
    push Not at hnone
    have hexpected := r.expected hfirst hn fun i hi hlt => hnone i hi hlt.le
    have hwarm := (r.plannable n head (hfirst ▸ List.mem_cons_self)).warm
    exact hnone _ hn le_rfl (expected_decides hexpected (r.served _) hwarm hm)
  obtain ⟨j, hj, hle, hdec⟩ := hdecides
  refine ⟨j, hj, hdec, ?_⟩
  have htime : (r.cycle j).1 ≤ (r.cycle (Nat.find hlate)).1 := r.time_mono hle
  linarith [r.soon j]

def line : Line PendingEntry ℚ where
  time n := (r.cycle n).1
  time_mono := r.time_mono
  waiting n := (r.cycle n).2.pending
  leaves n task := decide ((r.cycle n).Decides host task)
  arrivals n := (r.cycle (n + 1)).2.pending.drop ((r.cycle n).2.dispatch host (r.cycle n).1).pending.length
  next n := by
    obtain ⟨-, -, gone, arrivals, helapse⟩ := r.next n
    have hqueue : ((r.cycle n).2.dispatch host (r.cycle n).1).pending =
        (r.cycle n).2.pending.filter fun task => !decide ((r.cycle n).Decides host task) := by
      refine List.filter_congr fun task _ => ?_
      rw [← decide_not]
      rfl
    rw [helapse.pending, List.drop_left, hqueue]

/-- **No task starves**: in a run in which every queued task fits on the idle machine, is warm and has a known duration,
each is started, at the latest after `longest + 2 * gap` for every place in the queue up to its own. What arrives behind
it makes no difference. -/
theorem no_starvation {before after : List PendingEntry} {task : PendingEntry}
    (h : (r.cycle n).2.pending = before ++ task :: after) :
    ∃ j, n ≤ j ∧ (r.cycle j).Decides host task ∧
      (r.cycle j).1 ≤ (r.cycle n).1 + (before.length + 1) * (longest + 2 * gap) := by
  have hgap : 0 ≤ gap := by linarith [r.time_mono (Nat.zero_le 1), r.soon 0]
  have hbound : 0 ≤ longest + 2 * gap := by linarith [r.longest_nonneg]
  obtain ⟨j, hj, hleaves, htime⟩ := r.line.waits_le hbound (fun m head rest hfirst => by
    obtain ⟨j, hj, hdec, htime⟩ := r.first_decides hfirst
    exact ⟨j, hj, decide_eq_true hdec, htime⟩) h
  refine ⟨j, hj, of_decide_eq_true hleaves, (r.time_mono (Nat.le_succ j)).trans (htime.trans_eq ?_)⟩
  rw [nsmul_eq_mul]
  push_cast
  rfl

end ServedRun

/-! ## A run -/

/-- 8 GB are waited for, and then nothing is left to do. -/
def drainedCycle : ℕ → Cycle
  | 0 => (0, { waitingMachine with pending := [cpuTask "head" 8 (some 4), cpuTask "short" 2 (some 5)] })
  | 1 => (10, ⟨(10 : ℚ), fun _ => none, 0, [cpuTask "head" 8 (some 4)], []⟩)
  | n + 2 => (10 * (n + 2), ⟨(10 : ℚ), fun _ => none, 0, [], []⟩)

theorem drained_elapse {host : Host} {now t : ℚ} {m m' : Machine} (hm : m.Valid) (hrun : m'.running = [])
    (hroom : m'.room = m.idleRoom) (hpending : m'.pending = (m.dispatch host now).pending)
    (hindex : m'.nextGpuIndex = (m.dispatch host now).nextGpuIndex) :
    Machine.Elapse t (m.dispatch host now).running [] (m.dispatch host now) m' := by
  refine ⟨by rw [hrun, List.nil_append], ?_, (fun o ho => by rw [hrun] at ho; cases ho), ?_, hindex⟩
  · rw [hroom, RunningTask.foldl_give, ← show (m.dispatch host now).idleRoom = _ from Machine.dispatch_idle hm]
    rfl
  · rw [hpending, List.append_nil]

theorem drainedCycle_valid : ∀ n, (drainedCycle n).2.Valid
  | 0 => ⟨by decide, by decide, by decide⟩
  | 1 => ⟨by decide, by decide, by decide⟩
  | _ + 2 => ⟨List.nodup_nil, (fun _ h => by cases h), (fun _ h => by cases h)⟩

theorem drainedCycle_next : ∀ n, NextCycle ⟨[], 4, true⟩ (drainedCycle n) (drainedCycle (n + 1))
  | 0 => by
    refine ⟨by decide +kernel, drainedCycle_valid 1, _, [], drained_elapse (drainedCycle_valid 0) rfl ?_ ?_ ?_⟩
    · exact Room.ext (by decide +kernel) (fun _ => rfl) (by decide +kernel)
    · decide +kernel
    · decide +kernel
  | 1 => by
    refine ⟨by decide +kernel, drainedCycle_valid 2, _, [], drained_elapse (drainedCycle_valid 1) rfl ?_ ?_ ?_⟩
    · exact Room.ext (by decide +kernel) (fun _ => rfl) (by decide +kernel)
    · decide +kernel
    · decide +kernel
  | n + 2 => by
    refine ⟨?_, drainedCycle_valid (n + 3), [], [], .refl _, rfl, (fun o ho => by cases ho), rfl, rfl⟩
    change (10 * (n + 2) : ℚ) ≤ 10 * ((n + 1 : ℕ) + 2)
    push_cast
    linarith

theorem drainedCycle_time : ∀ n, (drainedCycle n).1 = 10 * n
  | 0 => by decide +kernel
  | 1 => by decide +kernel
  | n + 2 => by
    change (10 * (n + 2) : ℚ) = 10 * ((n + 2 : ℕ) : ℚ)
    push_cast
    ring

def drainedRun : ServedRun ⟨[], 4, true⟩ 10 10 where
  cycle := drainedCycle
  next := drainedCycle_next
  valid := drainedCycle_valid 0
  running := by
    intro o ho
    obtain rfl := List.mem_singleton.mp ho
    exact ⟨10, by decide +kernel, by decide +kernel, by decide +kernel⟩
  plannable := by
    have hhead : Plannable ⟨[], 4, true⟩ 10 (drainedCycle 0).2 (cpuTask "head" 8 (some 4)) :=
      ⟨(Capacity.fits_isSome_iff 0).mp (by decide +kernel), rfl, 4, rfl, by decide +kernel⟩
    have hshort : Plannable ⟨[], 4, true⟩ 10 (drainedCycle 0).2 (cpuTask "short" 2 (some 5)) :=
      ⟨(Capacity.fits_isSome_iff 0).mp (by decide +kernel), rfl, 5, rfl, by decide +kernel⟩
    rintro (_ | _ | n) task htask
    · rcases List.mem_cons.mp htask with rfl | htask
      · exact hhead
      · exact List.mem_singleton.mp htask ▸ hshort
    · exact List.mem_singleton.mp htask ▸ hhead
    · cases htask
  longest_nonneg := by decide +kernel
  soon n := by
    rw [drainedCycle_time, drainedCycle_time]
    push_cast
    linarith
  goes t := by
    obtain ⟨n, hn⟩ := exists_nat_ge t
    refine ⟨n, ?_⟩
    rw [drainedCycle_time]
    have : (0 : ℚ) ≤ n := Nat.cast_nonneg n
    linarith

theorem no_starvation_drained : ∃ j, 0 ≤ j ∧ (drainedRun.cycle j).Decides ⟨[], 4, true⟩ (cpuTask "short" 2 (some 5)) ∧
    (drainedRun.cycle j).1 ≤ (drainedRun.cycle 0).1 +
      (([cpuTask "head" 8 (some 4)].length : ℕ) + 1) * (10 + 2 * 10) :=
  drainedRun.no_starvation (show (drainedRun.cycle 0).2.pending = _ ++ _ :: [] from rfl)

end AdaptiveExecutor
