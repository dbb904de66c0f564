import AdaptiveExecutor.Scheduling.Head

/-!
# What a plan may commit

* `Grants.after`, `Admissions.after`, `Admissions.gpu_after` : after a granted admission there is memory
  left, there is VRAM left on its GPU, and no slot above `max_workers` is in use;
* `cycle_admits` : what is admitted would fit in the room that the cycle starts from;
* `planDispatch_within` : so a plan never oversubscribes what it hands out;
* `planDispatch_exclusive` : an exclusive task is decided on an idle machine only, and alone.
-/

namespace AdaptiveExecutor
open Backfill

namespace Planner

variable {p p' : Planner} {a : Admission} {as bs : List Admission}

/-! ## After an admission -/

theorem Grants.vram_pos (h : p.Grants a) {g : GpuId} (hg : a.gpuId = some g) : 0 < a.task.vramGb := by
  by_contra hv
  rw [h.noGpu hv] at hg
  cases hg

theorem Grants.hasRoom (h : p.Grants a) {g : GpuId} (hg : a.gpuId = some g) :
    g ∈ p.cap.gpuRoundRobin ∧ HasRoom p.pools.gpuFree a.task.vramGb g := by
  obtain ⟨g', hmem, hg', hroom⟩ := h.gpu (h.vram_pos hg)
  obtain rfl : g' = g := Option.some.inj (hg'.symm.trans hg)
  exact ⟨hmem, hroom⟩

theorem free_pos {x : ℚ} {f : Free} : 0 < ((-x : ℚ) : Free) + f ↔ (x : Free) < f := by
  induction f using WithTop.recTopCoe with
  | top => simp
  | coe f =>
    rw [← WithTop.coe_add, ← WithTop.coe_zero, WithTop.coe_lt_coe, WithTop.coe_lt_coe]
    constructor <;> intro h <;> linarith

theorem Grants.after (h : p.Grants a) (rr : Int) :
    0 < (p.admitOne a rr).pools.memoryFree ∧ (p.admitOne a rr).pools.slots ≤ p.cap.maxWorkers := by
  rw [admitOne_room]
  refine ⟨?_, ?_⟩
  · rw [vadd_memoryFree]
    exact free_pos.mpr h.admits.memory
  · have hlt := h.admits.slots
    change p.pools.slots - (-1) ≤ _
    omega

theorem Grants.gpu_after (h : p.Grants a) (rr : Int) {g : GpuId} (hg : a.gpuId = some g) :
    ∃ f, (p.admitOne a rr).pools.gpuFree g = some f ∧ 0 < f := by
  obtain ⟨f, hf, hlt⟩ := (h.hasRoom hg).2
  refine ⟨((-a.task.vramGb : ℚ) : Free) + f, ?_, free_pos.mpr hlt⟩
  rw [admitOne_room, vadd_gpuFree, hf, Admission.load, loadOn_neg, hg]
  simp

theorem Admissions.after (h : Admissions p as p') (hne : as ≠ []) :
    0 < p'.pools.memoryFree ∧ p'.pools.slots ≤ p.cap.maxWorkers := by
  induction h with
  | nil => exact absurd rfl hne
  | @cons p p' a as rr ha hrest ih =>
    cases as with
    | nil =>
      cases hrest
      exact ha.after rr
    | cons b bs => exact ih (List.cons_ne_nil b bs)

theorem Admissions.gpu_frame (h : Admissions p as p') {g : GpuId} (hg : ∀ a ∈ as, a.gpuId ≠ some g) :
    p'.pools.gpuFree g = p.pools.gpuFree g := by
  induction h with
  | nil => rfl
  | @cons p p' a as rr _ _ ih =>
    obtain ⟨hga, hgas⟩ := List.forall_mem_cons.mp hg
    rw [ih hgas, admitOne_room, vadd_gpuFree, Admission.load, loadOn_neg]
    simp [hga]

theorem Admissions.gpu_after (h : Admissions p as p') {g : GpuId} (hg : ∃ a ∈ as, a.gpuId = some g) :
    ∃ f, p'.pools.gpuFree g = some f ∧ 0 < f := by
  induction h with
  | nil =>
    obtain ⟨a, ha, -⟩ := hg
    cases ha
  | @cons p p' a as rr ha hrest ih =>
    by_cases hlater : ∃ b ∈ as, b.gpuId = some g
    · exact ih hlater
    · -- `a` is the last admission on `g`
      rw [hrest.gpu_frame fun b hb hgb => hlater ⟨b, hb, hgb⟩]
      obtain ⟨b, hb, hgb⟩ := hg
      rcases List.mem_cons.mp hb with rfl | hb
      · exact ha.gpu_after rr hgb
      · exact absurd ⟨b, hb, hgb⟩ hlater

theorem Admissions.gpu_present (h : Admissions p as p') (g : GpuId) :
    (p'.pools.gpuFree g).isSome = (p.pools.gpuFree g).isSome := by
  rw [h.room, vadd_gpuFree, Option.isSome_map]

theorem Admissions.split (h : Admissions p (as ++ a :: bs) p') :
    ∃ q rr, Admissions p as q ∧ q.Grants a ∧ Admissions (q.admitOne a rr) bs p' := by
  induction as generalizing p with
  | nil =>
    cases h with
    | cons rr ha h => exact ⟨p, rr, .refl p, ha, h⟩
  | cons b as ih =>
    cases h with
    | cons rr hb h =>
      obtain ⟨q, rr', hq, ha, h'⟩ := ih h
      exact ⟨q, rr', .cons rr hb hq, ha, h'⟩

theorem Admissions.mem_gpu (h : Admissions p as p') (ha : a ∈ as) :
    (0 < a.task.vramGb → ∃ g ∈ p.cap.gpuRoundRobin, a.gpuId = some g ∧ (p.pools.gpuFree g).isSome) ∧
      (¬ 0 < a.task.vramGb → a.gpuId = none) := by
  obtain ⟨xs, ys, rfl⟩ := List.append_of_mem ha
  obtain ⟨q, rr, hq, hgrant, -⟩ := h.split
  refine ⟨fun hv => ?_, hgrant.noGpu⟩
  obtain ⟨g, hg, hga, f, hf, -⟩ := hgrant.gpu hv
  rw [hq.cap_eq] at hg
  exact ⟨g, hg, hga, by rw [← hq.gpu_present, hf]; rfl⟩

theorem Admissions.slots (h : Admissions p as p') : p'.pools.slots = p.pools.slots + as.length := by
  induction h with
  | nil => simp
  | @cons p p' a as rr _ _ ih =>
    rw [ih, List.length_cons]
    change p.pools.slots + 1 + (as.length : ℤ) = _
    push_cast
    ring

end Planner

/-! ## A plan stays within the capacity -/

def taskOf (pending : List PendingEntry) (d : DispatchDecision) : Option PendingEntry :=
  pending.find? fun task => task.id = d.pendingId

def decidedMemory (pending : List PendingEntry) (ds : List DispatchDecision) : ℚ :=
  ((ds.filterMap (taskOf pending)).map PendingEntry.memoryGb).sum

/-- The VRAM estimates of the tasks decided for `g`. -/
def decidedVram (pending : List PendingEntry) (ds : List DispatchDecision) (g : GpuId) : ℚ :=
  (((ds.filter fun d => d.gpuId = some g).filterMap (taskOf pending)).map PendingEntry.vramGb).sum

/-- **A plan within the capacity**: each task once and in queue order; if anything is decided, memory, the VRAM
of every GPU that is given a task and the worker slots are not exceeded; GPUs go to the tasks with VRAM. -/
structure WithinCapacity (pending : List PendingEntry) (cap : Capacity) (ds : List DispatchDecision) : Prop where
  order : (ds.map DispatchDecision.pendingId).Sublist (pending.map PendingEntry.id)
  once : (ds.map DispatchDecision.pendingId).Nodup
  memory : ds ≠ [] → (decidedMemory pending ds : Free) < cap.memoryFreeGb
  vram : ∀ d ∈ ds, ∀ g, d.gpuId = some g →
    ∃ f, cap.gpuFreeVramGb g = some f ∧ (decidedVram pending ds g : Free) < f
  slots : ds ≠ [] → cap.runningCount + ds.length ≤ cap.maxWorkers
  gpu : ∀ d ∈ ds, ∃ task ∈ pending, task.id = d.pendingId ∧
    (0 < task.vramGb → ∃ g ∈ cap.gpuRoundRobin, d.gpuId = some g ∧ (cap.gpuFreeVramGb g).isSome) ∧
    (¬ 0 < task.vramGb → d.gpuId = none)

section Within
variable {pending : List PendingEntry} (hids : (pending.map PendingEntry.id).Nodup)
include hids

theorem taskOf_decision {a : Admission} (ha : a.task ∈ pending) : taskOf pending a.decision = some a.task := by
  induction pending with
  | nil => cases ha
  | cons task rest ih =>
    rw [List.map_cons, List.nodup_cons] at hids
    unfold taskOf at ih ⊢
    rcases List.mem_cons.mp ha with rfl | ha
    · simp [Admission.decision]
    · have hne : task.id ≠ a.task.id := fun he => hids.1 (he ▸ List.mem_map_of_mem ha)
      rw [List.find?_cons_of_neg (by simp [Admission.decision, hne])]
      exact ih hids.2 ha

theorem filterMap_taskOf {as : List Admission} (has : ∀ a ∈ as, a.task ∈ pending) :
    (as.map Admission.decision).filterMap (taskOf pending) = as.map Admission.task := by
  induction as with
  | nil => rfl
  | cons a as ih =>
    obtain ⟨ha, has⟩ := List.forall_mem_cons.mp has
    rw [List.map_cons, List.filterMap_cons, taskOf_decision hids ha, ih has, List.map_cons]

end Within

theorem sum_load (as : List Admission) : (as.map Admission.load).sum.1 =
    ((as.map Admission.task).map PendingEntry.memoryGb).sum := by
  induction as with
  | nil => rfl
  | cons a as ih => simp [ih, Admission.load, loadOn]

theorem sum_load_gpu (as : List Admission) (g : GpuId) : (as.map Admission.load).sum.2.1 g =
    (((as.filter fun a => a.gpuId = some g).map Admission.task).map PendingEntry.vramGb).sum := by
  induction as with
  | nil => rfl
  | cons a as ih =>
    by_cases hg : a.gpuId = some g <;> simp [ih, Admission.load, loadOn, hg]

open Planner

section Cycle
variable {pending : List PendingEntry} {running : List RunningEntry} {cap : Capacity}

/-- If a cycle admits anything, there is memory for all that it admits, and a slot for each. -/
theorem cycle_within (hne : (cycle pending running cap).admitted ≠ []) :
    (((((cycle pending running cap).admitted.map Admission.task).map PendingEntry.memoryGb).sum : ℚ) : Free) <
        cap.memoryFreeGb ∧
      cap.runningCount + (cycle pending running cap).admitted.length ≤ cap.maxWorkers := by
  obtain ⟨as, bs, h⟩ := run_spec (init pending running cap)
  rw [cycle_admitted h] at hne ⊢
  obtain ⟨hpos, hmax⟩ := h.all.after hne
  rw [h.all.room, vadd_memoryFree, Prod.fst_neg, free_pos, sum_load] at hpos
  rw [h.all.slots] at hmax
  exact ⟨hpos, hmax⟩

/-- The GPU of an admission has the VRAM for all that a cycle admits to it. -/
theorem cycle_within_gpu {a : Admission} (ha : a ∈ (cycle pending running cap).admitted) {g : GpuId}
    (hg : a.gpuId = some g) : ∃ f, cap.gpuFreeVramGb g = some f ∧
      ((((((cycle pending running cap).admitted.filter fun a => a.gpuId = some g).map Admission.task).map
        PendingEntry.vramGb).sum : ℚ) : Free) < f := by
  obtain ⟨as, bs, h⟩ := run_spec (init pending running cap)
  rw [cycle_admitted h] at ha ⊢
  obtain ⟨f, hf, hpos⟩ := h.all.gpu_after ⟨a, ha, hg⟩
  rw [h.all.room, vadd_gpuFree] at hf
  obtain ⟨f₀, hf₀, rfl⟩ := Option.map_eq_some_iff.mp hf
  rw [Prod.snd_neg, Prod.fst_neg, Pi.neg_apply, free_pos, sum_load_gpu] at hpos
  exact ⟨f₀, hf₀, hpos⟩

theorem cycle_admits (hnn : (init pending running cap).NonnegEstimates) {a : Admission}
    (ha : a ∈ (cycle pending running cap).admitted) :
    cap.Admits a.task (init pending running cap).pools.toRoom := by
  obtain ⟨as, bs, h⟩ := run_spec (init pending running cap)
  rw [cycle_admitted h] at ha
  have hload : ∀ b ∈ as ++ bs, 0 ≤ b.load := fun b hb => h.load_nonneg hnn hb
  have hall := h.all
  obtain ⟨xs, ys, hsplit⟩ := List.append_of_mem ha
  rw [hsplit] at hall hload
  obtain ⟨q, rr, hq, hgrant, -⟩ := hall.split
  have hadmits := hgrant.admits
  rw [hq.cap_eq, hq.room] at hadmits
  apply cap.admits_mono a.task _ hadmits
  -- the room has only shrunk before `a`
  have hsum : 0 ≤ (xs.map Admission.load).sum := by
    apply List.sum_nonneg
    intro l hl
    obtain ⟨b, hb, rfl⟩ := List.mem_map.mp hl
    exact hload b (List.mem_append_left _ hb)
  have hle := IsOrderedVAdd.vadd_le_vadd_right _ _ (neg_nonpos.mpr hsum) (init pending running cap).pools.toRoom
  rwa [zero_vadd] at hle

end Cycle

/-- **A dispatch plan never oversubscribes what it hands out.** -/
theorem planDispatch_within (pending : List PendingEntry) (running : List RunningEntry) (cap : Capacity)
    (hids : (pending.map PendingEntry.id).Nodup) :
    WithinCapacity pending cap (planDispatch pending running cap).decisions := by
  obtain ⟨as, bs, h⟩ := run_spec (init pending running cap)
  have hadm := cycle_admitted h
  have hds : (planDispatch pending running cap).decisions = (cycle pending running cap).admitted.map Admission.decision :=
    rfl
  have hmem : ∀ a ∈ (cycle pending running cap).admitted, a.task ∈ pending := fun a ha =>
    h.sublist.subset (List.mem_map_of_mem (hadm ▸ ha))
  have hidsub := planDispatch_sublist pending running cap
  refine ⟨hidsub, hids.sublist hidsub, fun hne => ?_, fun d hd g hg => ?_, fun hne => ?_, fun d hd => ?_⟩
  · rw [hds] at hne ⊢
    rw [decidedMemory, filterMap_taskOf hids hmem]
    exact (cycle_within fun hnil => hne (by rw [hnil]; rfl)).1
  · rw [hds] at hd ⊢
    obtain ⟨a, ha, rfl⟩ := List.mem_map.mp hd
    rw [decidedVram, List.filter_map, filterMap_taskOf hids fun a ha => hmem a (List.mem_of_mem_filter ha)]
    exact cycle_within_gpu ha hg
  · rw [hds] at hne ⊢
    rw [List.length_map]
    exact (cycle_within fun hnil => hne (by rw [hnil]; rfl)).2
  · rw [hds] at hd
    obtain ⟨a, ha, rfl⟩ := List.mem_map.mp hd
    exact ⟨a.task, hmem a ha, rfl, h.all.mem_gpu (hadm ▸ ha)⟩

theorem planDispatch_within_two :
    WithinCapacity [cpuTask "a" 1 none, cpuTask "b" 2 none] (cpuHost 4 2 0)
      (planDispatch [cpuTask "a" 1 none, cpuTask "b" 2 none] [] (cpuHost 4 2 0)).decisions :=
  planDispatch_within _ [] _ (by decide)

/-- A GPU with nothing free and no task is not strictly above its VRAM sum. -/
theorem planDispatch_idle_gpu :
    let pending := [cpuTask "a" 1 none]
    let cap := { cpuHost 4 2 0 with gpuFreeVramGb := fun g => if g = 0 then some 0 else none, gpuRoundRobin := [0] }
    (pending.map PendingEntry.id).Nodup ∧ (planDispatch pending [] cap).decisions ≠ [] ∧
      ∃ f, cap.gpuFreeVramGb 0 = some f ∧
        ¬ (decidedVram pending (planDispatch pending [] cap).decisions 0 : Free) < f :=
  ⟨by decide, by decide +kernel, 0, by decide, by decide +kernel⟩

/-! ## Exclusive tasks -/

namespace Planner

variable {p : Planner} {a : Admission} {as bs : List Admission}

theorem Admissions.exclusive_slots (h : Admissions p (as ++ a :: bs) p') (hex : a.task.exclusive = true) :
    p.pools.slots + as.length ≤ 0 := by
  obtain ⟨q, rr, hq, hgrant, -⟩ := h.split
  rw [← hq.slots]
  exact hgrant.admits.alone hex

/-- On an idle machine the canary blocks nothing and no release is expected, so nothing is backfilled. -/
theorem RunSpec.idle_backs (hnn : p.NonnegEstimates) (h : RunSpec p [] bs) (hocc : p.occupants = [])
    (hheld : p.heldIdentities = []) : bs = [] := by
  rcases h.scan with hbs | ⟨head, rest, hb, hq, -, -, -⟩
  · exact hbs
  have hocc' : p.front.1.occupants = [] := by rw [h.occupants, hocc]; rfl
  have hc : p.front.1.canaryBlocked head = false := by
    unfold canaryBlocked
    cases hk : head.profileIdentity with
    | none => simp
    | some k =>
      have hk' : k ∉ p.front.1.heldIdentities := by simp [h.front.held, hheld]
      simp [hk']
  refine h.backs_eq_nil hnn hq ?_ ?_
  · rw [reservation, hc, if_neg Bool.false_ne_true, computeReservation, releaseTimes, hocc']
    rfl
  · rw [stateAt_eq, hocc', project, released_nil, zero_vadd]
    exact h.head_blocked hb hq hc

end Planner

section Exclusive
variable {pending : List PendingEntry} {running : List RunningEntry} {cap : Capacity} {as bs : List Admission}
variable (hcount : cap.runningCount = running.length)
  (hpending : ∀ task ∈ pending, 0 ≤ task.memoryGb ∧ 0 ≤ task.vramGb)
  (hrunning : ∀ o ∈ running, 0 ≤ o.memoryGb ∧ 0 ≤ o.vramGb)
include hcount hpending hrunning

/-- The scan reaches no exclusive task: it would take an idle machine, and there it admits nothing. -/
theorem Planner.RunSpec.backs_not_exclusive (h : RunSpec (init pending running cap) as bs) :
    ∀ b ∈ bs, b.task.exclusive = false := by
  intro b hb
  by_contra hex
  rw [Bool.not_eq_false] at hex
  obtain ⟨xs, ys, rfl⟩ := List.append_of_mem hb
  have hall := h.all
  rw [← List.append_assoc] at hall
  have hle := hall.exclusive_slots hex
  have hslots : (init pending running cap).pools.slots = running.length := hcount
  rw [hslots, List.length_append] at hle
  obtain rfl : running = [] := List.length_eq_zero_iff.mp (by omega)
  obtain rfl : as = [] := List.length_eq_zero_iff.mp (by omega)
  exact absurd (h.idle_backs ⟨hpending, hrunning⟩ rfl rfl) (List.append_ne_nil_of_right_ne_nil xs (List.cons_ne_nil _ _))

theorem cycle_exclusive {a : Admission} (ha : a ∈ (cycle pending running cap).admitted)
    (hex : a.task.exclusive = true) : running = [] ∧ (cycle pending running cap).admitted = [a] := by
  obtain ⟨as, bs, h⟩ := run_spec (init pending running cap)
  have hadm := cycle_admitted h
  have hslots : (init pending running cap).pools.slots = running.length := hcount
  rw [hadm] at ha ⊢
  rcases List.mem_append.mp ha with ha | ha
  · -- front admission ends with it
    obtain ⟨xs, ys, rfl⟩ := List.append_of_mem ha
    obtain rfl := h.frontEnd.last xs a ys rfl hex
    have hle := h.front.exclusive_slots hex
    rw [hslots] at hle
    have hbs : bs = [] := by
      rcases h.scan with hbs | ⟨head, rest, hb, -⟩
      · exact hbs
      · rw [(h.frontEnd.stop hb).1 a ha] at hex
        cases hex
    exact ⟨List.length_eq_zero_iff.mp (by omega), by
      rw [hbs, List.length_eq_zero_iff.mp (show xs.length = 0 by omega)]; rfl⟩
  · rw [h.backs_not_exclusive hcount hpending hrunning a ha] at hex
    cases hex

/-- An exclusive task is decided on an idle machine only, and nothing is decided with it. -/
theorem planDispatch_exclusive {a : Admission} (ha : a ∈ (cycle pending running cap).admitted)
    (hex : a.task.exclusive = true) : running = [] ∧ (planDispatch pending running cap).decisions = [a.decision] := by
  obtain ⟨hrun, hadm⟩ := cycle_exclusive hcount hpending hrunning ha hex
  exact ⟨hrun, congrArg (List.map Admission.decision) hadm⟩

end Exclusive

end AdaptiveExecutor
