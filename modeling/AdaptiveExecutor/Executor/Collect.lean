import AdaptiveExecutor.Executor.Drain

/-!
# A sweep of the result queues comes to its end

A thread that reads queues and processes what it has read can always go on, and is through after finitely many sections.
The queues that it reads are empty then, unless they are poisoned or discarded.

* `Section.collects` : the sections of a sweep; `cost`, `run_cost` : what is left of it gets less;
* `Exhausted`, `run_exhausted` : a queue has been read to its end, and nothing comes in;
* `collect` : the run of a hand to its end; `sweep` : the run of a round of the collector.
-/

namespace AdaptiveExecutor
open Relation (ReflTransGen)

namespace Section
variable {α : Type}

def collects : Section α → Bool
  | .readQueue _ | .getNowait _ _ | .processResult _ | .record _ _ | .settle _ _ => true
  | _ => false

theorem plain_of_collects {m : Section α} (hm : m.collects = true) :
    m.loses = none ∧ m.discards = none ∧ m.timesOut = none := by
  cases m <;> first | exact ⟨rfl, rfl, rfl⟩ | cases hm

end Section

namespace Executor
variable {α : Type} {env : Env} {e e' : Executor α} {m m' : Section α} {body : List (Section α)} {w : WorkerId}

theorem Follows.collects (h : Follows m m') (hm : m.collects = true) : m'.collects = true := by
  cases h <;> first | rfl | cases hm

def backlog (e : Executor α) (w : WorkerId) : Nat := (e.slots w).process.resultQueue.length

/-- A bound on the sections that are left, once this one has been run. -/
def cost (e : Executor α) : Section α → Nat
  | .readQueue w => 2 + 4 * e.backlog w
  | .getNowait w results => 1 + 4 * e.backlog w + 3 * results.length
  | .processResult _ => 3
  | .record _ _ | .settle _ _ => 1
  | _ => 0

theorem cost_pos (e : Executor α) (hm : m.collects = true) : 0 < e.cost m := by
  cases m with
  | readQueue | getNowait | processResult | record | settle =>
    simp only [cost]
    omega
  | _ => cases hm

theorem cost_mono (h : ∀ w, e'.backlog w ≤ e.backlog w) (m : Section α) : e'.cost m ≤ e.cost m := by
  cases m with
  | readQueue w | getNowait w =>
    have hw := h w
    simp only [cost]
    omega
  | _ => exact le_rfl

theorem clearWorker_backlog (r : WorkResult α) : (e.clearWorker r).backlog w = e.backlog w := by
  have hsame : (e.slots w).SameQueue ((e.clearWorker r).slots w) := clearWorker_sameQueue r
  exact congrArg List.length hsame.results

/-- **What is left of a sweep gets less**, and nothing comes into a queue. -/
theorem run_cost (h : e.run env m = some (e', body)) (hm : m.collects = true) :
    (body.map e'.cost).sum < e.cost m ∧ ∀ w, e'.backlog w ≤ e.backlog w := by
  cases m with
  | readQueue w =>
    obtain ⟨rfl, rfl⟩ := run_eq h
    refine ⟨?_, fun _ => le_rfl⟩
    unfold readQueue
    split_ifs
    · simp [cost]
    · simp [cost]
  | getNowait w results =>
    obtain ⟨rfl, rfl⟩ := run_eq (r := e.getNowait w results) h
    have hall (e : Executor α) (rs : List (WorkResult α)) : ((rs.map Section.processResult).map e.cost).sum = 3 * rs.length := by
      induction rs with
      | nil => rfl
      | cons r rs ih =>
        simp only [List.map_cons, List.sum_cons, List.length_cons, ih, cost]
        omega
    unfold getNowait
    split
    · refine ⟨?_, fun _ => le_rfl⟩
      dsimp only
      rw [hall]
      simp only [cost]
      omega
    · rename_i r rest hqueue
      have hlength : e.backlog w = rest.length + 1 := congrArg List.length hqueue
      split_ifs
      · refine ⟨?_, fun _ => le_rfl⟩
        dsimp only
        rw [hall]
        simp only [cost]
        omega
      · have hslots (v : WorkerId) : (e.modifyProcess w fun p => { p with resultQueue := rest }).backlog v =
            if v = w then rest.length else e.backlog v := by
          unfold backlog modifyProcess
          rw [modifySlot_slots]
          split_ifs
          · rfl
          · rfl
        refine ⟨?_, fun v => ?_⟩
        · simp only [List.map_cons, List.map_nil, List.sum_cons, List.sum_nil, cost, hslots, if_true, hlength,
            List.length_append, List.length_nil, List.length_cons]
          omega
        · dsimp only
          rw [hslots]
          split_ifs with hv
          · rw [hv]
            omega
          · exact le_rfl
  | processResult r =>
    obtain ⟨rfl, rfl⟩ := run_eq (r := e.processResult r) h
    have hclear (w : WorkerId) : (e.clearWorker r).backlog w = e.backlog w := clearWorker_backlog r
    unfold processResult
    dsimp only
    split_ifs
    · exact ⟨by simp [cost], fun w => (hclear w).le⟩
    · exact ⟨by simp [cost], fun w => (hclear w).le⟩
    · exact ⟨by simp [cost], fun w => (hclear w).le⟩
  | record id observation =>
    obtain ⟨rfl, rfl⟩ := run_eq h
    exact ⟨by simp [cost], fun _ => le_rfl⟩
  | settle id outcome =>
    obtain ⟨rfl, rfl⟩ := run_eq h
    exact ⟨by simp [cost], fun _ => le_rfl⟩
  | _ => cases hm

theorem run_collects (env : Env) (e : Executor α) (hm : m.collects = true) : ∃ r, e.run env m = some r := by
  cases m with
  | readQueue | getNowait | processResult | record | settle => exact ⟨_, rfl⟩
  | _ => cases hm

/-- Nothing is left to read in the queue of the worker. -/
def Exhausted (e : Executor α) (w : WorkerId) : Prop :=
  (e.slots w).process.resultQueue = [] ∨ (e.slots w).queuePoisoned = true ∨ (e.slots w).queueDiscarded = true

theorem Exhausted.mono (h : Exhausted e w) (hages : (e.slots w).Ages (e'.slots w)) (hbacklog : e'.backlog w ≤ e.backlog w) :
    Exhausted e' w := by
  rcases h with hempty | hclosed
  · left
    apply List.eq_nil_of_length_eq_zero
    have hzero : e.backlog w = 0 := congrArg List.length hempty
    change e'.backlog w = 0
    omega
  · exact .inr (hclosed.imp hages.poisoned hages.discarded)

end Executor

/-! ## Runs of a hand -/

namespace System
open Executor (Exhausted)
variable {α : Type} {s s' : System α} {t : Thread}

def Collects (s : System α) (e : Event α) : Prop := ∃ m ∈ s.nextSection e, m.collects = true

/-- **A hand of sections of a sweep can be run to its end**, and the queues that it reads are exhausted then. -/
theorem collect (env : Env) : ∀ (n : Nat) {s : System α}, Sound s → (∀ m ∈ s.hands t, m.collects = true) →
    ((s.hands t).map s.executor.cost).sum ≤ n → ∃ s', ReflTransGen (NextWhen Collects) s s' ∧ s'.hands t = [] ∧
      (∀ t', t' ≠ t → s'.hands t' = s.hands t') ∧ s'.stopping = s.stopping ∧
        ∀ w < s.executor.nextWorkerId, ((∃ m ∈ s.hands t, m.reads = some w) ∨ Exhausted s.executor w) →
          Exhausted s'.executor w := by
  intro n
  induction n with
  | zero =>
    intro s _ hcollects hcost
    cases hand : s.hands t with
    | nil => exact ⟨s, .refl, hand, fun _ _ => rfl, rfl, fun w _ h => h.resolve_left fun ⟨m, hm, _⟩ => by cases hm⟩
    | cons m rest =>
      have hpos := Executor.cost_pos s.executor (hcollects m (by rw [hand]; exact List.mem_cons_self))
      rw [hand, List.map_cons, List.sum_cons] at hcost
      omega
  | succ n ih =>
    intro s hs hcollects hcost
    cases hand : s.hands t with
    | nil => exact ⟨s, .refl, hand, fun _ _ => rfl, rfl, fun w _ h => h.resolve_left fun ⟨m, hm, _⟩ => by cases hm⟩
    | cons m rest =>
      have hm := hcollects m (by rw [hand]; exact List.mem_cons_self)
      obtain ⟨r, hrun⟩ := Executor.run_collects env s.executor hm
      obtain ⟨hless, hbacklog⟩ := Executor.run_cost hrun hm
      generalize hs₁ : ({ s with
        executor := r.1, hands := Function.update s.hands t (r.2 ++ rest), returned := s.returned || m.returns } :
          System α) = s₁
      have hstep : s.step (.act t env) = some s₁ := by
        simp only [step, hand, hrun, Option.map_some, hs₁]
      have hhand : s₁.hands t = r.2 ++ rest := by
        rw [← hs₁]
        exact Function.update_self t _ _
      have hothers (t' : Thread) (ht' : t' ≠ t) : s₁.hands t' = s.hands t' := by
        rw [← hs₁]
        exact Function.update_of_ne ht' _ _
      have hexecutor : s₁.executor = r.1 := by rw [← hs₁]
      have hages := Executor.run_ages hrun hs.pending fun w hw => by
        rw [(Section.plain_of_collects hm).2.1] at hw
        cases hw
      rw [hand, List.map_cons, List.sum_cons] at hcost
      have hrest : (rest.map r.1.cost).sum ≤ (rest.map s.executor.cost).sum :=
        List.sum_le_sum fun m' _ => Executor.cost_mono hbacklog m'
      obtain ⟨s', hrun', hhand', hothers', hstopping', hexhausted⟩ := ih (s := s₁) ((step_stepped hstep).sound hs)
        (fun m' hm' => by
          rw [hhand] at hm'
          rcases List.mem_append.mp hm' with hm' | hm'
          · exact (Executor.run_follows hrun m' hm').collects hm
          · exact hcollects m' (by rw [hand]; exact List.mem_cons_of_mem m hm'))
        (by
          rw [hhand, hexecutor, List.map_append, List.sum_append]
          omega)
      have hnext : m ∈ s.nextSection (.act t env) := by simp [nextSection, hand]
      refine ⟨s', .head ⟨.act t env, ⟨m, hnext, hm⟩, hstep⟩ hrun', hhand', fun t' ht' => ?_, ?_, fun w hw h => ?_⟩
      · exact (hothers' t' ht').trans (hothers t' ht')
      · rw [hstopping', ← hs₁]
      · apply hexhausted w
        · rw [hexecutor]
          exact hw.trans_le hages.next
        · rw [hhand, hexecutor]
          have hkeeps (h : Exhausted s.executor w) : Exhausted r.1 w := h.mono (hages.slot w hw) (hbacklog w)
          rcases h with ⟨m', hm', hreads⟩ | h
          · rcases List.mem_cons.mp hm' with rfl | hm'
            · rcases Executor.run_reads hrun hreads with ⟨m'', hm'', hreads⟩ | h
              · exact .inl ⟨m'', List.mem_append_left _ hm'', hreads⟩
              · exact .inr (hkeeps h)
            · exact .inl ⟨m', List.mem_append_right _ hm', hreads⟩
          · exact .inr (hkeeps h)

end System

end AdaptiveExecutor
