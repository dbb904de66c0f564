import AdaptiveExecutor.Executor.Poison
import AdaptiveExecutor.Executor.Roster
import AdaptiveExecutor.Executor.Slots

/-!
# No process is left behind

A worker leaves the pool when it has died, when its sentinel is on its work queue, or when it is about to be killed. One
that takes its sentinel may take its time: it stops its monitor, and flushes its results.

* `Section.kills` : the worker that a thread is about to kill;
* `WorkerProcess.Dismissed` : the worker has its sentinel, on its queue or taken;
* `Leaves`, `run_leaves`, `Staffing.minded` : what sections and the small steps of a cycle do to the processes;
* `Minded`, `step_minded` : every process is one of the pool, or has been told to stop;
* `no_process_left` : in every run whose kills succeed, of a pool of any size.
-/

namespace AdaptiveExecutor

def Section.kills {α : Type} : Section α → Option WorkerId
  | .escalateKill w => some w
  | _ => none

namespace WorkerProcess
variable {α : Type} {p p' : WorkerProcess α}

/-- The sentinel is on the work queue, or has been taken. -/
def Dismissed (p : WorkerProcess α) : Prop := none ∈ p.workQueue ∨ p.leaving = true

theorem Dismissed.keep (h : p.Dismissed) (hqueue : none ∈ p.workQueue → none ∈ p'.workQueue) (hleaving : p'.leaving = p.leaving) :
    p'.Dismissed :=
  h.imp hqueue hleaving.trans

end WorkerProcess

namespace Executor
variable {α : Type} {env : Env} {e e' : Executor α} {kills kills' others : List WorkerId} {w : WorkerId}

theorem Lasts.dismissed {pooled : Prop} {slot slot' : WorkerSlot α} (h : Lasts pooled slot slot')
    (hslot : slot.process.Dismissed) : slot'.process.Dismissed := by
  obtain ⟨k, hk, -⟩ := h.queue
  refine hslot.keep (fun hnone => ?_) h.leaving
  rw [hk]
  exact List.mem_append_left _ hnone

/-- The worker has its sentinel, or is about to be killed. -/
def Told (e : Executor α) (kills : List WorkerId) (w : WorkerId) : Prop :=
  (e.slots w).process.Dismissed ∨ w ∈ kills

/-- Every process is one of the pool, or is retiring and has been told to stop. -/
def Minded (e : Executor α) (kills : List WorkerId) : Prop :=
  ∀ w, w < e.nextWorkerId → (e.slots w).process.alive = true → w ∈ e.workers ∨ w ∈ e.retiring ∧ e.Told kills w

/-- The processes that are alive leave the pool only to be retiring, told to stop, and do not leave from there. -/
structure Leaves (e e' : Executor α) (kills : List WorkerId) : Prop where
  workers : ∀ w ∈ e.workers, (e'.slots w).process.alive = true → w ∈ e'.workers ∨ w ∈ e'.retiring ∧ e'.Told kills w
  retiring : ∀ w ∈ e.retiring, (e'.slots w).process.alive = true → w ∈ e'.retiring

theorem Leaves.of_same (hworkers : e'.workers = e.workers) (hretiring : e'.retiring = e.retiring) : Leaves e e' kills := by
  constructor
  · intro w hw _
    rw [hworkers]
    exact .inl hw
  · intro w hw _
    rwa [hretiring]

theorem leaves_evict {f : WorkerSlot α → WorkerSlot α} (htold : ((e.modifySlot w f).evict w).Told kills w) :
    Leaves e ((e.modifySlot w f).evict w) kills := by
  constructor
  · intro v hv _
    by_cases hvw : v = w
    · subst hvw
      exact .inr ⟨List.mem_append_right _ (List.mem_singleton_self v), htold⟩
    · exact .inl ((List.mem_erase_of_ne hvw).mpr hv)
  · intro v hv _
    exact List.mem_append_left _ hv

theorem told_sentinel (e : Executor α) (w : WorkerId) : (e.retireWorker w).Told kills w := by
  refine .inl (.inl ?_)
  unfold retireWorker evict
  rw [modifySlot_slots, if_pos rfl]
  simp

theorem leaves_retire (e : Executor α) (w : WorkerId) : Leaves e (e.retireWorker w) kills := leaves_evict (told_sentinel e w)

theorem leaves_clearWorker (e : Executor α) (r : WorkResult α) : Leaves e (e.clearWorker r) kills := by
  have hfree : Leaves e (e.modifySlot r.workerId fun slot =>
      { slot with currentWorkId := none, tasksCompleted := slot.tasksCompleted + 1 }) kills := .of_same rfl rfl
  unfold clearWorker
  dsimp only
  split_ifs
  · have hretire : Leaves (e.modifySlot r.workerId fun slot => { slot with
        currentWorkId := none, tasksCompleted := slot.tasksCompleted + 1 }) _ kills := leaves_retire _ r.workerId
    exact ⟨hretire.workers, hretire.retiring⟩
  · exact hfree
  · exact .of_same rfl rfl

theorem leaves_handleTimeout (e : Executor α) (id : WorkId) :
    Leaves e (e.handleTimeout id).1 ((e.handleTimeout id).2.filterMap Section.kills) := by
  unfold handleTimeout
  split_ifs
  · exact .of_same rfl rfl
  dsimp only
  split
  · rename_i w _ _
    split_ifs
    · have htold : ((e.modifySlot w fun slot => { slot with
          intentionallyStopped := true, queuePoisoned := true, currentWorkId := none }).evict w).Told [w] w :=
        .inr (List.mem_singleton_self w)
      have hevict := leaves_evict htold
      exact ⟨hevict.workers, hevict.retiring⟩
    · exact .of_same rfl rfl
  · split
    · exact .of_same rfl rfl
    · split_ifs <;> exact .of_same rfl rfl

theorem leaves_filter {workers retiring : List WorkerId} (hworkers : e'.workers = workers) (hretiring : e'.retiring = retiring)
    (hsub : ∀ w ∈ e.workers, (e'.slots w).process.alive = true → w ∈ workers)
    (hsub' : ∀ w ∈ e.retiring, (e'.slots w).process.alive = true → w ∈ retiring) : Leaves e e' kills := by
  subst hworkers hretiring
  exact ⟨fun w hw ha => .inl (hsub w hw ha), hsub'⟩

/-- **No section but a dispatch cycle** leaves a process alone. -/
theorem run_leaves {sec : Section α} {body : List (Section α)} (h : e.run env sec = some (e', body))
    (hsec : sec ≠ .maybeDispatch) : Leaves e e' (body.filterMap Section.kills) := by
  cases sec with
  | maybeDispatch => exact absurd rfl hsec
  | processResult r =>
    obtain ⟨rfl, -⟩ := run_eq (r := e.processResult r) h
    have hclear : Leaves e (e.clearWorker r) (body.filterMap Section.kills) := leaves_clearWorker e r
    unfold processResult
    dsimp only
    split_ifs
    · exact ⟨hclear.workers, hclear.retiring⟩
    · exact ⟨hclear.workers, hclear.retiring⟩
    · exact hclear
  | handleTimeout id =>
    obtain ⟨rfl, rfl⟩ := run_eq (r := e.handleTimeout id) h
    exact leaves_handleTimeout e id
  | checkWorkers =>
    obtain ⟨rfl, -⟩ := run_eq (r := e.checkWorkers) h
    exact leaves_filter rfl rfl (fun w hw ha => List.mem_filter.mpr ⟨hw, ha⟩) fun w hw ha => List.mem_filter.mpr ⟨hw, ha⟩
  | pruneRetiring =>
    obtain ⟨rfl, -⟩ := run_eq h
    exact leaves_filter rfl rfl (fun w hw _ => hw) fun w hw ha => List.mem_filter.mpr ⟨hw, ha⟩
  | takeLost w =>
    obtain ⟨rfl, -⟩ := run_eq (r := e.takeLost w) h
    rcases takeLost_frame e w with hframe | ⟨id, -, hframe⟩ <;> rw [hframe] <;> exact .of_same rfl rfl
  | getNowait w results =>
    obtain ⟨rfl, -⟩ := run_eq (r := e.getNowait w results) h
    unfold getNowait
    split
    · exact .of_same rfl rfl
    · split_ifs <;> exact .of_same rfl rfl
  | escalateKill w =>
    obtain ⟨rfl, -⟩ := run_eq h
    unfold escalateKill
    split <;> exact .of_same rfl rfl
  | stopAllWorkers =>
    obtain ⟨rfl, -⟩ := run_eq (r := e.stopAllWorkers) h
    obtain ⟨slots, hslots, -⟩ := foldl_modifySlot (fun slot : WorkerSlot α =>
      { slot with
        intentionallyStopped := true
        process := { slot.process with workQueue := slot.process.workQueue ++ [none] } }) e.workers e
    rw [Executor.stopAllWorkers, hslots]
    exact .of_same rfl rfl
  | failPendingFutures =>
    obtain ⟨rfl, -⟩ := run_eq h
    obtain ⟨futures, hframe⟩ := failPendingFutures_frame e
    rw [hframe]
    exact .of_same rfl rfl
  | sweep | readClock | scanTimeouts | readQueue | testInFlight | finalDrain | record | settle | penalizeEstimate | requeue
  | discardQueue | shutUnstarted | stopAccepting | stopThreads | leave =>
    obtain ⟨rfl, -⟩ := run_eq h
    exact .of_same rfl rfl

theorem escalateKill_dead (e : Executor α) (w : WorkerId) (hkill : env.kill ≠ .failed) :
    ((e.escalateKill env w).slots w).process.alive = false := by
  have hexit (code : Int) : ((e.modifyProcess w (·.exit code)).slots w).process.alive = false := by
    unfold modifyProcess
    rw [modifySlot_slots, if_pos rfl]
    dsimp only
    unfold WorkerProcess.exit
    split_ifs with ha
    · rfl
    · exact Bool.not_eq_true _ ▸ ha
  unfold escalateKill
  split
  · exact hexit _
  · exact hexit _
  · rename_i hfailed
    exact absurd hfailed hkill

/-- **Sections keep every process minded.** -/
theorem run_minded {sec : Section α} {body : List (Section α)} (h : e.run env sec = some (e', body))
    (hsec : sec ≠ .maybeDispatch) (hkill : sec.kills ≠ none → env.kill ≠ .failed) (hnext : e'.nextWorkerId = e.nextWorkerId)
    (hminded : Minded e (sec.kills.toList ++ others)) : Minded e' (body.filterMap Section.kills ++ others) := by
  have hleaves := run_leaves h hsec
  intro w hw ha
  have hlasts := run_lasts h hsec w
  rw [hnext] at hw
  rcases hminded w hw (hlasts.alive ha) with hworker | ⟨hretiring, htold⟩
  · refine (hleaves.workers w hworker ha).imp_right ?_
    rintro ⟨hretiring, htold⟩
    exact ⟨hretiring, htold.imp_right (List.mem_append_left _)⟩
  · refine .inr ⟨hleaves.retiring w hretiring ha, ?_⟩
    rcases htold with hdismissed | hmem
    · exact .inl (hlasts.dismissed hdismissed)
    · rcases List.mem_append.mp hmem with hmem | hmem
      · -- the section was the kill, and the process has not survived it
        cases sec with
        | escalateKill v =>
          obtain rfl : w = v := by simpa [Section.kills] using hmem
          obtain ⟨rfl, -⟩ := run_eq h
          rw [escalateKill_dead e w (hkill (Option.some_ne_none w))] at ha
          cases ha
        | _ => cases hmem
      · exact .inr (List.mem_append_right _ hmem)

/-! ## A dispatch cycle -/

theorem Staffing.minded (h : Staffing e e') (hminded : Minded e kills) : Minded e' kills := by
  cases h with
  | still _ _ hslots hworkers hretiring hnext _ =>
    unfold Minded Told at hminded ⊢
    rwa [hslots, hworkers, hretiring, hnext]
  | @retire v hv =>
    intro w hw ha
    have hlasts := lasts_retire e hv w
    have hleaves : Leaves e (e.retireWorker v) kills := leaves_retire e v
    rcases hminded w hw (hlasts.alive ha) with hworker | ⟨hretiring, htold⟩
    · exact hleaves.workers w hworker ha
    · exact .inr ⟨hleaves.retiring w hretiring ha, htold.imp_left hlasts.dismissed⟩
  | spawn pid gpuId =>
    intro w hw ha
    by_cases hnew : w = e.nextWorkerId
    · exact .inl (mem_insertKey.mpr (.inr hnew))
    · have hslot : (e.spawned pid gpuId).slots w = e.slots w := Function.update_of_ne hnew _ _
      have hold : w < e.nextWorkerId := lt_of_le_of_ne (Nat.lt_succ_iff.mp hw) hnew
      rw [hslot] at ha
      refine (hminded w hold ha).imp (fun hworker => mem_insertKey.mpr (.inl hworker)) ?_
      rintro ⟨hretiring, htold⟩
      refine ⟨hretiring, ?_⟩
      unfold Told at htold ⊢
      rwa [hslot]
  | @send _ x v hsends =>
    obtain ⟨item, -, hslots⟩ := hsends.slots
    intro w hw ha
    rw [hsends.next] at hw
    have hkeep : (e'.slots w).process.alive = (e.slots w).process.alive ∧
        ((e.slots w).process.Dismissed → (e'.slots w).process.Dismissed) := by
      rw [hslots]
      split_ifs with hv
      · subst hv
        exact ⟨rfl, fun hdismissed => hdismissed.keep (fun hnone => List.mem_append_left _ hnone) rfl⟩
      · exact ⟨rfl, id⟩
    rw [hkeep.1] at ha
    rw [hsends.workers, hsends.retiring]
    refine (hminded w hw ha).imp_right ?_
    rintro ⟨hretiring, htold⟩
    exact ⟨hretiring, htold.imp_left hkeep.2⟩

end Executor

/-! ## Runs -/

namespace System
open Executor (Minded)
variable {α : Type} {s s' : System α} {e : Event α} {executor : Executor α} {told told' : List WorkerId}

def kills (s : System α) : List WorkerId := s.sections.filterMap Section.kills

/-- A kill that is carried out succeeds: neither `terminate` nor `kill` raises. -/
def KillsSucceed (s : System α) : Event α → Prop
  | .act t env => ∀ sec ∈ s.nextSection (.act t env), sec.kills ≠ none → env.kill ≠ .failed
  | _ => True

theorem kills_of_begins {sec : Section α} (h : sec.begins = true) : sec.kills = none := by
  cases sec <;> first | rfl | cases h

theorem shutdownSections_kills (started wait : Bool) :
    ∀ sec ∈ (Executor.shutdownSections started wait : List (Section α)), sec.kills = none := by
  cases started <;> cases wait <;> simp [Executor.shutdownSections, Section.kills]

theorem minded_mono (h : Minded executor told) (hsub : told ⊆ told') : Minded executor told' := by
  intro w hw ha
  refine (h w hw ha).imp_right ?_
  rintro ⟨hretiring, htold⟩
  exact ⟨hretiring, htold.imp_right fun hm => hsub hm⟩

theorem minded_process {w : WorkerId} {p : WorkerProcess α} (h : Minded executor told)
    (hp : p.alive = true → (executor.slots w).process.alive = true ∧
      ((executor.slots w).process.Dismissed → p.Dismissed)) :
    Minded (executor.modifyProcess w fun _ => p) told := by
  intro v hv ha
  have hslot : ((executor.modifyProcess w fun _ => p).slots v).process =
      if v = w then p else (executor.slots v).process := by
    unfold Executor.modifyProcess
    rw [Executor.modifySlot_slots]
    split_ifs <;> rfl
  unfold Executor.Told
  rw [hslot] at ha ⊢
  split_ifs at ha ⊢ with hvw
  · subst hvw
    obtain ⟨halive, hkeep⟩ := hp ha
    exact (h v hv halive).imp_right fun ⟨hretiring, htold⟩ => ⟨hretiring, htold.imp_left hkeep⟩
  · exact h v hv ha

theorem ProcessStep.goes_on {w : WorkerId} {p p' : WorkerProcess α} (h : ProcessStep w p p') (ha : p'.alive = true) :
    p.alive = true ∧ (p.Dismissed → p'.Dismissed) := by
  have hexit {q : WorkerProcess α} {code : Int} (ha : (q.exit code).alive = true) : False := by
    unfold WorkerProcess.exit at ha
    split_ifs at ha with hq
    exact hq ha
  cases h with
  | take _ _ hqueue =>
    refine ⟨ha, fun hdismissed => hdismissed.keep (fun hnone => ?_) rfl⟩
    rw [hqueue] at hnone
    simpa using hnone
  | stop => exact ⟨ha, fun _ => .inr rfl⟩
  | exit => exact absurd ha hexit
  | put | lose => exact ⟨ha, id⟩

/-- **What an event does**: it leaves no process alone. -/
theorem step_minded (h : s.step e = some s') (hs : Sound s) (hpool : s.executor.Pool s.lost) (hok : s.KillsSucceed e)
    (hm : Minded s.executor s.kills) : Minded s'.executor s'.kills := by
  have begins (hands : Thread → List (Section α)) (t : Thread) (body : List (Section α))
      (hbody : ∀ sec ∈ body, sec.kills = none) (hhands : hands = Function.update s.hands t (s.hands t ++ body)) :
      Minded s.executor ({ s with hands := hands } : System α).kills :=
    minded_mono hm (filterMap_begin Section.kills { s with hands := hands } hbody hhands).symm.subset
  cases step_stepped h with
  | outside | submit | append | cancel | again => exact hm
  | process hp => exact minded_process hm hp.goes_on
  | contended hand =>
    exact minded_mono hm (filterMap_contended Section.kills _ rfl (fun _ => rfl) hand rfl).symm.subset
  | @begin _ t body _ hand hbody =>
    exact begins _ t body (fun sec hsec => kills_of_begins (hbody sec hsec)) (by rw [hand, List.nil_append])
  | @deliver t w i r _ hand =>
    have hhands := begins (Function.update s.hands t [.processResult r]) t [.processResult r]
      (List.forall_mem_singleton.mpr rfl) (by rw [hand, List.nil_append])
    exact minded_process (p := { (s.executor.slots w).process with
      resultQueue := (s.executor.slots w).process.resultQueue.eraseIdx i }) hhands fun ha => ⟨ha, id⟩
  | shutdown => exact begins _ .shutdown _ (shutdownSections_kills _ _) rfl
  | @act t env sec rest r hand hrun =>
    obtain ⟨others, hkills, hkills'⟩ := filterMap_act Section.kills { s with
      executor := r.1, hands := Function.update s.hands t (r.2 ++ rest), returned := s.returned || sec.returns } hand rfl
    have hbefore : Minded s.executor (sec.kills.toList ++ others) := minded_mono hm hkills.subset
    refine minded_mono ?_ hkills'.symm.subset
    by_cases hdispatch : sec = .maybeDispatch
    · subst hdispatch
      obtain ⟨executor, body⟩ := r
      obtain ⟨hok, rfl⟩ := Executor.run_maybeDispatch hrun
      exact (Executor.maybeDispatch_steps hs.pending hok).keep hs.marked hs.tidy hpool
        (fun _ _ hstaffing hminded => hstaffing.minded hminded) hbefore
    · refine Executor.run_minded hrun hdispatch (hok sec ?_) ?_ hbefore
      · simp [nextSection, hand]
      · exact (Executor.run_thins hrun hdispatch hpool.nodup.of_append_left).next

section Run
variable {cfg : Config} {profiles : ProfileStore}

/-- **No process is left behind**: in every run whose kills succeed, with whatever crashes, timeouts, evictions and recycling,
a process that is alive is one of the pool, or it retires: its sentinel is on its work queue, or it has taken it and is about
to exit, or a thread is about to kill it. A worker that has left the pool does not come back to it. -/
theorem no_process_left (h : Relation.ReflTransGen (NextWhen KillsSucceed) (init cfg profiles) s) (w : WorkerId)
    (hw : w < s.executor.nextWorkerId) (ha : (s.executor.slots w).process.alive = true) :
    w ∈ s.executor.workers ∨ w ∉ s.executor.workers ∧ w ∈ s.executor.retiring ∧
      (none ∈ (s.executor.slots w).process.workQueue ∨ (s.executor.slots w).process.leaving = true ∨
        .escalateKill w ∈ s.sections) := by
  have hminded : Minded s.executor s.kills := by
    clear hw ha
    induction h with
    | refl => exact fun v hv => absurd hv (Nat.not_lt_zero v)
    | tail hrun hnext ih =>
      obtain ⟨e, hok, hstep⟩ := hnext
      have hreach : Reachable _ := ⟨cfg, profiles, run_of_when hrun⟩
      obtain ⟨hs, hpool⟩ := hreach.sound
      exact step_minded hstep hs hpool hok ih
  have hreach : Reachable s := ⟨cfg, profiles, run_of_when h⟩
  refine (hminded w hw ha).imp_right ?_
  rintro ⟨hretiring, htold⟩
  refine ⟨(hreach.roster.1.retired w hretiring).2, hretiring, or_assoc.mp (htold.imp_right fun hkill => ?_)⟩
  obtain ⟨sec, hsec, hkills⟩ := List.mem_filterMap.mp hkill
  cases sec with
  | escalateKill v =>
    obtain rfl : v = w := Option.some.inj hkills
    exact hsec
  | _ => cases hkills

end Run

instance (s : System α) : ∀ e : Event α, Decidable (s.KillsSucceed e)
  | .act t env => inferInstanceAs (Decidable (∀ sec ∈ s.nextSection (.act t env), sec.kills ≠ none → env.kill ≠ .failed))
  | .tick _ | .start | .poll _ | .submit _ _ _ | .append _ | .cancel _ | .workerTake _ | .workerPut _ _ | .workerLose _ _
  | .workerDie _ _ | .round _ | .call _ _ | .deliver _ _ _ | .contended _ | .shutdown _ => .isTrue trivial

/-- The timeout thread has evicted the only worker, and has not killed it yet. -/
theorem no_process_left_killing : ∃ s : System Unit, (s.executor.slots 0).process.alive = true ∧ s.executor.workers = [] ∧
    s.executor.retiring = [0] ∧
      (none ∈ (s.executor.slots 0).process.workQueue ∨ (s.executor.slots 0).process.leaving = true ∨
        .escalateKill 0 ∈ s.sections) := by
  have hfacts : ((init killingWorker {} : System Unit).playWhen KillsSucceed (shipOne ++ timeOutOne)).any (fun s => decide
      (0 < s.executor.nextWorkerId ∧ (s.executor.slots 0).process.alive = true ∧ s.executor.workers = [] ∧
        s.executor.retiring = [0])) = true := by decide +kernel
  obtain ⟨s, hs, hfacts⟩ := (Option.any_eq_true _ _).mp hfacts
  obtain ⟨hspawned, halive, hworkers, hretiring⟩ := of_decide_eq_true hfacts
  refine ⟨s, halive, hworkers, hretiring, ?_⟩
  rcases no_process_left (playWhen_run hs) 0 hspawned halive with hworker | ⟨-, -, htold⟩
  · rw [hworkers] at hworker
    cases hworker
  · exact htold

end System

end AdaptiveExecutor
