import AdaptiveExecutor.Executor.Handshake

/-!
# Cancellation at any time

A caller that cancels takes no lock, so the system is refined: a cycle goes from phase to phase, and between any two of
them there can be a cancel, or any other event that does not wait for the lock.

* `Fine`, `Fine.step` : the refined system, with the logs of the handshakes and of the tasks shipped;
* `Fine.Orderly`, `Fine.Reachable.orderly` : its invariant;
* `Fine.one_winner` : cancellation and dispatch have exactly one winner;
* `System.Reachable.fine` : the runs of the system are runs of the refined one.
-/

namespace AdaptiveExecutor
open Ledger (Future Tidy)
open Relation (ReflTransGen)

def Section.cycles {α : Type} : Section α → Bool
  | .maybeDispatch => true
  | _ => false

structure Fine (α : Type) where
  system : System α
  /-- The cycle that has the lock, and its thread. -/
  cycle : Option (Thread × Phase) := none
  /-- A cycle has raised. It was the last: the exception ends the dispatch thread. -/
  down : Bool := false
  /-- The calls of `set_running_or_notify_cancel` so far. -/
  handshakes : List WorkId := []
  /-- The tasks put on a work queue so far. -/
  shipped : List WorkId := []

namespace Fine
variable {α : Type} {s s' : Fine α}

inductive Happening (α : Type)
  /-- An event of the system that is no cycle. While a cycle has the lock, it takes none. -/
  | event (e : System.Event α)
  /-- A thread that is about to run a cycle gets the lock. -/
  | begin (t : Thread)
  /-- The cycle takes its next step. -/
  | advance (env : Env)

def phase (s : Fine α) : Option Phase := s.cycle.map Prod.snd

def beside (s : Fine α) (e : System.Event α) : Bool :=
  !(System.nextSection s.system e).any Section.cycles && (s.cycle.isNone || !s.system.locks e)

/-- One step, where it can happen. When the cycle is over, its thread goes on with its next section; when it raises, the
lock is released and the thread never goes on. -/
def step (s : Fine α) : Happening α → Option (Fine α)
  | .event e => if s.beside e then (s.system.step e).map fun system => { s with system := system } else none
  | .begin t =>
    match s.cycle, s.system.hands t with
    | none, .maybeDispatch :: _ => if s.down then none else some { s with cycle := some (t, .begin) }
    | _, _ => none
  | .advance env =>
    match s.cycle with
    | none => none
    | some (t, ph) =>
      let s := { s with handshakes := s.handshakes ++ ph.handshakes }
      match s.system.executor.advance env ph with
      | .error e => some { s with system := { s.system with executor := e }, cycle := none, down := true }
      | .ok (e, none) =>
        some { s with
          system := { s.system with
            executor := e
            hands := Function.update s.system.hands t (s.system.hands t).tail }
          cycle := none
          shipped := s.shipped ++ ph.ships }
      | .ok (e, some ph') =>
        some { s with
          system := { s.system with executor := e }
          cycle := some (t, ph')
          shipped := s.shipped ++ ph.ships }

def init (cfg : Config) (profiles : ProfileStore) : Fine α := { system := .init cfg profiles }

def Next (s s' : Fine α) : Prop := ∃ h, s.step h = some s'

def Reachable (s : Fine α) : Prop := ∃ cfg profiles, ReflTransGen Next (init cfg profiles) s

/-- The invariant of all runs. While no cycle has raised, no task is in two places if the cycle ended here. -/
structure Orderly (s : Fine α) : Prop where
  known : ∀ x ∈ s.system.accepted ++ s.system.submitting, x ∈ s.system.issued
  winner : s.system.executor.Winner s.system.issued s.handshakes s.shipped
  sound : s.down = false → (s.system.withPending (s.system.executor.queueAt s.phase)).Sound
  stands : s.system.executor.Stands s.phase
  hand : ∀ t ph, s.cycle = some (t, ph) → s.down = false ∧ ∃ rest, s.system.hands t = .maybeDispatch :: rest

/-! ## Events beside a cycle -/

end Fine

namespace System
open Executor (Aside run_aside)
variable {α : Type} {s s' : System α} {e : Event α}

theorem Stepped.aside (h : Stepped s e s') (hno : (nextSection s e).any Section.cycles = false) :
    Aside s.executor s'.executor ∧ s'.issued = s.issued ∨
      (∃ id ∈ s.accepted, s' = { s with executor := { s.executor with
        futures := Function.update s.executor.futures id (s.executor.futures id).cancel } }) ∨
      ∃ id ∉ s.issued, ∃ work profiles, FreshTask work ∧ s'.issued = s.issued ++ [id] ∧
        s'.executor = { s.executor with
          profiles := profiles
          works := Function.update s.executor.works id work
          futures := Function.update s.executor.futures id .pending } := by
  have same {e' : Executor α} (hworks : e'.works = s.executor.works) (hflight : e'.inFlight = s.executor.inFlight)
      (hfutures : e'.futures = s.executor.futures) : Aside s.executor e' :=
    .of_same (fun x => by rw [hworks]) (by rw [hflight]; exact List.Subset.refl _) hfutures
  cases h with
  | submit work profiles _ hid hwork => exact .inr (.inr ⟨_, hid, work, profiles, hwork, rfl, rfl⟩)
  | cancel hid => exact .inr (.inl ⟨_, hid, rfl⟩)
  | @act t env m rest r hand hrun =>
    rw [nextSection, hand] at hno
    have hrun : s.executor.run env m = some (r.1, r.2) := hrun
    exact .inl ⟨run_aside hrun (by rintro rfl; cases hno), rfl⟩
  | outside | append | process | begin | deliver | contended | shutdown | again =>
    exact .inl ⟨same rfl rfl rfl, rfl⟩

theorem Stepped.hand (h : Stepped s e s') (hno : (nextSection s e).any Section.cycles = false) {t : Thread}
    {rest : List (Section α)} (hand : s.hands t = .maybeDispatch :: rest) :
    ∃ rest', s'.hands t = .maybeDispatch :: rest' := by
  rcases h.hand_kept hand with ⟨env, rfl⟩ | ⟨w, results, -, hreads⟩ | hkept
  · rw [nextSection, hand] at hno
    cases hno
  · cases hreads
  · exact hkept

theorem Sound.next (hs : Sound s) {t : Thread} {m : Section α} {rest : List (Section α)} (hand : s.hands t = m :: rest)
    (howns : m.owns = none) : Sound { s with hands := Function.update s.hands t rest } := by
  have hhands : ({ s with hands := Function.update s.hands t rest } : System α).hands =
      Function.update s.hands t ([] ++ rest) := rfl
  obtain ⟨others, hheld, hheld'⟩ := filterMap_act Section.owns _ hand hhands
  rw [howns] at hheld
  have hperm : (held { s with hands := Function.update s.hands t rest }).Perm s.held := hheld'.trans hheld.symm
  exact ⟨Ledger.Move.tidy (.reorder hperm) hs.tidy, hs.marked, hs.unknown, hs.fresh, hs.issued⟩

end System

/-! ## The invariant -/

namespace Executor
variable {α : Type} {e e' : Executor α} {ph : Option Phase}

theorem queueAt_congr (hpending : e'.pending = e.pending) (ph : Option Phase) : e'.queueAt ph = e.queueAt ph := by
  unfold queueAt without
  rw [hpending]

/-- The cycle knows the same of the same queue, when the flags of the queued tasks are the same. -/
theorem Stands.of_same (h : e.Stands ph) (hpending : e'.pending = e.pending)
    (hnotified : ∀ x ∈ e.queueAt ph, (e'.works x).runningNotified = (e.works x).runningNotified) : e'.Stands ph := by
  unfold Stands
  split
  · exact Awaits.of_pending h hpending
  · obtain ⟨hd, hawaits, hn⟩ := h
    exact ⟨hpending ▸ hd, hawaits.of_pending hpending, (hnotified _ (hawaits.queued hd)).trans hn⟩
  · obtain ⟨hd, hawaits, hn⟩ := h
    exact ⟨hpending ▸ hd, hawaits.of_pending hpending, (hnotified _ (hawaits.queued hd)).trans hn⟩
  all_goals trivial

end Executor

namespace Fine
variable {α : Type} {s s' : Fine α}

theorem phase_of_cycle {c : Option (Thread × Phase)} (hcycle : s.cycle = c) : s.phase = c.map Prod.snd :=
  congrArg (Option.map Prod.snd) hcycle

theorem Orderly.up (ho : Orderly s) (hphase : s.phase ≠ none) : s.down = false := by
  obtain ⟨c, hcycle⟩ := Option.ne_none_iff_exists'.mp fun h => hphase (phase_of_cycle h)
  exact (ho.hand c.1 c.2 hcycle).1

theorem Orderly.queued (ho : Orderly s) (hup : s.down = false) {x : WorkId} (hx : x ∈ s.system.executor.queueAt s.phase) :
    x ∈ s.system.issued :=
  (ho.sound hup).issued x (List.mem_append_left _ ((ho.sound hup).tidy.known x (List.mem_append_left _ hx)))

/-- **An event beside the cycle.** -/
theorem Orderly.event (ho : Orderly s) {e : System.Event α} {system : System α} (hbeside : s.beside e = true)
    (h : s.system.step e = some system) : Orderly { s with system := system } := by
  have hst := System.step_stepped h
  rw [beside, Bool.and_eq_true, Bool.not_eq_true', Bool.or_eq_true, Option.isNone_iff_eq_none, Bool.not_eq_true'] at hbeside
  obtain ⟨hno, hfree⟩ := hbeside
  have hfree : s.phase = none ∨ s.system.locks e = false := hfree.imp_left phase_of_cycle
  refine ⟨hst.known ho.known, ?_, fun hup => ?_, ?_, fun t ph hcycle => ?_⟩
  · rcases hst.aside hno with ⟨haside, hissued⟩ | ⟨id, hid, rfl⟩ | ⟨id, hid, work, profiles, hwork, hissued, hexecutor⟩
    · dsimp only
      rw [hissued]
      exact ho.winner.aside haside
    · exact ho.winner.cancel (ho.known id (List.mem_append_left _ hid))
    · dsimp only
      rw [hissued, hexecutor]
      exact ho.winner.submit hid hwork profiles
  · have hsound := ho.sound hup
    change (system.withPending (system.executor.queueAt s.phase)).Sound
    rcases hfree with hphase | hfree
    · rw [hphase] at hsound ⊢
      exact hst.sound hsound
    · obtain ⟨hvirtual, hpending⟩ := hst.withPending hfree (s.system.executor.queueAt s.phase)
      rw [Executor.queueAt_congr hpending]
      exact hvirtual.sound hsound
  · change system.executor.Stands s.phase
    by_cases hphase : s.phase = none
    · rw [hphase]
      trivial
    · refine ho.stands.of_same (hst.withPending (hfree.resolve_left hphase) []).2 fun x hx => ?_
      rcases hst.aside hno with ⟨haside, -⟩ | ⟨id, hid, rfl⟩ | ⟨id, hid, work, profiles, -, -, hexecutor⟩
      · exact haside.notified x
      · rfl
      · rw [hexecutor]
        exact congrArg PendingWork.runningNotified (Function.update_of_ne (ne_of_mem_of_not_mem (ho.queued (ho.up hphase) hx) hid) _ _)
  · obtain ⟨hup, rest, hand⟩ := ho.hand t ph hcycle
    exact ⟨hup, hst.hand hno hand⟩

theorem Orderly.begin (ho : Orderly s) {t : Thread} {rest : List (Section α)} (hup : s.down = false)
    (hcycle : s.cycle = none) (hand : s.system.hands t = .maybeDispatch :: rest) :
    Orderly { s with cycle := some (t, .begin) } := by
  have hphase : s.phase = none := phase_of_cycle hcycle
  have hsound := ho.sound hup
  rw [hphase] at hsound
  refine ⟨ho.known, ho.winner, fun _ => hsound, trivial, fun t' ph h => ?_⟩
  obtain ⟨rfl, -⟩ := Prod.mk.inj (Option.some.inj h)
  exact ⟨hup, rest, hand⟩

theorem Orderly.winner_advance (ho : Orderly s) {env : Env} {t : Thread} {ph : Phase} {e : Executor α} {ph' : Option Phase}
    (hcycle : s.cycle = some (t, ph)) (h : s.system.executor.advance env ph = .ok (e, ph')) :
    e.Winner s.system.issued (s.handshakes ++ ph.handshakes) (s.shipped ++ ph.ships) := by
  have hphase : s.phase = some ph := phase_of_cycle hcycle
  have hst := ho.stands
  rw [hphase] at hst
  cases ph with
  | handshake d w ds removed =>
    obtain ⟨hd, hawaits, hnew⟩ := hst
    have hid : d.pendingId ∈ s.system.issued := by
      refine ho.queued (ho.hand t _ hcycle).1 ?_
      rw [hphase]
      exact hawaits.queued hd
    change e.Winner _ _ (s.shipped ++ [])
    rw [List.append_nil]
    rcases Executor.advance_handshake h with ⟨hf, rfl, -⟩ | ⟨hf, rfl, -⟩
    exacts [ho.winner.start hid hnew hf, ho.winner.drop hnew hf]
  | ship d w ds removed =>
    obtain ⟨-, -, hwon⟩ := hst
    obtain ⟨rfl, -⟩ := Prod.mk.inj (Except.ok.inj h)
    change Executor.Winner _ _ (s.handshakes ++ []) _
    rw [List.append_nil]
    exact ho.winner.ship hwon d.gpuId w
  | begin | sweep | plan | loop =>
    change e.Winner _ (s.handshakes ++ []) (s.shipped ++ [])
    rw [List.append_nil, List.append_nil]
    exact ho.winner.aside (Executor.advance_aside h rfl rfl)

/-- **The handshake never raises.** -/
theorem Orderly.handshake_ok (ho : Orderly s) {t : Thread} {d : DispatchDecision} {w : WorkerId} {ds : List DispatchDecision}
    {removed : List WorkId} (hcycle : s.cycle = some (t, .handshake d w ds removed)) :
    ((s.system.executor.futures d.pendingId).setRunningOrNotifyCancel).isSome = true := by
  have hphase : s.phase = some (.handshake d w ds removed) := phase_of_cycle hcycle
  have hst := ho.stands
  have hsound := ho.sound (ho.hand t _ hcycle).1
  rw [hphase] at hst hsound
  obtain ⟨hd, hawaits, hnew⟩ := hst
  have htold : (s.system.executor.futures d.pendingId).told = false := hsound.tidy.queued _ (hawaits.queued hd)
  have hrunning : s.system.executor.futures d.pendingId ≠ .running := fun hf => by
    have hn : (s.system.executor.works d.pendingId).runningNotified = true := hsound.marked.running _ hf
    rw [hnew] at hn
    cases hn
  cases hf : s.system.executor.futures d.pendingId with
  | pending | cancelled => rfl
  | running => exact absurd hf hrunning
  | cancelledAndNotified | finished =>
    rw [hf] at htold
    cases htold

theorem Orderly.sound_advance (ho : Orderly s) {env : Env} {t : Thread} {ph : Phase} {e : Executor α} {ph' : Option Phase}
    (hcycle : s.cycle = some (t, ph)) (h : s.system.executor.advance env ph = .ok (e, ph')) :
    System.Sound { s.system with executor := e.behind ph' } ∧ e.Stands ph' := by
  have hphase : s.phase = some ph := phase_of_cycle hcycle
  have hst := ho.stands
  have hsound := ho.sound (ho.hand t _ hcycle).1
  rw [hphase] at hst hsound
  obtain ⟨hkeeps, hst'⟩ := Executor.advance_keeps h hst hsound.marked hsound.tidy
  refine ⟨⟨hkeeps.tidy, hkeeps.marked, fun x hx => ?_, hsound.fresh, hsound.issued⟩, hst'⟩
  exact (hkeeps.unknown x hx).trans (hsound.unknown x hx)

theorem Orderly.step (ho : Orderly s) {a : Happening α} (h : s.step a = some s') : Orderly s' := by
  cases a with
  | event e =>
    unfold Fine.step at h
    dsimp only at h
    split_ifs at h with hbeside
    obtain ⟨system, hsystem, rfl⟩ := Option.map_eq_some_iff.mp h
    exact ho.event hbeside hsystem
  | begin t =>
    unfold Fine.step at h
    dsimp only at h
    split at h
    · rename_i rest hcycle hand
      split_ifs at h with hdown
      obtain rfl := Option.some.inj h
      exact ho.begin (Bool.not_eq_true _ ▸ hdown) hcycle hand
    · cases h
  | advance env =>
    unfold Fine.step at h
    dsimp only at h
    split at h
    · cases h
    · rename_i t ph hcycle
      obtain ⟨hup, rest, hand⟩ := ho.hand t ph hcycle
      split at h
      · rename_i e hadvance
        obtain rfl := Option.some.inj h
        have hnone : ph.handshakes = [] := by
          cases ph with
          | handshake d w ds removed =>
            have hok := ho.handshake_ok hcycle
            rw [Executor.advance] at hadvance
            split at hadvance
            · rename_i hraises
              rw [hraises] at hok
              cases hok
            · dsimp only at hadvance
              split_ifs at hadvance
          | _ => rfl
        have hwinner := ho.winner.aside (Executor.advance_raises hadvance)
        refine ⟨ho.known, ?_, fun hup => (by cases hup), trivial, fun _ _ h => by cases h⟩
        dsimp only
        rw [hnone, List.append_nil]
        exact hwinner
      · rename_i e hadvance
        obtain rfl := Option.some.inj h
        obtain ⟨hsound, -⟩ := ho.sound_advance hcycle hadvance
        refine ⟨ho.known, ho.winner_advance hcycle hadvance, fun _ => ?_, trivial, fun _ _ h => by cases h⟩
        dsimp only
        rw [hand]
        exact System.Sound.next hsound hand rfl
      · rename_i e ph' hadvance
        obtain rfl := Option.some.inj h
        obtain ⟨hsound, hst'⟩ := ho.sound_advance hcycle hadvance
        refine ⟨ho.known, ho.winner_advance hcycle hadvance, fun _ => hsound, hst', fun t' ph'' h => ?_⟩
        obtain ⟨rfl, -⟩ := Prod.mk.inj (Option.some.inj h)
        exact ⟨hup, rest, hand⟩

theorem init_orderly (cfg : Config) (profiles : ProfileStore) : Orderly (init cfg profiles : Fine α) := by
  have hnone (x : WorkId) : x ∉ ([] : List WorkId) := List.not_mem_nil
  refine ⟨fun x hx => absurd hx (hnone x), ⟨List.nodup_nil, fun x hx => absurd hx (hnone x), fun _ h => (by cases h),
    fun x hx => absurd hx (hnone x), fun x hx => absurd hx (hnone x), fun _ h => by cases h⟩, fun _ => ?_, trivial,
    fun _ _ h => by cases h⟩
  exact System.init_sound cfg profiles

theorem Orderly.run (ho : Orderly s) (h : ReflTransGen Next s s') : Orderly s' := by
  induction h with
  | refl => exact ho
  | tail _ h ih =>
    obtain ⟨a, h⟩ := h
    exact ih.step h

/-- **The invariant holds in every run.** -/
theorem Reachable.orderly (h : Reachable s) : Orderly s := by
  obtain ⟨cfg, profiles, h⟩ := h
  exact (init_orderly cfg profiles).run h

/-! ## The winner -/

theorem Orderly.step_keeps (ho : Orderly s) {a : Happening α} (h : s.step a = some s') :
    (∀ x, (s.system.executor.futures x).outcome = some none → (s'.system.executor.futures x).outcome = some none) ∧
      s.shipped ⊆ s'.shipped := by
  have aside {e : Executor α} (h : s.system.executor.Aside e) (x : WorkId)
      (hx : (s.system.executor.futures x).outcome = some none) : (e.futures x).outcome = some none := by
    rcases h.futures x with hsame | ⟨o, hsettled⟩
    · rwa [hsame]
    · rw [hsettled]
      exact Future.settle_outcome hx
  cases a with
  | event e =>
    unfold Fine.step at h
    dsimp only at h
    split_ifs at h with hbeside
    obtain ⟨system, hsystem, rfl⟩ := Option.map_eq_some_iff.mp h
    rw [beside, Bool.and_eq_true, Bool.not_eq_true'] at hbeside
    refine ⟨fun x hx => ?_, List.Subset.refl _⟩
    rcases (System.step_stepped hsystem).aside hbeside.1 with ⟨haside, -⟩ | ⟨id, hid, rfl⟩ | ⟨id, hid, work, profiles, -, -, hexecutor⟩
    · exact aside haside x hx
    · dsimp only
      by_cases hxid : x = id
      · subst hxid
        rw [Function.update_self]
        exact Future.cancel_outcome hx
      · rwa [Function.update_of_ne hxid]
    · dsimp only
      rw [hexecutor]
      dsimp only
      rwa [Function.update_of_ne (ne_of_mem_of_not_mem (ho.winner.cancelled x hx) hid)]
  | begin t =>
    unfold Fine.step at h
    dsimp only at h
    split at h
    · split_ifs at h
      obtain rfl := Option.some.inj h
      exact ⟨fun _ hx => hx, List.Subset.refl _⟩
    · cases h
  | advance env =>
    unfold Fine.step at h
    dsimp only at h
    split at h
    · cases h
    · rename_i t ph hcycle
      have advanced {e : Executor α} {ph' : Option Phase} (h : s.system.executor.advance env ph = .ok (e, ph'))
          (x : WorkId) (hx : (s.system.executor.futures x).outcome = some none) : (e.futures x).outcome = some none := by
        cases ph with
        | handshake d w ds removed =>
          have update {f : Future (Outcome α)} (hf : (s.system.executor.futures d.pendingId).outcome = some none →
              f.outcome = some none) :
              (Function.update s.system.executor.futures d.pendingId f x).outcome = some none := by
            by_cases hxid : x = d.pendingId
            · subst hxid
              rw [Function.update_self]
              exact hf hx
            · rwa [Function.update_of_ne hxid]
          rcases Executor.advance_handshake h with ⟨hf, rfl, -⟩ | ⟨-, rfl, -⟩
          · exact update fun h => by rw [hf] at h; cases h
          · exact update fun _ => rfl
        | ship d w ds removed =>
          obtain ⟨rfl, -⟩ := Prod.mk.inj (Except.ok.inj h)
          exact hx
        | begin | sweep | plan | loop => exact aside (Executor.advance_aside h rfl rfl) x hx
      split at h
      · rename_i e hadvance
        obtain rfl := Option.some.inj h
        exact ⟨aside (Executor.advance_raises hadvance), List.Subset.refl _⟩
      · rename_i e hadvance
        obtain rfl := Option.some.inj h
        exact ⟨advanced hadvance, List.subset_append_left _ _⟩
      · rename_i e ph' hadvance
        obtain rfl := Option.some.inj h
        exact ⟨advanced hadvance, List.subset_append_left _ _⟩

theorem Orderly.run_keeps (ho : Orderly s) (h : ReflTransGen Next s s') :
    (∀ x, (s.system.executor.futures x).outcome = some none → (s'.system.executor.futures x).outcome = some none) ∧
      s.shipped ⊆ s'.shipped := by
  induction h with
  | refl => exact ⟨fun _ hx => hx, List.Subset.refl _⟩
  | tail hrun h ih =>
    obtain ⟨a, h⟩ := h
    obtain ⟨hcancelled, hshipped⟩ := (ho.run hrun).step_keeps h
    exact ⟨fun x hx => hcancelled x (ih.1 x hx), List.Subset.trans ih.2 hshipped⟩

theorem Orderly.not_shipped (ho : Orderly s) {x : WorkId} (hx : (s.system.executor.futures x).outcome = some none) :
    x ∉ s.shipped ∧ x ∉ s.system.executor.inFlight := by
  have hnot : x ∉ s.shipped := fun hmem => by
    have hf := (ho.winner.won x (ho.winner.sent x hmem)).2
    cases hfx : s.system.executor.futures x with
    | pending | running | finished =>
      rw [hfx] at hx
      cases hx
    | cancelled | cancelledAndNotified =>
      rw [hfx] at hf
      cases hf
  exact ⟨hnot, fun hmem => hnot (ho.winner.flight x hmem)⟩

/-- **Cancellation and dispatch have exactly one winner**: the handshake is made at most once on a future, and never
raises; a cancelled future stays cancelled, and its task is never shipped nor in flight; and once a task has been shipped,
`cancel` answers `False`. -/
theorem one_winner (h : Reachable s) :
    s.handshakes.Nodup ∧
      (∀ t d w ds removed, s.cycle = some (t, .handshake d w ds removed) →
        ((s.system.executor.futures d.pendingId).setRunningOrNotifyCancel).isSome = true) ∧
      ∀ s', ReflTransGen Next s s' →
        (∀ x, (s.system.executor.futures x).outcome = some none →
          (s'.system.executor.futures x).outcome = some none ∧ x ∉ s'.shipped ∧ x ∉ s'.system.executor.inFlight) ∧
        ∀ x ∈ s.shipped, (s'.system.executor.futures x).cancels = false := by
  have ho := h.orderly
  refine ⟨ho.winner.once, fun t d w ds removed => ho.handshake_ok, fun s' hrun => ?_⟩
  have ho' := ho.run hrun
  obtain ⟨hcancelled, hshipped⟩ := ho.run_keeps hrun
  exact ⟨fun x hx => ⟨hcancelled x hx, ho'.not_shipped (hcancelled x hx)⟩,
    fun x hx => (ho'.winner.won x (ho'.winner.sent x (hshipped hx))).2⟩

def play (s : Fine α) : List (Happening α) → Option (Fine α)
  | [] => some s
  | a :: as => (s.step a).bind fun s => play s as

theorem play_run : ∀ {as : List (Happening α)} {s s' : Fine α}, play s as = some s' → ReflTransGen Next s s'
  | [], s, s', h => by
    obtain rfl := Option.some.inj h
    exact .refl
  | a :: as, s, s', h => by
    obtain ⟨s₁, hs₁, h⟩ := Option.bind_eq_some_iff.mp h
    exact .head ⟨a, hs₁⟩ (play_run h)

/-- A round of the dispatcher up to its cycle, and the first steps of the cycle. -/
def startCycle (steps : Nat) : List (Happening Unit) :=
  [.event (.round .dispatcher), .event (.act .dispatcher System.plainEnv), .begin .dispatcher] ++
    List.replicate steps (.advance System.plainEnv)

/-- Two tasks, for one worker. The first is cancelled when the cycle has found the worker for it and is about to make
the handshake; the next cycle ships the second, whose caller cancels too late. -/
def cancelInTime : List (Happening Unit) :=
  [.event (.submit "x" System.plainRequest System.plainReading), .event (.append "x"),
    .event (.submit "y" System.plainRequest System.plainReading), .event (.append "y")] ++
  startCycle 6 ++ [.event (.cancel "x"), .advance System.plainEnv, .advance System.plainEnv] ++
  startCycle 7 ++ [.event (.cancel "y"), .advance System.plainEnv]

theorem one_winner_cancelled : ∃ s : Fine Unit, s.handshakes = ["x", "y"] ∧ s.handshakes.Nodup ∧ "x" ∉ s.shipped ∧
    "y" ∈ s.shipped ∧ (s.system.executor.futures "y").cancels = false := by
  have hfacts : ((init System.oneWorker {} : Fine Unit).play cancelInTime).any (fun s => decide (s.handshakes = ["x", "y"] ∧
      (s.system.executor.futures "x").outcome = some none ∧ "y" ∈ s.shipped)) = true := by decide +kernel
  obtain ⟨s, hplay, hs⟩ := (Option.any_eq_true _ _).mp hfacts
  obtain ⟨hhandshakes, hx, hy⟩ := of_decide_eq_true hs
  obtain ⟨honce, -, hrun⟩ := one_winner ⟨System.oneWorker, {}, play_run hplay⟩
  obtain ⟨hcancelled, hshipped⟩ := hrun s .refl
  exact ⟨s, hhandshakes, honce, (hcancelled "x" hx).2.1, hy, hshipped "y" hy⟩

/-! ## The runs of the system -/

theorem next_of_some {env : Env} {t : Thread} {ph ph' : Phase} {e : Executor α} (hcycle : s.cycle = some (t, ph))
    (h : s.system.executor.advance env ph = .ok (e, some ph')) : Next s { s with
      system := { s.system with executor := e }
      cycle := some (t, ph')
      handshakes := s.handshakes ++ ph.handshakes
      shipped := s.shipped ++ ph.ships } :=
  ⟨.advance env, by simp only [step, hcycle, h]⟩

theorem next_of_none {env : Env} {t : Thread} {ph : Phase} {e : Executor α} (hcycle : s.cycle = some (t, ph))
    (h : s.system.executor.advance env ph = .ok (e, none)) : Next s { s with
      system := { s.system with
        executor := e
        hands := Function.update s.system.hands t (s.system.hands t).tail }
      cycle := none
      handshakes := s.handshakes ++ ph.handshakes
      shipped := s.shipped ++ ph.ships } :=
  ⟨.advance env, by simp only [step, hcycle, h]⟩

theorem run_of_advances {env : Env} {a b : Executor α × Option Phase} (h : ReflTransGen (Executor.Advance env) a b)
    (hb : b.2 = none) {t : Thread} {m : Section α} {rest : List (Section α)} : ∀ {s : Fine α} {ph : Phase},
    a = (s.system.executor, some ph) → s.cycle = some (t, ph) → s.system.hands t = m :: rest →
    ∃ s', ReflTransGen Next s s' ∧ s'.cycle = none ∧ s'.down = s.down ∧
      s'.system = { s.system with executor := b.1, hands := Function.update s.system.hands t rest } := by
  induction h using ReflTransGen.head_induction_on with
  | refl =>
    rintro s ph rfl
    cases hb
  | @head a c h hrest ih =>
    rintro s ph rfl hcycle hand
    obtain ⟨ph₀, hph, hadvance⟩ := h
    obtain rfl := Option.some.inj hph
    obtain ⟨e, ph'⟩ := c
    cases ph' with
    | none =>
      have hend : (e, none) = b := by
        rcases hrest.cases_head with heq | ⟨c, ⟨_, hc, -⟩, -⟩
        · exact heq
        · cases hc
      refine ⟨_, .single (next_of_none hcycle hadvance), rfl, rfl, ?_⟩
      rw [← hend, hand]
      rfl
    | some ph' =>
      obtain ⟨s', hrun, hcycle', hdown, hsystem⟩ := ih (s := { s with
        system := { s.system with executor := e }
        cycle := some (t, ph')
        handshakes := s.handshakes ++ ph.handshakes
        shipped := s.shipped ++ ph.ships }) rfl rfl hand
      exact ⟨s', .head (next_of_some hcycle hadvance) hrun, hcycle', hdown, hsystem⟩

end Fine

namespace System
variable {α : Type} {s : System α}

/-- **Every run of the system** is one of the refined system, with all cycles undisturbed. -/
theorem Reachable.fine (h : Reachable s) : ∃ f : Fine α, f.Reachable ∧ f.cycle = none ∧ f.down = false ∧ f.system = s := by
  obtain ⟨cfg, profiles, h⟩ := h
  induction h with
  | refl => exact ⟨.init cfg profiles, ⟨cfg, profiles, .refl⟩, rfl, rfl, rfl⟩
  | @tail s s' _ h ih =>
    obtain ⟨f, ⟨cfg', profiles', hrun⟩, hcycle, hdown, rfl⟩ := ih
    obtain ⟨e, h⟩ := h
    by_cases hno : (nextSection f.system e).any Section.cycles = false
    · have hbeside : f.beside e = true := by
        rw [Fine.beside, hno, hcycle]
        rfl
      refine ⟨{ f with system := s' }, ⟨cfg', profiles', hrun.tail ⟨.event e, ?_⟩⟩, hcycle, hdown, rfl⟩
      simp only [Fine.step, hbeside, h, if_true, Option.map_some]
    · cases e with
      | act t env =>
        cases hand : f.system.hands t with
        | nil =>
          rw [nextSection, hand] at hno
          exact absurd rfl hno
        | cons m rest =>
          have hm : m = .maybeDispatch := by
            rw [nextSection, hand] at hno
            cases m <;> first | rfl | exact absurd rfl hno
          subst hm
          simp only [step, hand, Executor.run] at h
          cases hok : f.system.executor.maybeDispatch env with
          | error =>
            rw [hok] at h
            cases h
          | ok e' =>
            rw [hok] at h
            obtain rfl := Option.some.inj h
            have hbegin : Fine.Next f { f with cycle := some (t, .begin) } := by
              refine ⟨.begin t, ?_⟩
              simp only [Fine.step, hcycle, hand, hdown]
              rfl
            obtain ⟨f', hrun', hcycle', hdown', hsystem⟩ := Fine.run_of_advances (Executor.maybeDispatch_advances hok) rfl
              (s := { f with cycle := some (t, .begin) }) rfl rfl hand
            refine ⟨f', ⟨cfg', profiles', (hrun.tail hbegin).trans hrun'⟩, hcycle', hdown'.trans hdown, ?_⟩
            rw [hsystem]
            simp [Section.returns]
      | _ => exact absurd rfl hno

end System

end AdaptiveExecutor
