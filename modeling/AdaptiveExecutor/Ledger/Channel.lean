import Mathlib.Data.List.Forall2
import Mathlib.Data.List.Induction
import Mathlib.Logic.Function.Basic

/-!
# Channels of encoded messages

Senders put messages on queues, one for each, and a reader sweeps over them. A message that cannot be encoded is dropped
on its way into the queue; one that cannot be decoded raises in the reader.

* `Codec`, `Codec.trip`, `Codec.Travels` : what arrives of a message, if it arrives;
* `Codec.read`, `Codec.sweep`, `Codec.run` : the reading of a queue, a sweep over queues, and runs of puts and sweeps;
* `Codec.run_carries` : if all messages travel, then all that is sent is delivered or still queued;
* `Codec.run_counts` : a message that does not travel is missing for ever;
* `Codec.delivered_iff` : after a sweep over all queues everything has been delivered, exactly when all messages travel.
-/

namespace Channel

structure Codec (μ β ε : Type*) where
  dumps : μ → Except ε β
  loads : β → Except ε μ

structure State (κ μ β : Type*) where
  queues : κ → List β := fun _ => []
  /-- What the reader has handed on. -/
  delivered : κ → List μ := fun _ => []
  reading : Bool := true

inductive Op (κ μ : Type*)
  | put (k : κ) (m : μ)
  | sweep (ks : List κ)

variable {κ μ β ε : Type*} [DecidableEq κ]

def sent (k : κ) : List (Op κ μ) → List μ
  | [] => []
  | .put k' m :: ops => if k' = k then m :: sent k ops else sent k ops
  | .sweep _ :: ops => sent k ops

theorem sent_append (k : κ) : ∀ ops ops' : List (Op κ μ), sent k (ops ++ ops') = sent k ops ++ sent k ops'
  | [], _ => rfl
  | .put k' m :: ops, ops' => by
    rw [List.cons_append, sent, sent, sent_append k ops ops']
    split_ifs <;> rfl
  | .sweep _ :: ops, ops' => sent_append k ops ops'

namespace Codec
variable (c : Codec μ β ε) (ends : ε → Bool)

def trip (m : μ) : Except ε μ := (c.dumps m).bind c.loads

def Travels (m : μ) : Prop := ∃ m', c.trip m = .ok m'

def dumped (m : μ) : List β :=
  match c.dumps m with
  | .ok b => [b]
  | .error _ => []

/-- A queue is read until it is empty or a message cannot be decoded. An error that `ends` the reading leaves what has been
read before; any other is raised. The second component is the rest of the queue. -/
def read : List β → List μ → Except ε (List μ) × List β
  | [], ms => (.ok ms, [])
  | b :: bs, ms =>
    match c.loads b with
    | .ok m => read bs (ms ++ [m])
    | .error e => (if ends e then .ok ms else .error e, bs)

/-- The queues are read one after another. A raised error ends the sweep, and all reading after it. -/
def sweep : List κ → State κ μ β → State κ μ β
  | [], s => s
  | k :: ks, s =>
    match c.read ends (s.queues k) [] with
    | (.ok ms, rest) =>
      sweep ks { s with
        queues := Function.update s.queues k rest
        delivered := Function.update s.delivered k (s.delivered k ++ ms) }
    | (.error _, rest) => { s with queues := Function.update s.queues k rest, reading := false }

def step (s : State κ μ β) : Op κ μ → State κ μ β
  | .put k m => { s with queues := Function.update s.queues k (s.queues k ++ c.dumped m) }
  | .sweep ks => if s.reading then c.sweep ends ks s else s

def run (ops : List (Op κ μ)) : State κ μ β := ops.foldl (c.step ends) {}

theorem run_concat (ops : List (Op κ μ)) (op : Op κ μ) : c.run ends (ops ++ [op]) = c.step ends (c.run ends ops) op := by
  rw [run, List.foldl_append]
  rfl

variable {c ends} {s s' : State κ μ β} {k : κ} {ks : List κ} {m : μ} {ms : List μ} {bs : List β}
  {messages : κ → List μ} {ops : List (Op κ μ)}

/-! ## Messages that travel -/

theorem Travels.dumps (h : c.Travels m) : ∃ b, c.dumps m = .ok b ∧ c.dumped m = [b] ∧ ∃ m', c.loads b = .ok m' := by
  obtain ⟨m', h⟩ := h
  unfold trip at h
  cases hb : c.dumps m with
  | error e =>
    rw [hb] at h
    cases h
  | ok b =>
    rw [hb] at h
    refine ⟨b, rfl, ?_, m', h⟩
    rw [dumped, hb]

theorem read_all (ends : ε → Bool) (htravels : ∀ m ∈ ms, c.Travels m) : ∀ {bs : List β} (acc : List μ),
    List.Forall₂ (fun m b => c.dumps m = .ok b) ms bs →
    ∃ ms', c.read ends bs acc = (.ok (acc ++ ms'), []) ∧ List.Forall₂ (fun m m' => c.trip m = .ok m') ms ms' := by
  induction ms with
  | nil =>
    intro bs acc h
    cases h
    exact ⟨[], by rw [read, List.append_nil], .nil⟩
  | cons m ms ih =>
    intro bs acc h
    cases h with
    | @cons _ b _ bs hb hbs =>
      obtain ⟨hm, hms⟩ := List.forall_mem_cons.mp htravels
      obtain ⟨m', htrip⟩ := hm
      have hload : c.loads b = .ok m' := by
        rw [trip, hb] at htrip
        exact htrip
      obtain ⟨ms', hread, hall⟩ := ih hms (acc ++ [m']) hbs
      refine ⟨m' :: ms', ?_, .cons htrip hall⟩
      rw [read, hload]
      dsimp only
      rw [hread, List.append_assoc]
      rfl

/-- All that has been put is delivered or still queued. -/
structure Carries (c : Codec μ β ε) (messages : κ → List μ) (s : State κ μ β) : Prop where
  reading : s.reading = true
  split : ∀ k, ∃ before after, messages k = before ++ after ∧
    List.Forall₂ (fun m m' => c.trip m = .ok m') before (s.delivered k) ∧
      List.Forall₂ (fun m b => c.dumps m = .ok b) after (s.queues k)

theorem Carries.sweep (ends : ε → Bool) (htravels : ∀ k, ∀ m ∈ messages k, c.Travels m) : ∀ (ks : List κ) {s : State κ μ β},
    c.Carries messages s → c.Carries messages (c.sweep ends ks s) ∧
      ∀ k, (k ∈ ks ∨ s.queues k = []) → (c.sweep ends ks s).queues k = []
  | [], _, h => ⟨h, fun _ hk => hk.resolve_left List.not_mem_nil⟩
  | k :: ks, s, h => by
    obtain ⟨before, after, hsplit, hdelivered, hqueue⟩ := h.split k
    obtain ⟨ms, hread, hall⟩ := read_all ends (fun m hm => htravels k m (by
      rw [hsplit]
      exact List.mem_append_right _ hm)) [] hqueue
    rw [List.nil_append] at hread
    unfold Codec.sweep
    rw [hread]
    dsimp only
    have hnext : c.Carries messages { s with
        queues := Function.update s.queues k []
        delivered := Function.update s.delivered k (s.delivered k ++ ms) } := by
      refine ⟨h.reading, fun k' => ?_⟩
      by_cases hk : k' = k
      · subst hk
        refine ⟨messages k', [], (List.append_nil _).symm, ?_, ?_⟩
        · dsimp only
          rw [Function.update_self, hsplit]
          exact List.rel_append hdelivered hall
        · dsimp only
          rw [Function.update_self]
          exact .nil
      · obtain ⟨before', after', hsplit', hdelivered', hqueue'⟩ := h.split k'
        refine ⟨before', after', hsplit', ?_, ?_⟩
        · dsimp only
          rwa [Function.update_of_ne hk]
        · dsimp only
          rwa [Function.update_of_ne hk]
    obtain ⟨hcarries, hempty⟩ := Carries.sweep ends htravels ks hnext
    refine ⟨hcarries, fun k' hk' => hempty k' ?_⟩
    by_cases hk : k' = k
    · subst hk
      exact .inr (Function.update_self _ _ _)
    · refine hk'.imp (fun hk' => (List.mem_cons.mp hk').resolve_left hk) fun hk' => ?_
      dsimp only
      rwa [Function.update_of_ne hk]

theorem Carries.put (htravels : c.Travels m) (h : c.Carries (fun k => sent k ops) s) :
    c.Carries (fun k' => sent k' (ops ++ [.put k m])) (c.step ends s (.put k m)) := by
  refine ⟨h.reading, fun k' => ?_⟩
  obtain ⟨before, after, hsplit, hdelivered, hqueue⟩ := h.split k'
  rw [sent_append, hsplit, step]
  by_cases hk : k = k'
  · subst hk
    obtain ⟨b, hb, hdumped, -⟩ := htravels.dumps
    refine ⟨before, after ++ [m], ?_, hdelivered, ?_⟩
    · rw [sent, if_pos rfl, sent, List.append_assoc]
    · dsimp only
      rw [Function.update_self, hdumped]
      exact List.rel_append hqueue (.cons hb .nil)
  · refine ⟨before, after, ?_, hdelivered, ?_⟩
    · rw [sent, if_neg hk, sent, List.append_nil]
    · dsimp only
      rwa [Function.update_of_ne (Ne.symm hk)]

/-- **Messages that travel** are delivered, or still queued, in every run. -/
theorem run_carries (ends : ε → Bool) (htravels : ∀ k, ∀ m ∈ sent k ops, c.Travels m) :
    c.Carries (fun k => sent k ops) (c.run ends ops) := by
  induction ops using List.reverseRecOn with
  | nil => exact ⟨rfl, fun k => ⟨[], [], rfl, .nil, .nil⟩⟩
  | append_singleton ops op ih =>
    have hold := ih fun k m hm => htravels k m (by rw [sent_append]; exact List.mem_append_left _ hm)
    rw [run_concat]
    cases op with
    | put k m =>
      refine hold.put (htravels k m ?_)
      rw [sent_append, sent, if_pos rfl]
      exact List.mem_append_right _ List.mem_cons_self
    | sweep ks =>
      have hsame (k : κ) : sent k (ops ++ [.sweep ks]) = sent k ops := by
        rw [sent_append, sent, sent, List.append_nil]
      simp only [hsame] at htravels ⊢
      rw [step, if_pos hold.reading]
      exact (Carries.sweep ends htravels ks hold).1

/-! ## Messages that do not travel -/

theorem read_counts (c : Codec μ β ε) (ends : ε → Bool) : ∀ (bs : List β) (acc : List μ), ∃ consumed, bs = consumed ++ (c.read ends bs acc).2 ∧
    ∀ ms, (c.read ends bs acc).1 = .ok ms → ms.length ≤ acc.length + consumed.countP fun b => (c.loads b).isOk
  | [], acc => ⟨[], rfl, fun ms h => by rw [← Except.ok.inj h]; exact Nat.le_add_right _ _⟩
  | b :: bs, acc => by
    unfold read
    cases hb : c.loads b with
    | ok m =>
      obtain ⟨consumed, hsplit, hcount⟩ := read_counts c ends bs (acc ++ [m])
      refine ⟨b :: consumed, by rw [List.cons_append, ← hsplit], fun ms h => ?_⟩
      have hms := hcount ms h
      rw [List.length_append, List.length_singleton] at hms
      rw [List.countP_cons_of_pos (by rw [hb]; rfl)]
      omega
    | error e =>
      refine ⟨[b], rfl, fun ms h => ?_⟩
      dsimp only at h
      split_ifs at h
      rw [← Except.ok.inj h]
      exact Nat.le_add_right _ _

/-- What has left a queue, and what of it at most has been delivered. -/
def Counts (c : Codec μ β ε) (messages : κ → List μ) (s : State κ μ β) : Prop :=
  ∀ k, ∃ consumed, (messages k).flatMap c.dumped = consumed ++ s.queues k ∧
    (s.delivered k).length ≤ consumed.countP fun b => (c.loads b).isOk

theorem Counts.sweep : ∀ {ks : List κ} {s : State κ μ β}, c.Counts messages s → c.Counts messages (c.sweep ends ks s)
  | [], _, h => h
  | k :: ks, s, h => by
    obtain ⟨read, hsplit, hread⟩ := read_counts c ends (s.queues k) []
    unfold Codec.sweep
    rcases hr : c.read ends (s.queues k) [] with ⟨r, rest⟩
    rw [hr] at hsplit hread
    -- the consumed part grows by what has been read
    have hold (delivered : List μ) (hlength : delivered.length ≤ (s.delivered k).length +
        read.countP fun b => (c.loads b).isOk) : ∃ consumed, (messages k).flatMap c.dumped = consumed ++ rest ∧
          delivered.length ≤ consumed.countP fun b => (c.loads b).isOk := by
      obtain ⟨consumed, hconsumed, hcount⟩ := h k
      refine ⟨consumed ++ read, by rw [hconsumed, hsplit, List.append_assoc], ?_⟩
      rw [List.countP_append]
      omega
    cases r with
    | ok ms =>
      refine Counts.sweep fun k' => ?_
      by_cases hk : k' = k
      · subst hk
        dsimp only
        rw [Function.update_self, Function.update_self]
        apply hold
        have hms := hread ms rfl
        rw [List.length_nil, Nat.zero_add] at hms
        rw [List.length_append]
        omega
      · dsimp only
        rw [Function.update_of_ne hk, Function.update_of_ne hk]
        exact h k'
    | error e =>
      intro k'
      by_cases hk : k' = k
      · subst hk
        dsimp only
        rw [Function.update_self]
        exact hold _ (Nat.le_add_right _ _)
      · dsimp only
        rw [Function.update_of_ne hk]
        exact h k'

theorem run_counts (ends : ε → Bool) (ops : List (Op κ μ)) : c.Counts (fun k => sent k ops) (c.run ends ops) := by
  induction ops using List.reverseRecOn with
  | nil => exact fun k => ⟨[], rfl, Nat.zero_le _⟩
  | append_singleton ops op ih =>
    rw [run_concat]
    cases op with
    | put k m =>
      intro k'
      obtain ⟨consumed, hconsumed, hcount⟩ := ih k'
      refine ⟨consumed, ?_, hcount⟩
      dsimp only [step] at hconsumed ⊢
      rw [sent_append, List.flatMap_append, hconsumed, List.append_assoc]
      by_cases hk : k = k'
      · subst hk
        rw [Function.update_self, sent, if_pos rfl, sent, List.flatMap_singleton]
      · rw [Function.update_of_ne (Ne.symm hk), sent, if_neg hk, sent, List.flatMap_nil, List.append_nil]
    | sweep ks =>
      have hsame (k : κ) : sent k (ops ++ [.sweep ks]) = sent k ops := by
        rw [sent_append, sent, sent, List.append_nil]
      simp only [hsame, step]
      split_ifs
      · exact ih.sweep
      · exact ih

theorem length_dumped_le (c : Codec μ β ε) (m : μ) : (c.dumped m).length ≤ 1 := by
  unfold dumped
  split
  · exact Nat.le_refl 1
  · exact Nat.zero_le 1

theorem length_flatMap_dumped_le (c : Codec μ β ε) : ∀ ms : List μ, (ms.flatMap c.dumped).length ≤ ms.length
  | [] => Nat.le_refl 0
  | m :: ms => by
    have hm := length_dumped_le c m
    have hms := length_flatMap_dumped_le c ms
    rw [List.flatMap_cons, List.length_append, List.length_cons]
    omega

theorem dumped_of_length (c : Codec μ β ε) : ∀ (ms : List μ), (ms.flatMap c.dumped).length = ms.length → ∀ m ∈ ms,
    ∃ b ∈ ms.flatMap c.dumped, c.dumps m = .ok b
  | m :: ms, h, m', hm' => by
    have hm := length_dumped_le c m
    have hms := length_flatMap_dumped_le c ms
    rw [List.flatMap_cons, List.length_append, List.length_cons] at h
    rw [List.flatMap_cons]
    rcases List.mem_cons.mp hm' with rfl | hm'
    · have hone : (c.dumped m').length = 1 := by omega
      unfold dumped at hone ⊢
      cases hb : c.dumps m' with
      | ok b => exact ⟨b, List.mem_append_left _ (List.mem_singleton.mpr rfl), rfl⟩
      | error e =>
        rw [hb] at hone
        cases hone
    · obtain ⟨b, hb, hdumps⟩ := dumped_of_length c ms (by omega) m' hm'
      exact ⟨b, List.mem_append_right _ hb, hdumps⟩

omit [DecidableEq κ] in
theorem Counts.travels (h : c.Counts messages s) (hall : (s.delivered k).length = (messages k).length) :
    ∀ m ∈ messages k, c.Travels m := by
  intro m hm
  obtain ⟨consumed, hconsumed, hcount⟩ := h k
  have hdumped := length_flatMap_dumped_le c (messages k)
  have hle := List.countP_le_length (p := fun b => (c.loads b).isOk) (l := consumed)
  have hlength := congrArg List.length hconsumed
  rw [List.length_append] at hlength
  obtain ⟨b, hb, hdumps⟩ := dumped_of_length c (messages k) (by omega) m hm
  have hnil : s.queues k = [] := List.eq_nil_of_length_eq_zero (by omega)
  rw [hconsumed, hnil, List.append_nil] at hb
  have hload := List.countP_eq_length.mp (show consumed.countP (fun b => (c.loads b).isOk) = consumed.length by omega) b hb
  unfold Travels trip
  rw [hdumps]
  change ∃ m', c.loads b = .ok m'
  cases hm' : c.loads b with
  | ok m' => exact ⟨m', rfl⟩
  | error e =>
    rw [hm'] at hload
    cases hload

/-- **After a sweep over all queues everything has been delivered**, in the order in which it was sent, and the reader goes
on, exactly when all messages travel. -/
theorem delivered_iff (hks : ∀ k, sent k ops ≠ [] → k ∈ ks) :
    ((c.run ends (ops ++ [.sweep ks])).reading = true ∧
      ∀ k, List.Forall₂ (fun m m' => c.trip m = .ok m') (sent k ops) ((c.run ends (ops ++ [.sweep ks])).delivered k)) ↔
        ∀ k, ∀ m ∈ sent k ops, c.Travels m := by
  have hsame (k : κ) : sent k (ops ++ [.sweep ks]) = sent k ops := by
    rw [sent_append, sent, sent, List.append_nil]
  constructor
  · rintro ⟨-, hall⟩ k
    have hcounts := run_counts (c := c) ends (ops ++ [.sweep ks])
    simp only [hsame] at hcounts
    exact hcounts.travels (hall k).length_eq.symm
  · intro htravels
    have hcarries := run_carries ends htravels
    obtain ⟨hswept, hempty⟩ := Carries.sweep ends htravels ks hcarries
    rw [run_concat, step, if_pos hcarries.reading]
    refine ⟨hswept.reading, fun k => ?_⟩
    obtain ⟨before, after, hsplit, hdelivered, hqueue⟩ := hswept.split k
    have hnil : (c.run ends ops).queues k = [] ∨ k ∈ ks := by
      by_cases hsent : sent k ops = []
      · left
        obtain ⟨before, after, hsplit, -, hqueue⟩ := hcarries.split k
        rw [hsent] at hsplit
        rw [(List.append_eq_nil_iff.mp hsplit.symm).2] at hqueue
        exact List.forall₂_nil_left_iff.mp hqueue
      · exact .inr (hks k hsent)
    rw [hempty k hnil.symm] at hqueue
    rw [hsplit, List.forall₂_nil_right_iff.mp hqueue, List.append_nil]
    exact hdelivered

end Codec

end Channel
