import AdaptiveExecutor.Executor.System
import AdaptiveExecutor.Ledger.Channel

/-!
# How results travel

A worker pickles what a task returns or raises, and the collector unpickles it. The other modules leave that out: there a
result that is put can be read.

* `Pickling` : what pickling does to the objects of the tasks;
* `Pickling.makePicklableException`, `executeWithObservation` : what a worker makes of the outcome of a task;
* `Transport`, `Pickling.step`, `Pickling.run` : workers, their queues, and the collector;
* `outcomes_delivered` : all outcomes are delivered, exactly when each of them arrives; `outcomes_lost` : two that do not;
* `Carried.put`, `Carried.getNowait` : as long as they arrive unchanged, the queues are those of the executor.
-/

namespace AdaptiveExecutor
open Channel (Codec Op)

/-- An exception that pickling raises, by the classes that the source catches. -/
structure PickleError where
  picklingError : Bool := false
  typeError : Bool := false
  attributeError : Bool := false
  osError : Bool := false
  valueError : Bool := false
  empty : Bool := false
  deriving DecidableEq

/-- `_make_picklable_exception` catches it. -/
def PickleError.caught (e : PickleError) : Bool := e.picklingError || e.typeError || e.attributeError

/-- `_read_queue` catches it. -/
def PickleError.endsRead (e : PickleError) : Bool := e.empty || e.osError || e.valueError

/-- What `pickle` does to the objects of the tasks, the text of an exception with its traceback (`none` when formatting it
raises), and the `RuntimeError` with a text. -/
structure Pickling (α β : Type) where
  object : Codec α β PickleError
  describe : α → Option String
  runtimeError : String → α

variable {α β ε : Type}

def WorkResult.traverse (f : α → Except ε β) (r : WorkResult α) : Except ε (WorkResult β) :=
  (r.result.elim (.ok none) fun v => (f v).map some).bind fun result =>
    (r.exception.elim (.ok none) fun v => (f v).map some).map fun exception =>
      ⟨r.id, r.workerId, r.success, result, exception, r.observation⟩

/-- What a task function does. A function that cannot be resolved counts as one that raises. -/
inductive TaskOutcome (α : Type)
  | returned (value : Option α)
  | raised (exc : α)

structure Task (α : Type) where
  worker : WorkerId
  id : WorkId
  outcome : TaskOutcome α
  observation : ResourceObservation

/-- The `WorkResult` of a task. -/
def Task.result (t : Task α) (report : System.Report α) : WorkResult α :=
  ⟨t.id, t.worker, report.success, report.result, report.exception, report.observation⟩

inductive TransportEvent (α : Type)
  /-- A worker executes a task, and puts its result. -/
  | task (t : Task α)
  /-- `_sweep_result_queues`, over the workers of the pool. -/
  | sweep (workers : List WorkerId)

structure Transport (α β : Type) where
  /-- The workers that an exception has ended. -/
  dead : List WorkerId := []
  channel : Channel.State WorkerId (WorkResult α) (WorkResult β) := {}

namespace Pickling
variable (p : Pickling α β)

/-- A `WorkResult` is pickled with what it holds. -/
def results : Codec (WorkResult α) (WorkResult β) PickleError where
  dumps := WorkResult.traverse p.object.dumps
  loads := WorkResult.traverse p.object.loads

/-- `_make_picklable_exception`: `none` when it raises. -/
def makePicklableException (exc : α) : Option α :=
  match p.object.dumps exc with
  | .ok _ => some exc
  | .error e => if e.caught then (p.describe exc).map p.runtimeError else none

/-- `_execute_with_observation`: `none` when an exception leaves it, and ends the worker. -/
def executeWithObservation (observation : ResourceObservation) : TaskOutcome α → Option (System.Report α)
  | .returned value => some ⟨true, value, none, observation⟩
  | .raised exc => (p.makePicklableException exc).map fun exc => ⟨false, none, some exc, observation⟩

def step (s : Transport α β) : TransportEvent α → Transport α β
  | .task t =>
    if t.worker ∈ s.dead then s
    else
      match p.executeWithObservation t.observation t.outcome with
      | none => { s with dead := t.worker :: s.dead }
      | some report => { s with channel := p.results.step PickleError.endsRead s.channel (.put t.worker (t.result report)) }
  | .sweep workers => { s with channel := p.results.step PickleError.endsRead s.channel (.sweep workers) }

def run (es : List (TransportEvent α)) : Transport α β := es.foldl p.step {}

/-- The tasks that their workers survive, with what they report. -/
def survived : List WorkerId → List (TransportEvent α) → List (Task α × System.Report α)
  | _, [] => []
  | dead, .task t :: es =>
    if t.worker ∈ dead then survived dead es
    else
      match p.executeWithObservation t.observation t.outcome with
      | none => survived (t.worker :: dead) es
      | some report => (t, report) :: survived dead es
  | dead, .sweep _ :: es => survived dead es

def sent (w : WorkerId) (es : List (TransportEvent α)) : List (WorkResult α) :=
  ((p.survived [] es).filter fun t => t.1.worker = w).map fun t => t.1.result t.2

/-- A return value can be pickled and unpickled, and an exception that can be pickled can be unpickled. -/
def Arrives : TaskOutcome α → Prop
  | .returned value => ∀ v ∈ value, p.object.Travels v
  | .raised exc => ∀ b, p.object.dumps exc = .ok b → ∃ exc', p.object.loads b = .ok exc'

def ops : List WorkerId → List (TransportEvent α) → List (Op WorkerId (WorkResult α))
  | _, [] => []
  | dead, .task t :: es =>
    if t.worker ∈ dead then ops dead es
    else
      match p.executeWithObservation t.observation t.outcome with
      | none => ops (t.worker :: dead) es
      | some report => .put t.worker (t.result report) :: ops dead es
  | dead, .sweep workers :: es => .sweep workers :: ops dead es

variable {p} {r : WorkResult α} {t : Task α} {report : System.Report α} {es : List (TransportEvent α)} {ws : List WorkerId}

/-! ## What travels -/

theorem travels_result : p.results.Travels r ↔
    (∀ v ∈ r.result, p.object.Travels v) ∧ ∀ v ∈ r.exception, p.object.Travels v := by
  obtain ⟨id, w, success, result, exception, observation⟩ := r
  unfold Codec.Travels Codec.trip results WorkResult.traverse
  cases result with
  | none =>
    cases exception with
    | none => simp [Except.bind, Except.map]
    | some exc =>
      cases hexc : p.object.dumps exc with
      | error => simp [hexc, Except.bind, Except.map]
      | ok b => cases hb : p.object.loads b <;> simp [hexc, hb, Except.bind, Except.map]
  | some v =>
    cases hv : p.object.dumps v with
    | error => simp [hv, Except.bind, Except.map]
    | ok a =>
      cases exception with
      | none => cases ha : p.object.loads a <;> simp [hv, ha, Except.bind, Except.map]
      | some exc =>
        cases hexc : p.object.dumps exc with
        | error => simp [hv, hexc, Except.bind, Except.map]
        | ok b =>
          cases ha : p.object.loads a <;> cases hb : p.object.loads b <;> simp [hv, ha, hexc, hb, Except.bind, Except.map]

/-- The result of a task travels if its outcome arrives: an exception that cannot be pickled is replaced. -/
theorem travels_iff (hruntime : ∀ text, p.object.trip (p.runtimeError text) = .ok (p.runtimeError text))
    (h : p.executeWithObservation t.observation t.outcome = some report) :
    p.results.Travels (t.result report) ↔ p.Arrives t.outcome := by
  rw [travels_result]
  cases houtcome : t.outcome with
  | returned value =>
    rw [houtcome] at h
    obtain rfl := Option.some.inj h
    exact and_iff_left fun _ h => by cases h
  | raised exc =>
    rw [houtcome] at h
    obtain ⟨exc', hexc, rfl⟩ := Option.map_eq_some_iff.mp h
    have hsplit : ((∀ v ∈ (none : Option α), p.object.Travels v) ∧ ∀ v ∈ some exc', p.object.Travels v) ↔
        p.object.Travels exc' := by simp
    refine hsplit.trans ?_
    unfold makePicklableException at hexc
    cases hdumps : p.object.dumps exc with
    | ok b =>
      rw [hdumps] at hexc
      obtain rfl := Option.some.inj hexc
      unfold Arrives Codec.Travels Codec.trip
      rw [hdumps]
      refine ⟨fun hloads b' hb' => ?_, fun hloads => hloads b hdumps⟩
      obtain rfl := Except.ok.inj (hdumps.symm.trans hb')
      exact hloads
    | error e =>
      rw [hdumps] at hexc
      dsimp only at hexc
      split_ifs at hexc with hcaught
      obtain ⟨text, -, rfl⟩ := Option.map_eq_some_iff.mp hexc
      refine iff_of_true ⟨_, hruntime text⟩ fun b hb => ?_
      rw [hdumps] at hb
      cases hb

/-! ## Runs -/

theorem survived_reports {x : Task α × System.Report α} : ∀ (es : List (TransportEvent α)) (dead : List WorkerId),
    x ∈ p.survived dead es → p.executeWithObservation x.1.observation x.1.outcome = some x.2
  | [], _, hx => by cases hx
  | .task t :: es, dead, hx => by
    unfold survived at hx
    split_ifs at hx
    · exact survived_reports es dead hx
    · cases hreport : p.executeWithObservation t.observation t.outcome with
      | none =>
        rw [hreport] at hx
        exact survived_reports es (t.worker :: dead) hx
      | some report =>
        rw [hreport] at hx
        rcases List.mem_cons.mp hx with hx | hx
        · rw [hx]
          exact hreport
        · exact survived_reports es dead hx
  | .sweep _ :: es, dead, hx => survived_reports es dead hx

theorem sent_ops (w : WorkerId) : ∀ (es : List (TransportEvent α)) (dead : List WorkerId),
    Channel.sent w (p.ops dead es) = ((p.survived dead es).filter fun t => t.1.worker = w).map fun t => t.1.result t.2
  | [], _ => rfl
  | .task t :: es, dead => by
    unfold ops survived
    split_ifs
    · exact sent_ops w es dead
    · cases p.executeWithObservation t.observation t.outcome with
      | none => exact sent_ops w es (t.worker :: dead)
      | some report =>
        dsimp only
        rw [Channel.sent, List.filter_cons, sent_ops w es dead]
        by_cases hw : t.worker = w <;> simp [hw]
  | .sweep _ :: es, dead => sent_ops w es dead

theorem foldl_channel : ∀ (es : List (TransportEvent α)) (s : Transport α β),
    (es.foldl p.step s).channel = (p.ops s.dead es).foldl (p.results.step PickleError.endsRead) s.channel
  | [], _ => rfl
  | .task t :: es, s => by
    rw [List.foldl_cons, foldl_channel es, step, ops]
    split_ifs
    · rfl
    · cases p.executeWithObservation t.observation t.outcome <;> rfl
  | .sweep ws :: es, s => by
    rw [List.foldl_cons, foldl_channel es, step, ops]
    rfl

theorem ops_sweep (ws : List WorkerId) : ∀ (es : List (TransportEvent α)) (dead : List WorkerId),
    p.ops dead (es ++ [.sweep ws]) = p.ops dead es ++ [.sweep ws]
  | [], _ => rfl
  | .task t :: es, dead => by
    rw [List.cons_append, ops, ops]
    split_ifs
    · exact ops_sweep ws es dead
    · cases p.executeWithObservation t.observation t.outcome with
      | none => exact ops_sweep ws es (t.worker :: dead)
      | some report => exact congrArg (_ :: ·) (ops_sweep ws es dead)
  | .sweep _ :: es, dead => congrArg (_ :: ·) (ops_sweep ws es dead)

/-- **Every outcome is delivered**: after a sweep over the queues of all workers the collector goes on and has the results
of all tasks that their workers survived, each once, exactly when all their outcomes arrive. If one does not, then some
worker has fewer results delivered than tasks survived. -/
theorem outcomes_delivered (p : Pickling α β)
    (hruntime : ∀ text, p.object.trip (p.runtimeError text) = .ok (p.runtimeError text)) (es : List (TransportEvent α))
    (ws : List WorkerId) (hws : ∀ t ∈ p.survived [] es, t.1.worker ∈ ws) :
    (((p.run (es ++ [.sweep ws])).channel.reading = true ∧ ∀ w, List.Forall₂ (fun r r' => p.results.trip r = .ok r')
      (p.sent w es) ((p.run (es ++ [.sweep ws])).channel.delivered w)) ↔ ∀ t ∈ p.survived [] es, p.Arrives t.1.outcome) ∧
    ((∀ w, ((p.run (es ++ [.sweep ws])).channel.delivered w).length = (p.sent w es).length) →
      ∀ t ∈ p.survived [] es, p.Arrives t.1.outcome) := by
  have hchannel : (p.run (es ++ [.sweep ws])).channel =
      p.results.run PickleError.endsRead (p.ops [] es ++ [.sweep ws]) := by
    rw [run, foldl_channel, ops_sweep]
    rfl
  have hsent (w : WorkerId) : p.sent w es = Channel.sent w (p.ops [] es) := (sent_ops w es []).symm
  have htravels : (∀ w, ∀ r ∈ p.sent w es, p.results.Travels r) ↔ ∀ t ∈ p.survived [] es, p.Arrives t.1.outcome := by
    constructor
    · intro h t ht
      refine (travels_iff hruntime (survived_reports es [] ht)).mp (h t.1.worker _ (List.mem_map.mpr ⟨t, ?_, rfl⟩))
      exact List.mem_filter.mpr ⟨ht, decide_eq_true rfl⟩
    · intro h w r hr
      obtain ⟨t, ht, rfl⟩ := List.mem_map.mp hr
      have ht := (List.mem_filter.mp ht).1
      exact (travels_iff hruntime (survived_reports es [] ht)).mpr (h t ht)
  rw [hchannel, ← htravels]
  simp only [hsent]
  refine ⟨Codec.delivered_iff fun w hw => ?_, fun hlength w => ?_⟩
  · rw [← hsent] at hw
    obtain ⟨r, hr⟩ := List.exists_mem_of_ne_nil _ hw
    obtain ⟨t, ht, -⟩ := List.mem_map.mp hr
    obtain ⟨ht, hw⟩ := List.mem_filter.mp ht
    exact of_decide_eq_true hw ▸ hws t ht
  · have hcounts := Codec.run_counts (c := p.results) PickleError.endsRead (p.ops [] es ++ [.sweep ws])
    have hsame : Channel.sent w (p.ops [] es ++ [.sweep ws]) = Channel.sent w (p.ops [] es) := by
      rw [Channel.sent_append, Channel.sent, Channel.sent, List.append_nil]
    rw [← hsame]
    exact hcounts.travels (by rw [hlength w, hsame])

/-! ## Objects that arrive, and objects that do not -/

inductive Sample
  | number (n : Int)
  /-- It holds a lambda. -/
  | unpicklable
  /-- Its class takes two arguments, and it has been given one to show: the other is missing when it is unpickled. -/
  | strict
  | runtimeError (text : String)
  deriving DecidableEq

def samplePickling : Pickling Sample Sample where
  object :=
    { dumps := fun v => if v = .unpicklable then .error { attributeError := true } else .ok v
      loads := fun v => if v = .strict then .error { typeError := true } else .ok v }
  describe := fun _ => some "Original traceback"
  runtimeError := .runtimeError

def sampleTask (w : WorkerId) (id : WorkId) (outcome : TaskOutcome Sample) : TransportEvent Sample :=
  .task ⟨w, id, outcome, ⟨1, 0, 100, 1⟩⟩

def sampleArriving : List (TransportEvent Sample) :=
  [sampleTask 0 "x" (.returned (some (.number 1))), sampleTask 0 "y" (.raised .unpicklable)]

theorem outcomes_delivered_sample : (samplePickling.run (sampleArriving ++ [.sweep [0]])).channel.reading = true ∧
    ∀ w, List.Forall₂ (fun r r' => samplePickling.results.trip r = .ok r') (samplePickling.sent w sampleArriving)
      ((samplePickling.run (sampleArriving ++ [.sweep [0]])).channel.delivered w) := by
  refine (outcomes_delivered samplePickling (fun _ => rfl) sampleArriving [0] (by decide)).1.mpr fun t ht => ?_
  have houtcome : t.1.outcome = .returned (some (.number 1)) ∨ t.1.outcome = .raised .unpicklable := by
    rcases List.mem_pair.mp ht with rfl | rfl
    exacts [.inl rfl, .inr rfl]
  rcases houtcome with houtcome | houtcome <;> rw [houtcome]
  · intro v hv
    rw [← Option.some.inj hv]
    exact ⟨.number 1, rfl⟩
  · intro b hb
    cases hb

def sampleDropped : List (TransportEvent Sample) := [sampleTask 0 "x" (.returned (some .unpicklable))]

/-- An exception that cannot be unpickled, after a result on the same queue and before one on another. -/
def sampleRaising : List (TransportEvent Sample) :=
  [sampleTask 0 "x" (.returned (some (.number 1))), sampleTask 0 "y" (.raised .strict),
    sampleTask 1 "z" (.returned (some (.number 2)))]

/-- The value never arrives; and the exception ends the collector, which loses the result that it has read before, and
every later one. -/
theorem outcomes_lost :
    ((samplePickling.sent 0 sampleDropped).length = 1 ∧
      (samplePickling.run (sampleDropped ++ [.sweep [0]])).channel.delivered 0 = []) ∧
    (samplePickling.sent 0 sampleRaising).length = 2 ∧ (samplePickling.sent 1 sampleRaising).length = 1 ∧
      (samplePickling.run (sampleRaising ++ [.sweep [0, 1]])).channel.reading = false ∧
        ∀ w, (samplePickling.run (sampleRaising ++ [.sweep [0, 1]])).channel.delivered w = [] :=
  ⟨⟨rfl, rfl⟩, rfl, rfl, rfl, fun _ => rfl⟩

/-! ## The queues of the executor -/

def Carried (p : Pickling α β) (e : Executor α) (queues : WorkerId → List (WorkResult β)) : Prop :=
  ∀ w, List.Forall₂ (fun r b => p.results.dumps r = .ok b) (e.slots w).process.resultQueue (queues w)

variable {e : Executor α} {queues : WorkerId → List (WorkResult β)} {w : WorkerId}

theorem Carried.put {s s' : System α} {item : WorkItem} (h : p.Carried s.executor queues)
    (hput : s.step (.workerPut w report) = some s') (hitem : (s.executor.slots w).process.executing = some item)
    (htravels : p.results.Travels ⟨item.id, w, report.success, report.result, report.exception, report.observation⟩) :
    p.Carried s'.executor (Function.update queues w (queues w ++ p.results.dumped
      ⟨item.id, w, report.success, report.result, report.exception, report.observation⟩)) := by
  obtain ⟨b, hb, hdumped, -⟩ := htravels.dumps
  simp only [System.step, hitem] at hput
  split_ifs at hput
  obtain rfl := Option.some.inj hput
  intro v
  dsimp only [Executor.modifyProcess]
  rw [Executor.modifySlot_slots, hdumped, Function.update_apply]
  split_ifs with hv
  · exact List.rel_append (h w) (.cons hb .nil)
  · exact h v

/-- One `get_nowait()`: the executor and the channel read the same result, or find the queue empty. -/
theorem Carried.getNowait (h : p.Carried e queues) (hopen : (e.slots w).queueDiscarded = false)
    (hsame : ∀ r ∈ (e.slots w).process.resultQueue, p.results.trip r = .ok r) (read : List (WorkResult α)) :
    queues w = [] ∧ e.getNowait w read = (e, read.map .processResult) ∨
      ∃ b bs r, queues w = b :: bs ∧ p.results.loads b = .ok r ∧ (e.getNowait w read).2 = [.getNowait w (read ++ [r])] ∧
        p.Carried (e.getNowait w read).1 (Function.update queues w bs) := by
  have hw := h w
  unfold Executor.getNowait
  cases hqueue : (e.slots w).process.resultQueue with
  | nil =>
    rw [hqueue] at hw
    exact .inl ⟨List.forall₂_nil_left_iff.mp hw, rfl⟩
  | cons r rest =>
    rw [hqueue] at hw hsame
    obtain ⟨b, bs, hb, hbs, hqueues⟩ := List.forall₂_cons_left_iff.mp hw
    have htrip := hsame r List.mem_cons_self
    rw [Codec.trip, hb] at htrip
    dsimp only
    rw [if_neg (by rw [hopen]; exact Bool.false_ne_true)]
    refine .inr ⟨b, bs, r, hqueues, htrip, rfl, fun v => ?_⟩
    dsimp only [Executor.modifyProcess]
    rw [Executor.modifySlot_slots, Function.update_apply]
    split_ifs with hv
    · exact hbs
    · exact h v

end Pickling

end AdaptiveExecutor
