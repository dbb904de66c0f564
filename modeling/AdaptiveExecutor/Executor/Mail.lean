import AdaptiveExecutor.Executor.Authentic
import AdaptiveExecutor.Ledger.Mailbox

/-!
# The mail of a worker

Every worker has a work queue of its own. What the parent ships to it is compared with what the worker reports.

* `WorkerSlot.box` : the two ends of a work queue as a mailbox;
* `shippedTo`, `mail` : what the parent has put into flight with a worker, and what the worker has reported, over a run;
* `DispatchSteps.mail` : what the small steps of a cycle keep of the mail, the cycle keeps;
* `Staffing.posts`, `run_posts`, `step_posts` : an event is a run of steps of every mailbox;
* `mail_in_order` : a worker reports its tasks in the order in which they are shipped, and one that has taken its sentinel
  has reported them all.
-/

namespace AdaptiveExecutor
open Ledger (Tidy)
open Mailbox (Step Steps)

/-! ## Work queues as mailboxes -/

/-- The work queue of a worker, to which the tasks `sent` have been shipped and which has reported `finished`. -/
def WorkerSlot.box {α : Type} (slot : WorkerSlot α) (sent finished : List WorkId) : Mailbox WorkId where
  sent := sent
  finished := finished
  current := slot.process.executing.map WorkItem.id
  queue := slot.process.workQueue.map (Option.map WorkItem.id)
  closed := slot.intentionallyStopped
  stopped := slot.process.leaving

theorem WorkerSlot.box_unfinished {α : Type} (slot : WorkerSlot α) (sent finished : List WorkId) :
    (slot.box sent finished).unfinished = slot.process.unfinished := by
  unfold Mailbox.unfinished box WorkerProcess.unfinished
  rw [List.reduceOption_map, List.map_append]
  cases slot.process.executing <;> rfl

/-- What has been shipped to the workers, and what they have reported. -/
structure Mail where
  shipped : WorkerId → List WorkId := fun _ => []
  reported : WorkerId → List WorkId := fun _ => []

namespace Executor
variable {α : Type} {env : Env} {e e' e₀ : Executor α} {accepted held : List WorkId} {lost : List WorkerId} {m m' : Mail}

/-- The tasks that are in flight with the worker after a change, and were not in flight before. -/
def shippedTo (before after : Executor α) (w : WorkerId) : List WorkId :=
  after.inFlight.filter fun x => decide (x ∉ before.inFlight ∧ (after.works x).workerId = some w)

theorem shippedTo_of_subset (h : e'.inFlight ⊆ e.inFlight) (w : WorkerId) : shippedTo e e' w = [] :=
  List.filter_eq_nil_iff.mpr fun _ hx hnew => (of_decide_eq_true hnew).1 (h hx)

/-- Tasks are only put into flight, behind those that are in flight. -/
structure Boards (e e' : Executor α) : Prop where
  flight : ∃ xs, e'.inFlight = e.inFlight ++ xs ∧ ∀ x ∈ xs, x ∉ e.inFlight
  workerId : ∀ x ∈ e.inFlight, (e'.works x).workerId = (e.works x).workerId

theorem Boards.of_same (hflight : e'.inFlight = e.inFlight) (hworks : ∀ x, (e'.works x).workerId = (e.works x).workerId) :
    Boards e e' :=
  ⟨⟨[], hflight.trans (List.append_nil _).symm, fun _ hx => by cases hx⟩, fun x _ => hworks x⟩

theorem Boards.subset (h : Boards e e') : e.inFlight ⊆ e'.inFlight := by
  obtain ⟨xs, hxs, -⟩ := h.flight
  rw [hxs]
  exact List.subset_append_left _ _

theorem Boards.trans {e'' : Executor α} (h : Boards e e') (h' : Boards e' e'') : Boards e e'' := by
  refine ⟨?_, fun x hx => (h'.workerId x (h.subset hx)).trans (h.workerId x hx)⟩
  obtain ⟨xs, hxs, hnew⟩ := h.flight
  obtain ⟨ys, hys, hnew'⟩ := h'.flight
  refine ⟨xs ++ ys, by rw [hys, hxs, List.append_assoc], fun x hx => ?_⟩
  rcases List.mem_append.mp hx with hx | hx
  · exact hnew x hx
  · exact fun hold => hnew' x hx (h.subset hold)

theorem shippedTo_trans (h : Boards e₀ e) (h' : Boards e e') (w : WorkerId) :
    shippedTo e₀ e' w = shippedTo e₀ e w ++ shippedTo e e' w := by
  obtain ⟨ys, hys, hnew⟩ := h'.flight
  have hold : (e.inFlight.filter fun x => decide (x ∉ e₀.inFlight ∧ (e'.works x).workerId = some w)) =
      shippedTo e₀ e w := List.filter_congr fun x hx => by rw [h'.workerId x hx]
  have hnone : (e.inFlight.filter fun x => decide (x ∉ e.inFlight ∧ (e'.works x).workerId = some w)) = [] :=
    List.filter_eq_nil_iff.mpr fun x hx hout => (of_decide_eq_true hout).1 hx
  unfold shippedTo at hold ⊢
  rw [hys, List.filter_append, List.filter_append, hold, hnone, List.nil_append]
  refine congrArg _ (List.filter_congr fun x hx => ?_)
  rw [decide_eq_decide, and_congr_left_iff]
  exact fun _ => iff_of_true (fun hm => hnew x hx (h.subset hm)) (hnew x hx)

end Executor

namespace Mail
variable {α : Type} {e e' e₀ : Executor α} {m m' : Mail}

def ship (m : Mail) (before after : Executor α) : Mail :=
  { m with shipped := fun w => m.shipped w ++ before.shippedTo after w }

theorem ship_same (h : e'.inFlight = e.inFlight) : m.ship e e' = m := by
  refine congr_arg₂ Mail.mk (funext fun w => ?_) rfl
  rw [Executor.shippedTo_of_subset fun _ hx => h ▸ hx, List.append_nil]

theorem ship_trans (m : Mail) (h : e₀.Boards e) (h' : e.Boards e') : (m.ship e₀ e).ship e e' = m.ship e₀ e' :=
  congr_arg₂ Mail.mk (funext fun w => by rw [Executor.shippedTo_trans h h', ← List.append_assoc]; rfl) rfl

def box (m : Mail) (e : Executor α) (w : WorkerId) : Mailbox WorkId := (e.slots w).box (m.shipped w) (m.reported w)

/-- The workers that have not been started have no mail. -/
def Blank (m : Mail) (e : Executor α) : Prop := ∀ w, e.nextWorkerId ≤ w → m.box e w = {}

def Posts (m : Mail) (e : Executor α) (m' : Mail) (e' : Executor α) : Prop :=
  m.Blank e → m'.Blank e' ∧ ∀ w, Steps (m.box e w) (m'.box e' w)

theorem Posts.refl (m : Mail) (e : Executor α) : Posts m e m e := fun hblank => ⟨hblank, fun _ => .refl⟩

theorem Posts.trans {m'' : Mail} {e'' : Executor α} (h : Posts m e m' e') (h' : Posts m' e' m'' e'') :
    Posts m e m'' e'' := by
  intro hblank
  obtain ⟨hblank, hsteps⟩ := h hblank
  obtain ⟨hblank, hsteps'⟩ := h' hblank
  exact ⟨hblank, fun w => (hsteps w).trans (hsteps' w)⟩

theorem Posts.of_same (hbox : ∀ w, m'.box e' w = m.box e w) (hnext : e.nextWorkerId ≤ e'.nextWorkerId) :
    Posts m e m' e' :=
  fun hblank => ⟨fun w hw => (hbox w).trans (hblank w (hnext.trans hw)), fun w => hbox w ▸ .refl⟩

theorem Posts.of_step {w : WorkerId} (hstep : Step (m.box e w) (m'.box e' w)) (hw : w < e.nextWorkerId)
    (hother : ∀ v, v ≠ w → m'.box e' v = m.box e v) (hnext : e'.nextWorkerId = e.nextWorkerId) : Posts m e m' e' := by
  refine fun hblank => ⟨fun v hv => ?_, fun v => ?_⟩
  · rw [hnext] at hv
    exact (hother v (by rintro rfl; exact absurd hw (not_lt.mpr hv))).trans (hblank v hv)
  · by_cases hvw : v = w
    · exact hvw ▸ .single hstep
    · exact hother v hvw ▸ .refl

theorem box_modifySlot (m : Mail) (e : Executor α) (w v : WorkerId) (f : WorkerSlot α → WorkerSlot α) :
    m.box (e.modifySlot w f) v = if v = w then (f (e.slots w)).box (m.shipped w) (m.reported w) else m.box e v := by
  unfold box
  rw [Executor.modifySlot_slots]
  split_ifs with hv
  · rw [hv]
  · rfl

theorem posts_still (m : Mail) (e : Executor α) (w : WorkerId) {f : WorkerSlot α → WorkerSlot α}
    (hf : ∀ sent finished, (f (e.slots w)).box sent finished = (e.slots w).box sent finished) :
    Posts m e m (e.modifySlot w f) := by
  refine .of_same (fun v => ?_) le_rfl
  rw [box_modifySlot]
  split_ifs with hv
  · rw [hf, hv]
    rfl
  · rfl

theorem posts_step (m : Mail) {e : Executor α} {w : WorkerId} (hw : w < e.nextWorkerId) {f : WorkerSlot α → WorkerSlot α}
    (hf : Step (m.box e w) ((f (e.slots w)).box (m.shipped w) (m.reported w))) : Posts m e m (e.modifySlot w f) := by
  refine .of_step (w := w) ?_ hw (fun v hv => ?_) rfl
  · rwa [box_modifySlot, if_pos rfl]
  · rw [box_modifySlot, if_neg hv]

theorem step_sentinel (m : Mail) (e : Executor α) (w : WorkerId) : Step (m.box e w) (WorkerSlot.box
    { e.slots w with
      intentionallyStopped := true
      process := { (e.slots w).process with workQueue := (e.slots w).process.workQueue ++ [none] } }
    (m.shipped w) (m.reported w)) := by
  have h := Step.shut (m := m.box e w)
  unfold box WorkerSlot.box at h ⊢
  dsimp only at h ⊢
  rwa [List.map_append]

theorem step_take (m : Mail) {e : Executor α} {w : WorkerId} {item : WorkItem} {rest : List (Option WorkItem)}
    (hstays : (e.slots w).process.leaving = false) (hidle : (e.slots w).process.executing = none)
    (hqueue : (e.slots w).process.workQueue = some item :: rest) : Step (m.box e w) (m.box (e.modifyProcess w fun p => { p with workQueue := rest, executing := some item }) w) := by
  have hcurrent : (m.box e w).current = none := congrArg (Option.map WorkItem.id) hidle
  have hmail : (m.box e w).queue = some item.id :: rest.map (Option.map WorkItem.id) :=
    congrArg (List.map (Option.map WorkItem.id)) hqueue
  have htake := Step.take hstays hcurrent hmail
  unfold Executor.modifyProcess
  rwa [box_modifySlot, if_pos rfl]

theorem step_stop (m : Mail) {e : Executor α} {w : WorkerId} {rest : List (Option WorkItem)}
    (hidle : (e.slots w).process.executing = none) (hqueue : (e.slots w).process.workQueue = none :: rest) :
    Step (m.box e w) (m.box (e.modifyProcess w fun p => { p with workQueue := rest, leaving := true }) w) := by
  have hcurrent : (m.box e w).current = none := congrArg (Option.map WorkItem.id) hidle
  have hmail : (m.box e w).queue = none :: rest.map (Option.map WorkItem.id) :=
    congrArg (List.map (Option.map WorkItem.id)) hqueue
  have hstop := Step.stop hcurrent hmail
  unfold Executor.modifyProcess
  rwa [box_modifySlot, if_pos rfl]

/-- A worker reports its item, whatever becomes of the result. -/
theorem step_put (m : Mail) {e : Executor α} {w : WorkerId} {item : WorkItem}
    (results : WorkerProcess α → List (WorkResult α)) (hitem : (e.slots w).process.executing = some item) :
    Step (m.box e w) (({ m with reported := fun v => m.reported v ++ if v = w then [item.id] else [] } : Mail).box
      (e.modifyProcess w fun p => { p with executing := none, resultQueue := results p }) w) := by
  have hcurrent : (m.box e w).current = some item.id := congrArg (Option.map WorkItem.id) hitem
  have hput := Step.finish hcurrent
  unfold Executor.modifyProcess
  rw [box_modifySlot, if_pos rfl]
  dsimp only
  rwa [if_pos rfl]

theorem posts_slots (m : Mail) (hslots : e'.slots = e.slots) (hnext : e'.nextWorkerId = e.nextWorkerId) :
    Posts m e m e' := by
  refine .of_same (fun w => ?_) hnext.ge
  unfold box
  rw [hslots]

theorem posts_retire (m : Mail) {e : Executor α} {w : WorkerId} (hw : w < e.nextWorkerId) :
    Posts m e m (e.retireWorker w) :=
  (posts_step m (f := fun slot => { slot with
    intentionallyStopped := true
    process := { slot.process with workQueue := slot.process.workQueue ++ [none] } }) hw
    (step_sentinel m e w)).trans (posts_slots m rfl rfl)

theorem posts_spawned (m : Mail) (e : Executor α) (pid : Int) (gpuId : Option GpuId) : Posts m e m (e.spawned pid gpuId) := by
  intro hblank
  have hbox (w : WorkerId) : m.box (e.spawned pid gpuId) w = m.box e w := by
    unfold box Executor.spawned
    dsimp only
    rw [Function.update_apply]
    split_ifs with hw
    · subst hw
      obtain ⟨hsent, hfinished, -⟩ := Mailbox.mk.inj (hblank _ le_rfl)
      have hblank := hblank _ le_rfl
      unfold box at hblank
      rw [hblank, hsent, hfinished]
      rfl
    · rfl
  exact Posts.of_same hbox (Nat.le_succ _) hblank

end Mail

namespace Executor
open Mail (Posts posts_slots posts_retire posts_spawned)
variable {α : Type} {env : Env} {e e' e₀ : Executor α} {accepted held : List WorkId} {lost : List WorkerId} {m : Mail}

/-! ## A dispatch cycle -/

theorem Sends.boards {x : WorkId} {w : WorkerId} (h : e.Sends x w e') (hout : x ∉ e.inFlight) : Boards e e' := by
  refine ⟨⟨[x], h.inFlight, fun y hy => List.mem_singleton.mp hy ▸ hout⟩, fun y hy => ?_⟩
  rw [h.workerId, if_neg (by rintro rfl; exact hout hy)]

theorem Sends.shippedTo {x : WorkId} {w : WorkerId} (h : e.Sends x w e') (hout : x ∉ e.inFlight) (v : WorkerId) :
    shippedTo e e' v = if v = w then [x] else [] := by
  have hnone : (e.inFlight.filter fun y => decide (y ∉ e.inFlight ∧ (e'.works y).workerId = some v)) = [] :=
    List.filter_eq_nil_iff.mpr fun y hy hnew => (of_decide_eq_true hnew).1 hy
  unfold Executor.shippedTo
  rw [h.inFlight, List.filter_append, hnone, List.nil_append, List.filter_singleton, h.workerId, if_pos rfl]
  by_cases hv : v = w
  · rw [if_pos hv, decide_eq_true ⟨hout, congrArg some hv.symm⟩]
    rfl
  · rw [if_neg hv, decide_eq_false fun h => hv (Option.some.inj h.2).symm]
    rfl

theorem Staffing.boards (h : Staffing e e') (htidy : Tidy (e.book accepted held)) : Boards e e' := by
  cases h with
  | still _ hflight _ _ _ _ hworks => exact .of_same hflight hworks
  | retire | spawn => exact .of_same rfl fun _ => rfl
  | send h => exact h.boards fun hx => htidy.not_mem_flight h.queued (List.mem_append_left _ hx)

/-- **A small step of a cycle** is a step of a mailbox, or none. -/
theorem Staffing.posts (h : Staffing e e') (htidy : Tidy (e.book accepted held)) (hpool : Pool e lost) :
    Posts m e (m.ship e e') e' := by
  cases h with
  | still _ hflight hslots _ _ hnext _ =>
    rw [Mail.ship_same hflight]
    exact posts_slots _ hslots hnext
  | @retire w hw =>
    rw [Mail.ship_same (show (e.retireWorker w).inFlight = e.inFlight from rfl)]
    exact posts_retire _ (hpool.spawned w (List.mem_append_left _ hw))
  | spawn pid gpuId =>
    rw [Mail.ship_same (show (e.spawned pid gpuId).inFlight = e.inFlight from rfl)]
    exact posts_spawned _ _ pid gpuId
  | @send _ x w hsends =>
    obtain ⟨item, rfl, hslots⟩ := hsends.slots
    have hmail := hsends.shippedTo fun hx => htidy.not_mem_flight hsends.queued (List.mem_append_left _ hx)
    refine .of_step (w := w) ?_ (hpool.spawned w (List.mem_append_left _ hsends.worker)) (fun v hv => ?_) hsends.next
    · have hidle := hsends.idle
      simp only [idle, Bool.and_eq_true, Bool.not_eq_true'] at hidle
      have hsend := Step.send (m := m.box e w) item.id hidle.1.2
      unfold Mail.box WorkerSlot.box at hsend ⊢
      unfold Mail.ship
      dsimp only at hsend ⊢
      rw [hmail, if_pos rfl, hslots, if_pos rfl]
      dsimp only
      rwa [List.map_append]
    · unfold Mail.box Mail.ship
      dsimp only
      rw [hmail, if_neg hv, hslots, if_neg hv, List.append_nil]

/-- **A dispatch cycle** keeps of the mail what its small steps keep. -/
theorem DispatchSteps.mail {P : Mail → Executor α → Prop} {decided : List WorkId} (h : DispatchSteps env decided e e')
    (hmark : Marked e accepted) (htidy : Tidy (e.book accepted held)) (hpool : Pool e lost)
    (hstep : ∀ {e e' : Executor α} {m : Mail}, Tidy (e.book accepted held) → Pool e lost → Staffing e e' → P m e →
      P (m.ship e e') e') (hm : P m e) : P (m.ship e e') e' := by
  refine (h.keep (P := fun e' => Boards e e' ∧ P (m.ship e e') e') hmark htidy hpool ?_ ⟨.of_same rfl fun _ => rfl, ?_⟩).2
  · intro e₁ e₂ htidy' hpool' hstaffing hboth
    have hboards := hstaffing.boards htidy'
    rw [← Mail.ship_trans m hboth.1 hboards]
    exact ⟨hboth.1.trans hboards, hstep htidy' hpool' hstaffing hboth.2⟩
  · rw [Mail.ship_same rfl]
    exact hm

/-! ## Sections -/

theorem Lasts.box {pooled : Prop} {slot slot' : WorkerSlot α} (h : Lasts pooled slot slot') (sent finished : List WorkId) :
    (slot'.intentionallyStopped = true ∧ Steps (slot.box sent finished) (slot'.box sent finished)) ∨
      slot'.intentionallyStopped = false ∧ slot'.box sent finished = slot.box sent finished := by
  obtain ⟨k, hqueue, hstop⟩ := h.queue
  cases hs : slot'.intentionallyStopped with
  | true =>
    refine .inl ⟨rfl, ?_⟩
    have hsteps := Steps.shut (slot.box sent finished) k
    unfold WorkerSlot.box at hsteps ⊢
    rw [h.executing, hqueue, hs, h.leaving, List.map_append, List.map_replicate]
    exact hsteps
  | false =>
    refine .inr ⟨rfl, ?_⟩
    have hk : k = 0 := by
      by_contra hk
      rw [hstop (Nat.pos_of_ne_zero hk)] at hs
      cases hs
    have hold : slot.intentionallyStopped = false := by
      by_contra hold
      rw [h.stopped (Bool.not_eq_false _ ▸ hold)] at hs
      cases hs
    unfold WorkerSlot.box
    rw [h.executing, hqueue, hk, hs, hold, h.leaving, List.replicate_zero, List.append_nil]

/-- **No section but a dispatch cycle** ships, and none reports. -/
theorem run_posts {sec : Section α} {body : List (Section α)} (h : e.run env sec = some (e', body))
    (hsec : sec ≠ .maybeDispatch) (hpool : Pool e lost) : Posts m e m e' := by
  have hlasts := run_lasts h hsec
  refine fun hblank => ⟨fun w hw => ?_, fun w => ?_⟩
  · rw [(run_thins h hsec hpool.nodup.of_append_left).next] at hw
    have hblank := hblank w hw
    have hnew : w ∉ e.workers := fun hm => absurd (hpool.spawned w (List.mem_append_left _ hm)) (not_lt.mpr hw)
    rcases (hlasts w).box (m.shipped w) (m.reported w) with ⟨hs, -⟩ | ⟨-, hsame⟩
    · have hold := ((hlasts w).pooled hs).resolve_right hnew
      rw [show (e.slots w).intentionallyStopped = false from congrArg Mailbox.closed hblank] at hold
      cases hold
    · exact hsame.trans hblank
  · rcases (hlasts w).box (m.shipped w) (m.reported w) with ⟨-, hsteps⟩ | ⟨-, hsame⟩
    · exact hsteps
    · have hbox : m.box e' w = m.box e w := hsame
      rw [hbox]

end Executor

/-! ## Runs -/

namespace System
open Mail (Posts Blank posts_still posts_slots)
variable {α : Type} {s s' : System α} {e : Event α} {m m' : Mail}

/-- What has been shipped and reported, as the events go on. -/
def mail : History α Mail where
  start := {}
  next s e s' m := Mail.ship
    { m with reported := fun w => m.reported w ++ ((s.executed e).filter (·.worker = w)).map (·.item.id) }
    s.executor s'.executor

theorem mail_next (hexecuted : s.executed e = []) (hflight : s'.executor.inFlight ⊆ s.executor.inFlight) :
    mail.next s e s' m = m := by
  refine congr_arg₂ Mail.mk (funext fun w => ?_) (funext fun w => ?_)
  · change m.shipped w ++ _ = m.shipped w
    rw [Executor.shippedTo_of_subset hflight, List.append_nil]
  · rw [hexecuted]
    exact List.append_nil _

theorem mail_put {w : WorkerId} {item : WorkItem} {report : Report α}
    (he : e = .workerPut w report ∨ e = .workerLose w report)
    (hitem : (s.executor.slots w).process.executing = some item) (hflight : s'.executor.inFlight ⊆ s.executor.inFlight) :
    mail.next s e s' m =
      { m with reported := fun v => m.reported v ++ if v = w then [item.id] else [] } := by
  refine congr_arg₂ Mail.mk (funext fun v => ?_) (funext fun v => ?_)
  · rw [Executor.shippedTo_of_subset hflight]
    exact List.append_nil _
  · have hexecuted : s.executed e = [⟨w, item, ⟨item.id, w, report.success, report.result, report.exception,
        report.observation⟩⟩] := by
      rcases he with rfl | rfl <;> dsimp only [executed] <;> rw [hitem] <;> rfl
    dsimp only
    rw [hexecuted, List.filter_singleton]
    by_cases hv : v = w
    · simp [hv]
    · simp [hv, Ne.symm hv]

theorem posts_process {s : Executor α} {w : WorkerId} {f : WorkerProcess α → WorkerProcess α}
    (hstep : Mailbox.Step (m.box s w) (m'.box (s.modifyProcess w f) w))
    (hmail : (s.slots w).process.executing ≠ none ∨ (s.slots w).process.workQueue ≠ [])
    (hother : ∀ v, v ≠ w → m'.shipped v = m.shipped v ∧ m'.reported v = m.reported v) :
    Posts m s m' (s.modifyProcess w f) := by
  intro hblank
  have hw : w < s.nextWorkerId := by
    by_contra hw
    obtain ⟨-, -, hcurrent, hqueue, -⟩ := Mailbox.mk.inj (hblank w (not_lt.mp hw))
    rcases hmail with hmail | hmail
    · exact hmail (Option.map_eq_none_iff.mp hcurrent)
    · exact hmail (List.map_eq_nil_iff.mp hqueue)
  refine Posts.of_step hstep hw (fun v hv => ?_) rfl hblank
  unfold Mail.box Executor.modifyProcess
  rw [Executor.modifySlot_slots, if_neg hv, (hother v hv).1, (hother v hv).2]

/-- **What an event does to the mail**: it is a run of steps of every mailbox. -/
theorem step_posts (h : s.step e = some s') (hs : Sound s) (hpool : s.executor.Pool s.lost) :
    Posts m s.executor (mail.next s e s' m) s'.executor := by
  have still (hexecuted : s.executed e = []) (hflight : s'.executor.inFlight ⊆ s.executor.inFlight)
      (hposts : Posts m s.executor m s'.executor) : Posts m s.executor (mail.next s e s' m) s'.executor := by
    rw [mail_next hexecuted hflight]
    exact hposts
  cases hnext : s.nextSection e with
  | some sec =>
    obtain ⟨t, env, rest, body, rfl, hacted⟩ := acted_of_next h hnext
    by_cases hdispatch : sec = .maybeDispatch
    · subst hdispatch
      obtain ⟨hok, -⟩ := Executor.run_maybeDispatch hacted.run
      have hsteps := Executor.maybeDispatch_steps hs.pending hok
      have hmail : mail.next s (.act t env) s' m = m.ship s.executor s'.executor := by
        change Mail.ship _ _ _ = _
        refine congrArg (Mail.ship · s.executor s'.executor) ?_
        refine congr_arg₂ Mail.mk rfl (funext fun w => ?_)
        exact List.append_nil _
      rw [hmail]
      exact Executor.DispatchSteps.mail (P := fun m' e' => Posts m s.executor m' e') hsteps hs.marked hs.tidy hpool
        (fun htidy hpool hstaffing hposts => hposts.trans (hstaffing.posts htidy hpool)) (.refl m s.executor)
    · have hflight := (Executor.run_lands hacted.run hdispatch hs.flight_nodup).flight
      exact still rfl hflight.subset (Executor.run_posts hacted.run hdispatch hpool)
  | none =>
    cases e with
    | tick now =>
      simp only [step] at h
      split_ifs at h
      obtain rfl := Option.some.inj h
      exact still rfl (List.Subset.refl _) (posts_slots m rfl rfl)
    | start =>
      simp only [step] at h
      split_ifs at h
      obtain rfl := Option.some.inj h
      exact still rfl (List.Subset.refl _) (.refl _ _)
    | poll snapshot =>
      obtain rfl := Option.some.inj h
      exact still rfl (List.Subset.refl _) (posts_slots m rfl rfl)
    | submit id r reading =>
      simp only [step] at h
      split_ifs at h
      obtain rfl := Option.some.inj h
      refine still rfl ?_ ?_ <;> unfold submit <;> dsimp only <;> split
      exacts [List.Subset.refl _, List.Subset.refl _, posts_slots m rfl rfl, posts_slots m rfl rfl]
    | append id =>
      simp only [step] at h
      split_ifs at h
      obtain rfl := Option.some.inj h
      exact still rfl (List.Subset.refl _) (posts_slots m rfl rfl)
    | cancel id =>
      simp only [step] at h
      split_ifs at h
      obtain rfl := Option.some.inj h
      exact still rfl (List.Subset.refl _) (posts_slots m rfl rfl)
    | workerTake w =>
      simp only [step] at h
      split_ifs at h with hcond
      split at h
      · cases h
      · rename_i rest hqueue
        obtain rfl := Option.some.inj h
        exact still rfl (List.Subset.refl _) (posts_process (Mail.step_stop m hcond.2.2 hqueue) (by simp [hqueue])
          fun _ _ => ⟨rfl, rfl⟩)
      · rename_i item rest hqueue
        obtain rfl := Option.some.inj h
        exact still rfl (List.Subset.refl _) (posts_process (Mail.step_take m hcond.2.1 hcond.2.2 hqueue)
          (by simp [hqueue]) fun _ _ => ⟨rfl, rfl⟩)
    | workerPut w report =>
      simp only [step] at h
      split at h
      · cases h
      · rename_i item hitem
        split_ifs at h
        have hflight : s'.executor.inFlight ⊆ s.executor.inFlight := by
          rw [← Option.some.inj h]
          exact List.Subset.refl _
        rw [mail_put (.inl rfl) hitem hflight]
        obtain rfl := Option.some.inj h
        have hput := Mail.step_put m (fun p => p.resultQueue ++
          [⟨item.id, w, report.success, report.result, report.exception, report.observation⟩]) hitem
        refine posts_process hput (by simp [hitem]) fun v hv => ⟨rfl, ?_⟩
        dsimp only
        rw [if_neg hv, List.append_nil]
    | workerLose w report =>
      simp only [step] at h
      split_ifs at h with hcond
      obtain ⟨item, hitem⟩ := Option.ne_none_iff_exists'.mp hcond.2
      have hflight : s'.executor.inFlight ⊆ s.executor.inFlight := by
        rw [← Option.some.inj h]
        exact List.Subset.refl _
      rw [mail_put (.inr rfl) hitem hflight]
      obtain rfl := Option.some.inj h
      refine posts_process (Mail.step_put m (·.resultQueue) hitem) (by simp [hitem]) fun v hv => ⟨rfl, ?_⟩
      dsimp only
      rw [if_neg hv, List.append_nil]
    | workerDie w exitcode =>
      obtain rfl := Option.some.inj h
      refine still rfl (List.Subset.refl _) (posts_still m _ w (f := fun slot => { slot with
        process := slot.process.exit exitcode }) fun sent finished => ?_)
      unfold WorkerProcess.exit
      split_ifs <;> rfl
    | round t =>
      simp only [step] at h
      split at h
      · obtain rfl := Option.some.inj h
        exact still rfl (List.Subset.refl _) (.refl _ _)
      · cases h
    | call t sec =>
      simp only [step] at h
      split at h
      · split_ifs at h
        obtain rfl := Option.some.inj h
        exact still rfl (List.Subset.refl _) (.refl _ _)
      · cases h
    | deliver t w i =>
      simp only [step] at h
      split at h
      · split_ifs at h
        obtain rfl := Option.some.inj h
        exact still rfl (List.Subset.refl _) (posts_still m _ w (f := fun slot => { slot with
          process := { slot.process with resultQueue := slot.process.resultQueue.eraseIdx i } }) fun _ _ => rfl)
      · cases h
    | act t env =>
      simp only [step, List.head?_eq_none_iff.mp hnext] at h
      cases h
    | contended t =>
      simp only [step] at h
      split at h
      · split_ifs at h
        obtain rfl := Option.some.inj h
        exact still rfl (List.Subset.refl _) (.refl _ _)
      · cases h
    | shutdown wait =>
      simp only [step] at h
      split_ifs at h <;> obtain rfl := Option.some.inj h
      · exact still rfl (List.Subset.refl _) (.refl _ _)
      · exact still rfl (List.Subset.refl _) (.refl _ _)

section Run
variable {cfg : Config} {profiles : ProfileStore}

theorem run_mail (h : Recorded mail (fun _ _ => True) (init cfg profiles) s m) :
    m.Blank s.executor ∧ ∀ w, (m.box s.executor w).InOrder ∧ (m.box s.executor w).Sealed := by
  induction h with
  | start =>
    refine ⟨fun _ _ => rfl, fun _ => ⟨rfl, .nil, fun hnone => (by cases hnone), fun hstopped => ?_⟩⟩
    cases hstopped
  | next hrun _ hstep ih =>
    obtain ⟨hblank, hboxes⟩ := ih
    obtain ⟨hs, hpool⟩ := hrun.reachable.sound
    obtain ⟨hblank, hsteps⟩ := step_posts hstep hs hpool hblank
    exact ⟨hblank, fun w => ⟨(hsteps w).inOrder (hboxes w).1, (hsteps w).isSealed (hboxes w).2⟩⟩

/-- **Mail is in order**: in every run, what has been shipped to a worker is what it has reported, in the same order,
followed by what it has at hand and on its queue. A worker that has taken its sentinel has reported all of it: recycling,
eviction and shutdown take no task from a worker that goes on. -/
theorem mail_in_order (h : Recorded mail (fun _ _ => True) (init cfg profiles) s m) (w : WorkerId) :
    m.shipped w = m.reported w ++ (s.executor.slots w).process.unfinished ∧
      ((s.executor.slots w).process.leaving = true → m.reported w = m.shipped w) := by
  obtain ⟨horder, hsealed⟩ := (run_mail h).2 w
  refine ⟨?_, hsealed.finished horder⟩
  rw [← (s.executor.slots w).box_unfinished (m.shipped w) (m.reported w)]
  exact horder

end Run

/-- The only worker is recycled after its first task, and takes its sentinel. -/
def recycledOne : Option (System ℕ × Mail) :=
  playRecorded mail (fun _ _ => True) (init { oneWorker with workerRecycleAfterTasks := some 1 } {}) {}
    (reportOne ++ [.workerTake 0])

theorem mail_in_order_recycled : ∃ (s : System ℕ) (m : Mail), m.shipped 0 = ["x"] ∧
    (s.executor.slots 0).process.leaving = true ∧ m.reported 0 = m.shipped 0 := by
  have hfacts : recycledOne.any (fun r => decide (r.2.shipped 0 = ["x"] ∧
      (r.1.executor.slots 0).process.leaving = true)) = true := by decide +kernel
  obtain ⟨⟨s, m⟩, hplay, hfacts⟩ := (Option.any_eq_true _ _).mp hfacts
  obtain ⟨hshipped, hleaving⟩ := of_decide_eq_true hfacts
  exact ⟨s, m, hshipped, hleaving, (mail_in_order (Recorded.start.play hplay) 0).2 hleaving⟩

end System

end AdaptiveExecutor
