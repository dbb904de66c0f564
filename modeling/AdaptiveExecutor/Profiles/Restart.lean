import AdaptiveExecutor.Ledger.Replace
import AdaptiveExecutor.Profiles.Damage
import AdaptiveExecutor.Profiles.Saving

/-!
# Saves that are cut short

Any number of processes share a profile file. A save may fail at any of its steps, a process may die at any time, and
others start and read the file meanwhile.

* `Text` : what `json.dump` writes of a document, piece by piece, and what `_load` finds in a text;
* `SaveStage`, `StoreProcess` : how far a save has come, and a process with its store;
* `ProfileDisk`, `ProfileDisk.step` : the directory and the processes, one file operation at a time;
* `Trusted`, `step_trusted` : what each process has is what calls made of the first store;
* `restart_whole` : whoever starts finds the whole of some snapshot;
* `no_litter` : a temporary file is left behind only by a process that dies, or by an error that is not caught.
-/

namespace AdaptiveExecutor
open Replace (Disk Draft Sound)

/-- What is written of a document, and what there is to read in a text. The documents of the store are read as they were
written. -/
structure Text (χ : Type) where
  dumps : Json → List χ
  content : List χ → Content
  content_dumps : ∀ store : ProfileStore, store.WellFormed → content (dumps store.snapshot) = .document store.snapshot

/-! ## Processes -/

/-- How far `_write_atomic` has come. -/
inductive SaveStage (χ : Type)
  /-- Neither the directory nor the temporary file has been made. -/
  | making
  /-- In `json.dump`. -/
  | writing (draft : Draft String χ)
  /-- The temporary file has been closed. -/
  | replacing (draft : Draft String χ)
  /-- An error has been caught. -/
  | unlinking (draft : Draft String χ)

def SaveStage.draft {χ : Type} : SaveStage χ → Option (Draft String χ)
  | .making => none
  | .writing w | .replacing w | .unlinking w => some w

/-- The thread that has the save lock: which of the waiting snapshots is its own, and how far it has come. -/
structure Save (χ : Type) where
  index : Nat
  stage : SaveStage χ

inductive StoreProcess (χ : Type)
  /-- `_load` has opened the file, and has read some of it. -/
  | loading (cfg : SaveConfig) (now : ℚ) (file : Nat) (text : List χ)
  | running (saver : Saver) (save : Option (Save χ))

namespace StoreProcess
variable {χ : Type}

def file : StoreProcess χ → Option Nat
  | .loading _ _ file _ => some file
  | .running .. => none

def draft : StoreProcess χ → Option (Draft String χ)
  | .loading .. => none
  | .running _ save => save.bind fun x => x.stage.draft

end StoreProcess

/-- The thread at the index gives up its snapshot: the save has failed, or has been interrupted. -/
def Saver.abandon (s : Saver) (i : Nat) : Saver :=
  { s with saves := { s.saves with waiting := s.saves.waiting.eraseIdx i } }

/-- A call that only reads. Reading may make an empty profile. -/
def Saver.look (s : Saver) (c : StoreCall) : Saver := { s with store := c.run s.store, calls := s.calls ++ [c] }

/-- `mkstemp(prefix=".profiles_", suffix=".tmp")`. -/
def tempName (random : String) : String := ".profiles_" ++ random ++ ".tmp"

/-- What the constructor makes of what it has read, `none` when it raises. -/
def startStore : Content → Option ProfileStore
  | .document data => (ProfileStore.load data).toOption
  | content => match construct content with
    | .ok _ => some {}
    | .error _ => none

inductive SaveStep
  /-- The thread of the snapshot at the index gets the lock. -/
  | acquire (i : Nat)
  | mkstemp (random : String)
  /-- That many pieces more get into the file. -/
  | write (n : Nat)
  | close
  | replace
  /-- `OSError`, `TypeError` or `ValueError`. -/
  | fail
  /-- Any other exception. -/
  | escape
  /-- `os.unlink`, which may raise `OSError`. -/
  | unlink (removed : Bool)

inductive DiskEvent
  /-- `exists()`, and opening the file if it does. -/
  | start (p : Nat) (cfg : SaveConfig) (now : ℚ)
  /-- Up to that many pieces more are read. -/
  | read (p n : Nat)
  /-- Opening or reading the file raises `OSError`, and the store starts empty. -/
  | unreadable (p : Nat)
  /-- The whole file has been read. -/
  | load (p : Nat)
  /-- `record` or `record_memory_floor` -/
  | change (p : Nat) (c : StoreCall) (checkedAt savedAt : ℚ)
  | look (p : Nat) (c : StoreCall)
  | flush (p : Nat) (savedAt : ℚ)
  | save (p : Nat) (e : SaveStep)
  | crash (p : Nat)

/-- A directory, the processes that use it, and all of the calls that they have made. -/
structure ProfileDisk (χ : Type) where
  disk : Disk String χ
  persistPath : String
  processes : Nat → Option (StoreProcess χ)
  made : List StoreCall

namespace ProfileDisk
variable {χ : Type} (t : Text χ) (s : ProfileDisk χ)

def set (p : Nat) (x : Option (StoreProcess χ)) : ProfileDisk χ :=
  { s with processes := Function.update s.processes p x }

/-- A step of `_write_atomic`, in a process with that store and that save. -/
def saveStep (p : Nat) (saver : Saver) : SaveStep → Option (Save χ) → Option (ProfileDisk χ)
  | .acquire i, none =>
    if i < saver.saves.waiting.length then some (s.set p (some (.running saver (some ⟨i, .making⟩)))) else none
  | .mkstemp random, some ⟨i, .making⟩ =>
    match s.disk.names (tempName random), saver.saves.waiting[i]? with
    | none, some a =>
      let w : Draft String χ := ⟨tempName random, s.disk.next, t.dumps a.data, t.dumps a.data⟩
      some { s.set p (some (.running saver (some ⟨i, .writing w⟩))) with disk := s.disk.create w.name }
    | _, _ => none
  | .write n, some ⟨i, .writing w⟩ =>
    some { s.set p (some (.running saver (some ⟨i, .writing { w with left := w.left.drop n }⟩))) with
      disk := s.disk.append w.file (w.left.take n) }
  | .close, some ⟨i, .writing w⟩ =>
    if w.left.isEmpty then some (s.set p (some (.running saver (some ⟨i, .replacing w⟩)))) else none
  | .replace, some ⟨i, .replacing w⟩ =>
    (saver.step (.write i)).map fun saver' =>
      { s.set p (some (.running saver' none)) with disk := s.disk.rename w.name s.persistPath }
  | .fail, some ⟨i, .making⟩ => some (s.set p (some (.running (saver.abandon i) none)))
  | .fail, some ⟨i, .writing w⟩ | .fail, some ⟨i, .replacing w⟩ =>
    some (s.set p (some (.running saver (some ⟨i, .unlinking w⟩))))
  | .unlink removed, some ⟨i, .unlinking w⟩ =>
    some { s.set p (some (.running (saver.abandon i) none)) with
      disk := if removed then s.disk.unlink w.name else s.disk }
  | .escape, some ⟨i, _⟩ => some (s.set p (some (.running (saver.abandon i) none)))
  | _, _ => none

def step : DiskEvent → Option (ProfileDisk χ)
  | .start p cfg now =>
    match s.processes p, s.disk.names s.persistPath with
    | none, none => if cfg.persists then some (s.set p (some (.running (.init cfg {} now) none))) else none
    | none, some file => if cfg.persists then some (s.set p (some (.loading cfg now file []))) else none
    | some _, _ => none
  | .read p n =>
    match s.processes p with
    | some (.loading cfg now file text) =>
      some (s.set p (some (.loading cfg now file (text ++ ((s.disk.content file).drop text.length).take n))))
    | _ => none
  | .unreadable p =>
    match s.processes p with
    | some (.loading cfg now _ _) => some (s.set p (some (.running (.init cfg {} now) none)))
    | _ => none
  | .load p =>
    match s.processes p with
    | some (.loading cfg now file text) =>
      if text.length < (s.disk.content file).length then none
      else some (s.set p ((startStore (t.content text)).map fun store => .running (.init cfg store now) none))
    | _ => none
  | .change p c checkedAt savedAt =>
    match s.processes p with
    | some (.running saver save) =>
      (saver.step (.change c checkedAt savedAt)).map fun saver' =>
        { s.set p (some (.running saver' save)) with made := s.made ++ [c] }
    | _ => none
  | .look p c =>
    match s.processes p with
    | some (.running saver save) =>
      if c.keys = [] then some { s.set p (some (.running (saver.look c) save)) with made := s.made ++ [c] } else none
    | _ => none
  | .flush p savedAt =>
    match s.processes p with
    | some (.running saver save) =>
      (saver.step (.flush savedAt)).map fun saver' => s.set p (some (.running saver' save))
    | _ => none
  | .save p e =>
    match s.processes p with
    | some (.running saver save) => s.saveStep t p saver e save
    | _ => none
  | .crash p =>
    match s.processes p with
    | some _ => some (s.set p none)
    | none => none

def run : List DiskEvent → ProfileDisk χ → Option (ProfileDisk χ)
  | [], s => some s
  | e :: es, s => (s.step t e).bind (run es)

end ProfileDisk

/-! ## What is on disk and in the processes -/

theorem replayFrom_concat (start : ProfileStore) (calls more : List StoreCall) :
    replayFrom start (calls ++ more) = replayFrom (replayFrom start calls) more := List.foldl_append ..

theorem replayFrom_wellFormed {start : ProfileStore} (h : start.WellFormed) (calls : List StoreCall) :
    (replayFrom start calls).WellFormed := by
  induction calls using List.reverseRecOn with
  | nil => exact h
  | append_singleton calls c ih =>
    rw [replayFrom_append]
    exact c.run_wellFormed ih

/-- The text is the snapshot of a store that some of the calls made of a first one, in their order. -/
def Text.Saved {χ : Type} (t : Text χ) (first : ProfileStore → Prop) (made : List StoreCall) (text : List χ) : Prop :=
  ∃ start calls, first start ∧ calls.Sublist made ∧ text = t.dumps (replayFrom start calls).snapshot

/-- The store has been loaded, and calls of the process have been made on it; its snapshots are of what it has been. -/
def Saver.Grown (first : ProfileStore → Prop) (made : List StoreCall) (saver : Saver) : Prop :=
  ∃ start base, first start ∧ (base ++ saver.calls).Sublist made ∧ saver.Kept (replayFrom start base)

/-- The save has one of the snapshots that wait, and its temporary file is for that. -/
structure Save.Owns {χ : Type} (t : Text χ) (saver : Saver) (x : Save χ) (a : Snapshot) : Prop where
  waiting : saver.saves.waiting[x.index]? = some a
  doc : ∀ w ∈ x.stage.draft, w.doc = t.dumps a.data
  closed : ∀ w, x.stage = .replacing w → w.left = []

/-- What a process has read is the beginning of its file, and what it has in memory is of the calls. -/
def StoreProcess.Good {χ : Type} (t : Text χ) (first : ProfileStore → Prop) (made : List StoreCall) (d : Disk String χ) :
    StoreProcess χ → Prop
  | .loading _ _ file text => text <+: d.content file
  | .running saver save => saver.Grown first made ∧ ∀ x ∈ save, ∃ a, x.Owns t saver a

namespace ProfileDisk
variable {χ : Type} (s : ProfileDisk χ)

def Reads (file : Nat) : Prop := ∃ p x, s.processes p = some x ∧ x.file = some file

def drafts (p : Nat) : Option (Draft String χ) := (s.processes p).bind StoreProcess.draft

/-- The files that are read are whole, and every process is good. There was no store before if there is no file yet. -/
structure Trusted (t : Text χ) (first : ProfileStore → Prop) (s : ProfileDisk χ) : Prop where
  temp : ∀ random, tempName random ≠ s.persistPath
  missing : s.disk.names s.persistPath = none → first {}
  sound : Sound s.persistPath (t.Saved first s.made) s.Reads s.drafts s.disk
  good : ∀ p x, s.processes p = some x → x.Good t first s.made s.disk

end ProfileDisk

section Trusted
variable {χ : Type} {t : Text χ} {first : ProfileStore → Prop} {made made' : List StoreCall} {d d' : Disk String χ}
variable {saver saver' : Saver} {x : StoreProcess χ} {i : Nat} {a : Snapshot}

theorem Text.Saved.mono {text : List χ} (h : t.Saved first made text) (hmade : made.Sublist made') :
    t.Saved first made' text := by
  obtain ⟨start, calls, hstart, hcalls, htext⟩ := h
  exact ⟨start, calls, hstart, hcalls.trans hmade, htext⟩

theorem Saver.Grown.mono (h : saver.Grown first made) (hmade : made.Sublist made') : saver.Grown first made' := by
  obtain ⟨start, base, hstart, hbase, hkept⟩ := h
  exact ⟨start, base, hstart, hbase.trans hmade, hkept⟩

theorem Saver.Grown.init {start : ProfileStore} {calls : List StoreCall} (hstart : first start) (h : calls.Sublist made)
    (cfg : SaveConfig) (now : ℚ) : (Saver.init cfg (replayFrom start calls) now).Grown first made :=
  ⟨start, calls, hstart, (List.append_nil calls).symm ▸ h, rfl, fun _ ha => (by cases ha), rfl⟩

theorem Saver.Grown.store (h : saver.Grown first made) :
    ∃ start calls, first start ∧ calls.Sublist made ∧ saver.store = replayFrom start calls := by
  obtain ⟨start, base, hstart, hbase, hkept⟩ := h
  exact ⟨start, base ++ saver.calls, hstart, hbase, hkept.store.trans (replayFrom_concat start base saver.calls).symm⟩

theorem Saver.Grown.snapshot (h : saver.Grown first made) (ha : saver.saves.waiting[i]? = some a) :
    t.Saved first made (t.dumps a.data) := by
  obtain ⟨start, base, hstart, hbase, hkept⟩ := h
  obtain ⟨hread, hdata⟩ := hkept.known a (List.mem_append_left _ (List.mem_of_getElem? ha))
  refine ⟨start, base ++ a.calls, hstart, .trans ?_ hbase, ?_⟩
  · exact (List.Sublist.refl base).append hread.sublist
  · rw [hdata, replayFrom_concat]

theorem Saver.Grown.step {e : SaveEvent} (h : saver.Grown first made) (hstep : saver.step e = some saver')
    (hcalls : saver'.calls = saver.calls) : saver'.Grown first made := by
  obtain ⟨start, base, hstart, hbase, hkept⟩ := h
  exact ⟨start, base, hstart, hcalls ▸ hbase, hkept.step hstep⟩

theorem Saver.Grown.call {c : StoreCall} (h : saver.Grown first made) (hcalls : saver'.calls = saver.calls ++ [c])
    (hkept : ∀ base, saver.Kept base → saver'.Kept base) : saver'.Grown first (made ++ [c]) := by
  obtain ⟨start, base, hstart, hbase, hold⟩ := h
  refine ⟨start, base, hstart, ?_, hkept _ hold⟩
  rw [hcalls, ← List.append_assoc]
  exact hbase.append (.refl [c])

theorem Saver.Kept.abandon {base : ProfileStore} (h : saver.Kept base) (i : Nat) : (saver.abandon i).Kept base := by
  refine ⟨h.store, fun a ha => h.known a ?_, h.file⟩
  exact List.append_subset.mpr ⟨fun _ hb => List.mem_append_left _ ((List.eraseIdx_sublist _ i).subset hb),
    List.subset_append_right _ _⟩ ha

theorem Saver.Grown.abandon (h : saver.Grown first made) (i : Nat) : (saver.abandon i).Grown first made := by
  obtain ⟨start, base, hstart, hbase, hkept⟩ := h
  exact ⟨start, base, hstart, hbase, hkept.abandon i⟩

theorem Saver.Kept.look {base : ProfileStore} (h : saver.Kept base) (c : StoreCall) : (saver.look c).Kept base where
  store := by
    change c.run saver.store = _
    rw [h.store]
    exact (replayFrom_append base saver.calls c).symm
  known a ha := ⟨(h.known a ha).1.trans (List.prefix_append saver.calls [c]), (h.known a ha).2⟩
  file := h.file

theorem Save.Owns.take {save : Save χ} (h : save.Owns t saver a)
    (hwaiting : saver.saves.waiting <+: saver'.saves.waiting) : save.Owns t saver' a := by
  refine ⟨?_, h.doc, h.closed⟩
  obtain ⟨more, hmore⟩ := hwaiting
  have hlt := (List.getElem?_eq_some_iff.mp h.waiting).1
  rw [← hmore, List.getElem?_append_left hlt]
  exact h.waiting

theorem StoreProcess.Good.mono (h : x.Good t first made d) (hmade : made.Sublist made')
    (hread : ∀ file, x.file = some file → d'.content file = d.content file) : x.Good t first made' d' := by
  cases x with
  | loading cfg now file text =>
    have hfile : d'.content file = d.content file := hread file rfl
    change text <+: d'.content file
    rwa [hfile]
  | running saver save => exact ⟨h.1.mono hmade, h.2⟩

end Trusted

namespace ProfileDisk
variable {χ : Type} {t : Text χ} {first : ProfileStore → Prop} {s s' : ProfileDisk χ} {p : Nat}
variable {x : Option (StoreProcess χ)}

theorem drafts_set (p : Nat) (x : Option (StoreProcess χ)) :
    (s.set p x).drafts = Function.update s.drafts p (x.bind StoreProcess.draft) := by
  funext q
  change (Function.update s.processes p x q).bind StoreProcess.draft = _
  rw [Function.update_apply, Function.update_apply]
  split_ifs <;> rfl

theorem reads_set {file : Nat} (h : (s.set p x).Reads file) : s.Reads file ∨ ∃ y, x = some y ∧ y.file = some file := by
  obtain ⟨q, y, hq, hy⟩ := h
  change Function.update s.processes p x q = some y at hq
  rw [Function.update_apply] at hq
  split_ifs at hq
  · exact .inr ⟨y, hq, hy⟩
  · exact .inl ⟨q, y, hq, hy⟩

/-- **One process changes**, and the disk, but for the files that are read. -/
theorem Trusted.update (h : s.Trusted t first) {made' : List StoreCall} {d' : Disk String χ} (hmade : s.made.Sublist made')
    (hsound : Sound s.persistPath (t.Saved first made') (s.set p x).Reads (s.set p x).drafts d')
    (hnames : d'.names s.persistPath = none → s.disk.names s.persistPath = none)
    (hread : ∀ file, s.Reads file → d'.content file = s.disk.content file)
    (hgood : ∀ y, x = some y → y.Good t first made' d') :
    ({ s.set p x with made := made', disk := d' } : ProfileDisk χ).Trusted t first := by
  refine ⟨h.temp, fun hnone => h.missing (hnames hnone), hsound, fun q y hq => ?_⟩
  change Function.update s.processes p x q = some y at hq
  rw [Function.update_apply] at hq
  split_ifs at hq
  · exact hgood y hq
  · exact (h.good q y hq).mono hmade fun file hfile => hread file ⟨q, y, hq, hfile⟩

/-- A process that writes what it wrote, or nothing any more, and reads nothing new. -/
theorem Trusted.keeps (h : s.Trusted t first) {made' : List StoreCall} (hmade : s.made.Sublist made')
    (hdraft : ∀ w, x.bind StoreProcess.draft = some w → s.drafts p = some w)
    (hfile : ∀ y, x = some y → ∀ file, y.file = some file → s.Reads file)
    (hgood : ∀ y, x = some y → y.Good t first made' s.disk) :
    ({ s.set p x with made := made' } : ProfileDisk χ).Trusted t first := by
  refine h.update hmade ?_ (id : s.disk.names _ = none → _) (fun _ _ => rfl) hgood
  have hsound := (h.sound.mono fun doc hdoc => hdoc.mono hmade).forget (s.set p x).drafts fun q w hw => by
    rw [drafts_set] at hw
    rcases Sound.update_cases hw with ⟨hq, hnew⟩ | ⟨-, hold⟩
    · exact hq ▸ hdraft w hnew
    · exact hold
  refine hsound.close fun file hread => (reads_set hread).elim id ?_
  rintro ⟨y, hy, hyfile⟩
  exact hfile y hy file hyfile

theorem not_reads_running {saver : Saver} {save : Option (Save χ)} {file : Nat}
    (h : (s.set p (some (.running saver save))).Reads file) : s.Reads file := by
  rcases reads_set h with h | ⟨y, hy, hfile⟩
  · exact h
  · obtain rfl := Option.some.inj hy
    cases hfile

theorem Trusted.saves (h : s.Trusted t first) {saver : Saver} {save : Option (Save χ)} {d' : Disk String χ}
    (hsound : Sound s.persistPath (t.Saved first s.made) s.Reads
      (Function.update s.drafts p (save.bind fun x => x.stage.draft)) d')
    (hnames : d'.names s.persistPath = none → s.disk.names s.persistPath = none)
    (hread : ∀ file, s.Reads file → d'.content file = s.disk.content file) (hgrown : saver.Grown first s.made)
    (hsave : ∀ x ∈ save, ∃ a, x.Owns t saver a) :
    ({ s.set p (some (.running saver save)) with disk := d' } : ProfileDisk χ).Trusted t first := by
  refine h.update (.refl s.made) ?_ hnames hread fun y hy => ?_
  · rw [drafts_set]
    exact hsound.close fun file => not_reads_running
  · obtain rfl := Option.some.inj hy
    exact ⟨hgrown, hsave⟩

/-- **A step of a save.** -/
theorem saveStep_trusted (h : s.Trusted t first) {saver : Saver} {save : Option (Save χ)}
    (hp : s.processes p = some (.running saver save)) {e : SaveStep}
    (hstep : s.saveStep t p saver e save = some s') : s'.Trusted t first := by
  obtain ⟨hgrown, hsave⟩ : saver.Grown first s.made ∧ ∀ x ∈ save, ∃ a, x.Owns t saver a := h.good p _ hp
  have hdraft : s.drafts p = save.bind fun x => x.stage.draft := congrArg (·.bind StoreProcess.draft) hp
  -- the thread goes on with the same file, or leaves it
  have keeps {saver' : Saver} {save' : Option (Save χ)} (hgrown' : saver'.Grown first s.made)
      (hsame : ∀ w, (save'.bind fun x => x.stage.draft) = some w → s.drafts p = some w)
      (hsave' : ∀ x ∈ save', ∃ a, x.Owns t saver' a) : (s.set p (some (.running saver' save'))).Trusted t first := by
    refine h.keeps (.refl s.made) hsame (fun y hy file hfile => ?_) fun y hy => ?_
    · obtain rfl := Option.some.inj hy
      cases hfile
    · obtain rfl := Option.some.inj hy
      exact ⟨hgrown', hsave'⟩
  have gives_up (i : Nat) : (s.set p (some (.running (saver.abandon i) none))).Trusted t first :=
    keeps (hgrown.abandon i) (fun _ hw => (by cases hw)) fun _ hx => (by cases hx)
  unfold saveStep at hstep
  split at hstep
  · rename_i i
    split_ifs at hstep with hi
    obtain rfl := Option.some.inj hstep
    refine keeps hgrown (fun _ hw => (by cases hw)) fun x hx => ?_
    obtain rfl := Option.some.inj hx
    exact ⟨saver.saves.waiting[i], List.getElem?_eq_getElem hi, fun _ hw => (by cases hw), fun _ hw => (by cases hw)⟩
  · rename_i random i
    split at hstep
    · rename_i a hfree ha
      obtain rfl := Option.some.inj hstep
      refine h.saves (h.sound.create hfree (h.temp random) (t.dumps a.data)) (fun hnone => ?_) (fun file hread => ?_)
        hgrown fun x hx => ?_
      · exact (Function.update_of_ne (h.temp random).symm _ _).symm.trans hnone
      · exact Function.update_of_ne (h.sound.read file hread).1.ne _ _
      · obtain rfl := Option.some.inj hx
        refine ⟨a, ha, fun w hw => ?_, fun _ hw => (by cases hw)⟩
        obtain rfl := Option.some.inj hw
        rfl
    · cases hstep
  · rename_i n i w
    obtain rfl := Option.some.inj hstep
    have hw : s.drafts p = some w := hdraft
    obtain ⟨a, howns⟩ := hsave _ rfl
    refine h.saves (h.sound.append hw n) id (fun file hread => ?_) hgrown fun x hx => ?_
    · have hne : file ≠ w.file := fun heq => (h.sound.draft p w hw).2.2.2 (heq ▸ hread)
      exact Function.update_of_ne hne _ _
    · obtain rfl := Option.some.inj hx
      refine ⟨a, howns.waiting, fun w' hw' => ?_, fun _ hw' => (by cases hw')⟩
      obtain rfl := Option.some.inj hw'
      exact howns.doc w rfl
  · rename_i i w
    split_ifs at hstep with hleft
    obtain rfl := Option.some.inj hstep
    obtain ⟨a, howns⟩ := hsave _ rfl
    refine keeps hgrown (fun _ hw => hdraft.trans hw) fun x hx => ?_
    obtain rfl := Option.some.inj hx
    refine ⟨a, howns.waiting, howns.doc, fun w' hw' => ?_⟩
    obtain rfl := SaveStage.replacing.inj hw'
    exact List.isEmpty_iff.mp hleft
  · rename_i i w
    obtain ⟨saver', hwrite, rfl⟩ := Option.map_eq_some_iff.mp hstep
    have hw : s.drafts p = some w := hdraft
    obtain ⟨a, howns⟩ := hsave _ rfl
    have hcalls : saver'.calls = saver.calls := by
      obtain ⟨r, -, rfl⟩ := Option.map_eq_some_iff.mp hwrite
      rfl
    have hwhole : t.Saved first s.made w.doc := by
      rw [howns.doc w rfl]
      exact hgrown.snapshot howns.waiting
    obtain ⟨hne, hnamed, -, -⟩ := h.sound.draft p w hw
    refine h.saves (h.sound.rename hw (howns.closed w rfl) hwhole) (fun hnone => ?_) (fun _ _ => rfl)
      (hgrown.step hwrite hcalls) fun _ hx => (by cases hx)
    -- the target has the name of the temporary file, which is there
    have hthere : (s.disk.rename w.name s.persistPath).names s.persistPath = some w.file :=
      (Function.update_of_ne hne.symm _ _).trans ((Function.update_self ..).trans hnamed)
    rw [hthere] at hnone
    cases hnone
  · obtain rfl := Option.some.inj hstep
    exact gives_up _
  · rename_i i w
    obtain rfl := Option.some.inj hstep
    obtain ⟨a, howns⟩ := hsave _ rfl
    refine keeps hgrown (fun _ hw => hdraft.trans hw) fun x hx => ?_
    obtain rfl := Option.some.inj hx
    exact ⟨a, howns.waiting, howns.doc, fun _ hw => (by cases hw)⟩
  · rename_i i w
    obtain rfl := Option.some.inj hstep
    obtain ⟨a, howns⟩ := hsave _ rfl
    refine keeps hgrown (fun _ hw => hdraft.trans hw) fun x hx => ?_
    obtain rfl := Option.some.inj hx
    exact ⟨a, howns.waiting, howns.doc, fun _ hw => (by cases hw)⟩
  · rename_i removed i w
    obtain rfl := Option.some.inj hstep
    cases removed with
    | true =>
      have hw : s.drafts p = some w := hdraft
      have hne : s.persistPath ≠ w.name := (h.sound.draft p w hw).1.symm
      exact h.saves (h.sound.unlink hw) (fun hnone => (Function.update_of_ne hne _ _).symm.trans hnone) (fun _ _ => rfl)
        (hgrown.abandon i) fun _ hx => (by cases hx)
    | false => exact gives_up i
  · obtain rfl := Option.some.inj hstep
    exact gives_up _
  · cases hstep

/-! ## Runs -/

theorem startStore_saved {made : List StoreCall} {text : List χ} (hfirst : ∀ start, first start → start.WellFormed)
    (h : t.Saved first made text) : ∃ start calls, first start ∧ calls.Sublist made ∧
      t.content text = .document (replayFrom start calls).snapshot ∧
      startStore (t.content text) = some (replayFrom start calls) := by
  obtain ⟨start, calls, hstart, hcalls, rfl⟩ := h
  have hwellFormed := replayFrom_wellFormed (hfirst start hstart) calls
  have hcontent := t.content_dumps _ hwellFormed
  refine ⟨start, calls, hstart, hcalls, hcontent, ?_⟩
  rw [hcontent]
  change (ProfileStore.load (replayFrom start calls).snapshot).toOption = _
  rw [ProfileStore.load_snapshot hwellFormed]
  rfl

def failsToRead : DiskEvent → Bool
  | .unreadable _ => true
  | _ => false

/-- **One step**: all that is read stays whole, and all that is in memory comes from calls. -/
theorem step_trusted (h : s.Trusted t first) (hfirst : ∀ start, first start → start.WellFormed) {e : DiskEvent}
    (hfails : failsToRead e = true → first {}) (hstep : s.step t e = some s') : s'.Trusted t first := by
  cases e with
  | start p cfg now =>
    simp only [step] at hstep
    split at hstep
    · rename_i hnew hnone
      split_ifs at hstep
      obtain rfl := Option.some.inj hstep
      refine h.keeps (.refl s.made) (fun _ hw => (by cases hw)) (fun y hy file hfile => ?_) fun y hy => ?_
      · obtain rfl := Option.some.inj hy
        cases hfile
      · obtain rfl := Option.some.inj hy
        refine ⟨?_, fun _ hx => (by cases hx)⟩
        exact Saver.Grown.init (h.missing hnone) (List.nil_sublist s.made) cfg now
    · rename_i file hnew hsome
      split_ifs at hstep
      obtain rfl := Option.some.inj hstep
      refine h.update (.refl s.made) ?_ (id : s.disk.names _ = none → _) (fun _ _ => rfl) fun y hy => ?_
      · have hforget := h.sound.forget (s.set p (some (.loading cfg now file []))).drafts fun q w hw => by
          rw [drafts_set] at hw
          rcases Sound.update_cases hw with ⟨-, hw⟩ | ⟨-, hw⟩
          · cases hw
          · exact hw
        refine hforget.opens fun file' hread => (reads_set hread).imp_right ?_
        rintro ⟨y, hy, hfile⟩
        obtain rfl := Option.some.inj hy
        obtain rfl := Option.some.inj hfile
        exact hsome
      · obtain rfl := Option.some.inj hy
        exact List.nil_prefix
    · cases hstep
  | read p n =>
    simp only [step] at hstep
    split at hstep
    · rename_i cfg now file text hp
      obtain rfl := Option.some.inj hstep
      have hread : text <+: s.disk.content file := h.good p _ hp
      refine h.keeps (.refl s.made) (fun _ hw => (by cases hw)) (fun y hy file' hfile => ?_) fun y hy => ?_
      · obtain rfl := Option.some.inj hy
        exact ⟨p, _, hp, hfile⟩
      · obtain rfl := Option.some.inj hy
        obtain ⟨more, hmore⟩ := hread
        change text ++ ((s.disk.content file).drop text.length).take n <+: s.disk.content file
        rw [← hmore, List.drop_left]
        exact (List.prefix_append_right_inj text).mpr (List.take_prefix n more)
    · cases hstep
  | unreadable p =>
    simp only [step] at hstep
    split at hstep
    · rename_i cfg now file text hp
      obtain rfl := Option.some.inj hstep
      refine h.keeps (.refl s.made) (fun _ hw => (by cases hw)) (fun y hy file' hfile => ?_) fun y hy => ?_
      · obtain rfl := Option.some.inj hy
        cases hfile
      · obtain rfl := Option.some.inj hy
        refine ⟨?_, fun _ hx => (by cases hx)⟩
        exact Saver.Grown.init (hfails rfl) (List.nil_sublist s.made) cfg now
    · cases hstep
  | load p =>
    simp only [step] at hstep
    split at hstep
    · rename_i cfg now file text hp
      split_ifs at hstep with hlen
      obtain rfl := Option.some.inj hstep
      have hread : text <+: s.disk.content file := h.good p _ hp
      -- the end of the file has been reached, and the file is whole
      have htext : text = s.disk.content file := hread.eq_of_length (by have := hread.length_le; omega)
      obtain ⟨start, calls, hstart, hcalls, -, hload⟩ := startStore_saved hfirst (h.sound.read file ⟨p, _, hp, rfl⟩).2
      rw [htext, hload]
      refine h.keeps (.refl s.made) (fun _ hw => (by cases hw)) (fun y hy file' hfile => ?_) fun y hy => ?_
      · obtain rfl := Option.some.inj hy
        cases hfile
      · obtain rfl := Option.some.inj hy
        exact ⟨.init hstart hcalls cfg now, fun _ hx => (by cases hx)⟩
    · cases hstep
  | change p c checkedAt savedAt =>
    simp only [step] at hstep
    split at hstep
    · rename_i saver save hp
      obtain ⟨saver', hchange, rfl⟩ := Option.map_eq_some_iff.mp hstep
      obtain ⟨hgrown, hsave⟩ : saver.Grown first s.made ∧ ∀ x ∈ save, ∃ a, x.Owns t saver a := h.good p _ hp
      have hafter : saver'.calls = saver.calls ++ [c] ∧ saver.saves.waiting <+: saver'.saves.waiting := by
        unfold Saver.step at hchange
        dsimp only at hchange
        split_ifs at hchange
        · obtain rfl := Option.some.inj hchange
          exact ⟨rfl, List.prefix_append ..⟩
        · obtain rfl := Option.some.inj hchange
          exact ⟨rfl, List.prefix_rfl⟩
      refine h.keeps (List.sublist_append_left _ _) (fun w hw => ?_) (fun y hy file hfile => ?_) fun y hy => ?_
      · exact (congrArg (·.bind StoreProcess.draft) hp).trans hw
      · obtain rfl := Option.some.inj hy
        cases hfile
      · obtain rfl := Option.some.inj hy
        refine ⟨hgrown.call hafter.1 fun _ hkept => hkept.step hchange, fun x hx => ?_⟩
        obtain ⟨a, howns⟩ := hsave x hx
        exact ⟨a, howns.take hafter.2⟩
    · cases hstep
  | look p c =>
    simp only [step] at hstep
    split at hstep
    · rename_i saver save hp
      split_ifs at hstep
      obtain rfl := Option.some.inj hstep
      obtain ⟨hgrown, hsave⟩ : saver.Grown first s.made ∧ ∀ x ∈ save, ∃ a, x.Owns t saver a := h.good p _ hp
      refine h.keeps (List.sublist_append_left _ _) (fun w hw => ?_) (fun y hy file hfile => ?_) fun y hy => ?_
      · exact (congrArg (·.bind StoreProcess.draft) hp).trans hw
      · obtain rfl := Option.some.inj hy
        cases hfile
      · obtain rfl := Option.some.inj hy
        refine ⟨hgrown.call (Eq.refl (saver.look c).calls) fun _ hkept => hkept.look c, fun x hx => ?_⟩
        obtain ⟨a, howns⟩ := hsave x hx
        exact ⟨a, howns.take List.prefix_rfl⟩
    · cases hstep
  | flush p savedAt =>
    simp only [step] at hstep
    split at hstep
    · rename_i saver save hp
      obtain ⟨saver', hflush, rfl⟩ := Option.map_eq_some_iff.mp hstep
      obtain ⟨hgrown, hsave⟩ : saver.Grown first s.made ∧ ∀ x ∈ save, ∃ a, x.Owns t saver a := h.good p _ hp
      have hafter : saver'.calls = saver.calls ∧ saver.saves.waiting <+: saver'.saves.waiting := by
        unfold Saver.step at hflush
        dsimp only at hflush
        split_ifs at hflush
        · obtain rfl := Option.some.inj hflush
          exact ⟨rfl, List.prefix_append ..⟩
        · obtain rfl := Option.some.inj hflush
          exact ⟨rfl, List.prefix_rfl⟩
      refine h.keeps (.refl s.made) (fun w hw => ?_) (fun y hy file hfile => ?_) fun y hy => ?_
      · exact (congrArg (·.bind StoreProcess.draft) hp).trans hw
      · obtain rfl := Option.some.inj hy
        cases hfile
      · obtain rfl := Option.some.inj hy
        refine ⟨hgrown.step hflush hafter.1, fun x hx => ?_⟩
        obtain ⟨a, howns⟩ := hsave x hx
        exact ⟨a, howns.take hafter.2⟩
    · cases hstep
  | save p e =>
    simp only [step] at hstep
    split at hstep
    · rename_i saver save hp
      exact saveStep_trusted h hp hstep
    · cases hstep
  | crash p =>
    simp only [step] at hstep
    split at hstep
    · obtain rfl := Option.some.inj hstep
      exact h.keeps (.refl s.made) (fun _ hw => (by cases hw)) (fun _ hy => (by cases hy)) fun _ hy => (by cases hy)
    · cases hstep

theorem run_trusted (hfirst : ∀ start, first start → start.WellFormed) : ∀ {es : List DiskEvent} {s : ProfileDisk χ},
    (∀ e ∈ es, failsToRead e = true → first {}) → s.Trusted t first → s.run t es = some s' → s'.Trusted t first
  | [], _, _, h, hrun => Option.some.inj hrun ▸ h
  | e :: _, _, hfails, h, hrun => by
    obtain ⟨s₁, hstep, hrun⟩ := Option.bind_eq_some_iff.mp hrun
    exact run_trusted hfirst (fun e' he' => hfails e' (List.mem_cons_of_mem e he'))
      (step_trusted h hfirst (hfails e List.mem_cons_self) hstep) hrun

/-- A directory that no process uses yet. Its profile file is missing, or has been saved from `start`. -/
structure Fresh (t : Text χ) (start : ProfileStore) (s : ProfileDisk χ) : Prop where
  temp : ∀ random, tempName random ≠ s.persistPath
  processes : ∀ p, s.processes p = none
  made : s.made = []
  named : ∀ name file, s.disk.names name = some file → file < s.disk.next
  missing : s.disk.names s.persistPath = none → start = {}
  saved : ∀ file, s.disk.names s.persistPath = some file → s.disk.content file = t.dumps start.snapshot

theorem Fresh.trusted {start : ProfileStore} (h : s.Fresh t start) (hstart : first start) : s.Trusted t first := by
  have hdrafts (p : Nat) (w : Draft String χ) (hw : s.drafts p = some w) : False := by
    unfold drafts at hw
    rw [h.processes p] at hw
    cases hw
  have hreads (file : Nat) (hread : s.Reads file) : False := by
    obtain ⟨p, x, hp, -⟩ := hread
    rw [h.processes p] at hp
    cases hp
  refine ⟨h.temp, fun hnone => h.missing hnone ▸ hstart, ⟨h.named, fun p w hw => (hdrafts p w hw).elim,
    fun p w _ hw => (hdrafts p w hw).elim, fun p _ w _ hw => (hdrafts p w hw).elim, fun file hread => (hreads file hread).elim, fun file hfile => ?_⟩,
    fun p x hp => ?_⟩
  · exact ⟨start, [], hstart, List.nil_sublist _, h.saved file hfile⟩
  · rw [h.processes p] at hp
    cases hp

/-- The store that was there before, or the empty one if a process could not read the file. -/
def FirstStore (start : ProfileStore) (es : List DiskEvent) (store : ProfileStore) : Prop :=
  store = start ∨ store = {} ∧ ∃ e ∈ es, failsToRead e = true

/-- **Whoever starts finds the whole of a snapshot**, however many processes save and load at the same time, wherever a
save or a load fails and whenever a process dies. What is in the file, and what a process has read once it has read all of
its file, loads, and as a store that some of the calls made, in the order in which they were made: nothing in it is torn,
invented, doubled or out of order. So is the store of every process. -/
theorem restart_whole {start : ProfileStore} (hstart : start.WellFormed) (hfresh : s.Fresh t start) {es : List DiskEvent}
    (h : s.run t es = some s') :
    (∀ text, ((∃ file, s'.disk.names s'.persistPath = some file ∧ s'.disk.content file = text) ∨
        ∃ p cfg now file, s'.processes p = some (.loading cfg now file text) ∧
          text.length = (s'.disk.content file).length) →
      ∃ first calls, FirstStore start es first ∧ calls.Sublist s'.made ∧
        t.content text = .document (replayFrom first calls).snapshot ∧
        construct (t.content text) = .ok (replayFrom first calls).raw) ∧
    ∀ p saver save, s'.processes p = some (.running saver save) →
      ∃ first calls, FirstStore start es first ∧ calls.Sublist s'.made ∧ saver.store = replayFrom first calls := by
  have hfirst : ∀ first, FirstStore start es first → first.WellFormed := by
    rintro first (rfl | ⟨rfl, -⟩)
    · exact hstart
    · exact replay_wellFormed []
  have htrusted := run_trusted hfirst (fun e he hfails => .inr ⟨rfl, e, he, hfails⟩) (hfresh.trusted (.inl rfl)) h
  refine ⟨fun text htext => ?_, fun p saver save hp => (htrusted.good p _ hp).1.store⟩
  have hsaved : t.Saved (FirstStore start es) s'.made text := by
    rcases htext with ⟨file, hfile, rfl⟩ | ⟨p, cfg, now, file, hp, hlen⟩
    · exact htrusted.sound.target file hfile
    · have hread : text <+: s'.disk.content file := htrusted.good p _ hp
      rw [hread.eq_of_length hlen]
      exact (htrusted.sound.read file ⟨p, _, hp, rfl⟩).2
  obtain ⟨first, calls, hmem, hcalls, hcontent, -⟩ := startStore_saved hfirst hsaved
  refine ⟨first, calls, hmem, hcalls, hcontent, ?_⟩
  rw [hcontent]
  exact load_raw (ProfileStore.load_snapshot (replayFrom_wellFormed (hfirst first hmem) calls))

/-! A text of two pieces. -/

def twoPieces : Text Json where
  dumps data := [data, .null]
  content
    | [data, .null] => .document data
    | _ => .notJson
  content_dumps _ _ := rfl

def emptyDirectory : ProfileDisk Json where
  disk := ⟨fun _ => none, fun _ => [], 0⟩
  persistPath := "profiles.json"
  processes _ := none
  made := []

/-- A process saves an observation. A second one starts and begins to read, a third one cannot read the file; the first one
saves a crash floor meanwhile, and dies in the middle of its next save. -/
def interruptedSaves : List DiskEvent :=
  [.start 0 Saver.saveAlways 0, .change 0 Saver.firstChange 0 0, .save 0 (.acquire 0), .save 0 (.mkstemp "a"),
    .save 0 (.write 2), .save 0 .close, .save 0 .replace, .start 1 Saver.saveAlways 0, .read 1 1,
    .start 2 Saver.saveAlways 0, .unreadable 2, .change 0 (.recordMemoryFloor "m" "f" 8 none) 0 0, .save 0 (.acquire 0),
    .save 0 (.mkstemp "b"), .save 0 (.write 2), .save 0 .close, .save 0 .replace, .change 0 Saver.firstChange 0 0,
    .save 0 (.acquire 0), .save 0 (.mkstemp "c"), .save 0 (.write 1), .crash 0, .read 1 1]

theorem emptyDirectory_fresh : emptyDirectory.Fresh twoPieces {} where
  temp random h := by
    have hhead := congrArg (fun s : String => s.toList.head?) h
    simp [tempName, emptyDirectory] at hhead
  processes _ := rfl
  made := rfl
  named _ _ h := by cases h
  missing _ := rfl
  saved _ h := by cases h

/-- The first process has died, and has left a piece of a document behind. The file is whole, and so is what the second
process has read, of the file that was there when it started. -/
theorem restart_whole_interrupted : ∃ s : ProfileDisk Json, emptyDirectory.run twoPieces interruptedSaves = some s ∧
    (s.disk.names (tempName "c")).map (fun file => (s.disk.content file).length) = some 1 ∧
    ∃ cfg now file text, s.processes 1 = some (.loading cfg now file text) ∧ s.disk.names s.persistPath ≠ some file ∧
      ∃ calls, calls.Sublist s.made ∧ construct (twoPieces.content text) = .ok (replayFrom {} calls).raw := by
  have hfacts : (emptyDirectory.run twoPieces interruptedSaves).any (fun s =>
      decide ((s.disk.names (tempName "c")).map (fun file => (s.disk.content file).length) = some 1) &&
      match s.processes 1 with
      | some (.loading _ _ file text) => decide (s.disk.names s.persistPath ≠ some file) &&
          decide (text.length = (s.disk.content file).length)
      | _ => false) = true := by decide +kernel
  obtain ⟨s, hs, hfacts⟩ := (Option.any_eq_true _ _).mp hfacts
  obtain ⟨hlitter, hfacts⟩ := (Bool.and_eq_true _ _).mp hfacts
  refine ⟨s, hs, of_decide_eq_true hlitter, ?_⟩
  split at hfacts
  · rename_i cfg now file text hp
    obtain ⟨hfile, hlen⟩ := (Bool.and_eq_true _ _).mp hfacts
    have hwhole := restart_whole (replay_wellFormed []) emptyDirectory_fresh hs
    obtain ⟨first, calls, hfirst, hcalls, -, hload⟩ := hwhole.1 text (.inr ⟨1, cfg, now, file, hp, of_decide_eq_true hlen⟩)
    have hempty : first = {} := hfirst.elim id And.left
    exact ⟨cfg, now, file, text, hp, of_decide_eq_true hfile, calls, hcalls, hempty ▸ hload⟩
  · cases hfacts

/-! ## Temporary files -/

/-- A process leaves its temporary file behind: it dies, or an exception passes that is not caught, or the file cannot be
removed. -/
def Litters (s : ProfileDisk χ) : DiskEvent → Prop
  | .crash p | .save p .escape | .save p (.unlink false) => (s.drafts p).isSome
  | _ => False

instance (s : ProfileDisk χ) : ∀ e, Decidable (s.Litters e)
  | .crash p | .save p .escape | .save p (.unlink false) => inferInstanceAs (Decidable ((s.drafts p).isSome = true))
  | .save _ (.unlink true) | .save _ (.acquire _) | .save _ (.mkstemp _) | .save _ (.write _) | .save _ .close
  | .save _ .replace | .save _ .fail | .start .. | .read .. | .unreadable _ | .load _ | .change .. | .look .. | .flush .. =>
    inferInstanceAs (Decidable False)

def Clean (t : Text χ) : List DiskEvent → ProfileDisk χ → Prop
  | [], _ => True
  | e :: es, s => ¬ s.Litters e ∧ ∀ s' ∈ s.step t e, Clean t es s'

instance decidableClean (t : Text χ) : ∀ (es : List DiskEvent) (s : ProfileDisk χ), Decidable (Clean t es s)
  | [], _ => inferInstanceAs (Decidable True)
  | e :: es, s =>
    have (s' : ProfileDisk χ) := decidableClean t es s'
    inferInstanceAs (Decidable (¬ s.Litters e ∧ ∀ s' ∈ s.step t e, Clean t es s'))

/-- The files are those that were there before, the profile file, and the temporary files of the saves. -/
def Tidy (before : String → Prop) (s : ProfileDisk χ) : Prop :=
  ∀ name, s.disk.names name ≠ none → before name ∨ name = s.persistPath ∨ ∃ p w, s.drafts p = some w ∧ w.name = name

section Tidy
variable {before : String → Prop}

theorem Tidy.update (h : s.Tidy before) {made' : List StoreCall} {d' : Disk String χ}
    (hnames : ∀ name, d'.names name ≠ none → name = s.persistPath ∨
      (∃ w, x.bind StoreProcess.draft = some w ∧ w.name = name) ∨
      s.disk.names name ≠ none ∧ ∀ w, s.drafts p = some w → w.name ≠ name) :
    ({ s.set p x with made := made', disk := d' } : ProfileDisk χ).Tidy before := by
  have hself : (s.set p x).drafts p = x.bind StoreProcess.draft := by
    rw [drafts_set, Function.update_self]
  intro name hname
  rcases hnames name hname with hpath | ⟨w, hw, hwname⟩ | ⟨hold, hother⟩
  · exact .inr (.inl hpath)
  · exact .inr (.inr ⟨p, w, hself.trans hw, hwname⟩)
  · refine (h name hold).imp_right fun hcases => hcases.imp_right ?_
    rintro ⟨q, w, hw, hwname⟩
    have hq : q ≠ p := fun heq => hother w (heq ▸ hw) hwname
    refine ⟨q, w, ?_, hwname⟩
    change (s.set p x).drafts q = some w
    rw [drafts_set, Function.update_of_ne hq, hw]

theorem Tidy.keeps (h : s.Tidy before) {made' : List StoreCall} {d' : Disk String χ} (hnames : d'.names = s.disk.names)
    (hdraft : (x.bind StoreProcess.draft).map Draft.name = (s.drafts p).map Draft.name) :
    ({ s.set p x with made := made', disk := d' } : ProfileDisk χ).Tidy before := by
  refine h.update fun name hname => .inr ?_
  rw [hnames] at hname
  by_cases hown : (s.drafts p).map Draft.name = some name
  · exact .inl (Option.map_eq_some_iff.mp (hdraft.trans hown))
  · exact .inr ⟨hname, fun w hw heq => hown (Option.map_eq_some_iff.mpr ⟨w, hw, heq⟩)⟩

/-- The disk is as it was. -/
theorem Tidy.stays (h : s.Tidy before) {made' : List StoreCall}
    (hdraft : (x.bind StoreProcess.draft).map Draft.name = (s.drafts p).map Draft.name) :
    ({ s.set p x with made := made' } : ProfileDisk χ).Tidy before :=
  h.keeps (Eq.refl s.disk.names) hdraft

theorem saveStep_tidy (h : s.Tidy before) {saver : Saver} {save : Option (Save χ)}
    (hp : s.processes p = some (.running saver save)) {e : SaveStep} (hclean : ¬ s.Litters (.save p e))
    (hstep : s.saveStep t p saver e save = some s') : s'.Tidy before := by
  have hdraft : s.drafts p = save.bind fun x => x.stage.draft := congrArg (·.bind StoreProcess.draft) hp
  unfold saveStep at hstep
  split at hstep
  · split_ifs at hstep
    obtain rfl := Option.some.inj hstep
    exact h.stays (congrArg (·.map Draft.name) hdraft.symm)
  · rename_i random i
    split at hstep
    · rename_i a hfree ha
      obtain rfl := Option.some.inj hstep
      refine h.update fun name hname => .inr ?_
      by_cases hnew : tempName random = name
      · exact .inl ⟨_, rfl, hnew⟩
      · have hold : (s.disk.create (tempName random)).names name = s.disk.names name :=
          Function.update_of_ne (Ne.symm hnew) _ _
        refine .inr ⟨hold ▸ hname, fun w hw => ?_⟩
        rw [hdraft] at hw
        cases hw
    · cases hstep
  · obtain rfl := Option.some.inj hstep
    exact h.keeps rfl (congrArg (·.map Draft.name) hdraft.symm)
  · split_ifs at hstep
    obtain rfl := Option.some.inj hstep
    exact h.stays (congrArg (·.map Draft.name) hdraft.symm)
  · rename_i i w
    obtain ⟨saver', -, rfl⟩ := Option.map_eq_some_iff.mp hstep
    refine h.update fun name hname => ?_
    change Function.update (Function.update s.disk.names s.persistPath (s.disk.names w.name)) w.name none name ≠ none at hname
    rw [Function.update_apply] at hname
    split_ifs at hname with hown
    · exact absurd rfl hname
    · rw [Function.update_apply] at hname
      split_ifs at hname with hpath
      · exact .inl hpath
      · refine .inr (.inr ⟨hname, fun w' hw' heq => hown ?_⟩)
        obtain rfl : w = w' := Option.some.inj (hdraft.symm.trans hw')
        exact heq.symm
  · obtain rfl := Option.some.inj hstep
    exact h.stays (congrArg (·.map Draft.name) hdraft.symm)
  · obtain rfl := Option.some.inj hstep
    exact h.stays (congrArg (·.map Draft.name) hdraft.symm)
  · obtain rfl := Option.some.inj hstep
    exact h.stays (congrArg (·.map Draft.name) hdraft.symm)
  · rename_i removed i w
    obtain rfl := Option.some.inj hstep
    cases removed with
    | true =>
      refine h.update fun name hname => .inr (.inr ?_)
      change Function.update s.disk.names w.name none name ≠ none at hname
      rw [Function.update_apply] at hname
      split_ifs at hname with hown
      · exact absurd rfl hname
      · refine ⟨hname, fun w' hw' heq => hown ?_⟩
        obtain rfl : w = w' := Option.some.inj (hdraft.symm.trans hw')
        exact heq.symm
    | false =>
      have hlitters : s.Litters (.save p (.unlink false)) := by
        change (s.drafts p).isSome
        rw [hdraft]
        rfl
      exact absurd hlitters hclean
  · rename_i i stage
    obtain rfl := Option.some.inj hstep
    refine h.stays ?_
    have hnone : s.drafts p = none := Option.not_isSome_iff_eq_none.mp hclean
    rw [hnone]
    rfl
  · cases hstep

theorem step_tidy (h : s.Tidy before) {e : DiskEvent} (hclean : ¬ s.Litters e) (hstep : s.step t e = some s') :
    s'.Tidy before := by
  have hdraft {y : StoreProcess χ} {p : Nat} (hp : s.processes p = some y) : s.drafts p = y.draft :=
    congrArg (·.bind StoreProcess.draft) hp
  cases e with
  | start p cfg now =>
    simp only [step] at hstep
    have hnone (hp : s.processes p = none) : s.drafts p = none := congrArg (·.bind StoreProcess.draft) hp
    split at hstep
    · rename_i hp _
      split_ifs at hstep
      obtain rfl := Option.some.inj hstep
      exact h.stays (congrArg (·.map Draft.name) (hnone hp).symm)
    · rename_i hp _
      split_ifs at hstep
      obtain rfl := Option.some.inj hstep
      exact h.stays (congrArg (·.map Draft.name) (hnone hp).symm)
    · cases hstep
  | read p n =>
    simp only [step] at hstep
    split at hstep
    · rename_i hp
      obtain rfl := Option.some.inj hstep
      exact h.stays (congrArg (·.map Draft.name) (hdraft hp).symm)
    · cases hstep
  | unreadable p =>
    simp only [step] at hstep
    split at hstep
    · rename_i hp
      obtain rfl := Option.some.inj hstep
      exact h.stays (congrArg (·.map Draft.name) (hdraft hp).symm)
    · cases hstep
  | load p =>
    simp only [step] at hstep
    split at hstep
    · rename_i cfg now file text hp
      split_ifs at hstep
      obtain rfl := Option.some.inj hstep
      refine h.stays ?_
      rw [hdraft hp]
      cases startStore (t.content text) <;> rfl
    · cases hstep
  | change p c checkedAt savedAt =>
    simp only [step] at hstep
    split at hstep
    · rename_i hp
      obtain ⟨saver', -, rfl⟩ := Option.map_eq_some_iff.mp hstep
      exact h.stays (congrArg (·.map Draft.name) (hdraft hp).symm)
    · cases hstep
  | look p c =>
    simp only [step] at hstep
    split at hstep
    · rename_i hp
      split_ifs at hstep
      obtain rfl := Option.some.inj hstep
      exact h.stays (congrArg (·.map Draft.name) (hdraft hp).symm)
    · cases hstep
  | flush p savedAt =>
    simp only [step] at hstep
    split at hstep
    · rename_i hp
      obtain ⟨saver', -, rfl⟩ := Option.map_eq_some_iff.mp hstep
      exact h.stays (congrArg (·.map Draft.name) (hdraft hp).symm)
    · cases hstep
  | save p e =>
    simp only [step] at hstep
    split at hstep
    · rename_i hp
      exact saveStep_tidy h hp hclean hstep
    · cases hstep
  | crash p =>
    simp only [step] at hstep
    split at hstep
    · obtain rfl := Option.some.inj hstep
      have hnone : s.drafts p = none := Option.not_isSome_iff_eq_none.mp hclean
      exact h.stays (congrArg (·.map Draft.name) hnone.symm)
    · cases hstep

theorem run_tidy : ∀ {es : List DiskEvent} {s : ProfileDisk χ}, s.Tidy before → Clean t es s → s.run t es = some s' →
    s'.Tidy before
  | [], _, h, _, hrun => Option.some.inj hrun ▸ h
  | _ :: _, _, h, hclean, hrun => by
    obtain ⟨s₁, hstep, hrun⟩ := Option.bind_eq_some_iff.mp hrun
    exact run_tidy (step_tidy h hclean.1 hstep) (hclean.2 s₁ hstep) hrun

end Tidy

/-- **No file is left behind** by the errors that are caught. As long as no process dies in a save, no other exception
passes and temporary files can be removed, the directory has what was there before, the profile file, and the temporary
files of the saves that are going on. -/
theorem no_litter {es : List DiskEvent} (hclean : Clean t es s) (h : s.run t es = some s') :
    ∀ name, s'.disk.names name ≠ none →
      s.disk.names name ≠ none ∨ name = s'.persistPath ∨ ∃ p w, s'.drafts p = some w ∧ w.name = name :=
  run_tidy (fun _ => .inl : s.Tidy fun name => s.disk.names name ≠ none) hclean h

/-- The disk is full at the first save, and not any more at the second. -/
def failedSave : List DiskEvent :=
  [.start 0 Saver.saveAlways 0, .change 0 Saver.firstChange 0 0, .save 0 (.acquire 0), .save 0 (.mkstemp "a"),
    .save 0 (.write 1), .save 0 .fail, .save 0 (.unlink true), .flush 0 0, .save 0 (.acquire 0),
    .save 0 (.mkstemp "b"), .save 0 (.write 2), .save 0 .close, .save 0 .replace]

theorem no_litter_failed : ∃ s, emptyDirectory.run twoPieces failedSave = some s ∧
    ∀ name, s.disk.names name ≠ none → name = s.persistPath ∨ ∃ p w, s.drafts p = some w ∧ w.name = name := by
  have hplays : (emptyDirectory.run twoPieces failedSave).isSome = true := by decide +kernel
  obtain ⟨s, hs⟩ := Option.isSome_iff_exists.mp hplays
  refine ⟨s, hs, fun name hname => ?_⟩
  exact (no_litter (by decide +kernel) hs name hname).resolve_left fun hbefore => hbefore rfl

end ProfileDisk

end AdaptiveExecutor
