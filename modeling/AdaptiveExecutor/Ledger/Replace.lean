import Mathlib.Data.List.Basic
import Mathlib.Order.Nat

/-!
# Replacing a file as a whole

Files are written under temporary names, any number of them at a time, and one that is complete takes the place of the
file that everybody reads.

* `Disk` : names, the files they stand for, and what has been written to each; `create`, `append`, `rename`, `unlink`;
* `Draft` : a file that is being written, with the document it is to hold;
* `Sound` : drafts are apart from each other and from all that is read, and all that is read is whole;
* `Sound.create`, `Sound.append`, `Sound.rename`, `Sound.unlink`, `Sound.forget` : each operation keeps it.
-/

namespace Replace

/-- A name stands for a file, and a file that is open can be read and written whatever becomes of its name. -/
structure Disk (ν β : Type*) where
  names : ν → Option Nat
  content : Nat → List β
  /-- The files so far are those below. -/
  next : Nat

/-- A file under a temporary name, and what is left to write of its document. -/
structure Draft (ν β : Type*) where
  name : ν
  file : Nat
  doc : List β
  left : List β

variable {ν β κ : Type*}

namespace Disk
variable [DecidableEq ν] (d : Disk ν β)

def create (name : ν) : Disk ν β where
  names := Function.update d.names name (some d.next)
  content := Function.update d.content d.next []
  next := d.next + 1

def append (file : Nat) (xs : List β) : Disk ν β :=
  { d with content := Function.update d.content file (d.content file ++ xs) }

/-- The file of the one name takes the other name, whatever had it. -/
def rename (name name' : ν) : Disk ν β :=
  { d with names := Function.update (Function.update d.names name' (d.names name)) name none }

def unlink (name : ν) : Disk ν β := { d with names := Function.update d.names name none }

end Disk

/-! ## Drafts and readers -/

/-- What has been written of each draft is the beginning of its document. No draft is under the name `target`, no file of
a draft has a second name or a second draft, and nobody reads it. All that is read is whole, and so is the target. -/
structure Sound (target : ν) (whole : List β → Prop) (reads : Nat → Prop) (drafts : κ → Option (Draft ν β))
    (d : Disk ν β) : Prop where
  named : ∀ name file, d.names name = some file → file < d.next
  draft : ∀ k w, drafts k = some w →
    w.name ≠ target ∧ d.names w.name = some w.file ∧ d.content w.file ++ w.left = w.doc ∧ ¬ reads w.file
  alone : ∀ k w name, drafts k = some w → d.names name = some w.file → name = w.name
  apart : ∀ k k' w w', drafts k = some w → drafts k' = some w' → w.file = w'.file → k = k'
  read : ∀ file, reads file → file < d.next ∧ whole (d.content file)
  target : ∀ file, d.names target = some file → whole (d.content file)

variable {target : ν} {whole whole' : List β → Prop} {reads reads' : Nat → Prop} {d : Disk ν β}
variable {drafts : κ → Option (Draft ν β)} {k : κ} {w : Draft ν β}

namespace Sound

theorem mono (h : Sound target whole reads drafts d) (hwhole : ∀ doc, whole doc → whole' doc) :
    Sound target whole' reads drafts d where
  named := h.named
  draft := h.draft
  alone := h.alone
  apart := h.apart
  read file hfile := ⟨(h.read file hfile).1, hwhole _ (h.read file hfile).2⟩
  target file hfile := hwhole _ (h.target file hfile)

theorem close (h : Sound target whole reads drafts d) (hreads : ∀ file, reads' file → reads file) :
    Sound target whole reads' drafts d where
  named := h.named
  draft k w hw := by
    obtain ⟨hname, hnamed, hdoc, hread⟩ := h.draft k w hw
    exact ⟨hname, hnamed, hdoc, fun hread' => hread (hreads _ hread')⟩
  alone := h.alone
  apart := h.apart
  read file hfile := h.read file (hreads file hfile)
  target := h.target

theorem target_ne (h : Sound target whole reads drafts d) (hw : drafts k = some w) : d.names target ≠ some w.file :=
  fun htarget => (h.draft k w hw).1 (h.alone k w target hw htarget).symm

theorem opens (h : Sound target whole reads drafts d)
    (hreads : ∀ file, reads' file → reads file ∨ d.names target = some file) : Sound target whole reads' drafts d where
  named := h.named
  draft k w hw := by
    obtain ⟨hname, hnamed, hdoc, hread⟩ := h.draft k w hw
    exact ⟨hname, hnamed, hdoc, fun hread' => (hreads _ hread').elim hread (h.target_ne hw)⟩
  alone := h.alone
  apart := h.apart
  read file hfile := by
    rcases hreads file hfile with hold | hnew
    · exact h.read file hold
    · exact ⟨h.named target file hnew, h.target file hnew⟩
  target := h.target

/-- A draft is given up: its file stays as it is, under its temporary name. -/
theorem forget (h : Sound target whole reads drafts d) (drafts' : κ → Option (Draft ν β))
    (hdrafts : ∀ k w, drafts' k = some w → drafts k = some w) :
    Sound target whole reads drafts' d where
  named := h.named
  draft k w hw := h.draft k w (hdrafts k w hw)
  alone k w name hw := h.alone k w name (hdrafts k w hw)
  apart k k' w w' hw hw' := h.apart k k' w w' (hdrafts k w hw) (hdrafts k' w' hw')
  read := h.read
  target := h.target

theorem update_cases [DecidableEq κ] {x : Option (Draft ν β)} {k' : κ} {w' : Draft ν β}
    (h : Function.update drafts k x k' = some w') : (k' = k ∧ x = some w') ∨ (k' ≠ k ∧ drafts k' = some w') := by
  rw [Function.update_apply] at h
  split_ifs at h with hk
  · exact .inl ⟨hk, h⟩
  · exact .inr ⟨hk, h⟩

theorem append [DecidableEq κ] (h : Sound target whole reads drafts d) (hw : drafts k = some w) (n : Nat) :
    Sound target whole reads (Function.update drafts k (some { w with left := w.left.drop n }))
      (d.append w.file (w.left.take n)) := by
  have hself : (d.append w.file (w.left.take n)).content w.file = d.content w.file ++ w.left.take n :=
    Function.update_self ..
  have hother (file : Nat) (hfile : file ≠ w.file) : (d.append w.file (w.left.take n)).content file = d.content file :=
    Function.update_of_ne hfile _ _
  -- every draft has the name and the file that it had
  have hsame (k' : κ) (w' : Draft ν β)
      (hw' : Function.update drafts k (some { w with left := w.left.drop n }) k' = some w') :
      ∃ w₀, drafts k' = some w₀ ∧ w₀.name = w'.name ∧ w₀.file = w'.file := by
    rcases update_cases hw' with ⟨hk, hw'⟩ | ⟨-, hw'⟩
    · obtain rfl := Option.some.inj hw'
      exact ⟨w, hk ▸ hw, rfl, rfl⟩
    · exact ⟨w', hw', rfl, rfl⟩
  obtain ⟨hname, hnamed, hdoc, hread⟩ := h.draft k w hw
  refine ⟨h.named, fun k' w' hw' => ?_, fun k' w' name' hw' hfile => ?_, fun k₁ k₂ w₁ w₂ h₁ h₂ heq => ?_,
    fun file hfile => ?_, fun file hfile => ?_⟩
  · rcases update_cases hw' with ⟨-, hw'⟩ | ⟨hk, hw'⟩
    · obtain rfl := Option.some.inj hw'
      refine ⟨hname, hnamed, ?_, hread⟩
      dsimp only
      rw [hself, List.append_assoc, List.take_append_drop, hdoc]
    · obtain ⟨hname', hnamed', hdoc', hread'⟩ := h.draft k' w' hw'
      refine ⟨hname', hnamed', ?_, hread'⟩
      rw [hother _ fun heq => hk (h.apart k' k w' w hw' hw heq)]
      exact hdoc'
  · obtain ⟨w₀, hw₀, hname₀, hfile₀⟩ := hsame k' w' hw'
    rw [← hname₀]
    exact h.alone k' w₀ name' hw₀ (hfile₀ ▸ hfile)
  · obtain ⟨v₁, hv₁, -, hfile₁⟩ := hsame k₁ w₁ h₁
    obtain ⟨v₂, hv₂, -, hfile₂⟩ := hsame k₂ w₂ h₂
    exact h.apart k₁ k₂ v₁ v₂ hv₁ hv₂ (by rw [hfile₁, hfile₂, heq])
  · rw [hother file fun heq => hread (heq ▸ hfile)]
    exact h.read file hfile
  · have htarget : d.names target = some file := hfile
    rw [hother file fun heq => h.target_ne hw (heq ▸ htarget)]
    exact h.target file htarget

theorem others [DecidableEq κ] {names' : ν → Option Nat} (h : Sound target whole reads drafts d) (hw : drafts k = some w)
    (hnames : ∀ name, name ≠ target → name ≠ w.name → names' name = d.names name) {k' : κ} {w' : Draft ν β}
    (hw' : Function.update drafts k none k' = some w') :
    k' ≠ k ∧ drafts k' = some w' ∧ names' w'.name = some w'.file := by
  rcases update_cases hw' with ⟨-, hw'⟩ | ⟨hk, hw'⟩
  · cases hw'
  · obtain ⟨hname', hnamed', -, -⟩ := h.draft k' w' hw'
    refine ⟨hk, hw', (hnames w'.name hname' fun heq => hk ?_).trans hnamed'⟩
    -- a name stands for one file
    exact h.apart k' k w' w hw' hw (Option.some.inj (hnamed'.symm.trans (heq ▸ (h.draft k w hw).2.1)))

section Update
variable [DecidableEq ν] [DecidableEq κ]

theorem create (h : Sound target whole reads drafts d) {name : ν} (hfree : d.names name = none) (hname : name ≠ target)
    (doc : List β) :
    Sound target whole reads (Function.update drafts k (some ⟨name, d.next, doc, doc⟩)) (d.create name) := by
  have hold (name' : ν) (file : Nat) (hfile : d.names name' = some file) :
      (d.create name).names name' = some file ∧ (d.create name).content file = d.content file := by
    have hne : name' ≠ name := fun heq => by rw [heq, hfree] at hfile; cases hfile
    have hfile' : file ≠ d.next := (h.named name' file hfile).ne
    exact ⟨(Function.update_of_ne hne _ _).trans hfile, Function.update_of_ne hfile' _ _⟩
  have hnames (name' : ν) (file : Nat) (hfile : (d.create name).names name' = some file) :
      (name' = name ∧ file = d.next) ∨ (name' ≠ name ∧ d.names name' = some file) := by
    change Function.update d.names name (some d.next) name' = some file at hfile
    rw [Function.update_apply] at hfile
    split_ifs at hfile with heq
    · exact .inl ⟨heq, (Option.some.inj hfile).symm⟩
    · exact .inr ⟨heq, hfile⟩
  have hnew : (d.create name).names name = some d.next := Function.update_self ..
  have hempty : (d.create name).content d.next = [] := Function.update_self ..
  refine ⟨fun name' file hfile => ?_, fun k' w' hw' => ?_, fun k' w' name' hw' hfile => ?_, fun k₁ k₂ w₁ w₂ h₁ h₂ heq => ?_,
    fun file hfile => ?_, fun file hfile => ?_⟩
  · rcases hnames name' file hfile with ⟨-, rfl⟩ | ⟨-, hfile⟩
    · exact Nat.lt_succ_self _
    · exact Nat.lt_succ_of_lt (h.named name' file hfile)
  · rcases update_cases hw' with ⟨-, hw'⟩ | ⟨-, hw'⟩
    · obtain rfl := Option.some.inj hw'
      refine ⟨hname, hnew, ?_, fun hread => (h.read _ hread).1.ne rfl⟩
      dsimp only
      rw [hempty, List.nil_append]
    · obtain ⟨hne, hnamed, hdoc, hread⟩ := h.draft k' w' hw'
      obtain ⟨hnamed', hcontent⟩ := hold w'.name w'.file hnamed
      exact ⟨hne, hnamed', hcontent ▸ hdoc, hread⟩
  · rcases update_cases hw' with ⟨-, hw'⟩ | ⟨-, hw'⟩
    · obtain rfl := Option.some.inj hw'
      rcases hnames name' _ hfile with ⟨rfl, -⟩ | ⟨-, hfile⟩
      · rfl
      · exact absurd rfl (h.named name' _ hfile).ne
    · have hbelow := h.named w'.name w'.file (h.draft k' w' hw').2.1
      rcases hnames name' _ hfile with ⟨-, hfile⟩ | ⟨-, hfile⟩
      · exact absurd hfile hbelow.ne
      · exact h.alone k' w' name' hw' hfile
  · have hbelow (k' : κ) (w' : Draft ν β) (hw' : drafts k' = some w') : w'.file ≠ d.next :=
      (h.named w'.name w'.file (h.draft k' w' hw').2.1).ne
    rcases update_cases h₁ with ⟨hk₁, h₁⟩ | ⟨-, h₁⟩
    · obtain rfl := Option.some.inj h₁
      rcases update_cases h₂ with ⟨hk₂, -⟩ | ⟨-, h₂⟩
      · rw [hk₁, hk₂]
      · exact absurd heq.symm (hbelow k₂ w₂ h₂)
    · rcases update_cases h₂ with ⟨-, h₂⟩ | ⟨-, h₂⟩
      · obtain rfl := Option.some.inj h₂
        exact absurd heq (hbelow k₁ w₁ h₁)
      · exact h.apart k₁ k₂ w₁ w₂ h₁ h₂ heq
  · obtain ⟨hbelow, hwhole⟩ := h.read file hfile
    refine ⟨Nat.lt_succ_of_lt hbelow, ?_⟩
    have hcontent : (d.create name).content file = d.content file := Function.update_of_ne (Nat.ne_of_lt hbelow) _ _
    rwa [hcontent]
  · rcases hnames target file hfile with ⟨heq, -⟩ | ⟨-, hfile⟩
    · exact absurd heq.symm hname
    · rw [(hold target file hfile).2]
      exact h.target file hfile

/-- **A draft that is complete takes the place of the target.** -/
theorem rename (h : Sound target whole reads drafts d) (hw : drafts k = some w) (hleft : w.left = [])
    (hwhole : whole w.doc) : Sound target whole reads (Function.update drafts k none) (d.rename w.name target) := by
  obtain ⟨hname, hnamed, hdoc, hread⟩ := h.draft k w hw
  have hnames (name : ν) (hne : name ≠ target) (hne' : name ≠ w.name) :
      (d.rename w.name target).names name = d.names name := by
    change Function.update (Function.update d.names target (d.names w.name)) w.name none name = _
    rw [Function.update_of_ne hne', Function.update_of_ne hne]
  have hback (name : ν) (file : Nat) (hfile : (d.rename w.name target).names name = some file) :
      (name = target ∧ file = w.file) ∨ d.names name = some file := by
    change Function.update (Function.update d.names target (d.names w.name)) w.name none name = some file at hfile
    rw [Function.update_apply] at hfile
    split_ifs at hfile with hne'
    rw [Function.update_apply] at hfile
    split_ifs at hfile with hne
    · exact .inl ⟨hne, Option.some.inj (hfile.symm.trans hnamed)⟩
    · exact .inr hfile
  refine ⟨fun name file hfile => ?_, fun k' w' hw' => ?_, fun k' w' name hw' hfile => ?_, fun k₁ k₂ w₁ w₂ h₁ h₂ heq => ?_,
    h.read, fun file hfile => ?_⟩
  · rcases hback name file hfile with ⟨-, rfl⟩ | hfile
    · exact h.named w.name w.file hnamed
    · exact h.named name file hfile
  · obtain ⟨hk, hw', hnamed'⟩ := h.others hw hnames hw'
    obtain ⟨hname', -, hdoc', hread'⟩ := h.draft k' w' hw'
    exact ⟨hname', hnamed', hdoc', hread'⟩
  · obtain ⟨hk, hw', -⟩ := h.others hw hnames hw'
    rcases hback name _ hfile with ⟨-, hfile⟩ | hfile
    · exact absurd (h.apart k' k w' w hw' hw hfile) hk
    · exact h.alone k' w' name hw' hfile
  · exact h.apart k₁ k₂ w₁ w₂ (h.others hw hnames h₁).2.1 (h.others hw hnames h₂).2.1 heq
  · rcases hback target file hfile with ⟨-, rfl⟩ | hfile
    · change whole (d.content w.file)
      rw [hleft, List.append_nil] at hdoc
      rwa [hdoc]
    · exact h.target file hfile

theorem unlink (h : Sound target whole reads drafts d) (hw : drafts k = some w) :
    Sound target whole reads (Function.update drafts k none) (d.unlink w.name) := by
  have hnames (name : ν) (_ : name ≠ target) (hne' : name ≠ w.name) : (d.unlink w.name).names name = d.names name :=
    Function.update_of_ne hne' _ _
  have hback (name : ν) (file : Nat) (hfile : (d.unlink w.name).names name = some file) : d.names name = some file := by
    change Function.update d.names w.name none name = some file at hfile
    rw [Function.update_apply] at hfile
    split_ifs at hfile
    exact hfile
  refine ⟨fun name file hfile => h.named name file (hback name file hfile), fun k' w' hw' => ?_,
    fun k' w' name hw' hfile => ?_, fun k₁ k₂ w₁ w₂ h₁ h₂ heq => ?_, h.read,
    fun file hfile => h.target file (hback target file hfile)⟩
  · obtain ⟨-, hw', hnamed'⟩ := h.others hw hnames hw'
    obtain ⟨hname', -, hdoc', hread'⟩ := h.draft k' w' hw'
    exact ⟨hname', hnamed', hdoc', hread'⟩
  · exact h.alone k' w' name (h.others hw hnames hw').2.1 (hback name _ hfile)
  · exact h.apart k₁ k₂ w₁ w₂ (h.others hw hnames h₁).2.1 (h.others hw hnames h₂).2.1 heq

end Update

end Sound

end Replace
