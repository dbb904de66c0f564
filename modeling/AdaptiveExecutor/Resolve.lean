import AdaptiveExecutor.Executor.Authentic
import AdaptiveExecutor.Executor.Failures
import AdaptiveExecutor.Ledger.Paths
import AdaptiveExecutor.Profiles.Log

/-!
# Functions and their names

A function goes to a worker as a module and a qualified name. `submit` looks the name up before, to see that it leads back
to the function.

* `Python` : what is asked of a Python process;
* `resolveFunction`, `validateSubmittable`, `Python.execution` : the names in the parent, and in a worker;
* `accepted_iff` : a worker that has the same modules would run what is accepted, and nothing that is refused;
* `Scope`, `submittable_iff` : what is accepted are the definitions that stand in no function and are not replaced;
* `accepted_profiles` : two functions never share a profile;
* `runs_submitted` : in every run, a worker runs the function that was submitted.
-/

namespace AdaptiveExecutor

/-- An exception that Python raises, by the classes that the source catches. -/
structure PyError where
  importError : Bool := false
  attributeError : Bool := false
  valueError : Bool := false
  text : String
  deriving DecidableEq

/-- What is asked of a Python process. An import finds the same module each time. -/
structure Python (Obj : Type) where
  importModule : String → Except PyError Obj
  getattr : Obj → String → Except PyError Obj
  callable : Obj → Bool
  typeName : Obj → String
  /-- The text of a `str`. -/
  str : Obj → Option String
  repr : Obj → String

/-- What the functions of `resolve.py` raise: a `FunctionResolutionError`, another `ValueError`, or what they do not catch. -/
inductive ResolveError
  | resolution (message : String)
  | value (message : String)
  | raised (exc : PyError)
  deriving DecidableEq

/-- `except ValueError` catches it. -/
def ResolveError.isValueError : ResolveError → Bool
  | .resolution _ | .value _ => true
  | .raised exc => exc.valueError

def importabilityHint : String :=
  "The target must be importable by its module and qualified name from a worker subprocess (defined at module or class " ++
    "level in an importable module)."

/-- `"<locals>" in qualname`. -/
def isLocal (qualname : String) : Bool := decide ("<locals>".toList <:+: qualname.toList)

/-- `qualname.split(".")`. -/
def parts (qualname : String) : List String := (qualname.toList.splitOn '.').map String.ofList

namespace Python
variable {Obj : Type}

/-- One turn of the loop of `resolve_function`. -/
def getPart (py : Python Obj) (fnModule qualname : String) (obj : Obj) (part : String) : Except ResolveError Obj :=
  match py.getattr obj part with
  | .ok obj => .ok obj
  | .error exc =>
    if exc.attributeError then .error (.resolution
      s!"Cannot resolve '{fnModule}:{qualname}': attribute '{part}' not found. {importabilityHint}")
    else .error (.raised exc)

def resolveFunction (py : Python Obj) (fnModule qualname : String) : Except ResolveError Obj :=
  if isLocal qualname then .error (.resolution (s!"Cannot resolve '{fnModule}:{qualname}': it is defined inside another " ++
    s!"function (a closure or lambda) and is not importable. {importabilityHint}"))
  else
    match py.importModule fnModule with
    | .error exc =>
      if exc.importError then .error (.resolution
        (s!"Cannot import module '{fnModule}' to resolve '{qualname}': " ++ exc.text ++ s!". {importabilityHint}"))
      else .error (.raised exc)
    | .ok mod => do
      let obj ← (parts qualname).foldlM (py.getPart fnModule qualname) mod
      if py.callable obj then .ok obj
      else .error (.resolution (s!"Resolved '{fnModule}:{qualname}' but it is not callable (got " ++ py.typeName obj ++
        s!"). {importabilityHint}"))

/-- `getattr(obj, name, None)`, when it is a `str`. -/
def strAttr (py : Python Obj) (obj : Obj) (name : String) : Except ResolveError (Option String) :=
  match py.getattr obj name with
  | .ok value => .ok (py.str value)
  | .error exc => if exc.attributeError then .ok none else .error (.raised exc)

/-- The test of `validate_submittable` behind the two names. -/
def checkNames [DecidableEq Obj] (py : Python Obj) (fn : Obj) (fnModule qualname : String) : Except ResolveError Unit :=
  if isLocal qualname then .error (.value (s!"Cannot submit {qualname}: lambdas and closures (functions defined inside " ++
    s!"other functions) are not importable in a worker subprocess. {importabilityHint}"))
  else
    match py.resolveFunction fnModule qualname with
    | .error (.resolution message) => .error (.value message)
    | .error exc => .error exc
    | .ok resolved =>
      if resolved = fn then .ok ()
      else .error (.value (s!"Cannot submit {fnModule}:{qualname}: it resolves to a different object than the one " ++
        "submitted (e.g. a bound method or a decorated wrapper). If this is a bound method, submit the underlying function " ++
        s!"and pass the instance as the first argument, e.g. submit(Cls.method, instance, ...). {importabilityHint}"))

def validateSubmittable [DecidableEq Obj] (py : Python Obj) (fn : Obj) : Except ResolveError Unit := do
  match ← py.strAttr fn "__module__", ← py.strAttr fn "__qualname__" with
  | some fnModule, some qualname => py.checkNames fn fnModule qualname
  | _, _ => .error (.value ("Cannot submit " ++ py.repr fn ++
    s!": it lacks a usable __module__/__qualname__. {importabilityHint}"))

/-- `Worker._execute` up to the call, which `call` describes: `none` when an exception leaves it. -/
def execution {α : Type} (py : Python Obj) (fnModule fnName : String) (exception : ResolveError → α)
    (call : Obj → TaskOutcome α × ResourceObservation) : Option (Execution α) :=
  match py.resolveFunction fnModule fnName with
  | .ok fn => some (.executed (call fn).1 (call fn).2)
  | .error exc => if exc.isValueError then some (.unresolved (exception exc)) else none

/-- The module and the qualified name of an object, as `submit` reads them. -/
structure Names (py : Python Obj) (fn : Obj) (fnModule qualname : String) : Prop where
  fnModule : py.strAttr fn "__module__" = .ok (some fnModule)
  qualname : py.strAttr fn "__qualname__" = .ok (some qualname)

/-! ## What is accepted -/

variable {py : Python Obj} {fn g : Obj} {fnModule qualname : String}

theorem getPart_ok_iff {obj : Obj} {part : String} :
    py.getPart fnModule qualname obj part = .ok g ↔ py.getattr obj part = .ok g := by
  unfold getPart
  cases py.getattr obj part with
  | ok obj => simp
  | error exc => by_cases h : exc.attributeError = true <;> simp [h]

theorem resolveFunction_ok_iff : py.resolveFunction fnModule qualname = .ok fn ↔ isLocal qualname = false ∧
    ∃ mod, py.importModule fnModule = .ok mod ∧ (parts qualname).foldlM py.getattr mod = .ok fn ∧ py.callable fn = true := by
  have hwalk {mod obj : Obj} : (parts qualname).foldlM (py.getPart fnModule qualname) mod = .ok obj ↔
      (parts qualname).foldlM py.getattr mod = .ok obj := by
    constructor <;> intro h
    · obtain ⟨obj', h', rfl⟩ := Paths.foldlM_forward (R := Eq) (fun hab hf => ⟨_, hab ▸ getPart_ok_iff.mp hf, rfl⟩) rfl h
      exact h'
    · obtain ⟨obj', h', rfl⟩ := Paths.foldlM_forward (R := Eq) (fun hab hf => ⟨_, hab ▸ getPart_ok_iff.mpr hf, rfl⟩) rfl h
      exact h'
  unfold resolveFunction
  cases isLocal qualname with
  | true => simp
  | false =>
    cases himport : py.importModule fnModule with
    | error exc => by_cases h : exc.importError = true <;> simp [h]
    | ok mod =>
      simp only [Bool.false_eq_true, if_false, true_and, Except.ok.injEq, exists_eq_left', ← hwalk]
      cases (parts qualname).foldlM (py.getPart fnModule qualname) mod with
      | error exc => simp [bind, Except.bind]
      | ok obj => by_cases h : py.callable obj = true <;> simp [bind, Except.bind, h] <;> rintro rfl <;> simp [h]

theorem Names.unique {fnModule' qualname' : String} (h : py.Names fn fnModule qualname)
    (h' : py.Names fn fnModule' qualname') : fnModule' = fnModule ∧ qualname' = qualname := by
  have hm := h'.fnModule.symm.trans h.fnModule
  have hq := h'.qualname.symm.trans h.qualname
  simp only [Except.ok.injEq, Option.some.injEq] at hm hq
  exact ⟨hm, hq⟩

theorem checkNames_ok_iff [DecidableEq Obj] :
    py.checkNames fn fnModule qualname = .ok () ↔ py.resolveFunction fnModule qualname = .ok fn := by
  unfold checkNames
  by_cases hlocal : isLocal qualname = true
  · rw [if_pos hlocal]
    constructor
    · intro h
      cases h
    · intro h
      rw [(resolveFunction_ok_iff.mp h).1] at hlocal
      cases hlocal
  · rw [if_neg hlocal]
    cases py.resolveFunction fnModule qualname with
    | error exc => cases exc <;> simp
    | ok resolved => by_cases h : resolved = fn <;> simp [h]

/-- **What is accepted** is what its own names lead back to. -/
theorem validateSubmittable_ok_iff [DecidableEq Obj] : py.validateSubmittable fn = .ok () ↔
    ∃ fnModule qualname, py.Names fn fnModule qualname ∧ py.resolveFunction fnModule qualname = .ok fn := by
  unfold validateSubmittable
  constructor
  · intro h
    cases hm : py.strAttr fn "__module__" with
    | error exc => rw [hm] at h; cases h
    | ok fnModule =>
      cases hq : py.strAttr fn "__qualname__" with
      | error exc => rw [hm, hq] at h; cases h
      | ok qualname =>
        rw [hm, hq] at h
        cases fnModule with
        | none => cases h
        | some fnModule =>
          cases qualname with
          | none => cases h
          | some qualname => exact ⟨fnModule, qualname, ⟨hm, hq⟩, checkNames_ok_iff.mp h⟩
  · rintro ⟨fnModule, qualname, ⟨hm, hq⟩, h⟩
    rw [hm, hq]
    exact checkNames_ok_iff.mpr h

/-! ## The worker -/

/-- What can be imported and read in one process can be in the other, with corresponding objects. -/
structure Mirrors {Obj' : Type} (py : Python Obj) (py' : Python Obj') (R : Obj → Obj' → Prop) : Prop where
  imports : ∀ {name mod}, py.importModule name = .ok mod → ∃ mod', py'.importModule name = .ok mod' ∧ R mod mod'
  getattr : ∀ {a a' b name}, R a b → py.getattr a name = .ok a' → ∃ b', py'.getattr b name = .ok b' ∧ R a' b'
  callable : ∀ {a b}, R a b → py.callable a = true → py'.callable b = true

variable {Obj' : Type} {py' : Python Obj'} {R : Obj → Obj' → Prop} {fn' : Obj'}

theorem Mirrors.resolveFunction (h : Mirrors py py' R) (hfn : py.resolveFunction fnModule qualname = .ok fn) :
    ∃ fn', py'.resolveFunction fnModule qualname = .ok fn' ∧ R fn fn' := by
  obtain ⟨hlocal, mod, himport, hwalk, hcallable⟩ := resolveFunction_ok_iff.mp hfn
  obtain ⟨mod', himport', hmod⟩ := h.imports himport
  obtain ⟨fn', hwalk', hR⟩ := Paths.foldlM_forward h.getattr hmod hwalk
  exact ⟨fn', resolveFunction_ok_iff.mpr ⟨hlocal, mod', himport', hwalk', h.callable hR hcallable⟩, hR⟩

/-- **What is accepted runs, and what runs is accepted**: in a worker with the same modules, the names of a function that
`submit` accepts lead to its counterpart; and if they lead to its counterpart there, `submit` accepts it. -/
theorem accepted_iff [DecidableEq Obj] (h : Mirrors py py' R) (h' : Mirrors py' py fun b a => R a b)
    (hone : ∀ {a b c}, R a c → R b c → a = b) : py.validateSubmittable fn = .ok () ↔ ∃ fnModule qualname fn',
      py.Names fn fnModule qualname ∧ py'.resolveFunction fnModule qualname = .ok fn' ∧ R fn fn' := by
  rw [validateSubmittable_ok_iff]
  constructor
  · rintro ⟨fnModule, qualname, hnames, hfn⟩
    obtain ⟨fn', hfn', hR⟩ := h.resolveFunction hfn
    exact ⟨fnModule, qualname, fn', hnames, hfn', hR⟩
  · rintro ⟨fnModule, qualname, fn', hnames, hfn', hR⟩
    obtain ⟨g, hg, hR'⟩ := h'.resolveFunction hfn'
    rw [hone hR' hR] at hg
    exact ⟨fnModule, qualname, hnames, hg⟩

/-- **Two functions never share a profile**: functions that are accepted are told apart by their keys in the store. -/
theorem accepted_profiles [DecidableEq Obj] {fnModule' qualname' : String} {k k' : Option String}
    (hfn : py.validateSubmittable fn = .ok ()) (hg : py.validateSubmittable g = .ok ())
    (hnames : py.Names fn fnModule qualname) (hnames' : py.Names g fnModule' qualname')
    (hplain : PlainName fnModule ∧ PlainName qualname) (hplain' : PlainName fnModule' ∧ PlainName qualname')
    (hkey : deriveStoreKey fnModule qualname k = deriveStoreKey fnModule' qualname' k') : fn = g := by
  obtain ⟨rfl, rfl, -⟩ := deriveStoreKey_inj hplain.1 hplain.2 hplain'.1 hplain'.2 hkey
  obtain ⟨_, _, hn, hfn⟩ := validateSubmittable_ok_iff.mp hfn
  obtain ⟨_, _, hn', hg⟩ := validateSubmittable_ok_iff.mp hg
  obtain ⟨rfl, rfl⟩ := hn.unique hnames
  obtain ⟨rfl, rfl⟩ := hn'.unique hnames'
  exact Except.ok.inj (hfn.symm.trans hg)

end Python

/-! ## Definitions -/

/-- Where a definition stands: at the top of the module, or in the body of a class or of a function. Definitions of the same
name in the same body differ in `n`. -/
inductive Scope
  | top
  | cls (outer : Scope) (name : String) (n : ℕ)
  | fn (outer : Scope) (name : String) (n : ℕ)
  deriving DecidableEq

namespace Scope

def outer : Scope → Scope
  | top => top
  | cls outer _ _ | fn outer _ _ => outer

def name : Scope → String
  | top => ""
  | cls _ name _ | fn _ name _ => name

/-- What the qualified names of the definitions in a body begin with. -/
def inside : Scope → List String
  | top => []
  | cls outer name _ => outer.inside ++ [name]
  | fn outer name _ => outer.inside ++ [name, "<locals>"]

def qualname (d : Scope) : String := ".".intercalate (d.outer.inside ++ [d.name])

/-- No function is around the body, and it is not that of a function. -/
def isOpen : Scope → Bool
  | top => true
  | cls outer _ _ => outer.isOpen
  | fn _ _ _ => false

def way : Scope → List String
  | top => []
  | cls outer name _ | fn outer name _ => outer.way ++ [name]

/-- What Python allows as a name holds no dot, and is not `<locals>`. -/
def Plain : Scope → Prop
  | top => True
  | cls outer name _ | fn outer name _ => outer.Plain ∧ '.' ∉ name.toList ∧ ¬ "<locals>".toList <:+: name.toList

theorem inside_of_open : ∀ {d : Scope}, d.isOpen = true → d.inside = d.way
  | top, _ => rfl
  | cls outer name n, h => by
    unfold inside way
    rw [inside_of_open (d := outer) h]

theorem mem_inside_locals : ∀ {d : Scope}, d.isOpen = false → "<locals>" ∈ d.inside
  | top, h => by cases h
  | cls outer name n, h => List.mem_append_left _ (mem_inside_locals (d := outer) h)
  | fn outer name n, _ => by simp [inside]

theorem Plain.way : ∀ {d : Scope}, d.Plain → ∀ x ∈ d.way, '.' ∉ x.toList ∧ ¬ "<locals>".toList <:+: x.toList
  | top, _, x, hx => by cases hx
  | cls outer name n, h, x, hx | fn outer name n, h, x, hx => by
    rcases List.mem_append.mp hx with hx | hx
    · exact Plain.way h.1 x hx
    · rw [List.mem_singleton.mp hx]
      exact h.2

theorem isLocal_intercalate {segments : List String} :
    isLocal (".".intercalate segments) = true ↔ ∃ x ∈ segments, "<locals>".toList <:+: x.toList := by
  unfold isLocal
  rw [decide_eq_true_iff, String.toList_intercalate, show ".".toList = ['.'] from by decide +kernel,
    Paths.infix_intercalate_iff (by decide +kernel) (by decide +kernel)]
  simp

theorem parts_intercalate {segments : List String} (hplain : ∀ x ∈ segments, '.' ∉ x.toList) (hne : segments ≠ []) :
    parts (".".intercalate segments) = segments := by
  unfold parts
  rw [String.toList_intercalate, show ".".toList = ['.'] from by decide +kernel, List.splitOn_intercalate]
  · simp [Function.comp_def]
  · intro x hx
    obtain ⟨y, hy, rfl⟩ := List.mem_map.mp hx
    exact hplain y hy
  · simpa using hne

def isTop : Scope → Bool
  | top => true
  | _ => false

theorem isLocal_qualname {d : Scope} (htop : d.isTop = false) (hplain : d.Plain) :
    isLocal d.qualname = true ↔ d.outer.isOpen = false := by
  unfold qualname
  rw [isLocal_intercalate]
  constructor
  · rintro ⟨x, hx, hlocals⟩
    by_contra hopen
    rw [inside_of_open (Bool.not_eq_false _ ▸ hopen)] at hx
    have hway : x ∈ d.way := by cases d <;> first | exact hx | cases htop
    exact (hplain.way x hway).2 hlocals
  · intro hopen
    exact ⟨"<locals>", List.mem_append_left _ (mem_inside_locals hopen), List.infix_refl _⟩

theorem parts_qualname {d : Scope} (htop : d.isTop = false) (hplain : d.Plain) (hopen : d.outer.isOpen = true) :
    parts d.qualname = d.way := by
  have hway : d.outer.way ++ [d.name] = d.way := by cases d <;> first | rfl | cases htop
  unfold qualname
  rw [inside_of_open hopen, hway]
  refine parts_intercalate (fun x hx => (hplain.way x hx).1) ?_
  rw [← hway]
  simp

/-- The names on the way to a definition, and those around it, stand for them. -/
def Current {Obj : Type} (py : Python Obj) (obj : Scope → Obj) : Scope → Prop
  | top => True
  | cls outer name n => outer.Current py obj ∧ py.getattr (obj outer) name = .ok (obj (cls outer name n))
  | fn outer name n => outer.Current py obj ∧ py.getattr (obj outer) name = .ok (obj (fn outer name n))

end Scope

/-- A module of definitions, which are the attributes only of what they stand in. -/
structure Defines {Obj : Type} (py : Python Obj) (fnModule : String) (defs : Scope → Prop) (obj : Scope → Obj) : Prop where
  imports : py.importModule fnModule = .ok (obj .top)
  outer : ∀ d, defs d → defs d.outer
  plain : ∀ d, defs d → d.Plain
  names : ∀ d, defs d → d.isTop = false → py.Names (obj d) fnModule d.qualname
  own : ∀ d, defs d → d.isTop = false → ∀ o, py.getattr o d.name = .ok (obj d) → o = obj d.outer

section Defines
variable {Obj : Type} {py : Python Obj} {fnModule : String} {defs : Scope → Prop} {obj : Scope → Obj}

theorem Defines.walk (h : Defines py fnModule defs obj) : ∀ {d : Scope}, defs d →
    (d.way.foldlM py.getattr (obj .top) = .ok (obj d) ↔ d.Current py obj)
  | .top, _ => by
    unfold Scope.Current
    exact iff_of_true rfl trivial
  | .cls outer name n, hd | .fn outer name n, hd => by
    have ih := h.walk (h.outer _ hd)
    have hown := h.own _ hd rfl
    unfold Scope.way Scope.Current
    rw [Paths.foldlM_concat_ok]
    constructor
    · rintro ⟨o, hwalk, hlast⟩
      rw [hown o hlast] at hwalk hlast
      exact ⟨ih.mp hwalk, hlast⟩
    · rintro ⟨hcurrent, hlast⟩
      exact ⟨_, ih.mpr hcurrent, hlast⟩

end Defines

namespace Sample

/-- A function `f` that is defined twice, the second time with a closure `h` in it, and a class `C` with a method `g`. -/
def f (n : ℕ) : Scope := .fn .top "f" n
def h : Scope := .fn (f 1) "h" 0
def cls : Scope := .cls .top "C" 0
def g : Scope := .fn cls "g" 0

def bindings : List (Scope × String × Scope) := [(.top, "f", f 1), (.top, "C", cls), (cls, "g", g)]

def attributeError (name : String) : PyError := { attributeError := true, text := name }

def python : Python (Scope ⊕ String) where
  importModule name := if name = "m" then .ok (.inl .top) else .error { importError := true, text := name }
  getattr obj name :=
    match obj with
    | .inr _ => .error (attributeError name)
    | .inl d =>
      if name = "__module__" then .ok (.inr "m")
      else if name = "__qualname__" then .ok (.inr d.qualname)
      else
        match bindings.find? fun b => decide (b.1 = d ∧ b.2.1 = name) with
        | some b => .ok (.inl b.2.2)
        | none => .error (attributeError name)
  callable obj := obj.isLeft
  typeName _ := "object"
  str obj := obj.getRight?
  repr _ := "object"

theorem names_plain : ∀ d ∈ [.top, f 0, f 1, h, cls, g], d.name ≠ "__module__" ∧ d.name ≠ "__qualname__" := by
  decide +kernel

theorem bindings_own : ∀ b ∈ bindings, b.2.2.outer = b.1 := by
  decide +kernel

theorem defines : Defines python "m" (· ∈ [.top, f 0, f 1, h, cls, g]) .inl where
  imports := rfl
  outer := by decide +kernel
  plain := by
    intro d hd
    simp only [List.mem_cons, List.not_mem_nil, or_false] at hd
    rcases hd with rfl | rfl | rfl | rfl | rfl | rfl <;>
      simp only [f, h, cls, g, Scope.Plain] <;> decide +kernel
  names d _ _ := ⟨rfl, rfl⟩
  own := by
    intro d hd htop o ho
    cases o with
    | inr text => cases ho
    | inl s =>
      obtain ⟨hmod, hqual⟩ := names_plain d hd
      unfold python at ho
      dsimp only at ho
      rw [if_neg hmod, if_neg hqual] at ho
      split at ho
      · rename_i b hb
        have hpred : b.1 = s ∧ b.2.1 = d.name := by simpa using List.find?_some hb
        obtain rfl := Sum.inl.inj (Except.ok.inj ho)
        rw [← hpred.1, bindings_own b (List.mem_of_find?_eq_some hb)]
      · cases ho

end Sample

theorem Sample.mirrors : python.Mirrors python Eq where
  imports h := ⟨_, h, rfl⟩
  getattr h hget := ⟨_, h ▸ hget, rfl⟩
  callable h hcall := h ▸ hcall

theorem accepted_iff_sample : (∃ fnModule qualname fn', Sample.python.Names (.inl Sample.g) fnModule qualname ∧
    Sample.python.resolveFunction fnModule qualname = .ok fn' ∧ .inl Sample.g = fn') ∧
      Sample.python.validateSubmittable (.inl Sample.g) = .ok () := by
  have hvalid : Sample.python.validateSubmittable (.inl Sample.g) = .ok () := by decide +kernel
  refine ⟨(Python.accepted_iff Sample.mirrors ⟨fun h => ⟨_, h, rfl⟩, fun h hget => ⟨_, h ▸ hget, rfl⟩,
    fun h hcall => h ▸ hcall⟩ (fun h h' => h.trans h'.symm)).mp hvalid, hvalid⟩

/-! ## Runs -/

namespace System
variable {α Obj Obj' : Type} [DecidableEq Obj] {py : Python Obj} {py' : Python Obj'} {R : Obj → Obj' → Prop}
  {target : WorkId → Obj} {s s' : System α} {e : Event α} {log : List (Performed α)} {cfg : Config} {profiles : ProfileStore}

/-- The task of work id `id` is a submit of the function `target id`, which has been accepted. -/
def Submits (py : Python Obj) (target : WorkId → Obj) (_ : System α) : Event α → Prop
  | .submit id r _ => py.validateSubmittable (target id) = .ok () ∧ py.Names (target id) r.fnModule r.fnName
  | _ => True

def Accepted (py : Python Obj) (target : WorkId → Obj) (s : System α) (x : WorkId) : Prop :=
  py.validateSubmittable (target x) = .ok () ∧
    py.Names (target x) (s.executor.works x).fnModule (s.executor.works x).fnName

theorem Accepted.keep {x : WorkId} (h : Accepted py target s x) (hs : SameRetry (s.executor.works x) (s'.executor.works x)) :
    Accepted py target s' x := by
  unfold Accepted
  rw [hs.fnModule, hs.fnName]
  exact h

theorem submit_accepted {x id : WorkId} {r : Executor.Request} {reading : ResourceSnapshot}
    (h : s.step (.submit id r reading) = some s') (hok : Submits py target s (.submit id r reading)) (hx : x ∉ s.issued)
    (hx' : x ∈ s'.issued) : Accepted py target s' x := by
  simp only [step] at h
  split_ifs at h with hcond
  obtain rfl := Option.some.inj h
  unfold Accepted
  unfold submit at hx' ⊢
  dsimp only at hx' ⊢
  split
  · rename_i error herror
    rw [herror] at hx'
    exact absurd hx' hx
  · rename_i hfeasible
    rw [hfeasible] at hx'
    rcases List.mem_append.mp hx' with hx' | hx'
    · exact absurd hx' hx
    · rw [List.mem_singleton.mp hx']
      change _ ∧ py.Names (target id) (Function.update s.executor.works id _ id).fnModule
        (Function.update s.executor.works id _ id).fnName
      rw [Function.update_self]
      exact hok

theorem step_keeps_function (h : s.step e = some s') (hs : Sound s) {x : WorkId} (hx : x ∈ s.issued)
    (ha : Accepted py target s x) : Accepted py target s' x := by
  cases step_task h hs x with
  | stays hstays => exact ha.keep hstays.work
  | submitted hnew => exact absurd hx hnew
  | shipped _ _ _ hwork => exact ha.keep hwork
  | crashed _ _ _ _ hwork | penalized _ _ _ hwork | requeued _ _ _ hwork =>
    unfold Accepted
    rw [hwork]
    exact ha

theorem submit_of_issued {x : WorkId} (h : s.step e = some s') (hx : x ∉ s.issued) (hx' : x ∈ s'.issued) :
    ∃ id r reading, e = .submit id r reading := by
  cases step_stepped h with
  | submit => exact ⟨_, _, _, rfl⟩
  | outside | append | cancel | process | begin | deliver | act | contended | shutdown | again =>
    exact absurd hx' hx

theorem run_accepted (h : Recorded executions (Submits py target) (init cfg profiles) s log) :
    ∀ x ∈ s.issued, Accepted py target s x := by
  induction h with
  | start =>
    intro x hx
    cases hx
  | @next s s' log e hrun hok hstep ih =>
    intro x hx'
    by_cases hx : x ∈ s.issued
    · exact step_keeps_function hstep hrun.reachable.sound.1 hx (ih x hx)
    · obtain ⟨id, r, reading, rfl⟩ := submit_of_issued hstep hx hx'
      exact submit_accepted hstep hok hx hx'

theorem Recorded.free {γ : Type} {H : History α γ} {p : System α → Event α → Prop} {s₀ : System α} {g : γ}
    (h : Recorded H p s₀ s g) : Recorded H (fun _ _ => True) s₀ s g := by
  induction h with
  | start => exact .start
  | next _ _ hstep ih => exact .next ih trivial hstep

/-- **A worker runs what was submitted**: in every run in which the submits are of accepted functions, the names of each item
that a worker executes lead, in the worker, to the counterpart of the function that was submitted under its work id; and what
a future is finished with by a task function comes from such an execution. -/
theorem runs_submitted (hmirrors : py.Mirrors py' R)
    (h : Recorded executions (Submits py target) (init cfg profiles) s log) :
    (∀ p ∈ log, ∃ fn', py'.resolveFunction p.item.fnModule p.item.fnName = .ok fn' ∧ R (target p.item.id) fn') ∧
      ∀ x o, s.executor.futures x = .finished o → o.reported = true → ∃ p ∈ log, p.result.outcome = o ∧
        ∃ fn', py'.resolveFunction p.item.fnModule p.item.fnName = .ok fn' ∧ R (target x) fn' := by
  obtain ⟨hfutures, -, hlog⟩ := outcome_authentic h.free
  have hruns : ∀ p ∈ log, ∃ fn', py'.resolveFunction p.item.fnModule p.item.fnName = .ok fn' ∧ R (target p.item.id) fn' := by
    intro p hp
    obtain ⟨hissued, -, hmodule, hname, -⟩ := hlog p hp
    obtain ⟨hvalid, hnames⟩ := run_accepted h p.item.id hissued
    obtain ⟨fnModule, qualname, hnames', hfn⟩ := Python.validateSubmittable_ok_iff.mp hvalid
    obtain ⟨hm, hq⟩ := hnames.unique hnames'
    rw [hmodule, hname, ← hm, ← hq]
    exact hmirrors.resolveFunction hfn
  refine ⟨hruns, fun x o hf ho => ?_⟩
  obtain ⟨p, hp, ⟨rfl, -⟩, hout⟩ := hfutures x o hf ho
  exact ⟨p, hp, hout, hruns p hp⟩

instance (py : Python Obj) (fn : Obj) (fnModule qualname : String) : Decidable (py.Names fn fnModule qualname) :=
  decidable_of_iff (py.strAttr fn "__module__" = .ok (some fnModule) ∧ py.strAttr fn "__qualname__" = .ok (some qualname))
    ⟨fun h => ⟨h.1, h.2⟩, fun h => ⟨h.fnModule, h.qualname⟩⟩

instance (py : Python Obj) (target : WorkId → Obj) (s : System α) : ∀ e : Event α, Decidable (Submits py target s e)
  | .submit _ _ _ => inferInstanceAs (Decidable (_ ∧ _))
  | .tick _ | .start | .poll _ | .append _ | .cancel _ | .workerTake _ | .workerPut _ _ | .workerLose _ _ | .workerDie _ _
  | .round _ | .call _ _ | .deliver _ _ _ | .act _ _ | .contended _ | .shutdown _ => .isTrue trivial

theorem runs_submitted_sample : ∃ (s : System ℕ) (log : List (Performed ℕ)),
    s.executor.futures "x" = .finished (.result (some 7)) ∧ ∃ p ∈ log, p.result.outcome = .result (some 7) ∧
      ∃ fn', Sample.python.resolveFunction p.item.fnModule p.item.fnName = .ok fn' ∧ .inl (Sample.f 1) = fn' := by
  have hfacts : (playRecorded executions (Submits Sample.python fun _ => .inl (Sample.f 1)) (init oneWorker {} : System ℕ) []
      reportOne).any (fun r => decide (r.1.executor.futures "x" = .finished (.result (some 7)))) = true := by decide +kernel
  obtain ⟨⟨s, log⟩, hplay, hfacts⟩ := (Option.any_eq_true _ _).mp hfacts
  have hfuture := of_decide_eq_true hfacts
  exact ⟨s, log, hfuture, (runs_submitted Sample.mirrors (Recorded.start.play hplay)).2 "x" _ hfuture rfl⟩

end System

end AdaptiveExecutor
