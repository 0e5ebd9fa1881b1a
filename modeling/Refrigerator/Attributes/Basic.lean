/-
Lazy attributes of the Python tools (`lazy_attributes.py`): a class holds a dictionary of factories, and
its getter makes an attribute by the factory of its name, with a set of names that protects it from
recursion.

`M` are the modules, `V` the attributes and `X` the exceptions the library does not raise itself. A
callable is a finite program over the outcomes of the getter calls it makes, so it may catch whatever
those raise. A call of the getter takes a depth, the number of calls that may be open at once, and is cut
off where there would be more.
-/
import Mathlib.Data.Finset.Basic
import Refrigerator.Lib.Program

namespace Refrigerator.Attributes

open Lib

/-! ## Python -/

/-- The exceptions, with the arguments that are read. -/
inductive Raised (X : Type*)
  | assertion
  | attribute (name : String)
  | key (name : String)
  | type
  | value (text : String)
  | other (exception : X)

/-- A `dict`, in the order of insertion. -/
structure Dict (K V : Type*) where
  items : List (K × V)
  nodup : (items.map Prod.fst).Nodup

namespace Dict

variable {K V W E : Type*} [DecidableEq K]

def lookup (d : Dict K V) (key : K) : Option V := (d.items.find? fun item => item.1 = key).map Prod.snd

def get (d : Dict K V) (key : K) (default : V) : V := (d.lookup key).getD default

def setdefault (d : Dict K V) (key : K) (value : V) : Dict K V :=
  if h : key ∈ d.items.map Prod.fst then d
  else ⟨d.items ++ [(key, value)], by
    rw [List.map_append, List.nodup_append]
    refine ⟨d.nodup, List.nodup_singleton _, fun a ha b hb => ?_⟩
    rw [List.map_singleton, List.mem_singleton] at hb
    rintro rfl
    rw [hb] at ha; exact h ha⟩

/-- The items of a comprehension, which stops at the first value that raises. -/
def comprehend (f : K → V → Except E W) : List (K × V) → Except E (List (K × W))
  | [] => .ok []
  | (key, value) :: items =>
    match f key value with
    | .error e => .error e
    | .ok value =>
      match comprehend f items with
      | .error e => .error e
      | .ok items => .ok ((key, value) :: items)

omit [DecidableEq K] in
theorem comprehend_cons {f : K → V → Except E W} {key : K} {value : V} {items : List (K × V)} {made : List (K × W)}
    (h : comprehend f ((key, value) :: items) = .ok made) :
    ∃ w rest, f key value = .ok w ∧ comprehend f items = .ok rest ∧ made = (key, w) :: rest := by
  unfold comprehend at h
  rcases hvalue : f key value with e | w <;> rw [hvalue] at h
  · cases h
  · rcases hitems : comprehend f items with e | rest <;> rw [hitems] at h
    · cases h
    · cases h; exact ⟨w, rest, rfl, rfl, rfl⟩

omit [DecidableEq K] in
theorem comprehend_keys {f : K → V → Except E W} : ∀ {items : List (K × V)} {made : List (K × W)},
    comprehend f items = .ok made → made.map Prod.fst = items.map Prod.fst
  | [], made, h => by cases h; rfl
  | (key, value) :: items, made, h => by
    obtain ⟨w, rest, -, hitems, rfl⟩ := comprehend_cons h
    rw [List.map_cons, List.map_cons, comprehend_keys hitems]

/-- A dictionary comprehension over the items of another. -/
def map (d : Dict K V) (f : K → V → Except E W) : Except E (Dict K W) :=
  match h : comprehend f d.items with
  | .error e => .error e
  | .ok items => .ok ⟨items, by rw [comprehend_keys h]; exact d.nodup⟩

theorem lookup_setdefault (d : Dict K V) (key : K) (value : V) (other : K) :
    (d.setdefault key value).lookup other = (d.lookup other).or (if key = other then some value else none) := by
  unfold setdefault lookup
  split_ifs with hmem heq heq
  · subst heq
    obtain ⟨item, hitem, hkey⟩ := List.mem_map.1 hmem
    have hfound : (d.items.find? fun item => decide (item.1 = key)).isSome :=
      List.find?_isSome.2 ⟨item, hitem, by simpa using hkey⟩
    obtain ⟨found, hfound⟩ := Option.isSome_iff_exists.1 hfound
    rw [hfound]; rfl
  · rw [Option.or_none]
  · rw [List.find?_append, Option.map_or, heq]
    simp
  · rw [List.find?_append, Option.map_or]
    simp [heq]

/-- A comprehension keeps the keys, with the values it makes. -/
theorem lookup_comprehend {f : K → V → Except E W} : ∀ {items : List (K × V)} {made : List (K × W)},
    comprehend f items = .ok made → ∀ key,
      Option.Rel (fun value w => f key value = .ok w) ((items.find? fun item => item.1 = key).map Prod.snd)
        ((made.find? fun item => item.1 = key).map Prod.snd)
  | [], made, h, key => by cases h; exact .none
  | (first, value) :: items, made, h, key => by
    obtain ⟨w, rest, hvalue, hitems, rfl⟩ := comprehend_cons h
    have ih := lookup_comprehend hitems key
    by_cases hkey : first = key
    · subst hkey
      simpa using hvalue
    · simpa [List.find?_cons, hkey] using ih

theorem lookup_map {d : Dict K V} {f : K → V → Except E W} {made : Dict K W} (h : d.map f = .ok made) (key : K) :
    Option.Rel (fun value w => f key value = .ok w) (d.lookup key) (made.lookup key) := by
  unfold map at h
  split at h
  · cases h
  · next items hitems => cases h; exact lookup_comprehend hitems key

end Dict

/-! ## Factories -/

variable (M V X : Type*)

/-- What a call ends with. -/
abbrev Outcome := Except (Raised X) V

/-- What a call runs. -/
abbrev Body := Program String (Outcome V X) (Outcome V X)

/-- `inspect.Parameter`. -/
inductive ParameterKind
  | varKeyword
  | varPositional
  | other

structure Parameter where
  name : String
  kind : ParameterKind

/-- The arguments of a call, with the keywords that are passed. -/
structure Arguments where
  positional : List String := []
  module : Option M := none
  name : Option String := none

structure Callable where
  parameters : List Parameter
  call : Arguments M → Body V X

/-- What a dictionary holds once it is validated. -/
abbrev Factory := M → String → Body V X

variable {M V X}

/-- The names the assertions admit. -/
def isValid (name : String) : Bool := name ≠ "" ∧ '.' ∉ name.toList

/-- `_ValidateAndMake.__factory`. -/
def factory (key : Option String) (value : Option (Callable M V X)) :
    Except (Raised X) (Option (Factory M V X)) :=
  match key, value with
  | none, none => .ok none
  | key, value =>
    if key.any fun key => !isValid key then .error .assertion
    else
      match value with
      | none => .error .type
      | some value =>
        match value.parameters with
        | [] => .ok (some fun _ _ => value.call {})
        | [parameter] =>
          match parameter.kind with
          | .varKeyword => .ok (some fun module name => value.call { module := some module, name := some name })
          | .varPositional => .ok (some fun _ name => value.call { positional := [name] })
          | .other =>
            if parameter.name = "name" then .ok (some fun _ name => value.call { name := some name })
            else if parameter.name = "module" then .ok (some fun module _ => value.call { module := some module })
            else .ok (some fun _ _ => value.call {})
        | [_, _] => .ok (some fun module name => value.call { module := some module, name := some name })
        | _ => .error (.value "unsupported signature")

/-- `_ValidateAndMake.dictionary`. -/
def dictionary (value : Option (Dict (Option String) (Option (Callable M V X))))
    (makeDefault : Dict (Option String) (Option (Factory M V X))) :
    Except (Raised X) (Dict (Option String) (Option (Factory M V X))) :=
  match value with
  | none => .ok makeDefault
  | some value =>
    match value.map factory with
    | .error e => .error e
    | .ok collector =>
      .ok (makeDefault.items.foldl (fun collector item => collector.setdefault item.1 item.2) collector)

/-- `_ValidateAndMake.module_name`. -/
def moduleName (value : Option String) (makeDefault : String) : Except (Raised X) String :=
  match value with
  | none => .ok makeDefault
  | some value => if value ≠ "" ∧ value.toList.head? ≠ some '.' then .ok value else .error .assertion

/-- `_make_default_dictionary`, over `importlib.import_module`. -/
def makeDefaultDictionary (importModule : String → Body V X) (name : String) :
    Dict (Option String) (Option (Factory M V X)) :=
  ⟨[(none, some fun _ member => importModule (name ++ "." ++ member))], List.nodup_singleton _⟩

/-! ## The getter -/

/-- What a class keeps for its getter. -/
structure Class (M V X : Type*) where
  module : M
  dictionary : Dict (Option String) (Option (Factory M V X))
  defaultFactory : Option (Factory M V X)

/-- `_Meta.__init__`, over `sys.modules` and `importlib.import_module`. -/
def Class.init (modules : String → Option M) (importModule : String → Body V X)
    (value : Option (Dict (Option String) (Option (Callable M V X)))) (name : Option String) (own : String) :
    Except (Raised X) (Class M V X) :=
  match moduleName name own with
  | .error e => .error e
  | .ok name =>
    match modules name with
    | none => .error (.key name)
    | some module =>
      match Attributes.dictionary value (makeDefaultDictionary importModule name) with
      | .error e => .error e
      | .ok dictionary => .ok { module, dictionary, defaultFactory := dictionary.get none none }

/-- What happens to the factory of a name. -/
inductive Event
  | started (name : String)
  | finished (name : String)
  | rejected (name : String)
  deriving DecidableEq

/-- `_recursion_protector`, and the events so far. -/
structure World where
  guard : Finset String := ∅
  trace : List Event := []

def World.log (w : World) (event : Event) : World := { w with trace := w.trace ++ [event] }

/-- The `finally` of the getter. -/
def release (name : String) (outcome : Outcome V X) (w : World) : Option (Outcome V X) × World :=
  if name ∈ w.guard then (some outcome, { w with guard := w.guard.erase name }) else (some (.error (.key name)), w)

namespace Class

variable (c : Class M V X)

/-- The factory of a name, applied to the module and the name. -/
def bodyOf (name : String) : Option (Body V X) :=
  (c.dictionary.get (some name) c.defaultFactory).map fun factory => factory c.module name

/-- `_getter`, over the getter that a factory calls. -/
def serve (request : String → World → Option (Outcome V X) × World) (name : String) (w : World) :
    Option (Outcome V X) × World :=
  if !isValid name then (some (.error .assertion), w)
  else if name ∈ w.guard then (some (.error (.attribute name)), w.log (.rejected name))
  else
    let w := { w with guard := insert name w.guard }
    match c.bodyOf name with
    | none => release name (.error (.attribute name)) w
    | some body =>
      match body.run request (w.log (.started name)) with
      | (none, w) => (none, w)
      | (some outcome, w) => release name outcome (w.log (.finished name))

def getter : Nat → String → World → Option (Outcome V X) × World
  | 0, _, w => (none, w)
  | depth + 1, name, w => c.serve (getter depth) name w

end Class

/-! ## The factories of a class -/

/-- The callable that a dictionary gives for a key, if it has one. -/
def given (value : Option (Dict (Option String) (Option (Callable M V X)))) (key : Option String) :
    Option (Option (Callable M V X)) := value.bind fun value => value.lookup key

theorem lookup_makeDefaultDictionary (importModule : String → Body V X) (name : String) (key : Option String) :
    (makeDefaultDictionary importModule name : Dict (Option String) (Option (Factory M V X))).lookup key =
      if none = key then some (some fun _ member => importModule (name ++ "." ++ member)) else none := by
  cases key with
  | none => rfl
  | some key => rfl

theorem dictionary_some {value : Dict (Option String) (Option (Callable M V X))} {importModule : String → Body V X}
    {name : String} {made : Dict (Option String) (Option (Factory M V X))}
    (h : dictionary (some value) (makeDefaultDictionary importModule name) = .ok made) :
    ∃ collector, value.map factory = .ok collector ∧
      made = collector.setdefault none (some fun _ member => importModule (name ++ "." ++ member)) := by
  unfold dictionary at h
  dsimp only at h
  rcases hmap : value.map factory with e | collector <;> rw [hmap] at h
  · cases h
  · cases h; exact ⟨collector, rfl, rfl⟩

/-- A given callable is adapted; for the default one `importModule` stands in. -/
theorem dictionary_lookup {value : Option (Dict (Option String) (Option (Callable M V X)))}
    {importModule : String → Body V X} {name : String} {made : Dict (Option String) (Option (Factory M V X))}
    (h : dictionary value (makeDefaultDictionary importModule name) = .ok made) (key : Option String) :
    (∃ callable adapted, given value key = some callable ∧ factory key callable = .ok adapted ∧
        made.lookup key = some adapted) ∨
      (given value key = none ∧ made.lookup key =
        if none = key then some (some fun _ member => importModule (name ++ "." ++ member)) else none) := by
  cases value with
  | none =>
    cases h
    exact Or.inr ⟨rfl, lookup_makeDefaultDictionary importModule name key⟩
  | some value =>
    obtain ⟨collector, hmap, rfl⟩ := dictionary_some h
    have hrel := Dict.lookup_map hmap key
    rw [Dict.lookup_setdefault]
    show (∃ callable adapted, value.lookup key = some callable ∧ _) ∨ (value.lookup key = none ∧ _)
    generalize value.lookup key = callable at hrel ⊢
    generalize collector.lookup key = found at hrel ⊢
    cases hrel with
    | none => exact Or.inr ⟨rfl, rfl⟩
    | some hfactory => exact Or.inl ⟨_, _, rfl, hfactory, rfl⟩

/-- What makes a member: the callable given for it, else the default one that is given, with their keys. -/
def chosen (value : Option (Dict (Option String) (Option (Callable M V X)))) (member : String) :
    Option (Option String × Option (Callable M V X)) :=
  ((given value (some member)).map fun callable => (some member, callable)).or
    ((given value none).map fun callable => (none, callable))

namespace Class

/-- In a class a member is made by what was given for it, as `factory` adapts it, and is imported from the
module of the class where nothing was given. -/
theorem init_bodyOf {modules : String → Option M} {importModule : String → Body V X}
    {value : Option (Dict (Option String) (Option (Callable M V X)))} {name : Option String} {own : String}
    {c : Class M V X} (h : Class.init modules importModule value name own = .ok c) :
    ∃ base, (moduleName name own : Except (Raised X) String) = .ok base ∧ modules base = some c.module ∧
      ∀ member, match chosen value member with
        | none => c.bodyOf member = some (importModule (base ++ "." ++ member))
        | some (key, callable) => ∃ adapted, factory key callable = .ok adapted ∧
            c.bodyOf member = adapted.map fun adapted => adapted c.module member := by
  unfold Class.init at h
  rcases hname : moduleName name own with e | base <;> rw [hname] at h
  · cases h
  dsimp only at h
  rcases hmodule : modules base with _ | module <;> rw [hmodule] at h
  · cases h
  dsimp only at h
  rcases hmade : Attributes.dictionary value (makeDefaultDictionary importModule base) with e | made <;>
    rw [hmade] at h
  · cases h
  cases h
  refine ⟨base, rfl, hmodule, fun member => ?_⟩
  unfold chosen bodyOf Dict.get
  rcases dictionary_lookup hmade (some member) with ⟨callable, adapted, hgiven, hadapted, hlookup⟩ | ⟨hgiven, hlookup⟩
  · rw [hgiven, hlookup]
    exact ⟨adapted, hadapted, rfl⟩
  rw [if_neg (by simp)] at hlookup
  rcases dictionary_lookup hmade none with ⟨callable, adapted, hdefault, hadapted, hnone⟩ | ⟨hdefault, hnone⟩
  · rw [hgiven, hdefault, hlookup, hnone]
    exact ⟨adapted, hadapted, rfl⟩
  · rw [hgiven, hdefault, hlookup, hnone]
    rfl

end Class
end Refrigerator.Attributes
