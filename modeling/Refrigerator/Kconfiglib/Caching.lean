/-
Caching and invalidation in the configuration: which items depend on which (`_build_dep`), how a change
clears the cached values that may change with it (`_rec_invalidate`), and the operations that change what
the user has set.

The sets of dependents are lists here, in the order they are gone through, which may be any.
-/
import Refrigerator.Kconfiglib.Basic
import Refrigerator.Lib.Machine

namespace Refrigerator.Kconfiglib

open Lib

variable {S C : Type}

/-! ## Dependents -/

/-- The item a node belongs to. -/
def Node.item : Node S C → Item S C
  | .visibility item => item
  | .triValue s => .sym s
  | .strValue s => .sym s
  | .selection c => .choice c
  | .assignable item => item

/-- The items in an expression, as `_depend_on` finds them. -/
def Expr.items : Expr S C → List (Item S C)
  | .item leaf => [leaf]
  | .and left right => left.items ++ right.items
  | .or left right => left.items ++ right.items
  | .not operand => operand.items
  | .relation _ left right => [.sym left, .sym right]

/-- What `_build_dep` lets a symbol depend on. -/
def Symbol.sources (symbol : Symbol S C) : List (Item S C) :=
  symbol.prompts.flatMap Expr.items ++
    symbol.defaults.flatMap (fun (value, cond) => value.items ++ cond.items) ++
    symbol.revDep.items ++ symbol.weakRevDep.items ++
    symbol.ranges.flatMap (fun (low, high, cond) => .sym low :: .sym high :: cond.items) ++
    symbol.directDep.items

/-- What `_build_dep` lets a choice depend on. -/
def Choice.sources (choice : Choice S C) : List (Item S C) :=
  choice.prompts.flatMap Expr.items ++ choice.defaults.flatMap fun (_, cond) => cond.items

/-- Constant symbols have no dependents. -/
def Properties.constant (properties : Properties S C) : Item S C → Bool
  | .sym s => (properties.symbol s).isConstant
  | .choice _ => false

variable [DecidableEq S] [DecidableEq C]

/-- The dependents of an item, as `_build_dep` and `_add_choice_deps` find them. -/
def Properties.buildDep (properties : Properties S C) (definedSyms : List S) (choices : List C) (other : Item S C) :
    List (Item S C) :=
  (definedSyms.filter fun s =>
      decide (other ∈ (properties.symbol s).sources) && !properties.constant other).map .sym ++
    (choices.filter fun c =>
      (decide (other ∈ (properties.choice c).sources) && !properties.constant other) ||
        (properties.choice c).syms.any fun s => other = .sym s).map .choice

theorem Properties.mem_buildDep_sym {properties : Properties S C} {definedSyms : List S} {choices : List C} {s : S}
    {other : Item S C} : .sym s ∈ properties.buildDep definedSyms choices other ↔
      s ∈ definedSyms ∧ other ∈ (properties.symbol s).sources ∧ properties.constant other = false := by
  simp [buildDep]

theorem Properties.mem_buildDep_choice {properties : Properties S C} {definedSyms : List S} {choices : List C} {c : C}
    {other : Item S C} : .choice c ∈ properties.buildDep definedSyms choices other ↔
      c ∈ choices ∧ ((other ∈ (properties.choice c).sources ∧ properties.constant other = false) ∨
        ∃ s ∈ (properties.choice c).syms, other = .sym s) := by
  simp [buildDep]

/-- What the files have defined. -/
structure Kconfig (S C : Type) [DecidableEq S] [DecidableEq C] extends Properties S C where
  definedSyms : List S
  choices : List C
  dependents : Item S C → List (Item S C)
  mem_dependents : ∀ item other, item ∈ dependents other ↔ item ∈ toProperties.buildDep definedSyms choices other
  /-- All choices have been defined. -/
  mem_choices : ∀ c, c ∈ choices
  /-- Other symbols are only mentioned, or they are constants; n, m and y have a value. -/
  undefined : ∀ s ∉ definedSyms, (symbol s).prompts = [] ∧ (symbol s).choice = none ∧
    ((symbol s).origType = .unknown ∨ ((symbol s).origType = .tristate ∧ (symbol s).preset.isSome = true))
  constants : ∀ s, (symbol s).isConstant = true ∨ (symbol s).preset.isSome = true → s ∉ definedSyms
  presets : ∀ s, ∀ value ∈ (symbol s).preset, value ≤ 2
  /-- `_finalize_choice`. -/
  listed : ∀ s c, (symbol s).choice = some c → s ∈ (choice c).syms

/-- What the dependents of the choices rely on. There is only a warning for a default that is not in its
choice, and a symbol may lose its dependency on the choice when its conditions are n. -/
structure Kconfig.Linked (kconfig : Kconfig S C) : Prop where
  /-- A symbol in a choice depends on it: the choice is propagated to the conditions of its properties. -/
  propagated : ∀ s c, (kconfig.symbol s).choice = some c → .sym s ∈ kconfig.dependents (.choice c)
  /-- The defaults of a choice are symbols in it. -/
  contained : ∀ c, ∀ default ∈ (kconfig.choice c).defaults, default.1 ∈ (kconfig.choice c).syms

/-- A small configuration: the constants n and y, the symbol for modules, which is y, a tristate symbol, and
a choice of two symbols. -/
def small : Kconfig (Fin 6) (Fin 1) where
  symbol s :=
    let n := .item (.sym 0)
    let y := .item (.sym 1)
    let kind := .item (.choice 0)
    match s with
    | 0 => ⟨"n", .tristate, some 0, true, [], [], [], n, n, n, none, false⟩
    | 1 => ⟨"y", .tristate, some 2, true, [], [], [], n, n, n, none, false⟩
    | 2 => ⟨"MODULES", .bool, none, false, [], [(y, y)], [], y, n, n, none, false⟩
    | 3 => ⟨"LOG", .tristate, none, false, [y], [], [], y, n, n, none, false⟩
    | 4 => ⟨"KIND_DEBUG", .bool, none, false, [kind], [], [], kind, n, n, some 0, false⟩
    | 5 => ⟨"KIND_RELEASE", .bool, none, false, [kind], [], [], kind, n, n, some 0, false⟩
  choice _ := { origType := .bool, prompts := [.item (.sym 1)], syms := [4, 5] }
  modules := 2
  definedSyms := [2, 3, 4, 5]
  choices := [0]
  dependents := _
  mem_dependents _ _ := Iff.rfl
  mem_choices := by decide
  undefined := by decide
  constants := by decide
  presets := by decide
  listed := by decide

theorem small_linked : small.Linked := ⟨by decide, by decide⟩

namespace Kconfig

variable (kconfig : Kconfig S C)

theorem mem_dependents_sym (s : S) (other : Item S C) : .sym s ∈ kconfig.dependents other ↔
    s ∈ kconfig.definedSyms ∧ other ∈ (kconfig.symbol s).sources ∧ kconfig.constant other = false :=
  (kconfig.mem_dependents _ _).trans Properties.mem_buildDep_sym

theorem mem_dependents_choice (c : C) (other : Item S C) : .choice c ∈ kconfig.dependents other ↔
    c ∈ kconfig.choices ∧ ((other ∈ (kconfig.choice c).sources ∧ kconfig.constant other = false) ∨
      ∃ s ∈ (kconfig.choice c).syms, other = .sym s) :=
  (kconfig.mem_dependents _ _).trans Properties.mem_buildDep_choice

/-! ## Invalidation -/

/-- `_invalidate`. -/
def invalidate (cache : Cache (Node.Value (S := S) (C := C))) (item : Item S C) :
    Cache (Node.Value (S := S) (C := C)) :=
  cache.clear fun node => node.item = item

/-- The item is defined. -/
def defines (item : Item S C) : Bool :=
  match item with
  | .sym s => decide (s ∈ kconfig.definedSyms)
  | .choice c => decide (c ∈ kconfig.choices)

/-- `_invalidate_all`. -/
def invalidateAll (cache : Cache (Node.Value (S := S) (C := C))) : Cache (Node.Value (S := S) (C := C)) :=
  cache.clear fun node => kconfig.defines node.item = true

/-- `_cached_vis` is set, which tells whether there are cached values. -/
def flagged (cache : Cache (Node.Value (S := S) (C := C))) (item : Item S C) : Bool :=
  (cache (.visibility item)).isSome

/-- `_rec_invalidate`, to a depth. -/
def recInvalidate : Nat → Cache (Node.Value (S := S) (C := C)) → Item S C → Cache (Node.Value (S := S) (C := C))
  | 0, cache, _ => cache
  | depth + 1, cache, item =>
    if item = .sym kconfig.modules then kconfig.invalidateAll cache
    else
      (kconfig.dependents item).foldl
        (fun cache other => if flagged cache other then recInvalidate depth cache other else cache)
        (invalidate cache item)

/-- The items that invalidation may come to. -/
def items : List (Item S C) := kconfig.definedSyms.map .sym ++ kconfig.choices.map .choice

/-- Every item is invalidated once at most, so this depth suffices. -/
def cleared (cache : Cache (Node.Value (S := S) (C := C))) (item : Item S C) : Cache (Node.Value (S := S) (C := C)) :=
  kconfig.recInvalidate (kconfig.items.length + 1) cache item

/-! ## What the user sets -/

structure State (S C : Type) where
  users : Users S C := {}
  cache : Cache (Node.Value (S := S) (C := C)) := fun _ => none

/-- `STR_TO_TRI` on a value for a logical type. -/
def strToTri : Assigned → Assigned
  | .text "n" => .tri 0
  | .text "m" => .tri 1
  | .text "y" => .tri 2
  | value => value

/-- The value has the form of the type. -/
def wellFormed (type : Kind) : Assigned → Bool
  | .tri value => (type == .bool && (value == 2 || value == 0)) || (type == .tristate && decide (value ≤ 2))
  | .text text =>
    type == .string || (type == .int && isBaseN text 10) || (type == .hex && (int 16 text).any (0 ≤ ·))

/-- `_rec_invalidate_if_has_prompt`. -/
def clearedIfPrompt (cache : Cache (Node.Value (S := S) (C := C))) (s : S) : Cache (Node.Value (S := S) (C := C)) :=
  if (kconfig.symbol s).prompts = [] then cache else kconfig.cleared cache (.sym s)

/-- `Symbol.set_value`. -/
def setValue (state : State S C) (s : S) (value : Assigned) : State S C :=
  let value := if (kconfig.symbol s).origType.logical then strToTri value else value
  if state.users.value s = some value ∧ (kconfig.symbol s).choice = none then state
  else if !wellFormed (kconfig.symbol s).origType value then state
  else
    let users := { state.users with value := Function.update state.users.value s (some value) }
    match (kconfig.symbol s).choice with
    | some c =>
      if value = .tri 2 then
        { users := { users with selection := Function.update users.selection c (some s) }
          cache := kconfig.cleared state.cache (.choice c) }
      else { users, cache := kconfig.clearedIfPrompt state.cache s }
    | none => { users, cache := kconfig.clearedIfPrompt state.cache s }

/-- `Symbol.unset_value`. -/
def unsetValue (state : State S C) (s : S) : State S C :=
  if state.users.value s = none then state
  else
    { users := { state.users with value := Function.update state.users.value s none }
      cache := kconfig.clearedIfPrompt state.cache s }

/-- `Choice.set_value`. -/
def setMode (state : State S C) (c : C) (value : Assigned) : State S C :=
  match strToTri value with
  | .text _ => state
  | .tri value =>
    if state.users.mode c = some value then state
    else if !wellFormed (kconfig.choice c).origType (.tri value) then state
    else
      { users := { state.users with mode := Function.update state.users.mode c (some value) }
        cache := kconfig.cleared state.cache (.choice c) }

/-- `Choice.unset_value`. -/
def unsetMode (state : State S C) (c : C) : State S C :=
  if state.users.mode c = none ∧ state.users.selection c = none then state
  else
    { users :=
        { state.users with
          mode := Function.update state.users.mode c none
          selection := Function.update state.users.selection c none }
      cache := kconfig.cleared state.cache (.choice c) }

/-! ## Runs -/

/-- An operation on the configuration; a query goes to some depth, and may fail there. -/
inductive Operation (S C : Type)
  | setValue (s : S) (value : Assigned)
  | unsetValue (s : S)
  | setMode (c : C) (value : Assigned)
  | unsetMode (c : C)
  | query (depth : Nat) (node : Node S C)

/-- A query leaves the values it has found in the cache. -/
def query (state : State S C) (depth : Nat) (node : Node S C) : State S C :=
  match evaluate (kconfig.compute state.users) depth node state.cache with
  | none => state
  | some (_, cache) => { state with cache }

def step (state : State S C) : Operation S C → State S C
  | .setValue s value => kconfig.setValue state s value
  | .unsetValue s => kconfig.unsetValue state s
  | .setMode c value => kconfig.setMode state c value
  | .unsetMode c => kconfig.unsetMode state c
  | .query depth node => kconfig.query state depth node

def machine : Machine (State S C) (Operation S C) Unit := ⟨fun state operation => (kconfig.step state operation, [])⟩

/-- The state after some operations. -/
def after (run : List (Operation S C)) : State S C := kconfig.machine.exec {} run

end Kconfig

end Refrigerator.Kconfiglib
