/-
Hook dispatch (`binding.hxx`, `bindings.hxx`, `bindings.cxx`): what a subscribed action answers, how
`Type::inject` and `action_handler` turn the answer into a response, and how `target_handler` merges
the responses into the reported result and the returned value.

The dispatcher calls the subscribers one after another in their order. `Output` gives the return
type of each target's prototype, an empty type for `void`; `X` is the type of exceptions.
-/
import Refrigerator.Engine.Basic
import Mathlib.Order.Lattice

namespace Refrigerator

/-! ## The order of hook results -/

namespace Metamod.HookResult

def rank : HookResult → Nat
  | .unset => 0
  | .ignored => 1
  | .handled => 2
  | .override => 3
  | .supercede => 4

theorem rank_injective : Function.Injective rank := by
  intro a b h
  cases a <;> cases b <;> first | rfl | cases h

instance : LinearOrder HookResult := LinearOrder.lift' rank rank_injective

theorem ignored_le_iff {a : HookResult} : .ignored ≤ a ↔ .unset < a := by
  cases a <;> decide

end Metamod.HookResult

namespace Bindings

open Metamod

/-! ## Targets and phases -/

inductive Phase
  | before
  | after
deriving DecidableEq, Repr

/-- `binding::targets`: the hooks of the game and those of the engine. -/
inductive Target
  | init
  | spawn
  | think
  | clientCommand
  | frame
  | shutdown
  | createEntity
  | removeEntity
  | createNamedEntity
deriving DecidableEq, Repr

inductive MetaBefore
  | ignored
  | handled
  | override
  | supercede
deriving DecidableEq, Repr

inductive MetaAfter
  | ignored
  | handled
  | override
deriving DecidableEq, Repr

/-- `binding::action::result::Meta`. -/
def Meta : Phase → Type
  | .before => MetaBefore
  | .after => MetaAfter

def Meta.handled : {phase : Phase} → Meta phase
  | .before => MetaBefore.handled
  | .after => MetaAfter.handled

def transformBefore : MetaBefore → HookResult
  | .ignored => .ignored
  | .handled => .handled
  | .override => .override
  | .supercede => .supercede

def transformAfter : MetaAfter → HookResult
  | .ignored => .ignored
  | .handled => .handled
  | .override => .override

def transform : {phase : Phase} → Meta phase → HookResult
  | .before => transformBefore
  | .after => transformAfter

/-! ## Actions -/

/-- What the call of an action does: it throws, or it returns nothing, a bare value, a `Meta`, or a
`Result` with both. The `Result` of a `void` target has no value and answers as its `Meta` does. -/
inductive Answer (X : Type) (phase : Phase) (V : Type)
  | throws (exception : X)
  | void
  | value (value : V)
  | alone (result : Meta phase)
  | result (result : Meta phase) (value : V)

/-- The call of an action through `Type::inject`: its `Meta` or its exception, and the output cell. -/
def inject {X V : Type} {phase : Phase} : Answer X phase V → Option V → Except X (Meta phase) × Option V
  | .throws exception, output => (.error exception, output)
  | .void, output => (.ok .handled, output)
  | .value value, _ => (.ok .handled, some value)
  | .alone result, output => (.ok result, output)
  | .result result value, _ => (.ok result, some value)

/-- A subscribed action handler: its key and phase, and what its action answers. -/
structure Subscriber (X : Type) (Output : Target → Type) where
  key : Target
  phase : Phase
  action : Answer X phase (Output key)

/-! ## Merging -/

/-- The cells of `target_handler`, and the error records written so far. -/
structure State (X V : Type) where
  merged : HookResult := .ignored
  result : Option V := none
  temporary : Option V := none
  log : List X := []

variable {X V : Type}

/-- The response callback of `target_handler`. -/
def response (state : State X V) : X ⊕ HookResult → State X V
  | .inl exception => { state with log := state.log ++ [exception] }
  | .inr reply =>
    if state.merged ≥ reply then
      -- a value that does not win fills an empty result, or stays in the temporary cell
      if state.temporary.isSome && !state.result.isSome then
        { state with result := state.temporary, temporary := none }
      else state
    else
      -- the temporary cell may hold the value of an earlier, weaker action
      let state := { state with merged := reply }
      if state.temporary.isSome then { state with result := state.temporary, temporary := none } else state

/-- The part of `action_handler` behind its two filters. -/
def respond {phase : Phase} (action : Answer X phase V) (state : State X V) : State X V :=
  let (answer, output) := inject action state.temporary
  let state := { state with temporary := output }
  match answer with
  | .error exception => response state (.inl exception)
  | .ok result => if .unset < transform result then response state (.inr (transform result)) else state

variable {Output : Target → Type}

/-- The action of a subscriber registered for the key and phase of an event. -/
def Subscriber.matching (subscriber : Subscriber X Output) (key : Target) (phase : Phase) :
    Option (Answer X phase (Output key)) :=
  if hkey : subscriber.key = key then
    if hphase : subscriber.phase = phase then some (hkey ▸ hphase ▸ subscriber.action) else none
  else none

def actionHandler (key : Target) (phase : Phase) (state : State X (Output key)) (subscriber : Subscriber X Output) :
    State X (Output key) :=
  match subscriber.matching key phase with
  | none => state
  | some action => respond action state

/-- What an event leaves: the globals, the returned value, which is a default one when the optional
result is empty, and the error records. -/
structure Dispatched (P X V : Type) where
  globals : Option (Globals P)
  result : Option V
  log : List X

def Dispatched.value {P X V : Type} [Inhabited V] (dispatched : Dispatched P X V) : V :=
  dispatched.result.getD default

def targetHandler {P : Type} (subscribers : List (Subscriber X Output)) (key : Target) (phase : Phase)
    (globals : Option (Globals P)) : Dispatched P X (Output key) :=
  let state := subscribers.foldl (actionHandler key phase) {}
  { globals := globals.map fun globals => { globals with current := state.merged }
    result := state.result
    log := state.log }

end Bindings

end Refrigerator
