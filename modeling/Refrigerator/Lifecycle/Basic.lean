/-
The plugin's entry points (`root_.cxx`) on its `api` record (`api.hxx`): the engine and metamod call
them in any order and with any arguments.

`P` are the addresses of the hosts' globals, `T` the contents of function tables, `default` an empty
one. A call is a computation that may throw, on the record and on the cells of the host it writes
through its pointers; `catch` turns an exception into a record in the log and the result `False`. The
phase and the reason of a call are only logged. The text of a mismatch is the stream's contents: that it
is read on to a null character, which need not follow, is left out.
-/
import Refrigerator.Lib.Machine

namespace Refrigerator

open Lib

/-! ## The record -/

namespace Api

/-- `metamod::plugin::Info`, as far as the calls read it. -/
structure Info where
  interfaceVersion : Option String
deriving DecidableEq, Repr

structure Plugin (T : Type*) where
  info : Info
  functions : T

structure Meta (P T : Type*) where
  plugin : Plugin T
  functions : T
  globals : Option P

/-- `game::Functions`. -/
structure Game (T : Type*) where
  standard : T
  extension : T

structure Engine (P T : Type*) where
  functions : T
  globals : Option P

end Api

/-- `api::Type`. -/
structure Api (P T : Type*) where
  metamod : Api.Meta P T
  game : Api.Game T
  engine : Api.Engine P T

namespace Lifecycle

variable {P T X : Type}

/-- The record as `factory` makes it, with the table of handlers the bindings put in. -/
def initial [Inhabited T] (plugin : Api.Plugin T) : Api P T where
  metamod := { plugin, functions := default, globals := none }
  game := { standard := default, extension := default }
  engine := { functions := default, globals := none }

/-! ## Calls that may throw -/

/-- The exceptions thrown in a call, those of the container among them. -/
inductive Failure (X : Type)
  | invalidArgument (what : String)
  | logicError (what : String)
  | runtimeError (what : String) (inner : Failure X)
  | foreign (exception : X)

/-- The record, and what the call has written to `*plugin`. -/
structure State (P T : Type) where
  api : Api P T
  info : Option Api.Info := none
  functions : Option T := none

abbrev CallM (P T X : Type) := ExceptT (Failure X) (StateM (State P T))

/-- A condition without which the call throws. -/
def ensure (condition : Bool) (failure : Failure X) : CallM P T X Unit :=
  if condition then pure () else throw failure

/-- What a pointer points to; without it the call throws. -/
def required {A : Type} (pointer : Option A) (failure : Failure X) : CallM P T X A :=
  match pointer with
  | some target => pure target
  | none => throw failure

/-- `game::functions::Pointers`. -/
structure GamePointers (T : Type) where
  standard : Option T
  extension : Option T

/-- What the calls of the container do: getting it, `collect`, and resolving the record, which may be
this one or another. -/
structure Container (X : Type) where
  container : Except X Unit := .ok ()
  collect : Except X Unit := .ok ()
  resolve : Except X Bool := .ok true

def inject (functions : Option T) (globals : Option P) : CallM P T X Unit := do
  let globals ← required globals (.invalidArgument "globals pointer is null")
  let functions ← required functions (.invalidArgument "functions pointer is null")
  modify fun s => { s with api.engine.globals := some globals }
  modify fun s => { s with api.engine.functions := functions }

/-- The inner `try` of `query`. -/
def resolveApi (container : Container X) : Except (Failure X) Unit := do
  container.container.mapError .foreign
  container.collect.mapError .foreign
  if !(← container.resolve.mapError .foreign) then throw (.logicError "different api pointers")

def query (version : Option String) (plugin : Bool) (functions : Option T) (container : Container X) :
    CallM P T X Unit := do
  let version ← required version (.logicError "metamod api version pointer is null")
  ensure (version ≠ "") (.invalidArgument "metamod api version is empty")
  ensure plugin (.invalidArgument "plugin pointer is null")
  let functions ← required functions (.invalidArgument "functions pointer is null")
  let api := (← get).api
  let pluginVersion ← required api.metamod.plugin.info.interfaceVersion
    (.logicError "plugin api version pointer is null")
  ensure (pluginVersion ≠ "") (.logicError "plugin api version is empty")
  modify fun s => { s with info := some api.metamod.plugin.info }
  ensure (version = pluginVersion)
    (.invalidArgument ("interface version mismatch: plugin[" ++ pluginVersion ++ "] != metamod[" ++ version ++ "]"))
  ensure api.engine.globals.isSome (.logicError "invalid state: `GiveFnptrsToDll` success expected")
  modify fun s => { s with api.metamod.functions := functions }
  match resolveApi container with
  | .ok () => pure ()
  | .error exception => throw (.runtimeError "container initialization failed" exception)

def attach (plugin : Bool) (globals : Option P) (game : Option (GamePointers T)) : CallM P T X Unit := do
  ensure plugin (.invalidArgument "plugin pointer is null")
  let globals ← required globals (.invalidArgument "globals pointer is null")
  let game ← required game (.invalidArgument "game pointer is null")
  let standard ← required game.standard (.invalidArgument "standard game functions pointer is null")
  let extension ← required game.extension (.invalidArgument "\new\" game functions pointer is null")
  let api := (← get).api
  ensure api.engine.globals.isSome (.logicError "invalid state: `GiveFnptrsToDll` success expected")
  modify fun s => { s with functions := some api.metamod.plugin.functions }
  modify fun s => { s with api.metamod.globals := some globals }
  modify fun s => { s with api.game.standard := standard }
  modify fun s => { s with api.game.extension := extension }

def detach [Inhabited T] : CallM P T X Unit := do
  modify fun s => { s with api.metamod.globals := none }
  modify fun s => { s with api.game := { standard := default, extension := default } }

/-! ## Sequences of calls -/

/-- A call by the hosts, with its arguments; of a pointer to a cell of the host only whether it is not
null, of a pointer to a table the contents. -/
inductive Call (P T X : Type)
  | inject (functions : Option T) (globals : Option P)
  | query (version : Option String) (plugin : Bool) (functions : Option T) (container : Container X)
  | attach (plugin : Bool) (globals : Option P) (game : Option (GamePointers T))
  | detach

variable [Inhabited T]

def Call.body : Call P T X → CallM P T X Unit
  | .inject functions globals => Lifecycle.inject functions globals
  | .query version plugin functions container => Lifecycle.query version plugin functions container
  | .attach plugin globals game => Lifecycle.attach plugin globals game
  | .detach => Lifecycle.detach

/-- The result of a call, `False` for an exception, and the state it leaves. -/
def Call.run (call : Call P T X) (api : Api P T) : Except (Failure X) Unit × State P T :=
  (call.body.run.run { api }).run

def machine : Machine (Api P T) (Call P T X) (Except (Failure X) Unit) :=
  ⟨fun api call => ((call.run api).2.api, [(call.run api).1])⟩

end Lifecycle

end Refrigerator
