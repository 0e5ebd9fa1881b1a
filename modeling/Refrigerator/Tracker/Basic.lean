/-
The trusted-entities feature (`features/trusted_entities.cxx`): its context, its handlers and the
events they dispatch, and the machine of handler calls.

A handler returns the new context and the events dispatched, in order. What a handler reads from
the engine is an argument of its call, so a run of calls is a run under any changes the engine
makes between them. `std::list` operations are those of lists; a list moved from is empty, a
pointer moved from keeps its value.
-/
import Refrigerator.Engine.Basic
import Refrigerator.Lib.Machine
import Refrigerator.Lib.Compaction
import Refrigerator.Lib.Membership

namespace Refrigerator.Tracker

open Lib Metamod

variable {P : Type*}

/-! ## The context -/

/-- `Type::Context_`, less its dispatcher and its bindings; `Type::state()` is `entered`. -/
structure Context (P : Type*) where
  state : Bool := false
  queue : List P := []
  entered : List P := []
deriving DecidableEq, Repr

/-! ## The handlers -/

section Handlers

variable [DecidableEq P] [Zero P]

def onInit (context : Context P) : Context P := { context with state := true }

def onSpawn (context : Context P) (entity : P) : Context P :=
  if entity = 0 then context
  else if entity ∈ context.queue then context
  else { context with queue := context.queue ++ [entity] }

/-- The entity a creation hook sees: that of the overriding plugin if there is one, else that of the
engine function; null when there is neither. -/
def created (globals : Globals P) : P :=
  match globals.override with
  | some pointer => pointer
  | none =>
    match globals.original with
    | some pointer => pointer
    | none => 0

def onCreate (globals : Globals P) (context : Context P) : Context P :=
  if created globals ≠ 0 then onSpawn context (created globals) else context

/-- `std::list::remove`: the list without the element, and how often it occurred. -/
def listRemove (l : List P) (entity : P) : List P × Nat := (l.filter (· ≠ entity), l.count entity)

def onRemove (context : Context P) (entity : P) : Context P × List (Event P) :=
  if entity = 0 then (context, [])
  else
    let queue := (listRemove context.queue entity).1
    let (entered, removed) := listRemove context.entered entity
    let context := { context with queue, entered }
    if ¬ 0 < removed then (context, [])
    else (context, [{ list := [entity], state := false }])

omit [DecidableEq P] [Zero P] in
/-- An event is dispatched only when its list is not empty. -/
def dispatchUnlessEmpty (event : Event P) : List (Event P) := if event.list.isEmpty then [] else [event]

def onFrame (memory : Memory P) (context : Context P) : Context P × List (Event P) :=
  if ¬ context.state then (context, [])
  else
    -- the entities from the returned position on are copied out and stay in the list as well
    let (kept, moved) := removeIf memory.isFree context.entered
    let removed : Event P := { list := moved, state := false }
    let entered : Event P := { list := context.queue.filter fun e => !memory.isFree e, state := true }
    let context := { context with queue := [], entered := kept ++ moved ++ entered.list }
    (context, dispatchUnlessEmpty removed ++ dispatchUnlessEmpty entered)

def onShutdown (context : Context P) : Context P × List (Event P) :=
  let context := { context with state := false, queue := [] }
  if context.entered.isEmpty then (context, [])
  else ({ context with entered := [] }, [{ list := context.entered, state := false }])

end Handlers

/-! ## Runs of handler calls -/

/-- A call of a handler, with what it reads. -/
inductive Call (P : Type*)
  | init
  | spawn (entity : P)
  | create (globals : Globals P)
  | remove (entity : P)
  | frame (memory : Memory P)
  | shutdown

variable [DecidableEq P] [Zero P]

def step (context : Context P) : Call P → Context P × List (Event P)
  | .init => (onInit context, [])
  | .spawn entity => (onSpawn context entity, [])
  | .create globals => (onCreate globals context, [])
  | .remove entity => onRemove context entity
  | .frame memory => onFrame memory context
  | .shutdown => onShutdown context

/-- The feature as a machine of handler calls. -/
def machine : Machine (Context P) (Call P) (Event P) := ⟨step⟩

/-- The context after a run from the initial one. -/
def after (run : List (Call P)) : Context P := machine.exec {} run

/-- The events dispatched by a run from the initial context. -/
def dispatched (run : List (Call P)) : List (Event P) := machine.emitted {} run

end Refrigerator.Tracker
