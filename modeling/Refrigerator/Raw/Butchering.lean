/-
The butchering handlers on raw pointers: they test every service before they use it, so none of them
fails, and they do what the handlers of the feature do.
-/
import Refrigerator.Butchering.Basic
import Refrigerator.Raw.Basic

namespace Refrigerator.Raw

open Lib Bindings

variable {P : Type} (engine : Engine P)

/-! ## The engine's services -/

def nearestThinkTime : Checked Binary32 := do
  let value ←
    if engine.functions.time.isNone then pure Binary32.zero
    else do
      let value ← call engine.functions.time
      pure (if !(Binary32.zero.lt value && value.isFinite) then Binary32.zero else value)
  pure (value.nextafter ((Binary32.ofNat 1).add value))

def fadeoutFreezerCapacity : Checked Nat :=
  if engine.globals.isNone then pure 0
  else if engine.functions.numberOfEntities.isNone then pure 0
  else do
    let maximum := (← engine.dereference).maxEntities
    if ¬ 0 < maximum then pure 0
    else
      let reserved := max 128 (maximum.tdiv 4)
      if ¬ reserved < maximum then pure 0
      else
        let limit := maximum - reserved
        let total ← call engine.functions.numberOfEntities
        pure (if limit > total then (limit - total).toNat else 0)

theorem nearestThinkTime_ok : nearestThinkTime engine = .ok (Butchering.nearestThinkTime engine.toFeatures) := by
  unfold nearestThinkTime Butchering.nearestThinkTime
  rw [Engine.toFeatures_functions]
  cases engine.functions.time with
  | none => rfl
  | some value => rfl

theorem fadeoutFreezerCapacity_ok :
    fadeoutFreezerCapacity engine = .ok (Butchering.fadeoutFreezerCapacity engine.toFeatures) := by
  unfold fadeoutFreezerCapacity Butchering.fadeoutFreezerCapacity Engine.dereference
  rw [Engine.toFeatures_functions, Engine.toFeatures_globals]
  cases engine.globals with
  | none => rfl
  | some globals =>
    cases engine.functions.numberOfEntities with
    | none => rfl
    | some total =>
      dsimp only [Option.map_some]
      rw [ite_isNone_some, ite_isNone_some, ok_bind]
      split_ifs with hmaximum hreserved htotal
      · exact congrArg Except.ok (if_pos htotal)
      · exact congrArg Except.ok (if_neg htotal)
      · rfl
      · rfl

/-! ## The handlers -/

section Handlers

variable [LinearOrder P] (memory : Refrigerator.Memory P) (context : Butchering.Context P)

/-- The body of the loop in `on_enter`. -/
def enterEntity (context : Butchering.Context P) (entity : P) : Checked (Butchering.Context P) := do
  let szFromIndex ← call engine.functions.szFromIndex
  let name ← viewOrEmpty (szFromIndex (memory entity).v.classname)
  if name = "" then pure context
  else if "gib" = name then pure { context with gibses := insert entity context.gibses }
  else pure context

def onEnter (entities : List P) : Checked (Butchering.Context P) :=
  if engine.functions.szFromIndex.isNone then pure context
  else entities.foldlM (enterEntity engine memory) context

def onThink [Zero P] (entity : P) : Checked (MetaBefore × Refrigerator.Memory P) :=
  if entity = 0 then pure (.ignored, memory)
  else if entity ∈ context.gibses then do
    if ¬ 0 < (← fadeoutFreezerCapacity engine) then pure (.handled, memory)
    else pure (.supercede, memory.setVariables entity (Butchering.freeze (memory entity).v))
  else pure (.ignored, memory)

def onFrame : Checked (Refrigerator.Memory P) := do
  if 0 < (← fadeoutFreezerCapacity engine) then pure memory
  else if h : context.gibses.Nonempty then
    let entity := context.gibses.min' h
    if (memory entity).v.nextthink.isFinite then pure memory
    else do
      let nextthink ← nearestThinkTime engine
      pure (memory.setVariables entity { (memory entity).v with nextthink })
  else pure memory

variable {engine memory}

theorem enterEntity_ok {szFromIndex : Int → Option String} (h : engine.functions.szFromIndex = some szFromIndex)
    (context : Butchering.Context P) (entity : P) :
    enterEntity engine memory context entity = .ok (Butchering.enterEntity szFromIndex memory context entity) := by
  unfold enterEntity Butchering.enterEntity Butchering.className
  rw [h, call_some, ok_bind, viewOrEmpty_ok, ok_bind]
  dsimp only
  split_ifs
  · rfl
  · rfl
  · rfl

variable (engine memory)

theorem onEnter_ok (entities : List P) :
    onEnter engine memory context entities = .ok (Butchering.onEnter engine.toFeatures memory context entities) := by
  unfold onEnter Butchering.onEnter
  rw [Engine.toFeatures_functions]
  cases hfunction : engine.functions.szFromIndex with
  | none => rfl
  | some szFromIndex => exact foldlM_ok entities context fun entity _ context => enterEntity_ok hfunction context entity

theorem onThink_ok [Zero P] (entity : P) :
    onThink engine memory context entity = .ok (Butchering.onThink engine.toFeatures memory context entity) := by
  unfold onThink Butchering.onThink
  rw [fadeoutFreezerCapacity_ok, ok_bind]
  split_ifs
  · rfl
  · rfl
  · rfl
  · rfl

theorem onFrame_ok :
    onFrame engine memory context = .ok (Butchering.onFrame engine.toFeatures memory context) := by
  unfold onFrame Butchering.onFrame Butchering.thawed
  rw [fadeoutFreezerCapacity_ok, ok_bind, nearestThinkTime_ok]
  split_ifs
  · rfl
  · dsimp only
    split_ifs
    · rfl
    · rfl
  · rfl

end Handlers

end Refrigerator.Raw
