/-
The engine's data as the features read and write it: entity dictionaries in a memory addressed by
pointers, the globals and the function table of `api.engine`, and the hook globals of metamod.

Pointers are the elements of a type `P` with a null pointer `0`. A memory gives every address a
dictionary, the null one included, so what a null dereference reads is left open. A function
pointer is `none` when it is null and otherwise stands for what the function answers at present.
-/
import Refrigerator.Lib.Binary32
import Mathlib.Logic.Function.Basic

namespace Refrigerator

open Lib

/-! ## Entities -/

inductive IntegerBoolean
  | false
  | true
deriving DecidableEq, Repr

/-- The solidity of an entity, in the engine's order. -/
inductive Solid
  | not
  | trigger
  | bBox
  | slideBox
  | bsp
deriving DecidableEq, Repr

def Solid.rank : Solid → Nat
  | .not => 0
  | .trigger => 1
  | .bBox => 2
  | .slideBox => 3
  | .bsp => 4

/-- `classname` is an index into the engine's strings. -/
structure Variables where
  classname : Int := 0
  solid : Solid := .not
  renderamt : Binary32 := .zero
  nextthink : Binary32 := .zero
deriving DecidableEq, Repr

/-- `entity::Dictionary`. -/
structure Dictionary where
  free : IntegerBoolean := .false
  v : Variables := {}
deriving DecidableEq, Repr

abbrev Memory (P : Type*) := P → Dictionary

namespace Memory

variable {P : Type*} (memory : Memory P)

/-- The test `Boolean_::False != entity->free`. -/
def isFree (entity : P) : Bool := IntegerBoolean.false != (memory entity).free

variable [DecidableEq P]

/-- The memory in which exactly the listed entities are free. -/
def freeing (entities : List P) : Memory P := fun entity =>
  { free := if entity ∈ entities then .true else .false }

def setFree (entity : P) (free : IntegerBoolean) : Memory P :=
  Function.update memory entity { memory entity with free }

def setVariables (entity : P) (v : Variables) : Memory P :=
  Function.update memory entity { memory entity with v }

theorem isFree_setVariables (entity other : P) (v : Variables) :
    (memory.setVariables entity v).isFree other = memory.isFree other := by
  unfold isFree setVariables
  by_cases h : other = entity
  · subst h; simp
  · simp [h]

theorem isFree_setFree (entity other : P) (free : IntegerBoolean) :
    (memory.setFree entity free).isFree other =
      if other = entity then IntegerBoolean.false != free else memory.isFree other := by
  unfold isFree setFree
  by_cases h : other = entity
  · subst h; simp
  · simp [h]

theorem v_setVariables (entity other : P) (v : Variables) :
    (memory.setVariables entity v other).v = if other = entity then v else (memory other).v := by
  unfold setVariables
  by_cases h : other = entity
  · subst h; simp
  · simp [h]

theorem v_setFree (entity other : P) (free : IntegerBoolean) :
    (memory.setFree entity free other).v = (memory other).v := by
  unfold setFree
  by_cases h : other = entity
  · subst h; simp
  · simp [h]

end Memory

/-! ## Services -/

namespace Engine

structure Globals where
  maxEntities : Int
deriving DecidableEq, Repr

structure Functions where
  time : Option Binary32 := none
  numberOfEntities : Option Int := none
  szFromIndex : Option (Int → Option String) := none

end Engine

/-- `api.engine`. -/
structure Engine where
  functions : Engine.Functions := {}
  globals : Option Engine.Globals := none

/-! ## Hooks -/

namespace Metamod

/-- `plugin::HookResult`, in its order. -/
inductive HookResult
  | unset
  | ignored
  | handled
  | override
  | supercede
deriving DecidableEq, Repr

/-- The result of the running hook, and the addresses of the return values that the engine function
and an overriding plugin left, as the pointers stored there. -/
structure Globals (P : Type*) where
  current : HookResult := .unset
  original : Option P := none
  override : Option P := none
deriving DecidableEq, Repr

end Metamod

end Refrigerator
