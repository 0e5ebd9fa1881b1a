/-
The features on raw pointers: every call of a service, every use of the globals, every string view and
every look at an entity is a step that fails when the pointer is null.

The engine has what all features read of it; `toReport` and `toFeatures` are the parts that the other
models have. A test of the code is `isNone`, a use `call`, `dereference` or `view`.
-/
import Refrigerator.Report.Basic

namespace Refrigerator.Raw

open Lib

/-! ## Faults -/

/-- What a null pointer is used as; `metamod` stands for metamod's globals and for the values they point to. -/
inductive Fault
  | function
  | globals
  | string
  | entity
  | metamod
deriving DecidableEq, Repr

abbrev Checked := Except Fault

def call {A : Type} : Option A → Checked A
  | none => .error .function
  | some function => .ok function

/-- `std::string_view`. -/
def view : Option String → Checked String
  | none => .error .string
  | some text => .ok text

def pointee {A : Type} : Option A → Checked A
  | none => .error .metamod
  | some value => .ok value

section Entities

variable {P D : Type} [DecidableEq P] [Zero P]

/-- `*entity`. -/
def dereference (memory : P → D) (entity : P) : Checked D := if entity = 0 then .error .entity else .ok (memory entity)

theorem dereference_ok {memory : P → D} {entity : P} (h : entity ≠ 0) :
    dereference memory entity = .ok (memory entity) := if_neg h

end Entities

@[simp] theorem ok_bind {A B : Type} (a : A) (next : A → Checked B) : ((.ok a : Checked A) >>= next) = next a := rfl

/-- Behind its test a service is not null. -/
@[simp] theorem ite_isNone_some {A B : Type} (a : A) (x y : B) : (if (some a).isNone then x else y) = y := rfl

@[simp] theorem call_some {A : Type} (function : A) : call (some function) = .ok function := rfl

@[simp] theorem view_some (text : String) : view (some text) = .ok text := rfl

@[simp] theorem pointee_some {A : Type} (value : A) : pointee (some value) = .ok value := rfl

/-- The view of a string that is tested first. -/
def viewOrEmpty (pointer : Option String) : Checked String := if pointer.isNone then pure "" else view pointer

theorem viewOrEmpty_ok (pointer : Option String) : viewOrEmpty pointer = .ok (pointer.getD "") := by
  cases pointer with
  | none => rfl
  | some text => rfl

/-- A computation that comes to its end. -/
def Safe {A : Type} (computation : Checked A) : Prop := ∃ a, computation = .ok a

@[simp] theorem safe_ok {A : Type} (a : A) : Safe (.ok a) := ⟨a, rfl⟩

@[simp] theorem not_safe_error {A : Type} (fault : Fault) : ¬ Safe (.error fault : Checked A) := by
  rintro ⟨a, h⟩; cases h

/-- A loop whose steps do not fail. -/
theorem foldlM_ok {A B : Type} {step : B → A → Checked B} {next : B → A → B} :
    ∀ (l : List A) (b : B), (∀ a ∈ l, ∀ b, step b a = .ok (next b a)) → l.foldlM step b = .ok (l.foldl next b)
  | [], _, _ => rfl
  | a :: l, b, h => by
    obtain ⟨ha, hl⟩ := List.forall_mem_cons.1 h
    rw [List.foldlM_cons, ha]
    exact foldlM_ok l (next b a) hl

/-! ## The engine -/

/-- `clientPrintf` returns nothing. -/
structure Functions (P : Type) extends toReport : Report.Functions P Binary32 where
  cmdArgc : Option Int := none
  cmdArgv : Option (Int → Option String) := none
  clientPrintf : Option Unit := none

structure Globals extends Engine.Globals where
  time : Binary32

/-- `api.engine`. -/
structure Engine (P : Type) where
  functions : Functions P := {}
  globals : Option Globals := none

namespace Engine

variable {P : Type} (engine : Engine P)

def toReport : Report.Engine P Binary32 where
  functions := engine.functions.toReport
  globals := engine.globals.map Globals.toGlobals

def toFeatures : Refrigerator.Engine where
  functions := engine.functions.toReport.toFunctions
  globals := engine.globals.map Globals.toGlobals

theorem toReport_functions : engine.toReport.functions = engine.functions.toReport := rfl

theorem toReport_globals : engine.toReport.globals = engine.globals.map Globals.toGlobals := rfl

theorem toFeatures_functions : engine.toFeatures.functions = engine.functions.toReport.toFunctions := rfl

theorem toFeatures_globals : engine.toFeatures.globals = engine.globals.map Globals.toGlobals := rfl

def dereference : Checked Globals :=
  match engine.globals with
  | none => .error .globals
  | some globals => .ok globals

end Engine

end Refrigerator.Raw
