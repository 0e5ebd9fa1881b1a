/-
The report feature (`features/report.cxx`): `trace_target_`, which looks for the entity a client sees.

The functions are written for any type `F` of numbers with the operations C++ has on `float`. What a
trace answers may depend on anything: it gets the index of the candidate as well, which stands for
the moment of the call. The entities are examined by a machine, its inputs the indices of the loop and
its outputs the calls of `traceModel`.
-/
import Refrigerator.Engine.Basic
import Refrigerator.Lib.Machine

namespace Refrigerator.Report

open Lib

/-! ## Numbers and vectors -/

/-- The operations on numbers; `less` is `<` of C++, false on a NaN. -/
class Scalar (F : Type*) where
  ofNat : Nat → F
  add : F → F → F
  neg : F → F
  mul : F → F → F
  sqrt : F → F
  less : F → F → Bool

instance : Scalar Binary32 where
  ofNat := Binary32.ofNat
  add := Binary32.add
  neg := Binary32.neg
  mul := Binary32.mul
  sqrt := Binary32.sqrt
  less := Binary32.lt

structure Vector (F : Type*) where
  x : F
  y : F
  z : F
deriving DecidableEq, Repr

section Vectors

variable {F : Type*} [Scalar F]

def accumulateVectors (a b : Vector F) : Vector F where
  x := Scalar.add a.x b.x
  y := Scalar.add a.y b.y
  z := Scalar.add a.z b.z

def reverseVector (vector : Vector F) : Vector F where
  x := Scalar.neg vector.x
  y := Scalar.neg vector.y
  z := Scalar.neg vector.z

def vectorLength (vector : Vector F) : F :=
  Scalar.sqrt (Scalar.add (Scalar.add (Scalar.mul vector.x vector.x) (Scalar.mul vector.y vector.y))
    (Scalar.mul vector.z vector.z))

/-- The components multiplied by 8192, the length of the view. -/
def extend (vector : Vector F) : Vector F where
  x := Scalar.mul vector.x (Scalar.ofNat 8192)
  y := Scalar.mul vector.y (Scalar.ofNat 8192)
  z := Scalar.mul vector.z (Scalar.ofNat 8192)

end Vectors

/-! ## The engine -/

/-- The variables of an entity with those the scan reads. -/
structure Variables (F : Type*) extends Refrigerator.Variables where
  origin : Vector F
  viewOfs : Vector F
  vAngle : Vector F
  model : Int
  modelindex : Int

abbrev Memory (P F : Type*) := P → Variables F

/-- `trace::Result`. -/
structure Trace (P F : Type*) where
  pHit : P
  flFraction : F
  vecEndPos : Vector F
deriving DecidableEq, Repr

/-- `makeVectors` turns angles into the forward vector that it leaves in the globals. `traceLine` gets
the two ends, a flag and the entity to skip, `traceModel` the two ends, a hull and the entity. -/
structure Functions (P F : Type*) extends Engine.Functions where
  makeVectors : Option (Vector F → Vector F) := none
  traceLine : Option (Vector F → Vector F → Int → P → Trace P F) := none
  traceModel : Option (Nat → Vector F → Vector F → Int → P → Trace P F) := none
  pEntityOfEntityIndex : Option (Int → P) := none

/-- `api.engine`. -/
structure Engine (P F : Type*) where
  functions : Functions P F := {}
  globals : Option Engine.Globals := none

/-! ## The scan -/

/-- `Payload_`. -/
structure Payload (P F : Type*) where
  entity : P
  position : Vector F
deriving DecidableEq, Repr

/-- What becomes of a candidate: its trace does not hit it, the hit is not nearer than the best one, or
it is the best one now. -/
inductive Verdict
  | missed
  | rejected
  | accepted
deriving DecidableEq, Repr

/-- A call of `traceModel`: the candidate, the end point traced to, and the result. -/
structure Probe (P F : Type*) where
  entity : P
  stop : Vector F
  trace : Trace P F
  verdict : Verdict
deriving DecidableEq, Repr

/-- The cells of the loop: `better_`, `limit_` and `end_`. -/
structure Scan (P F : Type*) where
  better : P
  limit : F
  stop : Vector F
deriving DecidableEq, Repr

/-- What the loop refers to and does not change; `result` is the hit of `traceLine`. -/
structure Scene (P F : Type*) where
  memory : Memory P F
  client : P
  pEntityOfEntityIndex : Int → P
  traceModel : Nat → Vector F → Vector F → Int → P → Trace P F
  start : Vector F
  result : Option (Payload P F)

variable {P F : Type*} [DecidableEq P] [Zero P] [Scalar F]

namespace Scene

variable (scene : Scene P F)

/-- The body of the loop. -/
def examine (scan : Scan P F) (index : Nat) : Scan P F × List (Probe P F) :=
  let entity := scene.pEntityOfEntityIndex index
  if entity = 0 then (scan, [])
  else if 0 = (scene.memory entity).model then (scan, [])
  else if ¬ 0 < (scene.memory entity).modelindex then (scan, [])
  else if scene.client = entity then (scan, [])
  else if scene.result.map Payload.entity = some entity then (scan, [])
  else
    let trace := scene.traceModel index scene.start scan.stop 0 entity
    let probe verdict : Probe P F := { entity, stop := scan.stop, trace, verdict }
    if entity ≠ trace.pHit then (scan, [probe .missed])
    else if !Scalar.less trace.flFraction (Scalar.ofNat 1) then (scan, [probe .missed])
    else
      let position := trace.vecEndPos
      -- the end point is assigned in the argument, before the distance is compared
      let scan := { scan with stop := position }
      let distance := vectorLength (accumulateVectors scan.stop (reverseVector scene.start))
      if !Scalar.less distance scan.limit then (scan, [probe .rejected])
      else ({ better := entity, limit := distance, stop := position }, [probe .accepted])

def scanner : Machine (Scan P F) Nat (Probe P F) := ⟨scene.examine⟩

/-- The cells before the loop. -/
def initial (stop : Vector F) : Scan P F where
  better := 0
  limit := vectorLength (accumulateVectors stop (reverseVector scene.start))
  stop

end Scene

/-! ## The target -/

/-- What the function has found before it turns to the models: the ends of the view and what
`traceLine` answered. -/
structure Sight (P F : Type*) where
  start : Vector F
  stop : Vector F
  line : Option (Trace P F) := none

namespace Sight

/-- The trace of the line hits an entity. -/
def lineHit (trace : Trace P F) : Bool :=
  decide (trace.pHit ≠ 0) && Scalar.less trace.flFraction (Scalar.ofNat 1)

variable (sight : Sight P F)

/-- The hit of `traceLine`. -/
def result : Option (Payload P F) :=
  match sight.line with
  | none => none
  | some trace => if lineHit trace then some { entity := trace.pHit, position := trace.vecEndPos } else none

/-- The end of the view line, which a hit moves. -/
def reach : Vector F :=
  match sight.result with
  | none => sight.stop
  | some payload => payload.position

end Sight

variable (engine : Engine P F) (memory : Memory P F) (client : P)

omit [DecidableEq P] [Zero P] in
def look : Option (Sight P F) :=
  match engine.globals, engine.functions.makeVectors with
  | some _, some makeVectors =>
    let start := accumulateVectors (memory client).origin (memory client).viewOfs
    let stop := accumulateVectors start (extend (makeVectors (memory client).vAngle))
    some { start, stop, line := engine.functions.traceLine.map fun traceLine => traceLine start stop 0 client }
  | _, _ => none

/-- The loop over the models with its indices, when the engine has the functions for it. -/
def enumerate (sight : Sight P F) : Option (Scene P F × List Nat) :=
  match engine.functions.numberOfEntities, engine.functions.pEntityOfEntityIndex, engine.functions.traceModel with
  | some entities, some pEntityOfEntityIndex, some traceModel =>
    if ¬ 0 < entities then none
    else
      let scene := { memory, client, pEntityOfEntityIndex, traceModel, start := sight.start, result := sight.result }
      some (scene, List.range' 1 (entities.toNat - 1))
  | _, _, _ => none

def traceTarget : Option (Payload P F) :=
  match look engine memory client with
  | none => none
  | some sight =>
    match enumerate engine memory client sight with
    | none => sight.result
    | some (scene, indices) =>
      let scan := scene.scanner.exec (scene.initial sight.reach) indices
      if scan.better ≠ 0 then some { entity := scan.better, position := scan.stop } else sight.result

/-- The calls of `traceModel` in the order they are made. -/
def probes : List (Probe P F) :=
  match look engine memory client with
  | none => []
  | some sight =>
    match enumerate engine memory client sight with
    | none => []
    | some (scene, indices) => scene.scanner.emitted (scene.initial sight.reach) indices

end Refrigerator.Report
