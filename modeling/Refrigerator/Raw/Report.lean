/-
The target trace on raw pointers. The loop calls two services through the table again and again, which
it has tested before it; it takes the same steps as the scan.
-/
import Refrigerator.Raw.Basic

namespace Refrigerator.Raw

open Lib Report

variable {P : Type} [DecidableEq P] [Zero P] (engine : Engine P) (memory : Report.Memory P Binary32) (client : P)

/-! ## The scan -/

/-- The body of the loop; `start` and `result` are the cells it does not change. -/
def examine (start : Vector Binary32) (result : Option (Payload P Binary32)) (scan : Scan P Binary32) (index : Nat) :
    Checked (Scan P Binary32) := do
  let pEntityOfEntityIndex ← call engine.functions.pEntityOfEntityIndex
  let entity := pEntityOfEntityIndex index
  if entity = 0 then pure scan
  else do
    let v ← dereference memory entity
    if 0 = v.model then pure scan
    else if ¬ 0 < v.modelindex then pure scan
    else if client = entity then pure scan
    else if result.map Payload.entity = some entity then pure scan
    else do
      let traceModel ← call engine.functions.traceModel
      let trace := traceModel index start scan.stop 0 entity
      if entity ≠ trace.pHit then pure scan
      else if !Scalar.less trace.flFraction (Scalar.ofNat 1) then pure scan
      else
        let position := trace.vecEndPos
        let scan := { scan with stop := position }
        let distance := vectorLength (accumulateVectors scan.stop (reverseVector start))
        if !Scalar.less distance scan.limit then pure scan
        else pure { better := entity, limit := distance, stop := position }

/-- The part of `trace_target_` that looks at the models. -/
def scanModels (sight : Sight P Binary32) : Checked (Option (Payload P Binary32)) :=
  if engine.functions.numberOfEntities.isNone then pure sight.result
  else if engine.functions.pEntityOfEntityIndex.isNone then pure sight.result
  else if engine.functions.traceModel.isNone then pure sight.result
  else do
    let entities ← call engine.functions.numberOfEntities
    if ¬ 0 < entities then pure sight.result
    else do
      let limit := vectorLength (accumulateVectors sight.reach (reverseVector sight.start))
      let scan ← (List.range' 1 (entities.toNat - 1)).foldlM (examine engine memory client sight.start sight.result)
        { better := 0, limit, stop := sight.reach }
      pure (if scan.better ≠ 0 then some { entity := scan.better, position := scan.stop } else sight.result)

omit [DecidableEq P] [Zero P] in
def traceLine (start stop : Vector Binary32) : Checked (Option (Trace P Binary32)) :=
  if engine.functions.traceLine.isNone then pure none
  else do
    let traceLine ← call engine.functions.traceLine
    pure (some (traceLine start stop 0 client))

omit [DecidableEq P] [Zero P] in
/-- The part of `trace_target_` before the models. -/
def look : Checked (Option (Sight P Binary32)) :=
  if engine.globals.isNone then pure none
  else if engine.functions.makeVectors.isNone then pure none
  else do
    let start := accumulateVectors (memory client).origin (memory client).viewOfs
    let makeVectors ← call engine.functions.makeVectors
    -- the forward vector is read from the globals
    let _ ← engine.dereference
    let stop := accumulateVectors start (extend (makeVectors (memory client).vAngle))
    let line ← traceLine engine client start stop
    pure (some { start, stop, line })

def traceTarget : Checked (Option (Payload P Binary32)) := do
  match ← look engine memory client with
  | none => pure none
  | some sight => scanModels engine memory client sight

/-! ## No faults -/

variable {engine memory client}

theorem examine_ok {pEntityOfEntityIndex : Int → P}
    {traceModel : Nat → Vector Binary32 → Vector Binary32 → Int → P → Trace P Binary32}
    (hindex : engine.functions.pEntityOfEntityIndex = some pEntityOfEntityIndex)
    (hmodel : engine.functions.traceModel = some traceModel) (start : Vector Binary32)
    (result : Option (Payload P Binary32)) (scan : Scan P Binary32) (index : Nat) :
    examine engine memory client start result scan index =
      .ok (Scene.examine { memory, client, pEntityOfEntityIndex, traceModel, start, result } scan index).1 := by
  unfold examine Scene.examine
  rw [hindex, hmodel, call_some, ok_bind]
  dsimp only
  by_cases h0 : pEntityOfEntityIndex index = 0
  · rw [if_pos h0, if_pos h0]
    rfl
  · rw [if_neg h0, if_neg h0, dereference_ok h0, ok_bind, call_some, ok_bind]
    -- the two sides take the same branches
    simp only [apply_ite Prod.fst, apply_ite Except.ok]
    rfl

theorem scanModels_ok (sight : Sight P Binary32) :
    scanModels engine memory client sight = .ok (match enumerate engine.toReport memory client sight with
      | none => sight.result
      | some (scene, indices) =>
        let scan := scene.scanner.exec (scene.initial sight.reach) indices
        if scan.better ≠ 0 then some { entity := scan.better, position := scan.stop } else sight.result) := by
  unfold scanModels enumerate
  rw [Engine.toReport_functions]
  cases hentities : engine.functions.numberOfEntities with
  | none => rfl
  | some entities =>
    cases hindex : engine.functions.pEntityOfEntityIndex with
    | none => rfl
    | some pEntityOfEntityIndex =>
      cases hmodel : engine.functions.traceModel with
      | none => rfl
      | some traceModel =>
        dsimp only
        rw [ite_isNone_some, ite_isNone_some, ite_isNone_some, call_some, ok_bind]
        by_cases hpositive : 0 < entities
        · rw [if_neg (not_not.2 hpositive), if_neg (not_not.2 hpositive),
            foldlM_ok _ _ fun index _ scan => examine_ok hindex hmodel sight.start sight.result scan index, ok_bind]
          dsimp only
          rw [Machine.exec_eq_foldl]
          rfl
        · rw [if_pos hpositive, if_pos hpositive]
          rfl

omit [DecidableEq P] [Zero P] in
theorem traceLine_ok (start stop : Vector Binary32) : traceLine engine client start stop =
    .ok (engine.functions.traceLine.map fun traceLine => traceLine start stop 0 client) := by
  unfold traceLine
  cases engine.functions.traceLine with
  | none => rfl
  | some traceLine => rfl

variable (engine memory client)

omit [DecidableEq P] [Zero P] in
theorem look_ok : look engine memory client = .ok (Report.look engine.toReport memory client) := by
  unfold look Report.look Engine.dereference
  rw [Engine.toReport_globals, Engine.toReport_functions]
  cases engine.globals with
  | none => rfl
  | some globals =>
    cases engine.functions.makeVectors with
    | none => rfl
    | some makeVectors =>
      dsimp only [Option.map_some]
      rw [ite_isNone_some, ite_isNone_some, call_some, ok_bind, ok_bind, traceLine_ok, ok_bind]
      rfl

theorem traceTarget_ok :
    traceTarget engine memory client = .ok (Report.traceTarget engine.toReport memory client) := by
  unfold traceTarget Report.traceTarget
  rw [look_ok, ok_bind]
  cases Report.look engine.toReport memory client with
  | none => rfl
  | some sight =>
    dsimp only
    rw [scanModels_ok]
    cases enumerate engine.toReport memory client sight with
    | none => rfl
    | some models => rfl

/-- Neither the line nor the models lead to a null entity. -/
theorem traceTarget_nonnull {target : Payload P Binary32}
    (h : Report.traceTarget engine.toReport memory client = some target) : target.entity ≠ 0 := by
  have hline {sight : Sight P Binary32} (h : sight.result = some target) : target.entity ≠ 0 := by
    unfold Sight.result at h
    split at h
    · cases h
    · split_ifs at h with hhit
      cases h
      exact of_decide_eq_true (Bool.and_eq_true_iff.1 hhit).1
  unfold Report.traceTarget at h
  split at h
  · cases h
  · split at h
    · exact hline h
    · dsimp only at h
      split_ifs at h with hbetter
      · cases h
        exact hbetter
      · exact hline h

end Refrigerator.Raw
