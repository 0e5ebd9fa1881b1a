/-
The loop of `trace_target_` in two parts: which candidates it traces, which depends on the entities
only, and what it makes of a traced one.
-/
import Refrigerator.Report.Basic

namespace Refrigerator.Report

open Lib

namespace Scene

variable {P F : Type*} [DecidableEq P] [Zero P] [Scalar F]

/-! ## Candidates -/

variable (scene : Scene P F)

/-- The candidates that are traced. -/
structure Eligible (entity : P) : Prop where
  nonnull : entity ≠ 0
  model : (scene.memory entity).model ≠ 0
  modelindex : 0 < (scene.memory entity).modelindex
  other : entity ≠ scene.client
  unhit : scene.result.map Payload.entity ≠ some entity

instance (entity : P) : Decidable (scene.Eligible entity) :=
  decidable_of_iff (entity ≠ 0 ∧ (scene.memory entity).model ≠ 0 ∧ 0 < (scene.memory entity).modelindex ∧
      entity ≠ scene.client ∧ scene.result.map Payload.entity ≠ some entity)
    ⟨fun ⟨h, h', h'', h''', h''''⟩ => ⟨h, h', h'', h''', h''''⟩, fun h => ⟨h.1, h.2, h.3, h.4, h.5⟩⟩

/-- What a result of `traceModel` says about the candidate. -/
def judge (entity : P) (limit : F) (trace : Trace P F) : Verdict :=
  if entity ≠ trace.pHit then .missed
  else if !Scalar.less trace.flFraction (Scalar.ofNat 1) then .missed
  else if !Scalar.less (vectorLength (accumulateVectors trace.vecEndPos (reverseVector scene.start))) limit then
    .rejected
  else .accepted

/-- The call of `traceModel` for a candidate. -/
def probe (scan : Scan P F) (index : Nat) : Probe P F :=
  let entity := scene.pEntityOfEntityIndex index
  let trace := scene.traceModel index scene.start scan.stop 0 entity
  { entity, stop := scan.stop, trace, verdict := scene.judge entity scan.limit trace }

/-- The cells after an accepted candidate. -/
def accept (probe : Probe P F) : Scan P F where
  better := probe.entity
  limit := vectorLength (accumulateVectors probe.trace.vecEndPos (reverseVector scene.start))
  stop := probe.trace.vecEndPos

/-- The cells after a traced candidate. -/
def advance (scan : Scan P F) (probe : Probe P F) : Scan P F :=
  match probe.verdict with
  | .missed => scan
  | .rejected => { scan with stop := probe.trace.vecEndPos }
  | .accepted => scene.accept probe

variable {scene}

theorem examine_of_not_eligible {index : Nat} (h : ¬ scene.Eligible (scene.pEntityOfEntityIndex index))
    (scan : Scan P F) : scene.examine scan index = (scan, []) := by
  unfold examine
  dsimp only
  by_cases h0 : scene.pEntityOfEntityIndex index = 0
  · rw [if_pos h0]
  by_cases hm : 0 = (scene.memory (scene.pEntityOfEntityIndex index)).model
  · rw [if_neg h0, if_pos hm]
  by_cases hi : ¬ 0 < (scene.memory (scene.pEntityOfEntityIndex index)).modelindex
  · rw [if_neg h0, if_neg hm, if_pos hi]
  by_cases hc : scene.client = scene.pEntityOfEntityIndex index
  · rw [if_neg h0, if_neg hm, if_neg hi, if_pos hc]
  by_cases hr : scene.result.map Payload.entity = some (scene.pEntityOfEntityIndex index)
  · rw [if_neg h0, if_neg hm, if_neg hi, if_neg hc, if_pos hr]
  · exact absurd ⟨h0, Ne.symm hm, not_not.1 hi, Ne.symm hc, hr⟩ h

theorem examine_of_eligible {index : Nat} (h : scene.Eligible (scene.pEntityOfEntityIndex index)) (scan : Scan P F) :
    scene.examine scan index = (scene.advance scan (scene.probe scan index), [scene.probe scan index]) := by
  unfold examine
  dsimp only
  rw [if_neg h.nonnull, if_neg (Ne.symm h.model), if_neg (not_not.2 h.modelindex), if_neg (Ne.symm h.other),
    if_neg h.unhit]
  unfold advance probe judge
  dsimp only
  by_cases hhit : scene.pEntityOfEntityIndex index ≠
      (scene.traceModel index scene.start scan.stop 0 (scene.pEntityOfEntityIndex index)).pHit
  · rw [if_pos hhit, if_pos hhit]
  by_cases hfraction : (!Scalar.less (scene.traceModel index scene.start scan.stop 0
      (scene.pEntityOfEntityIndex index)).flFraction (Scalar.ofNat 1 : F)) = true
  · rw [if_neg hhit, if_neg hhit, if_pos hfraction, if_pos hfraction]
  by_cases hlimit : (!Scalar.less (vectorLength (accumulateVectors (scene.traceModel index scene.start scan.stop 0
      (scene.pEntityOfEntityIndex index)).vecEndPos (reverseVector scene.start))) scan.limit) = true
  · rw [if_neg hhit, if_neg hhit, if_neg hfraction, if_neg hfraction, if_pos hlimit, if_pos hlimit]
  · rw [if_neg hhit, if_neg hhit, if_neg hfraction, if_neg hfraction, if_neg hlimit, if_neg hlimit]
    rfl

/-! ## Scans -/

variable (scene)

/-- A scan that traces each eligible candidate and goes on as `go` says. -/
def scanBy (go : Scan P F → Probe P F → Scan P F) : Machine (Scan P F) Nat (Probe P F) where
  step scan index :=
    if scene.Eligible (scene.pEntityOfEntityIndex index) then
      (go scan (scene.probe scan index), [scene.probe scan index])
    else (scan, [])

theorem scanner_eq : scene.scanner = scene.scanBy scene.advance := by
  unfold scanner scanBy
  congr 1
  funext scan index
  split_ifs with h
  · exact examine_of_eligible h scan
  · exact examine_of_not_eligible h scan

variable {scene} {go : Scan P F → Probe P F → Scan P F}

theorem step_skip {index : Nat} (h : ¬ scene.Eligible (scene.pEntityOfEntityIndex index)) (scan : Scan P F) :
    (scene.scanBy go).step scan index = (scan, []) := if_neg h

theorem step_trace {index : Nat} (h : scene.Eligible (scene.pEntityOfEntityIndex index)) (scan : Scan P F) :
    (scene.scanBy go).step scan index = (go scan (scene.probe scan index), [scene.probe scan index]) := if_pos h

theorem exec_skip {index : Nat} (h : ¬ scene.Eligible (scene.pEntityOfEntityIndex index)) (scan : Scan P F)
    (indices : List Nat) : (scene.scanBy go).exec scan (index :: indices) = (scene.scanBy go).exec scan indices := by
  rw [Machine.exec_cons, Machine.next, step_skip h]

theorem emitted_skip {index : Nat} (h : ¬ scene.Eligible (scene.pEntityOfEntityIndex index)) (scan : Scan P F)
    (indices : List Nat) :
    (scene.scanBy go).emitted scan (index :: indices) = (scene.scanBy go).emitted scan indices := by
  rw [Machine.emitted_cons, Machine.emit, Machine.next, step_skip h]; rfl

theorem exec_trace {index : Nat} (h : scene.Eligible (scene.pEntityOfEntityIndex index)) (scan : Scan P F)
    (indices : List Nat) : (scene.scanBy go).exec scan (index :: indices) =
      (scene.scanBy go).exec (go scan (scene.probe scan index)) indices := by
  rw [Machine.exec_cons, Machine.next, step_trace h]

theorem emitted_trace {index : Nat} (h : scene.Eligible (scene.pEntityOfEntityIndex index)) (scan : Scan P F)
    (indices : List Nat) : (scene.scanBy go).emitted scan (index :: indices) =
      scene.probe scan index :: (scene.scanBy go).emitted (go scan (scene.probe scan index)) indices := by
  rw [Machine.emitted_cons, Machine.emit, Machine.next, step_trace h]; rfl

/-- A scan traces the eligible entities, whatever it makes of them. -/
theorem mem_emitted_iff {scan : Scan P F} {indices : List Nat} {entity : P} :
    (∃ probe ∈ (scene.scanBy go).emitted scan indices, probe.entity = entity) ↔
      scene.Eligible entity ∧ ∃ index ∈ indices, scene.pEntityOfEntityIndex index = entity := by
  induction indices generalizing scan with
  | nil => simp
  | cons index indices ih =>
    by_cases h : scene.Eligible (scene.pEntityOfEntityIndex index)
    · rw [emitted_trace h]
      simp only [List.mem_cons, exists_eq_or_imp, ih]
      constructor
      · rintro (rfl | ⟨he, hi⟩)
        · exact ⟨h, Or.inl rfl⟩
        · exact ⟨he, Or.inr hi⟩
      · rintro ⟨he, hi | hi⟩
        · exact Or.inl hi
        · exact Or.inr ⟨he, hi⟩
    · rw [emitted_skip h, ih]
      simp only [List.mem_cons, exists_eq_or_imp]
      refine and_congr_right fun he => (or_iff_right ?_).symm
      rintro rfl; exact h he

end Scene

/-! ## The function by its loop -/

section Target

variable {P F : Type*} [DecidableEq P] [Zero P] [Scalar F] {engine : Engine P F} {memory : Memory P F} {client : P}
  {sight : Sight P F} (hlook : look engine memory client = some sight)
include hlook

theorem probes_of_none (h : enumerate engine memory client sight = none) : probes engine memory client = [] := by
  unfold probes
  rw [hlook]; dsimp only
  rw [h]

theorem traceTarget_of_none (h : enumerate engine memory client sight = none) :
    traceTarget engine memory client = sight.result := by
  unfold traceTarget
  rw [hlook]; dsimp only
  rw [h]

variable {scene : Scene P F} {indices : List Nat}
  (h : enumerate engine memory client sight = some (scene, indices))
include h

theorem probes_of_some : probes engine memory client =
    (scene.scanBy scene.advance).emitted (scene.initial sight.reach) indices := by
  unfold probes
  rw [hlook]; dsimp only
  rw [h, ← scene.scanner_eq]

theorem traceTarget_of_some : traceTarget engine memory client =
    let scan := (scene.scanBy scene.advance).exec (scene.initial sight.reach) indices
    if scan.better ≠ 0 then some { entity := scan.better, position := scan.stop } else sight.result := by
  unfold traceTarget
  rw [hlook]; dsimp only
  rw [h, ← scene.scanner_eq]

end Target

/-! ## An engine with all functions -/

/-- An engine in which every function that `trace_target_` looks for is present. -/
structure Services (P F : Type*) where
  globals : Engine.Globals
  makeVectors : Vector F → Vector F
  traceLine : Vector F → Vector F → Int → P → Trace P F
  traceModel : Nat → Vector F → Vector F → Int → P → Trace P F
  numberOfEntities : Int
  pEntityOfEntityIndex : Int → P

namespace Services

variable {P F : Type*} (services : Services P F) (memory : Memory P F) (client : P)

def engine : Engine P F where
  functions.makeVectors := some services.makeVectors
  functions.traceLine := some services.traceLine
  functions.traceModel := some services.traceModel
  functions.numberOfEntities := some services.numberOfEntities
  functions.pEntityOfEntityIndex := some services.pEntityOfEntityIndex
  globals := some services.globals

/-- The indices of the loop. -/
def indices : List Nat := List.range' 1 (services.numberOfEntities.toNat - 1)

theorem indices_eq_nil {services : Services P F} (h : ¬ 0 < services.numberOfEntities) : services.indices = [] := by
  unfold indices
  rw [List.range'_eq_nil_iff]
  omega

variable [Scalar F]

/-- The client's eye. -/
def start : Vector F := accumulateVectors (memory client).origin (memory client).viewOfs

/-- The end of the view. -/
def stop : Vector F := accumulateVectors (start memory client) (extend (services.makeVectors (memory client).vAngle))

def line : Trace P F := services.traceLine (start memory client) (services.stop memory client) 0 client

def sight : Sight P F where
  start := start memory client
  stop := services.stop memory client
  line := some (services.line memory client)

theorem look_engine : look services.engine memory client = some (services.sight memory client) := rfl

variable [DecidableEq P] [Zero P]

def scene : Scene P F where
  memory
  client
  pEntityOfEntityIndex := services.pEntityOfEntityIndex
  traceModel := services.traceModel
  start := start memory client
  result := (services.sight memory client).result

/-- The cells before the loop. -/
def initial : Scan P F := (services.scene memory client).initial (services.sight memory client).reach

variable {services memory client}

theorem enumerate_engine : enumerate services.engine memory client (services.sight memory client) =
    if ¬ 0 < services.numberOfEntities then none else some (services.scene memory client, services.indices) := rfl

theorem probes_engine : probes services.engine memory client =
    ((services.scene memory client).scanBy (services.scene memory client).advance).emitted
      (services.initial memory client) services.indices := by
  have hlook := services.look_engine memory client
  by_cases h : ¬ 0 < services.numberOfEntities
  · rw [indices_eq_nil h]
    exact probes_of_none hlook (enumerate_engine.trans (if_pos h))
  · exact probes_of_some hlook (enumerate_engine.trans (if_neg h))

theorem traceTarget_engine : traceTarget services.engine memory client =
    let scan := ((services.scene memory client).scanBy (services.scene memory client).advance).exec
      (services.initial memory client) services.indices
    if scan.better ≠ 0 then some { entity := scan.better, position := scan.stop }
    else (services.sight memory client).result := by
  have hlook := services.look_engine memory client
  by_cases h : ¬ 0 < services.numberOfEntities
  · rw [traceTarget_of_none hlook (enumerate_engine.trans (if_pos h)), indices_eq_nil h]
    exact (if_neg (not_not.2 rfl)).symm
  · exact traceTarget_of_some hlook (enumerate_engine.trans (if_neg h))

end Services

/-- Every entity has a model and stands at the origin. -/
def flatMemory {P F : Type*} [Scalar F] : Memory P F := fun _ =>
  let origin := ⟨Scalar.ofNat 0, Scalar.ofNat 0, Scalar.ofNat 0⟩
  { origin, viewOfs := origin, vAngle := origin, model := 1, modelindex := 1 }

end Refrigerator.Report
