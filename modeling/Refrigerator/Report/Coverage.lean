/-
The loop of `trace_target_` over an entity table with holes.

`numberOfEntities` is what `fadeout_freezer_capacity_` takes it for, the number of entities in use, and
the loop takes it as the bound of the indices: it covers the entities in use exactly if they stand
below their number.
-/
import Refrigerator.Report.Scan

namespace Refrigerator.Report

open Lib

variable {P F : Type*} [DecidableEq P] [Zero P]

/-! ## Tables -/

/-- The slots of the entity table, null where no entity is in use. -/
abbrev Table (P : Type*) := List P

namespace Table

variable (table : Table P)

/-- The entity at an index or null. -/
def entityOfIndex (index : Int) : P := if index < 0 then 0 else table.getD index.toNat 0

/-- The number of entities in use. -/
def entitiesInUse : Nat := table.countP fun entity => entity ≠ 0

/-- The engine with this table. -/
def serve (services : Services P F) : Services P F where
  __ := services
  globals.maxEntities := table.length
  numberOfEntities := table.entitiesInUse
  pEntityOfEntityIndex := table.entityOfIndex

variable {table}

omit [DecidableEq P] in
theorem entityOfIndex_eq_iff {index : Nat} {entity : P} (h : entity ≠ 0) :
    table.entityOfIndex index = entity ↔ table[index]? = some entity := by
  unfold entityOfIndex
  rw [if_neg (by omega), Int.toNat_natCast, List.getD_eq_getElem?_getD]
  cases table[index]? with
  | none => simpa using Ne.symm h
  | some other => simp

end Table

/-! ## Coverage -/

section Coverage

variable [Scalar F] (table : Table P) (services : Services P F) (memory : Memory P F) (client : P)

/-- The entity is in use at an index from 1 on, has a model, and is neither the client nor the entity
that `traceLine` hits. -/
def Wanted (entity : P) : Prop :=
  (∃ index, 1 ≤ index ∧ table[index]? = some entity) ∧ ((table.serve services).scene memory client).Eligible entity

/-- `traceModel` is called for every entity that it should be called for. -/
def Covers : Prop := ∀ entity, Wanted table services memory client entity →
  ∃ probe ∈ probes (table.serve services).engine memory client, probe.entity = entity

variable {table services memory client}

omit [Scalar F] in
theorem mem_indices_serve {index : Nat} :
    index ∈ (table.serve services).indices ↔ 1 ≤ index ∧ index < table.entitiesInUse := by
  unfold Services.indices
  rw [List.mem_range'_1]
  show 1 ≤ index ∧ index < 1 + ((table.entitiesInUse : Int).toNat - 1) ↔ _
  omega

theorem traced_iff {entity : P} :
    (∃ probe ∈ probes (table.serve services).engine memory client, probe.entity = entity) ↔
      ((table.serve services).scene memory client).Eligible entity ∧
        ∃ index, 1 ≤ index ∧ index < table.entitiesInUse ∧ table[index]? = some entity := by
  rw [Services.probes_engine, Scene.mem_emitted_iff]
  refine and_congr_right fun heligible => exists_congr fun index => ?_
  rw [mem_indices_serve, and_assoc]
  exact and_congr_right fun _ => and_congr_right fun _ => Table.entityOfIndex_eq_iff heligible.nonnull

/-- The scan covers the entities in use exactly if each of those it should trace stands at an index
below the number of entities in use. -/
theorem covers_iff : Covers table services memory client ↔
    ∀ entity, Wanted table services memory client entity →
      ∃ index, 1 ≤ index ∧ index < table.entitiesInUse ∧ table[index]? = some entity := by
  refine forall_congr' fun entity => imp_congr_right fun hwanted => ?_
  rw [traced_iff, and_iff_right hwanted.2]

end Coverage

def openServices : Services Nat Binary32 where
  globals.maxEntities := 0
  makeVectors _ := ⟨.ofNat 1, .zero, .zero⟩
  traceLine _ stop _ _ := { pHit := 0, flFraction := .ofNat 1, vecEndPos := stop }
  traceModel _ _ _ _ entity := { pHit := entity, flFraction := .zero, vecEndPos := ⟨.ofNat 100, .zero, .zero⟩ }
  numberOfEntities := 0
  pEntityOfEntityIndex _ := 0

/-- The world, the client, a hole, and a model behind it that is not traced. -/
theorem model_uncovered : ¬ Covers [1, 2, 0, 3] openServices flatMemory 2 := by
  intro h
  obtain ⟨probe, hprobe, hentity⟩ := h 3 ⟨⟨3, by decide, rfl⟩, by decide +kernel⟩
  have hnone : probes (Table.serve [1, 2, 0, 3] openServices).engine flatMemory 2 = [] := by decide +kernel
  rw [hnone] at hprobe
  exact absurd hprobe List.not_mem_nil

end Refrigerator.Report
