/-
The cells of the hosts: which calls write them, and what.

The entry points of `root_.cxx` write through `*plugin`, those that fill a table write the table and the
version of its interface. With the registry a table that is cleared is also filled.
-/
import Refrigerator.Lifecycle.Calls
import Refrigerator.Plugin.Basic

namespace Refrigerator.Plugin

open Lib Bindings

variable {P G T X : Type}

/-! ## Writing -/

@[simp] theorem store_none {V : Type} (cells : Nat → V) (pointer : Option Nat) : store cells pointer none = cells := by
  unfold store
  cases pointer <;> rfl

theorem store_some {V : Type} (cells : Nat → V) (address : Nat) (value : V) (a : Nat) :
    store cells (some address) (some value) a = if a = address then value else cells a := by
  show Function.update cells address value a = _
  rw [Function.update_apply]

/-- What is stored at the address is there, and nothing is stored without one. -/
theorem store_pointer {V : Type} {cells : Nat → V} {pointer : Option Nat} {value : Option V} {a : Nat}
    (h : pointer = some a → value = none ∨ value = some (cells a)) : store cells pointer value a = cells a := by
  unfold store
  cases pointer with
  | none => rfl
  | some address =>
    cases value with
    | none => rfl
    | some value =>
      show Function.update cells address value a = _
      by_cases ha : a = address
      · subst ha
        rcases h rfl with h | h
        · cases h
        · rw [Function.update_self, Option.some.inj h]
      · rw [Function.update_of_ne ha]

/-! ## Tables -/

section Tables

variable {Slot : Type}

/-- The executors of a phase in a table, and nothing else. -/
def executors (interface : Interface Slot) (phase : Phase) : Table Slot Nat := fun slot =>
  (interface.target slot).map (Entry.executor phase)

/-- A table that is handed over is filled if its version is acceptable, and else stays. -/
theorem store_negotiated {interface : Interface Slot} {phase : Phase} {acceptable : Prop} {cells : Nat → Table Slot Nat}
    {pointer : Option Nat} {offer : Offer Slot Nat} {result : Bool × Offer Slot Nat}
    (h : Negotiated interface.target phase acceptable offer result) (hfunctions : offer.functions = pointer.map cells)
    (hregistry : offer.registry = true) (a : Nat) :
    ((pointer = some a ∧ acceptable) ∧ store cells pointer result.2.functions a = executors interface phase) ∨
      (¬ (pointer = some a ∧ acceptable) ∧ store cells pointer result.2.functions a = cells a) := by
  by_cases hfilled : pointer = some a ∧ acceptable
  · obtain ⟨rfl, hacceptable⟩ := hfilled
    have haccepted := h.accepted (h.accepted_iff.2 ⟨by rw [hfunctions]; rfl, hacceptable, hregistry⟩)
    refine Or.inl ⟨⟨rfl, hacceptable⟩, ?_⟩
    rw [haccepted, store_some, if_pos rfl]
    rfl
  · refine Or.inr ⟨hfilled, store_pointer fun hpointer => Or.inr ?_⟩
    subst hpointer
    have hno : ¬ acceptable := fun hacceptable => hfilled ⟨rfl, hacceptable⟩
    have hrefused : result.1 = false := Bool.eq_false_iff.2 fun htrue => hno (h.accepted_iff.1 htrue).2.1
    rw [h.kept hrefused fun hall => hno hall.2, hfunctions]
    rfl

/-- The version of the interface is written where both pointers are there. -/
theorem apiPointer_version (interface : Interface Slot) (phase : Phase) (offer : Offer Slot Nat) :
    (interface.apiPointer phase offer).2.version =
      if offer.functions.isSome then offer.version.map fun _ => interface.version else offer.version := by
  obtain ⟨functions, version, registry, log⟩ := offer
  unfold Interface.apiPointer Interface.install
  cases functions with
  | none => rfl
  | some functions =>
    cases version with
    | none => rfl
    | some version =>
      dsimp only
      by_cases hlt : version < interface.version
      · rw [if_pos hlt]
        rfl
      · rw [if_neg hlt]
        cases registry <;> rfl

/-- What becomes of the version at an address. -/
theorem store_version (interface : Interface Slot) (phase : Phase) {offer : Offer Slot Nat}
    {tables : Nat → Table Slot Nat} {cells : Nat → Int} {functions pointer : Option Nat}
    (hfunctions : offer.functions = functions.map tables) (hversion : offer.version = pointer.map cells) (a : Nat) :
    (∃ v, ((functions ≠ none ∧ pointer = some a) ∧ v = interface.version) ∧
        store cells pointer (interface.apiPointer phase offer).2.version a = v) ∨
      ((∀ v, ¬ ((functions ≠ none ∧ pointer = some a) ∧ v = interface.version)) ∧
        store cells pointer (interface.apiPointer phase offer).2.version a = cells a) := by
  rw [apiPointer_version, hversion, hfunctions, Option.isSome_map]
  by_cases hwritten : functions ≠ none ∧ pointer = some a
  · obtain ⟨hne, rfl⟩ := hwritten
    refine Or.inl ⟨interface.version, ⟨⟨hne, rfl⟩, rfl⟩, ?_⟩
    rw [if_pos (Option.isSome_iff_ne_none.2 hne), Option.map_some, Option.map_some, store_some, if_pos rfl]
  · refine Or.inr ⟨fun v h => hwritten h.1, store_pointer fun hpointer => Or.inr ?_⟩
    subst hpointer
    obtain rfl : functions = none := not_not.1 fun h => hwritten ⟨h, rfl⟩
    rfl

end Tables

namespace TableCall

variable (build : Build T) (cells : Cells T) (phase : Phase)

/-- The call has the table of `game::functions::Standard` at the address filled. -/
def StandardAt (a : Nat) : TableCall → Prop
  | .standard functions version => functions = some a ∧ version = build.standard
  | .standardPointer functions version => functions = some a ∧ AtLeast build.standard (version.map cells.version)
  | _ => False

def ExtensionAt (a : Nat) : TableCall → Prop
  | .extension functions version => functions = some a ∧ AtLeast build.extension (version.map cells.version)
  | _ => False

def EngineAt (a : Nat) : TableCall → Prop
  | .engine functions version => functions = some a ∧ AtLeast build.engine (version.map cells.version)
  | _ => False

/-- The call writes the version of its interface to the address. -/
def VersionAt (a : Nat) (v : Int) : TableCall → Prop
  | .standard _ _ => False
  | .standardPointer functions version => (functions ≠ none ∧ version = some a) ∧ v = build.standard
  | .extension functions version => (functions ≠ none ∧ version = some a) ∧ v = build.extension
  | .engine functions version => (functions ≠ none ∧ version = some a) ∧ v = build.engine

variable {build} in
theorem versionAt_unique (call : TableCall) {a : Nat} {v v' : Int} (h : call.VersionAt build a v)
    (h' : call.VersionAt build a v') : v = v' := by
  cases call with
  | standard functions version => exact h.elim
  | standardPointer functions version => rw [h.2, h'.2]
  | extension functions version => rw [h.2, h'.2]
  | engine functions version => rw [h.2, h'.2]

theorem run_standard (call : TableCall) (a : Nat) :
    (call.StandardAt build cells a ∧
        (call.run build true phase cells).2.2.standard a = executors (standardInterface build.standard) phase) ∨
      (¬ call.StandardAt build cells a ∧ (call.run build true phase cells).2.2.standard a = cells.standard a) := by
  cases call with
  | standard functions version =>
    exact store_negotiated (apiStandard_negotiated build.standard phase version _) rfl rfl a
  | standardPointer functions version =>
    unfold run StandardAt
    dsimp only
    rw [apiStandardPointer_eq]
    let offer : Offer StandardSlot Nat :=
      { functions := functions.map cells.standard, version := version.map cells.version, registry := true }
    exact store_negotiated ((standardInterface build.standard).apiPointer_negotiated phase offer) rfl rfl a
  | extension functions version => exact Or.inr ⟨id, rfl⟩
  | engine functions version => exact Or.inr ⟨id, rfl⟩

theorem run_extension (call : TableCall) (a : Nat) :
    (call.ExtensionAt build cells a ∧
        (call.run build true phase cells).2.2.extension a = executors (extensionInterface build.extension) phase) ∨
      (¬ call.ExtensionAt build cells a ∧ (call.run build true phase cells).2.2.extension a = cells.extension a) := by
  cases call with
  | extension functions version =>
    let offer : Offer ExtensionSlot Nat :=
      { functions := functions.map cells.extension, version := version.map cells.version, registry := true }
    exact store_negotiated ((extensionInterface build.extension).apiPointer_negotiated phase offer) rfl rfl a
  | standard functions version => exact Or.inr ⟨id, rfl⟩
  | standardPointer functions version => exact Or.inr ⟨id, rfl⟩
  | engine functions version => exact Or.inr ⟨id, rfl⟩

theorem run_engine (call : TableCall) (a : Nat) :
    (call.EngineAt build cells a ∧
        (call.run build true phase cells).2.2.engine a = executors (engineInterface build.engine) phase) ∨
      (¬ call.EngineAt build cells a ∧ (call.run build true phase cells).2.2.engine a = cells.engine a) := by
  cases call with
  | engine functions version =>
    let offer : Offer EngineSlot Nat :=
      { functions := functions.map cells.engine, version := version.map cells.version, registry := true }
    exact store_negotiated ((engineInterface build.engine).apiPointer_negotiated phase offer) rfl rfl a
  | standard functions version => exact Or.inr ⟨id, rfl⟩
  | standardPointer functions version => exact Or.inr ⟨id, rfl⟩
  | extension functions version => exact Or.inr ⟨id, rfl⟩

theorem run_version (call : TableCall) (a : Nat) :
    (∃ v, call.VersionAt build a v ∧ (call.run build true phase cells).2.2.version a = v) ∨
      ((∀ v, ¬ call.VersionAt build a v) ∧ (call.run build true phase cells).2.2.version a = cells.version a) := by
  cases call with
  | standard functions version => exact Or.inr ⟨fun _ => id, rfl⟩
  | standardPointer functions version =>
    unfold run VersionAt
    dsimp only
    rw [apiStandardPointer_eq]
    exact store_version (standardInterface build.standard) phase rfl rfl a
  | extension functions version => exact store_version (extensionInterface build.extension) phase rfl rfl a
  | engine functions version => exact store_version (engineInterface build.engine) phase rfl rfl a

/-- The other cells stay. -/
theorem run_plugin (registry : Bool) (call : TableCall) :
    (call.run build registry phase cells).2.2.info = cells.info ∧
      (call.run build registry phase cells).2.2.functions = cells.functions := by
  cases call <;> exact ⟨rfl, rfl⟩

end TableCall

/-! ## The entry points -/

namespace Setting

variable [Inhabited T] (setting : Setting P G T) (call : Lifecycle.Call G T X) (cell a : Nat)

theorem call_info :
    ((cell = a ∧ call.Introduces setting.api.metamod.plugin.info) ∧
        (setting.call call cell).1.host.cells.info a = some setting.api.metamod.plugin.info) ∨
      (¬ (cell = a ∧ call.Introduces setting.api.metamod.plugin.info) ∧
        (setting.call call cell).1.host.cells.info a = setting.host.cells.info a) := by
  have hcells : (setting.call call cell).1.host.cells.info =
      store setting.host.cells.info (some cell) ((call.run setting.api).2.info.map some) := rfl
  rw [hcells]
  rcases Lifecycle.run_info call setting.api with ⟨hwrites, heq⟩ | ⟨hno, heq⟩
  · rw [heq, Option.map_some, store_some]
    by_cases ha : cell = a
    · exact Or.inl ⟨⟨ha, hwrites⟩, if_pos ha.symm⟩
    · exact Or.inr ⟨fun h => ha h.1, if_neg (Ne.symm ha)⟩
  · rw [heq, Option.map_none, store_none]
    exact Or.inr ⟨fun h => hno h.2, rfl⟩

theorem call_functions :
    ((cell = a ∧ call.Supplies (setting.api.engine.globals ≠ none)) ∧
        (setting.call call cell).1.host.cells.functions a = setting.api.metamod.plugin.functions) ∨
      (¬ (cell = a ∧ call.Supplies (setting.api.engine.globals ≠ none)) ∧
        (setting.call call cell).1.host.cells.functions a = setting.host.cells.functions a) := by
  have hcells : (setting.call call cell).1.host.cells.functions =
      store setting.host.cells.functions (some cell) (call.run setting.api).2.functions := rfl
  rw [hcells]
  rcases Lifecycle.run_functions call setting.api with ⟨hwrites, heq⟩ | ⟨hno, heq⟩
  · rw [heq, store_some]
    by_cases ha : cell = a
    · exact Or.inl ⟨⟨ha, hwrites⟩, if_pos ha.symm⟩
    · exact Or.inr ⟨fun h => ha h.1, if_neg (Ne.symm ha)⟩
  · rw [heq, store_none]
    exact Or.inr ⟨fun h => hno h.2, rfl⟩

end Setting

end Refrigerator.Plugin
