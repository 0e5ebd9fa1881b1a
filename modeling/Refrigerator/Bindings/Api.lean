/-
The function tables of the plugin (`Private_::api` of `bindings.cxx`): the host hands a table over, and
the plugin fills it with the executors of its targets if the versions of the interface agree.

A table is a function of its slots, of which the models name those the plugin fills; `E` are the
functions of others. The version of an interface, `api::version`, is a parameter. The text of a mismatch
is the stream's contents: that it is read on to a null character, which need not follow, is left out.
-/
import Refrigerator.Bindings.Basic

namespace Refrigerator.Bindings

/-! ## Tables -/

/-- `Executor_<target>::execute<phase>`, or the function of somebody else. -/
inductive Entry (E : Type*)
  | executor (phase : Phase) (target : Target)
  | foreign (function : E)

/-- A table, with the slots that are not null. -/
abbrev Table (Slot E : Type*) := Slot → Option (Entry E)

/-- `game::functions::Standard`. -/
inductive StandardSlot
  | gameInit
  | spawn
  | think
  | clientCommand
  | startFrame
  | other (name : String)

/-- `game::functions::Extension`. -/
inductive ExtensionSlot
  | gameShutdown
  | other (name : String)

/-- `engine::Functions`. -/
inductive EngineSlot
  | createEntity
  | removeEntity
  | createNamedEntity
  | other (name : String)

/-- The version of a table's interface, and the targets of the slots that the plugin fills. -/
structure Interface (Slot : Type*) where
  version : Int
  target : Slot → Option Target

def standardInterface (version : Int) : Interface StandardSlot where
  version
  target
    | .gameInit => some .init
    | .spawn => some .spawn
    | .think => some .think
    | .clientCommand => some .clientCommand
    | .startFrame => some .frame
    | .other _ => none

def extensionInterface (version : Int) : Interface ExtensionSlot where
  version
  target
    | .gameShutdown => some .shutdown
    | .other _ => none

def engineInterface (version : Int) : Interface EngineSlot where
  version
  target
    | .createEntity => some .createEntity
    | .removeEntity => some .removeEntity
    | .createNamedEntity => some .createNamedEntity
    | .other _ => none

/-! ## Calls -/

/-- The exceptions that are logged. -/
inductive Refusal
  | invalidArgument (what : String)
  | logicError (what : String)
deriving DecidableEq

/-- The cells behind the pointers the host hands over, whether `bindings.private_` is there, and the log. -/
structure Offer (Slot E : Type*) where
  functions : Option (Table Slot E)
  version : Option Int := none
  registry : Bool
  log : List Refusal := []

variable {Slot E : Type*}

/-- The `catch`. -/
def Offer.refuse (offer : Offer Slot E) (refusal : Refusal) : Bool × Offer Slot E :=
  (false, { offer with log := offer.log ++ [refusal] })

namespace Interface

variable (interface : Interface Slot)

/-- The assignments of the executors. -/
def fill (phase : Phase) (functions : Table Slot E) : Table Slot E := fun slot =>
  match interface.target slot with
  | none => functions slot
  | some target => some (.executor phase target)

/-- What follows the checks of the arguments. -/
def install (phase : Phase) (offer : Offer Slot E) : Bool × Offer Slot E :=
  -- the table is cleared before the registry is looked at
  let functions : Table Slot E := fun _ => none
  let offer := { offer with functions := some functions }
  if !offer.registry then offer.refuse (.logicError "invalid state")
  else (true, { offer with functions := some (interface.fill phase functions) })

def mismatchPointer (version : Int) : Refusal :=
  .invalidArgument
    ("interface version mismatch: plugin[" ++ toString interface.version ++ "] > game[" ++ toString version ++ "]")

/-- `api` with a pointer to the version. -/
def apiPointer (phase : Phase) (offer : Offer Slot E) : Bool × Offer Slot E :=
  match offer.functions, offer.version with
  | none, _ => offer.refuse (.invalidArgument "empty functions pointer")
  | some _, none => offer.refuse (.invalidArgument "empty version pointer")
  | some _, some version =>
    let offer := { offer with version := some interface.version }
    if version < interface.version then offer.refuse (interface.mismatchPointer version)
    else interface.install phase offer

end Interface

def apiStandard (plugin : Int) (phase : Phase) (version : Int) (offer : Offer StandardSlot E) :
    Bool × Offer StandardSlot E :=
  match offer.functions with
  | none => offer.refuse (.invalidArgument "empty functions pointer")
  | some _ =>
    if plugin ≠ version then
      offer.refuse (.invalidArgument
        ("interface version mismatch: plugin[" ++ toString plugin ++ "] != game[" ++ toString version ++ "]"))
    else (standardInterface plugin).install phase offer

/-- It leaves the table to `apiStandard`, with the version it has written. -/
def apiStandardPointer (plugin : Int) (phase : Phase) (offer : Offer StandardSlot E) :
    Bool × Offer StandardSlot E :=
  match offer.functions, offer.version with
  | none, _ => offer.refuse (.invalidArgument "empty functions pointer")
  | some _, none => offer.refuse (.invalidArgument "empty version pointer")
  | some _, some version =>
    let offer := { offer with version := some plugin }
    if version < plugin then offer.refuse ((standardInterface plugin).mismatchPointer version)
    else apiStandard plugin phase plugin offer

def apiExtension (plugin : Int) : Phase → Offer ExtensionSlot E → Bool × Offer ExtensionSlot E :=
  (extensionInterface plugin).apiPointer

def apiEngine (plugin : Int) : Phase → Offer EngineSlot E → Bool × Offer EngineSlot E :=
  (engineInterface plugin).apiPointer

/-! ## Agreement -/

/-- What the result of a call says about the table. -/
structure Negotiated (target : Slot → Option Target) (phase : Phase) (acceptable : Prop) (before : Offer Slot E)
    (result : Bool × Offer Slot E) : Prop where
  accepted_iff : result.1 = true ↔ before.functions.isSome ∧ acceptable ∧ before.registry = true
  accepted : result.1 = true → result.2.functions = some fun slot => (target slot).map (Entry.executor phase)
  kept : result.1 = false → ¬ (before.functions.isSome ∧ acceptable) → result.2.functions = before.functions
  emptied : result.1 = false → before.functions.isSome → acceptable → result.2.functions = some fun _ => none

theorem Negotiated.refuse {target : Slot → Option Target} {phase : Phase} {acceptable : Prop}
    {before offer : Offer Slot E} (h : ¬ (before.functions.isSome ∧ acceptable))
    (hfunctions : offer.functions = before.functions) (refusal : Refusal) :
    Negotiated target phase acceptable before (offer.refuse refusal) where
  accepted_iff := by
    constructor
    · intro htrue; cases htrue
    · rintro ⟨hsome, hversion, -⟩; exact absurd ⟨hsome, hversion⟩ h
  accepted := by intro htrue; cases htrue
  kept := fun _ _ => hfunctions
  emptied := fun _ hsome hversion => absurd ⟨hsome, hversion⟩ h

theorem Interface.fill_empty (interface : Interface Slot) (phase : Phase) :
    interface.fill phase (fun _ => none : Table Slot E) =
      fun slot => (interface.target slot).map (Entry.executor phase) := by
  funext slot
  unfold fill
  cases interface.target slot with
  | none => rfl
  | some target => rfl

theorem Interface.install_negotiated (interface : Interface Slot) (phase : Phase) {acceptable : Prop}
    {before offer : Offer Slot E} (hfunctions : before.functions.isSome) (hversion : acceptable)
    (hregistry : offer.registry = before.registry) :
    Negotiated interface.target phase acceptable before (interface.install phase offer) := by
  unfold install
  dsimp only
  cases hoffer : offer.registry with
  | false =>
    rw [if_pos (by decide)]
    refine ⟨?_, ?_, ?_, ?_⟩
    · constructor
      · intro htrue; cases htrue
      · rintro ⟨-, -, htrue⟩; rw [← hregistry, hoffer] at htrue; cases htrue
    · intro htrue; cases htrue
    · intro _ hneg; exact absurd ⟨hfunctions, hversion⟩ hneg
    · intro _ _ _; rfl
  | true =>
    rw [if_neg (by decide)]
    refine ⟨?_, ?_, ?_, ?_⟩
    · rw [← hregistry, hoffer]
      exact ⟨fun _ => ⟨hfunctions, hversion, rfl⟩, fun _ => rfl⟩
    · intro _; exact congrArg some (interface.fill_empty phase)
    · intro hfalse; cases hfalse
    · intro hfalse; cases hfalse

/-- The version a pointer form accepts. -/
def AtLeast (plugin : Int) (version : Option Int) : Prop := ∃ game, version = some game ∧ plugin ≤ game

theorem Interface.apiPointer_negotiated (interface : Interface Slot) (phase : Phase) (offer : Offer Slot E) :
    Negotiated interface.target phase (AtLeast interface.version offer.version) offer
      (interface.apiPointer phase offer) := by
  unfold apiPointer
  cases hfunctions : offer.functions with
  | none => exact .refuse (by rw [hfunctions]; rintro ⟨h, -⟩; cases h) rfl _
  | some functions =>
    cases hversion : offer.version with
    | none => exact .refuse (by rintro ⟨-, game, hgame, -⟩; cases hgame) rfl _
    | some version =>
      dsimp only
      split_ifs with hlt
      · exact .refuse (by rintro ⟨-, game, hgame, hle⟩; cases hgame; omega) hfunctions.symm _
      · exact interface.install_negotiated phase (by rw [hfunctions]; rfl) ⟨version, rfl, by omega⟩ rfl

theorem apiStandard_negotiated (plugin : Int) (phase : Phase) (version : Int) (offer : Offer StandardSlot E) :
    Negotiated (standardInterface plugin).target phase (version = plugin) offer
      (apiStandard plugin phase version offer) := by
  unfold apiStandard
  cases hfunctions : offer.functions with
  | none => exact .refuse (by rw [hfunctions]; rintro ⟨h, -⟩; cases h) rfl _
  | some functions =>
    dsimp only
    split_ifs with hne
    · exact .refuse (by rintro ⟨-, rfl⟩; exact hne rfl) rfl _
    · exact (standardInterface plugin).install_negotiated phase (by rw [hfunctions]; rfl) (by omega) rfl

theorem apiStandard_self (plugin : Int) (phase : Phase) {offer : Offer StandardSlot E}
    (h : offer.functions.isSome) :
    apiStandard plugin phase plugin offer = (standardInterface plugin).install phase offer := by
  obtain ⟨functions, hfunctions⟩ := Option.isSome_iff_exists.1 h
  unfold apiStandard
  rw [hfunctions]
  dsimp only
  rw [if_neg (by omega)]

/-- The version that is passed on is the plugin's own, so `apiStandard` does not refuse it. -/
theorem apiStandardPointer_eq (plugin : Int) (phase : Phase) (offer : Offer StandardSlot E) :
    apiStandardPointer plugin phase offer = (standardInterface plugin).apiPointer phase offer := by
  obtain ⟨functions, version, registry, log⟩ := offer
  unfold apiStandardPointer Interface.apiPointer
  cases functions with
  | none => rfl
  | some functions =>
    cases version with
    | none => rfl
    | some version =>
      dsimp only
      rw [apiStandard_self plugin phase rfl]
      rfl

/-- Each entry point accepts exactly when the pointers, the version and the registry are in order, and
then the table holds the executors of the phase and nothing else. Where the arguments are refused the
table stays as it is, and where only the registry is missing it is empty. -/
theorem api_negotiated (plugin : Int) (phase : Phase) :
    (∀ (version : Int) (offer : Offer StandardSlot E),
      Negotiated (standardInterface plugin).target phase (version = plugin) offer
        (apiStandard plugin phase version offer)) ∧
    (∀ offer : Offer StandardSlot E,
      Negotiated (standardInterface plugin).target phase (AtLeast plugin offer.version) offer
        (apiStandardPointer plugin phase offer)) ∧
    (∀ offer : Offer ExtensionSlot E,
      Negotiated (extensionInterface plugin).target phase (AtLeast plugin offer.version) offer
        (apiExtension plugin phase offer)) ∧
    (∀ offer : Offer EngineSlot E,
      Negotiated (engineInterface plugin).target phase (AtLeast plugin offer.version) offer
        (apiEngine plugin phase offer)) := by
  refine ⟨apiStandard_negotiated plugin phase, fun offer => ?_, fun offer => ?_, fun offer => ?_⟩
  · rw [apiStandardPointer_eq]
    exact (standardInterface plugin).apiPointer_negotiated phase offer
  · exact (extensionInterface plugin).apiPointer_negotiated phase offer
  · exact (engineInterface plugin).apiPointer_negotiated phase offer

/-- Without the registry the host loses the functions that were in its table. -/
theorem api_not_atomic :
    ¬ ∀ (plugin : Int) (phase : Phase) (offer : Offer EngineSlot Unit),
      (apiEngine plugin phase offer).1 = false → (apiEngine plugin phase offer).2.functions = offer.functions := by
  intro h
  have hkept := h 138 .before
    { functions := some fun _ => some (.foreign ()), version := some 138, registry := false } rfl
  have hslot := congrFun (Option.some.inj hkept) .createEntity
  cases hslot

end Refrigerator.Bindings
