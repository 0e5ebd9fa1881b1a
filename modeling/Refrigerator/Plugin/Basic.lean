/-
The plugin as a whole: the features with their bindings, the executors that the hosts call, the entry
points of the library, and the hosts' own data, which may change at any time.

A run is a list of actions of the hosts in any order: they load a feature (through the container), call an
entry point, have a table filled, call an executor of a table (`Executor_::execute`), or change their data.
`P` are the addresses of entities, `G` those of the hosts' globals, `T` the contents of function tables.
With each action come the orders in which the dispatchers call the subscribers of an event.
-/
import Refrigerator.Bindings.Actions
import Refrigerator.Bindings.Api
import Refrigerator.Lifecycle.Basic
import Refrigerator.Raw.Command
import Refrigerator.Raw.Entities

namespace Refrigerator.Plugin

open Lib Metamod Bindings

variable {P G T X : Type} {Output : Target → Type}

/-! ## The hosts -/

/-- What is decided when the plugin is built: its own record, `api::version` of the three tables, and whether a
subscription lasts when its handle is dropped (`keeps`), which is up to the dispatcher. -/
structure Build (T : Type) where
  plugin : Api.Plugin T
  standard : Int
  extension : Int
  engine : Int
  keeps : Bool

/-- The variables of an entity that only the report reads. -/
structure Appearance where
  origin : Report.Vector Binary32
  viewOfs : Report.Vector Binary32
  vAngle : Report.Vector Binary32
  model : Int
  modelindex : Int

/-- The cells that the hosts hand over to be written, by their addresses. -/
structure Cells (T : Type) where
  info : Nat → Option Api.Info
  functions : Nat → T
  standard : Nat → Table StandardSlot Nat
  extension : Nat → Table ExtensionSlot Nat
  engine : Nat → Table EngineSlot Nat
  version : Nat → Int

/-- What the hosts own: the entities, what the functions of a table answer at present, what their globals
hold, and their cells. -/
structure Host (P G T : Type) where
  memory : Memory P
  appearance : P → Appearance
  services : T → Raw.Functions P
  engine : G → Raw.Globals
  metamod : G → Metamod.Globals P
  cells : Cells T

/-- What the features find: the `api` record and the hosts. -/
structure Setting (P G T : Type) where
  build : Build T
  api : Api G T
  host : Host P G T

namespace Setting

variable (setting : Setting P G T)

/-- `api.engine`. -/
def engine : Raw.Engine P where
  functions := setting.host.services setting.api.engine.functions
  globals := setting.api.engine.globals.map setting.host.engine

/-- What `api.meta.globals` points to. -/
def metamod : Option (Metamod.Globals P) := setting.api.metamod.globals.map setting.host.metamod

/-- The variables of the entities, with those of the report. -/
def entities : Report.Memory P Binary32 := fun entity =>
  { toVariables := (setting.host.memory entity).v
    origin := (setting.host.appearance entity).origin
    viewOfs := (setting.host.appearance entity).viewOfs
    vAngle := (setting.host.appearance entity).vAngle
    model := (setting.host.appearance entity).model
    modelindex := (setting.host.appearance entity).modelindex }

/-- `target_handler` stores the merged result in metamod's globals, if there are any. -/
def report [DecidableEq G] (merged : HookResult) : Setting P G T :=
  match setting.api.metamod.globals with
  | none => setting
  | some globals =>
    let cell := { setting.host.metamod globals with current := merged }
    { setting with host.metamod := Function.update setting.host.metamod globals cell }

section Report

variable [DecidableEq G] (merged : HookResult)

@[simp] theorem report_build : (setting.report merged).build = setting.build := by
  unfold report
  split <;> rfl

@[simp] theorem report_api : (setting.report merged).api = setting.api := by
  unfold report
  split <;> rfl

@[simp] theorem report_memory : (setting.report merged).host.memory = setting.host.memory := by
  unfold report
  split <;> rfl

@[simp] theorem report_appearance : (setting.report merged).host.appearance = setting.host.appearance := by
  unfold report
  split <;> rfl

@[simp] theorem report_services : (setting.report merged).host.services = setting.host.services := by
  unfold report
  split <;> rfl

@[simp] theorem report_engine : (setting.report merged).host.engine = setting.host.engine := by
  unfold report
  split <;> rfl

@[simp] theorem report_cells : (setting.report merged).host.cells = setting.host.cells := by
  unfold report
  split <;> rfl

theorem report_metamod (g : G) :
    (setting.report merged).host.metamod g =
      if setting.api.metamod.globals = some g then { setting.host.metamod g with current := merged }
      else setting.host.metamod g := by
  unfold report
  cases hglobals : setting.api.metamod.globals with
  | none => simp
  | some globals =>
    dsimp only
    by_cases hg : g = globals
    · subst hg; simp
    · rw [Function.update_of_ne hg, if_neg (by simpa using Ne.symm hg)]

end Report

end Setting

/-! ## The entry points -/

/-- A value is written through a pointer, if there are both. -/
def store {V : Type} (cells : Nat → V) (pointer : Option Nat) (value : Option V) : Nat → V :=
  match pointer, value with
  | some address, some value => Function.update cells address value
  | _, _ => cells

/-- A call of an entry point of `root_.cxx`; what it writes to `*plugin` goes to the cell. -/
def Setting.call [Inhabited T] (setting : Setting P G T) (call : Lifecycle.Call G T X) (cell : Nat) :
    Setting P G T × Except (Lifecycle.Failure X) Unit :=
  let (result, state) := call.run setting.api
  let cells :=
    { setting.host.cells with
      info := store setting.host.cells.info (some cell) (state.info.map some)
      functions := store setting.host.cells.functions (some cell) state.functions }
  ({ setting with api := state.api, host.cells := cells }, result)

/-- The calls that have a table filled, with their pointers. -/
inductive TableCall
  | standard (functions : Option Nat) (version : Int)
  | standardPointer (functions version : Option Nat)
  | extension (functions version : Option Nat)
  | engine (functions version : Option Nat)
deriving DecidableEq, Repr

/-- `Private_::api` of a table on the cells behind its pointers. -/
def TableCall.run (build : Build T) (registry : Bool) (phase : Phase) (cells : Cells T) :
    TableCall → Bool × List Refusal × Cells T
  | .standard functions version =>
    let offer : Offer StandardSlot Nat := { functions := functions.map cells.standard, registry }
    let (accepted, offer) := apiStandard build.standard phase version offer
    (accepted, offer.log, { cells with standard := store cells.standard functions offer.functions })
  | .standardPointer functions version =>
    let offer : Offer StandardSlot Nat :=
      { functions := functions.map cells.standard, version := version.map cells.version, registry }
    let (accepted, offer) := apiStandardPointer build.standard phase offer
    (accepted, offer.log,
      { cells with
        standard := store cells.standard functions offer.functions
        version := store cells.version version offer.version })
  | .extension functions version =>
    let offer : Offer ExtensionSlot Nat :=
      { functions := functions.map cells.extension, version := version.map cells.version, registry }
    let (accepted, offer) := apiExtension build.extension phase offer
    (accepted, offer.log,
      { cells with
        extension := store cells.extension functions offer.functions
        version := store cells.version version offer.version })
  | .engine functions version =>
    let offer : Offer EngineSlot Nat :=
      { functions := functions.map cells.engine, version := version.map cells.version, registry }
    let (accepted, offer) := apiEngine build.engine phase offer
    (accepted, offer.log,
      { cells with
        engine := store cells.engine functions offer.functions
        version := store cells.version version offer.version })

/-- A call for a table. -/
def Setting.table (setting : Setting P G T) (registry : Bool) (phase : Phase) (table : TableCall) :
    Setting P G T × Bool × List Refusal :=
  let (accepted, log, cells) := table.run setting.build registry phase setting.host.cells
  ({ setting with host.cells := cells }, accepted, log)

/-! ## The features -/

/-- The handlers that the butchering feature subscribes to the trusted-entities feature. -/
inductive Listener
  | onExit
  | onEnter
deriving DecidableEq, Repr

/-- What the actions read and write. The listeners are those of the dispatcher in the context of the
trusted entities, with the order in which it calls them for an event. -/
structure World (P G T : Type) extends Setting P G T where
  tracker : Tracker.Context P := {}
  listeners : List Listener := []
  butchering : Butchering.Context P := {}
  arrangement : Event P → Order Listener := fun _ => .subscribed

namespace World

variable (w : World P G T) [LinearOrder P] [Zero P]

/-- `Type::on_exit` and `Type::on_enter`, with their filters. -/
def notify (event : Event P) (w : World P G T) : Listener → Raw.Checked (World P G T)
  | .onExit =>
    pure (if event.state then w else { w with butchering := Butchering.onExit w.butchering event.list })
  | .onEnter =>
    if event.state then do
      let butchering ← Raw.Gibs.onEnter w.engine w.host.memory w.butchering event.list
      pure { w with butchering }
    else pure w

/-- `dispatcher.dispatch` of the trusted entities. -/
def dispatch (w : World P G T) (event : Event P) : Raw.Checked (World P G T) :=
  ((w.arrangement event).arrange w.listeners).foldlM (notify event) w

/-- A handler of the trusted entities leaves its context, and dispatches its events. -/
def track (tracked : Tracker.Context P × List (Event P)) : Raw.Checked (World P G T) :=
  tracked.2.foldlM dispatch { w with tracker := tracked.1 }

end World

/-! ## The bindings of the features -/

/-- What an action does elsewhere: it prints a line, or it uses a null pointer, and then nothing is said
about the process any more. -/
inductive Effect (P : Type)
  | printed (print : Raw.Print P)
  | faulted (fault : Raw.Fault)
deriving DecidableEq, Repr

/-- The input of an event is the entity that the hook is about; `0` where it is about none. -/
abbrev Handler (P G T X : Type) (Output : Target → Type) := ActionHandler P (World P G T) (Effect P) X Output

/-- What a handler amounts to, with its fault among the effects. -/
def settle {V : Type} {phase : Phase} (w : World P G T)
    (outcome : Raw.Checked (Answer X phase V × World P G T × List (Effect P))) :
    Answer X phase V × World P G T × List (Effect P) :=
  match outcome with
  | .ok outcome => outcome
  | .error fault => (.void, w, [.faulted fault])

section Features

variable [LinearOrder P] [Zero P]

/-- A binding of the trusted entities returns nothing. -/
def track (binding : Raw.TrustedEntities.Binding P) : Handler P G T X Output where
  key := binding.target
  phase := binding.phase
  action := fun entity w => settle w do
    let input : Tracker.Input P := { entity, globals := w.metamod, memory := w.host.memory }
    let tracked ← binding.action input w.tracker
    pure (.void, ← w.track tracked, [])

def onThink : Handler P G T X Output where
  key := .think
  phase := .before
  action := fun entity w => settle w do
    let (answer, memory) ← Raw.onThink w.engine w.host.memory w.butchering entity
    pure (.alone answer, { w with host.memory := memory }, [])

def onFrame : Handler P G T X Output where
  key := .frame
  phase := .after
  action := fun _ w => settle w do
    let memory ← Raw.Gibs.onFrame w.engine w.host.memory w.butchering
    pure (.void, { w with host.memory := memory }, [])

def onClientCommand : Handler P G T X Output where
  key := .clientCommand
  phase := .after
  action := fun entity w => settle w do
    if entity = 0 then pure (.void, w, [])
    else
      let print ← Raw.handleClientCommand w.engine w.entities entity
      pure (.void, w, print.toList.map .printed)

end Features

/-! ## Loading -/

inductive Feature
  | trustedEntities
  | butchering
  | report
deriving DecidableEq, Repr

/-- The bindings of a feature, in the order it injects them, and whether it keeps the subscriptions. -/
def Feature.injections [LinearOrder P] [Zero P] : Feature → List (Bool × Handler P G T X Output)
  | .trustedEntities => Raw.TrustedEntities.bindings.map fun binding => (binding.kept, track binding)
  | .butchering => [(true, onThink), (true, onFrame)]
  | .report => [(false, onClientCommand)]

/-- The singleton with what it refers to. The registry is `bindings.private_`, with the subscribers of its
dispatcher; the container holds the features that are loaded. -/
structure Singleton (P G T X : Type) (Output : Target → Type) where
  world : World P G T
  registry : Option (List (Handler P G T X Output))
  loaded : List Feature := []

/-- How the construction of a feature fails. -/
inductive Failure
  | logicError (what : String)
  | nullRegistry
deriving DecidableEq, Repr

namespace Singleton

variable (singleton : Singleton P G T X Output)

/-- The subscriptions that last. -/
def subscribe (keeps : Bool) (handlers : List (Handler P G T X Output)) (injection : Bool × Handler P G T X Output) :
    List (Handler P G T X Output) :=
  if injection.1 || keeps then handlers ++ [injection.2] else handlers

/-- `Type::inject_`: the overload for `After` uses the registry without a test. -/
def inject (singleton : Singleton P G T X Output) (injection : Bool × Handler P G T X Output) :
    Except Failure (Singleton P G T X Output) :=
  match singleton.registry, injection.2.phase with
  | some handlers, _ =>
    .ok { singleton with registry := some (subscribe singleton.world.build.keeps handlers injection) }
  | none, .before => .error (.logicError "invalid state")
  | none, .after => .error .nullRegistry

variable [LinearOrder P] [Zero P]

/-- The container constructs a feature once. -/
def once (feature : Feature) (construct : Except Failure (Singleton P G T X Output)) :
    Except Failure (Singleton P G T X Output) :=
  if feature ∈ singleton.loaded then .ok singleton
  else do
    let singleton ← construct
    pure { singleton with loaded := singleton.loaded ++ [feature] }

def loadTrustedEntities : Except Failure (Singleton P G T X Output) :=
  singleton.once .trustedEntities (Feature.trustedEntities.injections.foldlM inject singleton)

/-- The feature resolves the trusted entities, listens to them and injects its own bindings. -/
def loadButchering : Except Failure (Singleton P G T X Output) :=
  singleton.once .butchering (do
    let singleton ← singleton.loadTrustedEntities
    let singleton := { singleton with world.listeners := singleton.world.listeners ++ [.onExit, .onEnter] }
    Feature.butchering.injections.foldlM inject singleton)

def loadReport : Except Failure (Singleton P G T X Output) :=
  singleton.once .report (Feature.report.injections.foldlM inject singleton)

def load : Feature → Except Failure (Singleton P G T X Output)
  | .trustedEntities => singleton.loadTrustedEntities
  | .butchering => singleton.loadButchering
  | .report => singleton.loadReport

end Singleton

/-! ## Runs -/

/-- What the hosts get to see of an action. -/
inductive Notice (P X : Type) (Output : Target → Type)
  | failed (failure : Failure)
  | called (result : Except (Lifecycle.Failure X) Unit)
  | offered (accepted : Bool) (log : List Refusal)
  | effect (effect : Effect P)
  | logged (exception : X)
  | returned (target : Target) (value : Option (Output target))

/-- An action of the hosts. -/
inductive Action (P G T X : Type)
  | load (feature : Feature)
  | call (call : Lifecycle.Call G T X) (cell : Nat)
  | table (phase : Phase) (table : TableCall)
  | hook (phase : Phase) (target : Target) (entity : P)
  | host (host : Host P G T)

structure Turn (P G T X : Type) (Output : Target → Type) where
  action : Action P G T X
  order : Order (Handler P G T X Output)
  arrangement : Event P → Order Listener

namespace Singleton

variable (singleton : Singleton P G T X Output) [DecidableEq G]

/-- `Executor_::execute` with `target_handler`: without the registry it only returns. -/
def execute (order : Order (Handler P G T X Output)) (arrangement : Event P → Order Listener) (phase : Phase)
    (target : Target) (entity : P) : Singleton P G T X Output × List (Notice P X Output) :=
  match singleton.registry with
  | none => (singleton, [.returned target none])
  | some handlers =>
    let handle := ActionHandler.handle target phase entity
    let progress := (order.arrange handlers).foldl handle { world := { singleton.world with arrangement } }
    let world := { progress.world with toSetting := progress.world.toSetting.report progress.state.merged }
    ({ singleton with world },
      progress.effects.map .effect ++ progress.state.log.map .logged ++ [.returned target progress.state.result])

variable [LinearOrder P] [Zero P] [Inhabited T]

def step (turn : Turn P G T X Output) : Singleton P G T X Output × List (Notice P X Output) :=
  match turn.action with
  | .load feature =>
    match singleton.load feature with
    | .ok singleton => (singleton, [])
    | .error failure => (singleton, [.failed failure])
  | .call call cell =>
    let (setting, result) := singleton.world.toSetting.call call cell
    ({ singleton with world.toSetting := setting }, [.called result])
  | .table phase table =>
    let (setting, accepted, log) := singleton.world.toSetting.table singleton.registry.isSome phase table
    ({ singleton with world.toSetting := setting }, [.offered accepted log])
  | .hook phase target entity => singleton.execute turn.order turn.arrangement phase target entity
  | .host host => ({ singleton with world.host := host }, [])

end Singleton

variable [DecidableEq G] [LinearOrder P] [Zero P] [Inhabited T]

def machine : Machine (Singleton P G T X Output) (Turn P G T X Output) (Notice P X Output) :=
  ⟨fun singleton turn => singleton.step turn⟩

/-- The plugin before the hosts do anything; `registry` tells whether `initialize_` has made one. -/
def initial (build : Build T) (host : Host P G T) (registry : Bool) : Singleton P G T X Output where
  world := { build, api := Lifecycle.initial build.plugin, host }
  registry := if registry then some [] else none

/-- The plugin after a run. -/
def reached (build : Build T) (host : Host P G T) (registry : Bool) (run : List (Turn P G T X Output)) :
    Singleton P G T X Output := machine.exec (initial build host registry) run

/-- What the hosts get to see of a run. -/
def notices (build : Build T) (host : Host P G T) (registry : Bool) (run : List (Turn P G T X Output)) :
    List (Notice P X Output) := machine.emitted (initial build host registry) run

end Refrigerator.Plugin
