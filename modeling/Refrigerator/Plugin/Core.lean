/-
What the plugin amounts to: the features without their wiring, as one machine.

`Core` knows which features are loaded, and a hook calls the handlers of the feature that has a binding
for it. The orders in which the dispatchers call their subscribers do not occur in it, nor do pointers that
might be null but for those of the client's command.
-/
import Refrigerator.Plugin.Basic

namespace Refrigerator.Plugin

open Lib Metamod Bindings

variable {P G T X : Type} {Output : Target → Type}

/-! ## The machine -/

/-- The feature with a binding for a hook; no two of them have one for the same. -/
def feature : Phase → Target → Option Feature
  | .after, .createEntity => some .trustedEntities
  | .before, .removeEntity => some .trustedEntities
  | .before, .createNamedEntity => some .trustedEntities
  | .after, .init => some .trustedEntities
  | .after, .spawn => some .trustedEntities
  | .before, .frame => some .trustedEntities
  | .before, .shutdown => some .trustedEntities
  | .before, .think => some .butchering
  | .after, .frame => some .butchering
  | .after, .clientCommand => some .report
  | _, _ => none

/-- The features that come with a feature. -/
def Feature.needed : Feature → Finset Feature
  | .butchering => {.trustedEntities, .butchering}
  | feature => {feature}

/-- The subscriptions of a feature last; the report does not keep its own. -/
def Feature.lasts (keeps : Bool) : Feature → Bool
  | .report => keeps
  | _ => true

/-- The effects of `handle_client_command_`. -/
def commandEffects [DecidableEq P] [Zero P] (setting : Setting P G T) (client : P) : List (Effect P) :=
  match Raw.handleClientCommand setting.engine setting.entities client with
  | .ok print => print.toList.map .printed
  | .error fault => [.faulted fault]

structure Core (P G T : Type) extends Setting P G T where
  loaded : Finset Feature := ∅
  tracker : Tracker.Context P := {}
  butchering : Butchering.Context P := {}

namespace Core

variable (core : Core P G T)

/-- A feature that is loaded has a binding for the hook, which lasts. -/
def serves (phase : Phase) (target : Target) : Bool :=
  (feature phase target).any fun f => f ∈ core.loaded ∧ f.lasts core.build.keeps

variable [LinearOrder P] [Zero P]

/-- Handler calls of the trusted entities, their events delivered if the butchering feature is loaded. -/
def follow (calls : List (Tracker.Call P)) : Core P G T :=
  { core with
    tracker := Tracker.machine.exec core.tracker calls
    butchering :=
      if .butchering ∈ core.loaded then
        Butchering.deliverAll core.engine.toFeatures core.host.memory core.butchering
          (Tracker.machine.emitted core.tracker calls)
      else core.butchering }

/-- What a hook reads. -/
def input (entity : P) : Tracker.Input P := { entity, globals := core.metamod, memory := core.host.memory }

/-- A hook: what it leaves, the result that is reported, and the effects elsewhere. -/
def hook (phase : Phase) (target : Target) (entity : P) : Core P G T × HookResult × List (Effect P) :=
  if !core.serves phase target then (core, .ignored, [])
  else
    match phase, target with
    | .before, .think =>
      let (answer, memory) := Butchering.onThink core.engine.toFeatures core.host.memory core.butchering entity
      ({ core with host.memory := memory }, transformBefore answer, [])
    | .after, .frame =>
      ({ core with host.memory := Butchering.onFrame core.engine.toFeatures core.host.memory core.butchering },
        .handled, [])
    | .after, .clientCommand => (core, .handled, if entity = 0 then [] else commandEffects core.toSetting entity)
    | phase, target => (core.follow (Tracker.hookCalls phase target (core.input entity)), .handled, [])

/-! ## The hooks one by one -/

section Hooks

variable {core} {phase : Phase} {target : Target} (entity : P)

omit [LinearOrder P] [Zero P] in
theorem serves_iff : core.serves phase target = true ↔
    ∃ f ∈ core.loaded, feature phase target = some f ∧ f.lasts core.build.keeps = true := by
  unfold serves
  cases feature phase target with
  | none => simp
  | some f => simp

omit [LinearOrder P] [Zero P] in
theorem serves_eq_false
    (h : ∀ f ∈ core.loaded, feature phase target = some f → f.lasts core.build.keeps = false) :
    core.serves phase target = false := by
  rw [← Bool.not_eq_true, serves_iff]
  rintro ⟨f, hf, hfeature, hlasts⟩
  rw [h f hf hfeature] at hlasts; cases hlasts

theorem hook_ignored (h : core.serves phase target = false) :
    core.hook phase target entity = (core, .ignored, []) := by
  unfold hook
  rw [h]
  rfl

theorem hook_think (h : .butchering ∈ core.loaded) :
    core.hook .before .think entity =
      ({ core with
         host.memory := (Butchering.onThink core.engine.toFeatures core.host.memory core.butchering entity).2 },
        transformBefore (Butchering.onThink core.engine.toFeatures core.host.memory core.butchering entity).1, []) := by
  unfold hook
  rw [serves_iff.2 ⟨_, h, rfl, rfl⟩]
  rfl

theorem hook_frame (h : .butchering ∈ core.loaded) :
    core.hook .after .frame entity =
      ({ core with host.memory := Butchering.onFrame core.engine.toFeatures core.host.memory core.butchering },
        .handled, []) := by
  unfold hook
  rw [serves_iff.2 ⟨_, h, rfl, rfl⟩]
  rfl

theorem hook_command (h : .report ∈ core.loaded) (hkeeps : core.build.keeps = true) :
    core.hook .after .clientCommand entity =
      (core, .handled, if entity = 0 then [] else commandEffects core.toSetting entity) := by
  unfold hook
  rw [serves_iff.2 ⟨_, h, rfl, hkeeps⟩]
  rfl

theorem hook_tracked (h : .trustedEntities ∈ core.loaded) (hf : feature phase target = some .trustedEntities) :
    core.hook phase target entity =
      (core.follow (Tracker.hookCalls phase target (core.input entity)), .handled, []) := by
  unfold hook
  rw [serves_iff.2 ⟨_, h, hf, rfl⟩]
  cases phase <;> cases target <;> first | rfl | cases hf

end Hooks

variable [DecidableEq G] [Inhabited T]

def step : Action P G T X → Core P G T × List (Notice P X Output)
  | .load feature => ({ core with loaded := core.loaded ∪ feature.needed }, [])
  | .call call cell =>
    let (setting, result) := core.toSetting.call call cell
    ({ core with toSetting := setting }, [.called result])
  | .table phase table =>
    let (setting, accepted, log) := core.toSetting.table true phase table
    ({ core with toSetting := setting }, [.offered accepted log])
  | .hook phase target entity =>
    let (core, answer, effects) := core.hook phase target entity
    ({ core with toSetting := core.toSetting.report answer }, effects.map .effect ++ [.returned target none])
  | .host host => ({ core with host }, [])

variable (Output) in
def machine : Machine (Core P G T) (Action P G T X) (Notice P X Output) := ⟨fun core action => core.step action⟩

theorem next_hook (core : Core P G T) (phase : Phase) (target : Target) (entity : P) :
    (machine (X := X) Output).next core (.hook phase target entity) =
      { (core.hook phase target entity).1 with
        toSetting := (core.hook phase target entity).1.toSetting.report (core.hook phase target entity).2.1 } := rfl

def initial (build : Build T) (host : Host P G T) : Core P G T :=
  { build, api := Lifecycle.initial build.plugin, host }

variable (Output) in
/-- The core after a run. -/
def reached (build : Build T) (host : Host P G T) (run : List (Action P G T X)) : Core P G T :=
  (machine Output).exec (initial build host) run

/-- What the hosts get to see of a run. -/
def notices (build : Build T) (host : Host P G T) (run : List (Action P G T X)) : List (Notice P X Output) :=
  (machine Output).emitted (initial build host) run

end Core

/-- The singleton less its wiring. -/
def Singleton.core (singleton : Singleton P G T X Output) : Core P G T where
  toSetting := singleton.world.toSetting
  loaded := singleton.loaded.toFinset
  tracker := singleton.world.tracker
  butchering := singleton.world.butchering

end Refrigerator.Plugin
