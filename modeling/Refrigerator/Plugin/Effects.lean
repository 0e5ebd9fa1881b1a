/-
What the plugin does beside the hosts' data over a whole run: the lines it prints, and the null pointers
it uses.

With a registry both come from the command of a client only, once the report is loaded. A null pointer is
used for an engine that gives the bare command, or that has nothing to print with. Without a registry
nothing can be loaded: the first binding of any feature already uses the null registry.
-/
import Refrigerator.Plugin.Hosts

namespace Refrigerator

open Lib Metamod

/-! ## The command -/

namespace Raw

variable {P : Type} [DecidableEq P] [Zero P] (engine : Engine P) (memory : Report.Memory P Binary32) (client : P)

/-- The client asks for a report, and it can be printed. -/
def Requested : Prop :=
  ∃ cmdArgv, Addressed engine cmdArgv ∧ cmdArgv 1 = some "report" ∧ engine.functions.clientPrintf = some ()

theorem handleClientCommand_printed_iff {print : Print P} :
    handleClientCommand engine memory client = .ok (some print) ↔
      Requested engine ∧ print.client = client ∧ reportText engine memory client = .ok print.text := by
  by_cases h : ∃ cmdArgv, Addressed engine cmdArgv
  · obtain ⟨cmdArgv, haddressed⟩ := h
    have hrequested : Requested engine ↔ cmdArgv 1 = some "report" ∧ engine.functions.clientPrintf = some () := by
      constructor
      · rintro ⟨other, ⟨-, -, hargv', -⟩, hreport⟩
        obtain ⟨-, -, hargv, -⟩ := haddressed
        rw [hargv] at hargv'
        cases hargv'
        exact hreport
      · exact fun hreport => ⟨cmdArgv, haddressed, hreport⟩
    rw [handleClientCommand_addressed haddressed, hrequested]
    cases hname : cmdArgv 1 with
    | none => exact iff_of_false (by rintro ⟨⟩) (by simp)
    | some name =>
      rw [view_some, ok_bind]
      by_cases hreport : "report" = name
      · obtain ⟨text, htext⟩ := reportText_safe engine memory client
        rw [if_neg (not_not.2 hreport), htext, ok_bind]
        cases hprint : engine.functions.clientPrintf with
        | none => exact iff_of_false (by rintro ⟨⟩) (by simp)
        | some _ =>
          obtain ⟨client', text'⟩ := print
          rw [call_some, ok_bind]
          constructor
          · rintro ⟨⟩
            exact ⟨⟨by rw [hreport], rfl⟩, rfl, rfl⟩
          · rintro ⟨-, rfl, heq⟩
            cases heq
            rfl
      · rw [if_pos hreport]
        refine iff_of_false (by rintro ⟨⟩) ?_
        rintro ⟨⟨heq, -⟩, -⟩
        exact hreport (Option.some.inj heq).symm
  · rw [handleClientCommand_ignored fun cmdArgv haddressed => h ⟨cmdArgv, haddressed⟩]
    refine iff_of_false (by rintro ⟨⟩) ?_
    rintro ⟨⟨cmdArgv, haddressed, -⟩, -⟩
    exact h ⟨cmdArgv, haddressed⟩

end Raw

namespace Plugin

open Bindings

variable {P G T X : Type} {Output : Target → Type} [LinearOrder P] [Zero P]

theorem faulted_mem_iff {setting : Setting P G T} {client : P} :
    (∃ fault, .faulted fault ∈ commandEffects setting client) ↔ Raw.CommandFaults setting.engine := by
  rw [← not_iff_not, ← Raw.handleClientCommand_safe_iff setting.engine setting.entities client]
  unfold commandEffects
  cases Raw.handleClientCommand setting.engine setting.entities client with
  | ok print => cases print <;> simp
  | error fault => simp

theorem printed_mem_iff {setting : Setting P G T} {client : P} {print : Raw.Print P} :
    .printed print ∈ commandEffects setting client ↔
      Raw.Requested setting.engine ∧ print.client = client ∧
        Raw.reportText setting.engine setting.entities client = .ok print.text := by
  rw [← Raw.handleClientCommand_printed_iff]
  unfold commandEffects
  cases Raw.handleClientCommand setting.engine setting.entities client with
  | ok printed => cases printed <;> simp [eq_comm]
  | error fault => simp

/-! ## One action -/

namespace Core

theorem hook_effects {core : Core P G T} {phase : Phase} {target : Target} {entity : P} {effect : Effect P} :
    effect ∈ (core.hook phase target entity).2.2 ↔
      phase = .after ∧ target = .clientCommand ∧ .report ∈ core.loaded ∧ core.build.keeps = true ∧ entity ≠ 0 ∧
        effect ∈ commandEffects core.toSetting entity := by
  by_cases hcommand : phase = .after ∧ target = .clientCommand
  · obtain ⟨rfl, rfl⟩ := hcommand
    by_cases hserved : .report ∈ core.loaded ∧ core.build.keeps = true
    · obtain ⟨hloaded, hkeeps⟩ := hserved
      rw [hook_command entity hloaded hkeeps]
      by_cases h0 : entity = 0 <;> simp [h0, hloaded, hkeeps]
    · have hserves : core.serves .after .clientCommand = false := serves_eq_false (by
        rintro f hf hfeature
        cases hfeature
        exact Bool.eq_false_iff.2 fun hkeeps => hserved ⟨hf, hkeeps⟩)
      rw [hook_ignored entity hserves]
      refine iff_of_false List.not_mem_nil ?_
      rintro ⟨-, -, hloaded, hkeeps, -⟩
      exact hserved ⟨hloaded, hkeeps⟩
  · have hnone : (core.hook phase target entity).2.2 = [] := by
      cases hserves : core.serves phase target with
      | false => rw [hook_ignored entity hserves]
      | true =>
        unfold hook
        rw [hserves]
        cases phase <;> cases target <;> first | rfl | exact absurd ⟨rfl, rfl⟩ hcommand
    rw [hnone]
    refine iff_of_false List.not_mem_nil ?_
    rintro ⟨hphase, htarget, -⟩
    exact hcommand ⟨hphase, htarget⟩

variable [DecidableEq G] [Inhabited T]

theorem emit_hook (core : Core P G T) (phase : Phase) (target : Target) (entity : P) :
    (machine (X := X) Output).emit core (.hook phase target entity) =
      (core.hook phase target entity).2.2.map .effect ++ [.returned target none] := rfl

theorem emit_effect {core : Core P G T} {action : Action P G T X} {effect : Effect P} :
    .effect effect ∈ (machine Output).emit core action ↔
      ∃ client, action = .hook .after .clientCommand client ∧ client ≠ 0 ∧ .report ∈ core.loaded ∧
        core.build.keeps = true ∧ effect ∈ commandEffects core.toSetting client := by
  cases action with
  | load feature => exact iff_of_false List.not_mem_nil (by simp)
  | host host => exact iff_of_false List.not_mem_nil (by simp)
  | call call cell => exact iff_of_false (by rintro (_ | ⟨_, ⟨⟩⟩)) (by simp)
  | table phase table => exact iff_of_false (by rintro (_ | ⟨_, ⟨⟩⟩)) (by simp)
  | hook phase target entity =>
    have hmem : .effect effect ∈ (machine (X := X) Output).emit core (.hook phase target entity) ↔
        effect ∈ (core.hook phase target entity).2.2 := by
      rw [emit_hook]; simp
    rw [hmem, hook_effects]
    constructor
    · rintro ⟨rfl, rfl, hloaded, hkeeps, h0, heffect⟩
      exact ⟨entity, rfl, h0, hloaded, hkeeps, heffect⟩
    · rintro ⟨client, heq, h0, hloaded, hkeeps, heffect⟩
      cases heq
      exact ⟨rfl, rfl, hloaded, hkeeps, h0, heffect⟩

/-- With a registry every feature can be loaded. -/
theorem emit_failed {core : Core P G T} {action : Action P G T X} {failure : Failure} :
    .failed failure ∉ (machine Output).emit core action := by
  cases action with
  | load feature => exact List.not_mem_nil
  | host host => exact List.not_mem_nil
  | call call cell => rintro (_ | ⟨_, ⟨⟩⟩)
  | table phase table => rintro (_ | ⟨_, ⟨⟩⟩)
  | hook phase target entity =>
    rw [emit_hook]
    simp

end Core

/-! ## Without a registry -/

/-- A null pointer is used. -/
def UsesNull (notices : List (Notice P X Output)) : Prop :=
  .failed .nullRegistry ∈ notices ∨ ∃ fault, .effect (.faulted fault) ∈ notices

section Idle

variable {singleton : Singleton P G T X Output}

/-- There is no registry, so nothing is loaded. -/
structure Idle (singleton : Singleton P G T X Output) : Prop where
  registry : singleton.registry = none
  loaded : singleton.loaded = []

/-- The first binding of every feature goes to the overload that does not test the registry. -/
theorem Idle.load (h : Idle singleton) (feature : Feature) : singleton.load feature = .error .nullRegistry := by
  have hnew (f : Feature) : f ∉ singleton.loaded := by rw [h.loaded]; exact List.not_mem_nil
  have hinject (injection : Bool × Handler P G T X Output) (more : List (Bool × Handler P G T X Output))
      (hphase : injection.2.phase = .after) :
      (injection :: more).foldlM Singleton.inject singleton = .error .nullRegistry := by
    rw [List.foldlM_cons]
    unfold Singleton.inject
    rw [h.registry, hphase]
    rfl
  have htrusted : singleton.loadTrustedEntities = .error .nullRegistry := by
    unfold Singleton.loadTrustedEntities Singleton.once
    rw [if_neg (hnew _)]
    exact congrArg (· >>= _) (hinject _ _ rfl)
  cases feature with
  | trustedEntities => exact htrusted
  | butchering =>
    show singleton.loadButchering = _
    unfold Singleton.loadButchering Singleton.once
    rw [if_neg (hnew _), htrusted]
    rfl
  | report =>
    show singleton.loadReport = _
    unfold Singleton.loadReport Singleton.once
    rw [if_neg (hnew _)]
    exact congrArg (· >>= _) (hinject _ _ rfl)

variable [DecidableEq G] [Inhabited T]

theorem Idle.step_load (h : Idle singleton) (feature : Feature) (order : Order (Handler P G T X Output))
    (arrangement : Event P → Order Listener) :
    singleton.step ⟨.load feature, order, arrangement⟩ = (singleton, [.failed .nullRegistry]) := by
  simp only [Singleton.step, h.load]

/-- A hook only returns. -/
theorem Idle.step_hook (h : Idle singleton) (phase : Phase) (target : Target) (entity : P)
    (order : Order (Handler P G T X Output)) (arrangement : Event P → Order Listener) :
    singleton.step ⟨.hook phase target entity, order, arrangement⟩ = (singleton, [.returned target none]) := by
  unfold Singleton.step Singleton.execute
  dsimp only
  rw [h.registry]

theorem Idle.next (h : Idle singleton) (turn : Turn P G T X Output) : Idle (machine.next singleton turn) := by
  obtain ⟨action, order, arrangement⟩ := turn
  cases action with
  | load feature => exact (congrArg (fun step => Idle step.1) (h.step_load feature order arrangement)).mpr h
  | call call cell => exact ⟨h.registry, h.loaded⟩
  | table phase table => exact ⟨h.registry, h.loaded⟩
  | hook phase target entity =>
    exact (congrArg (fun step => Idle step.1) (h.step_hook phase target entity order arrangement)).mpr h
  | host host => exact ⟨h.registry, h.loaded⟩

/-- Nothing but loading uses a null pointer. -/
theorem Idle.usesNull_emit (h : Idle singleton) (turn : Turn P G T X Output) :
    UsesNull (machine.emit singleton turn) ↔ ∃ feature, turn.action = .load feature := by
  obtain ⟨action, order, arrangement⟩ := turn
  cases action with
  | load feature =>
    have hemit : machine.emit singleton ⟨.load feature, order, arrangement⟩ = [.failed .nullRegistry] :=
      congrArg Prod.snd (h.step_load feature order arrangement)
    rw [hemit]
    simp [UsesNull]
  | call call cell =>
    have hemit : machine.emit singleton ⟨.call call cell, order, arrangement⟩ =
        [.called (singleton.world.toSetting.call call cell).2] := rfl
    rw [hemit]
    simp [UsesNull]
  | table phase table =>
    have hemit : machine.emit singleton ⟨.table phase table, order, arrangement⟩ =
        [.offered (singleton.world.toSetting.table singleton.registry.isSome phase table).2.1
          (singleton.world.toSetting.table singleton.registry.isSome phase table).2.2] := rfl
    rw [hemit]
    simp [UsesNull]
  | hook phase target entity =>
    have hemit : machine.emit singleton ⟨.hook phase target entity, order, arrangement⟩ = [.returned target none] :=
      congrArg Prod.snd (h.step_hook phase target entity order arrangement)
    rw [hemit]
    simp [UsesNull]
  | host host =>
    have hemit : machine.emit singleton ⟨.host host, order, arrangement⟩ = [] := rfl
    rw [hemit]
    simp [UsesNull]

end Idle

/-! ## Runs -/

section Runs

variable [DecidableEq G] [Inhabited T] {build : Build T} {host : Host P G T} {run : List (Turn P G T X Output)}

theorem emit_reached (build : Build T) (host : Host P G T) (p : List (Turn P G T X Output))
    (turn : Turn P G T X Output) :
    machine.emit (machine.exec (initial build host true) p) turn =
      (Core.machine Output).emit (coreAfter build host p) turn.action :=
  (step_core (reached_wired build host p) turn).2.2

/-- An effect comes from a command, while the report is loaded. -/
theorem effect_mem_iff {effect : Effect P} :
    .effect effect ∈ notices build host true run ↔
      ∃ p client order arrangement q, run = p ++ ⟨.hook .after .clientCommand client, order, arrangement⟩ :: q ∧
        client ≠ 0 ∧ Loaded .report p ∧ build.keeps = true ∧
        effect ∈ commandEffects (coreAfter build host p).toSetting client := by
  unfold notices
  simp only [machine.mem_emitted_iff, emit_reached, Core.emit_effect, loaded_iff, coreAfter_build]
  constructor
  · rintro ⟨p, ⟨action, order, arrangement⟩, q, hrun, client, rfl, hrest⟩
    exact ⟨p, client, order, arrangement, q, hrun, hrest⟩
  · rintro ⟨p, client, order, arrangement, q, hrun, hrest⟩
    exact ⟨p, _, q, hrun, client, rfl, hrest⟩

/-- A run emits what is a use of a null pointer if one of its steps does. -/
theorem usesNull_iff {singleton : Singleton P G T X Output} :
    UsesNull (machine.emitted singleton run) ↔
      ∃ p turn q, run = p ++ turn :: q ∧ UsesNull (machine.emit (machine.exec singleton p) turn) := by
  unfold UsesNull
  simp only [machine.mem_emitted_iff]
  constructor
  · rintro (⟨p, turn, q, hrun, h⟩ | ⟨fault, p, turn, q, hrun, h⟩)
    · exact ⟨p, turn, q, hrun, Or.inl h⟩
    · exact ⟨p, turn, q, hrun, Or.inr ⟨fault, h⟩⟩
  · rintro ⟨p, turn, q, hrun, h | ⟨fault, h⟩⟩
    · exact Or.inl ⟨p, turn, q, hrun, h⟩
    · exact Or.inr ⟨fault, p, turn, q, hrun, h⟩

/-- Without a registry any loading uses a null pointer, and nothing else does. -/
theorem idle_faults (build : Build T) (host : Host P G T) (run : List (Turn P G T X Output)) :
    UsesNull (notices build host false run) ↔ ∃ turn ∈ run, ∃ feature, turn.action = .load feature := by
  have hidle (p : List (Turn P G T X Output)) : Idle (machine.exec (initial build host false) p) :=
    machine.exec_invariant (I := Idle) (fun _ turn h => h.next turn) _ p ⟨rfl, rfl⟩
  unfold notices
  rw [usesNull_iff]
  constructor
  · rintro ⟨p, turn, q, rfl, h⟩
    exact ⟨turn, by simp, ((hidle p).usesNull_emit turn).1 h⟩
  · rintro ⟨turn, hmem, hload⟩
    obtain ⟨p, q, rfl⟩ := List.append_of_mem hmem
    exact ⟨p, turn, q, rfl, ((hidle p).usesNull_emit turn).2 hload⟩

/-- With a registry no loading fails. -/
theorem not_failed (failure : Failure) : .failed failure ∉ notices build host true run := by
  intro h
  obtain ⟨p, turn, q, -, hemit⟩ := machine.mem_emitted_iff.1 h
  rw [emit_reached] at hemit
  exact Core.emit_failed hemit

/-- A null pointer is used in a run exactly if a feature is loaded without a registry, or if, with the report
loaded and subscribed, a client's command comes to an engine that it faults on. -/
theorem faults_explained (build : Build T) (host : Host P G T) (registry : Bool)
    (run : List (Turn P G T X Output)) :
    UsesNull (notices build host registry run) ↔
      (registry = false ∧ ∃ turn ∈ run, ∃ feature, turn.action = .load feature) ∨
      (registry = true ∧ build.keeps = true ∧
        ∃ p client order arrangement q, run = p ++ ⟨.hook .after .clientCommand client, order, arrangement⟩ :: q ∧
          client ≠ 0 ∧ Loaded .report p ∧ Raw.CommandFaults (coreAfter build host p).engine) := by
  cases registry with
  | false => simp [idle_faults]
  | true =>
    simp only [Bool.true_eq_false, false_and, false_or, true_and]
    unfold UsesNull
    simp only [not_failed, false_or, effect_mem_iff]
    constructor
    · rintro ⟨fault, p, client, order, arrangement, q, hrun, h0, hloaded, hkeeps, hfault⟩
      exact ⟨hkeeps, p, client, order, arrangement, q, hrun, h0, hloaded, faulted_mem_iff.1 ⟨fault, hfault⟩⟩
    · rintro ⟨hkeeps, p, client, order, arrangement, q, hrun, h0, hloaded, hfaults⟩
      obtain ⟨fault, hfault⟩ := faulted_mem_iff.2 hfaults
      exact ⟨fault, p, client, order, arrangement, q, hrun, h0, hloaded, hkeeps, hfault⟩

/-- A run prints a line exactly if its client asks for a report with the report loaded and subscribed, and it
is the one that the engine and the entities give at that time. -/
theorem prints_explained (build : Build T) (host : Host P G T) (run : List (Turn P G T X Output))
    (print : Raw.Print P) :
    .effect (.printed print) ∈ notices build host true run ↔
      build.keeps = true ∧
        ∃ p order arrangement q, run = p ++ ⟨.hook .after .clientCommand print.client, order, arrangement⟩ :: q ∧
          print.client ≠ 0 ∧ Loaded .report p ∧ Raw.Requested (coreAfter build host p).engine ∧
          Raw.reportText (coreAfter build host p).engine (coreAfter build host p).entities print.client =
            .ok print.text := by
  simp only [effect_mem_iff, printed_mem_iff]
  constructor
  · rintro ⟨p, client, order, arrangement, q, hrun, h0, hloaded, hkeeps, hrequested, rfl, htext⟩
    exact ⟨hkeeps, p, order, arrangement, q, hrun, h0, hloaded, hrequested, htext⟩
  · rintro ⟨hkeeps, p, order, arrangement, q, hrun, h0, hloaded, hrequested, htext⟩
    exact ⟨p, print.client, order, arrangement, q, hrun, h0, hloaded, hkeeps, hrequested, rfl, htext⟩

end Runs

end Plugin

end Refrigerator
