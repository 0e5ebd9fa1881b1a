/-
The plugin refines its core: every run of the one is a run of the other.

A hook that a feature has a binding for is served as the core serves it (`serves_loaded`), whatever the
orders in which the dispatchers call their subscribers, and so is every turn (`step_core`).
-/
import Refrigerator.Plugin.Wiring

namespace Refrigerator.Plugin

open Lib Metamod Bindings

variable {P G T X : Type} {Output : Target → Type} [LinearOrder P] [Zero P]

/-! ## A hook that is served -/

/-- What the subscribers of a hook make of the world of a singleton is the hook of its core. -/
def Serves (singleton : Singleton P G T X Output) (phase : Phase) (target : Target) (entity : P)
    (handlers : List (Handler P G T X Output)) : Prop :=
  ∃ world : World P G T,
    handlers.foldl (ActionHandler.handle target phase entity) { world := singleton.world } =
      { world
        state := { merged := (singleton.core.hook phase target entity).2.1 }
        effects := (singleton.core.hook phase target entity).2.2 } ∧
    world.listeners = singleton.world.listeners ∧
    ({ singleton with world } : Singleton P G T X Output).core = (singleton.core.hook phase target entity).1

variable {phase : Phase} {target : Target} {entity : P} {singleton : Singleton P G T X Output}

/-! ## The trusted entities -/

/-- A handler of the trusted entities that comes to its end. -/
theorem handle_track {w w' : World P G T} {merged : HookResult} {binding : Raw.TrustedEntities.Binding P}
    {tracked : Tracker.Context P × List (Event P)}
    (haction : binding.action { entity, globals := w.metamod, memory := w.host.memory } w.tracker = .ok tracked)
    (htrack : w.track tracked = .ok w') (hkey : binding.target = target) (hphase : binding.phase = phase) :
    (track binding : Handler P G T X Output).handle target phase entity { world := w, state := { merged } } =
      { world := w', state := { merged := max merged .handled } } := by
  have hrun : (track binding : Handler P G T X Output).action entity w = (.void, w', []) := by
    unfold track
    dsimp only
    rw [haction, Raw.ok_bind, htrack]
    rfl
  rw [ActionHandler.handle_valueless hkey hphase (by rw [hrun]; exact reply_void), hrun]
  rfl

theorem foldl_track {w w' : World P G T} {handlers : List (Handler P G T X Output)}
    {binding : Raw.TrustedEntities.Binding P} {tracked : Tracker.Context P × List (Event P)}
    (haction : binding.action { entity, globals := w.metamod, memory := w.host.memory } w.tracker = .ok tracked)
    (htrack : w.track tracked = .ok w')
    (hfilter : handlers.filter (fun handler => handler.key = target ∧ handler.phase = phase) = [track binding]) :
    handlers.foldl (ActionHandler.handle target phase entity) { world := w } =
      { world := w', state := { merged := .handled } } := by
  have hown : track binding ∈ handlers.filter (fun handler => handler.key = target ∧ handler.phase = phase) := by
    rw [hfilter]; exact List.mem_singleton_self _
  obtain ⟨hkey, hphase⟩ := of_decide_eq_true (List.mem_filter.1 hown).2
  rw [ActionHandler.foldl_handle_filter, hfilter]
  exact handle_track haction htrack hkey hphase

/-- At a removal the first of two subscribers does nothing, and may be gone. -/
theorem foldl_remove {w w' : World P G T} (keeps : Bool)
    (htrack : w.track (Tracker.onRemove w.tracker entity) = .ok w') :
    (Feature.trustedEntities.handlers keeps : List (Handler P G T X Output)).foldl
        (ActionHandler.handle .removeEntity .before entity) { world := w } =
      { world := w', state := { merged := .handled } } := by
  let idle : Raw.TrustedEntities.Binding P :=
    { phase := .before, target := .removeEntity, kept := false, action := fun _ context => pure (context, []) }
  let remove : Raw.TrustedEntities.Binding P :=
    { phase := .before, target := .removeEntity,
      action := fun input context => pure (Tracker.onRemove context input.entity) }
  have hremove (merged : HookResult) :
      (track remove : Handler P G T X Output).handle .removeEntity .before entity { world := w, state := { merged } } =
        { world := w', state := { merged := max merged .handled } } := handle_track rfl htrack rfl rfl
  rw [ActionHandler.foldl_handle_filter]
  cases keeps with
  | false =>
    have hfilter : (Feature.trustedEntities.handlers false : List (Handler P G T X Output)).filter
        (fun handler => handler.key = .removeEntity ∧ handler.phase = .before) = [track remove] := rfl
    rw [hfilter, List.foldl_cons, List.foldl_nil]
    exact hremove .ignored
  | true =>
    have hfilter : (Feature.trustedEntities.handlers true : List (Handler P G T X Output)).filter
        (fun handler => handler.key = .removeEntity ∧ handler.phase = .before) = [track idle, track remove] := rfl
    have hidle : (track idle : Handler P G T X Output).handle .removeEntity .before entity { world := w } =
        { world := w, state := { merged := .handled } } := handle_track rfl rfl rfl rfl
    rw [hfilter, List.foldl_cons, hidle, List.foldl_cons, List.foldl_nil]
    exact hremove .handled

/-- The dispatch of a hook that amounts to some calls of the trusted entities. -/
theorem serves_track (h : Wired singleton) {handlers : List (Handler P G T X Output)} (calls : List (Tracker.Call P))
    (hfold : ∀ w' : World P G T, singleton.world.track (Tracker.machine.exec singleton.world.tracker calls,
        Tracker.machine.emitted singleton.world.tracker calls) = .ok w' →
      handlers.foldl (ActionHandler.handle target phase entity) { world := singleton.world } =
        { world := w', state := { merged := .handled } })
    (hhook : singleton.core.hook phase target entity = (singleton.core.follow calls, .handled, [])) :
    Serves singleton phase target entity handlers := by
  obtain ⟨w', htrack, hlisteners, hcore⟩ := core_track h calls
  refine ⟨w', (hfold w' htrack).trans ?_, hlisteners, ?_⟩
  · rw [hhook]
  · rw [hhook]; exact hcore

theorem serves_trustedEntities (h : Wired singleton) (keeps : Bool)
    (hf : feature phase target = some .trustedEntities) (hmem : .trustedEntities ∈ singleton.loaded) :
    Serves singleton phase target entity (Feature.trustedEntities.handlers keeps) := by
  have hcall : ∀ call : Tracker.Call P, Tracker.step singleton.world.tracker call =
      (Tracker.machine.exec singleton.world.tracker [call],
        Tracker.machine.emitted singleton.world.tracker [call]) := by
    intro call
    rw [Machine.exec_cons, Machine.emitted_cons, Machine.exec_nil, Machine.emitted_nil, List.append_nil]
    rfl
  have hloaded : Feature.trustedEntities ∈ singleton.core.loaded := List.mem_toFinset.2 hmem
  have hhook := Core.hook_tracked entity hloaded hf
  have hcreate : Raw.TrustedEntities.createAction (singleton.core.input entity) singleton.world.tracker =
      .ok (Tracker.machine.exec singleton.world.tracker (singleton.core.input entity |>.globals.map .create).toList,
        Tracker.machine.emitted singleton.world.tracker
          (singleton.core.input entity |>.globals.map .create).toList) := by
    rw [Raw.TrustedEntities.createAction_ok]
    unfold Tracker.createAction
    cases (singleton.core.input entity).globals with
    | none => rfl
    | some globals => exact congrArg Except.ok (hcall (.create globals))
  -- the only subscriber of the hook, whether or not the idle one lasts
  have hsole {handler : Handler P G T X Output}
      (hfalse : (Feature.trustedEntities.handlers false).filter
        (fun handler => handler.key = target ∧ handler.phase = phase) = [handler])
      (htrue : (Feature.trustedEntities.handlers true).filter
        (fun handler => handler.key = target ∧ handler.phase = phase) = [handler]) :
      (Feature.trustedEntities.handlers keeps).filter
        (fun handler => handler.key = target ∧ handler.phase = phase) = [handler] := by
    cases keeps with
    | false => exact hfalse
    | true => exact htrue
  cases phase with
  | before =>
    cases target with
    | frame =>
      refine serves_track h [.frame singleton.world.host.memory] (fun w' htrack => ?_) hhook
      rw [← hcall] at htrack
      exact foldl_track (Raw.TrustedEntities.onFrame_ok _ h.wf.tracker) htrack (hsole rfl rfl)
    | shutdown =>
      refine serves_track h [.shutdown] (fun w' htrack => ?_) hhook
      rw [← hcall] at htrack
      exact foldl_track rfl htrack (hsole rfl rfl)
    | removeEntity =>
      refine serves_track h [.remove entity] (fun w' htrack => ?_) hhook
      rw [← hcall] at htrack
      exact foldl_remove keeps htrack
    | createNamedEntity =>
      exact serves_track h _ (fun w' htrack => foldl_track hcreate htrack (hsole rfl rfl)) hhook
    | _ => cases hf
  | after =>
    cases target with
    | init =>
      refine serves_track h [.init] (fun w' htrack => ?_) hhook
      rw [← hcall] at htrack
      exact foldl_track rfl htrack (hsole rfl rfl)
    | spawn =>
      refine serves_track h [.spawn entity] (fun w' htrack => ?_) hhook
      rw [← hcall] at htrack
      exact foldl_track rfl htrack (hsole rfl rfl)
    | createEntity =>
      exact serves_track h _ (fun w' htrack => foldl_track hcreate htrack (hsole rfl rfl)) hhook
    | _ => cases hf

/-! ## The other features -/

/-- A hook with one subscriber, which returns no value. -/
theorem serves_single {handlers : List (Handler P G T X Output)} (handler : Handler P G T X Output)
    (hfilter : handlers.filter (fun handler => handler.key = target ∧ handler.phase = phase) = [handler])
    {answer : Answer X handler.phase (Output handler.key)} {world : World P G T} {effects : List (Effect P)}
    (haction : handler.action entity singleton.world = (answer, world, effects)) {r : HookResult}
    (hreply : answer.reply = some (r, none)) (hr : .ignored ≤ r)
    (hlisteners : world.listeners = singleton.world.listeners)
    (hhook : singleton.core.hook phase target entity =
      (({ singleton with world } : Singleton P G T X Output).core, r, effects)) :
    Serves singleton phase target entity handlers := by
  have hown : handler ∈ handlers.filter (fun handler => handler.key = target ∧ handler.phase = phase) := by
    rw [hfilter]; exact List.mem_singleton_self _
  obtain ⟨hkey, hphase⟩ := of_decide_eq_true (List.mem_filter.1 hown).2
  unfold Serves
  rw [hhook]
  refine ⟨world, ?_, hlisteners, rfl⟩
  rw [ActionHandler.foldl_handle_filter, hfilter, List.foldl_cons, List.foldl_nil]
  refine (ActionHandler.handle_valueless hkey hphase (by rw [haction]; exact hreply) .ignored []).trans ?_
  rw [haction, max_eq_right hr, List.nil_append]

theorem serves_butchering (h : Wired singleton) (keeps : Bool) (hf : feature phase target = some .butchering)
    (hmem : .butchering ∈ singleton.loaded) :
    Serves singleton phase target entity (Feature.butchering.handlers keeps) := by
  have hloaded : Feature.butchering ∈ singleton.core.loaded := List.mem_toFinset.2 hmem
  cases phase with
  | before =>
    cases target with
    | think =>
      have haction : (onThink : Handler P G T X Output).action entity singleton.world =
          (.alone (Butchering.onThink singleton.world.engine.toFeatures singleton.world.host.memory
              singleton.world.butchering entity).1,
            { singleton.world with
              host.memory := (Butchering.onThink singleton.world.engine.toFeatures singleton.world.host.memory
                singleton.world.butchering entity).2 }, []) := by
        unfold onThink
        dsimp only
        rw [Raw.onThink_ok]
        rfl
      refine serves_single onThink rfl haction rfl ?_ rfl (Core.hook_think entity hloaded)
      exact HookResult.ignored_le_iff.2 (unset_lt_transform _)
    | _ => cases hf
  | after =>
    cases target with
    | frame =>
      have haction : (onFrame : Handler P G T X Output).action entity singleton.world =
          (.void, { singleton.world with
            host.memory := Butchering.onFrame singleton.world.engine.toFeatures singleton.world.host.memory
              singleton.world.butchering }, []) := by
        have hgibses : 0 ∉ singleton.world.butchering.gibses := h.wf.gibses
        unfold onFrame
        dsimp only
        rw [Raw.Gibs.onFrame_ok _ _ hgibses]
        rfl
      refine serves_single onFrame rfl haction rfl ?_ rfl (Core.hook_frame entity hloaded)
      exact HookResult.ignored_le_iff.2 (unset_lt_transform _)
    | _ => cases hf

/-- The subscription of the report may be gone. -/
theorem serves_report (hf : feature phase target = some .report) (hmem : .report ∈ singleton.loaded) :
    Serves singleton phase target entity (Feature.report.handlers singleton.world.build.keeps) := by
  have hloaded : Feature.report ∈ singleton.core.loaded := List.mem_toFinset.2 hmem
  cases phase with
  | before => cases target <;> cases hf
  | after =>
    cases target with
    | clientCommand =>
      cases hkeeps : singleton.world.build.keeps with
      | false =>
        have hignored : singleton.core.serves .after .clientCommand = false := Core.serves_eq_false (by
          rintro f - hfeature
          cases hfeature
          exact hkeeps)
        unfold Serves
        rw [Core.hook_ignored entity hignored]
        exact ⟨singleton.world, rfl, rfl, rfl⟩
      | true =>
        have haction : (onClientCommand : Handler P G T X Output).action entity singleton.world =
            (.void, singleton.world, if entity = 0 then [] else commandEffects singleton.world.toSetting entity) := by
          unfold onClientCommand commandEffects
          dsimp only
          split_ifs
          · rfl
          · cases Raw.handleClientCommand singleton.world.engine singleton.world.entities entity with
            | error fault => rfl
            | ok print => rfl
        refine serves_single onClientCommand rfl haction rfl ?_ rfl (Core.hook_command entity hloaded hkeeps)
        exact HookResult.ignored_le_iff.2 (unset_lt_transform _)
    | _ => cases hf

/-! ## Runs -/

/-- The subscriptions of the loaded features serve a hook as the core does. -/
theorem serves_loaded (h : Wired singleton) (phase : Phase) (target : Target) (entity : P) :
    Serves singleton phase target entity
      (singleton.loaded.flatMap (Feature.handlers singleton.world.build.keeps)) := by
  have hignored (hnone : ∀ f ∈ singleton.loaded, feature phase target ≠ some f) :
      singleton.core.hook phase target entity = (singleton.core, .ignored, []) :=
    Core.hook_ignored entity
      (Core.serves_eq_false fun f hf hfeature => absurd hfeature (hnone f (List.mem_toFinset.1 hf)))
  unfold Serves
  rw [foldl_loaded h.nodup]
  cases hf : feature phase target with
  | none =>
    rw [hignored (by simp [hf])]
    exact ⟨singleton.world, rfl, rfl, rfl⟩
  | some f =>
    by_cases hmem : f ∈ singleton.loaded
    · simp only [hmem, if_true]
      cases f with
      | trustedEntities => exact serves_trustedEntities h _ hf hmem
      | butchering => exact serves_butchering h _ hf hmem
      | report => exact serves_report hf hmem
    · rw [hignored]
      · simp only [hmem, if_false]
        exact ⟨singleton.world, rfl, rfl, rfl⟩
      · rintro g hg heq
        rw [hf] at heq
        exact hmem (Option.some.inj heq ▸ hg)

variable [DecidableEq G]

/-- An executor is the hook of the core, whatever the order of the subscribers. -/
theorem execute_core (h : Wired singleton) (order : Order (Handler P G T X Output))
    (arrangement : Event P → Order Listener) (phase : Phase) (target : Target) (entity : P) :
    let hooked := singleton.core.hook phase target entity
    Wired (singleton.execute order arrangement phase target entity).1 ∧
      (singleton.execute order arrangement phase target entity).1.core =
        { hooked.1 with toSetting := hooked.1.toSetting.report hooked.2.1 } ∧
      (singleton.execute order arrangement phase target entity).2 =
        hooked.2.2.map .effect ++ [.returned target none] := by
  let arranged : Singleton P G T X Output := { singleton with world.arrangement := arrangement }
  have harranged : Wired arranged := ⟨h.registry, h.nodup, h.trusted, h.listeners, h.wf⟩
  obtain ⟨world, hfold, hlisteners, hcore⟩ := serves_loaded harranged phase target entity
  have hsame : arranged.core = singleton.core := rfl
  rw [hsame] at hfold hcore
  have hexecute : singleton.execute order arrangement phase target entity =
      ({ singleton with
         world := { world with toSetting := world.toSetting.report (singleton.core.hook phase target entity).2.1 } },
        (singleton.core.hook phase target entity).2.2.map .effect ++ [.returned target none]) := by
    unfold Singleton.execute
    rw [h.registry]
    dsimp only
    rw [← ActionHandler.foldl_handle_perm (pairwise_loaded _ h.nodup) (order.perm _).symm, hfold, List.map_nil,
      List.append_nil]
  have hsetting := congrArg Setting.build (singleton.core.hook_setting phase target entity)
  have hbuild : world.build = singleton.world.build :=
    (congrArg (fun core : Core P G T => core.build) hcore).trans hsetting
  have hwf := Core.hook_wf h.wf phase target entity
  rw [← hcore] at hwf
  rw [hexecute]
  refine ⟨⟨?_, h.nodup, h.trusted, hlisteners.trans h.listeners, ⟨hwf.tracker, hwf.gibses⟩⟩, ?_, rfl⟩
  · dsimp only
    rw [Setting.report_build, hbuild]
    exact h.registry
  · rw [← hcore]
    rfl

variable [Inhabited T]

/-- One turn, and the action of the core. -/
theorem step_core (h : Wired singleton) (turn : Turn P G T X Output) :
    Wired (machine.next singleton turn) ∧
      (machine.next singleton turn).core = (Core.machine Output).next singleton.core turn.action ∧
      machine.emit singleton turn = (Core.machine Output).emit singleton.core turn.action := by
  obtain ⟨action, order, arrangement⟩ := turn
  cases action with
  | load feature =>
    obtain ⟨singleton', hload, hwired, hcore⟩ := load_loads h feature
    have hstep : singleton.step ⟨.load feature, order, arrangement⟩ = (singleton', []) := by
      simp only [Singleton.step, hload]
    unfold Machine.next Machine.emit machine
    dsimp only
    rw [hstep]
    exact ⟨hwired, hcore, rfl⟩
  | call call cell => exact ⟨⟨h.registry, h.nodup, h.trusted, h.listeners, ⟨h.wf.tracker, h.wf.gibses⟩⟩, rfl, rfl⟩
  | table phase table =>
    have hregistry : singleton.registry.isSome = true := by rw [h.registry]; rfl
    have hstep : singleton.step ⟨.table phase table, order, arrangement⟩ =
        ({ singleton with world.toSetting := (singleton.world.toSetting.table true phase table).1 },
          [.offered (singleton.world.toSetting.table true phase table).2.1
            (singleton.world.toSetting.table true phase table).2.2]) := by
      simp only [Singleton.step, hregistry]
    unfold Machine.next Machine.emit machine
    dsimp only
    rw [hstep]
    exact ⟨⟨h.registry, h.nodup, h.trusted, h.listeners, ⟨h.wf.tracker, h.wf.gibses⟩⟩, rfl, rfl⟩
  | hook phase target entity =>
    obtain ⟨hwired, hcore, hnotices⟩ := execute_core h order arrangement phase target entity
    exact ⟨hwired, hcore, hnotices⟩
  | host host => exact ⟨⟨h.registry, h.nodup, h.trusted, h.listeners, ⟨h.wf.tracker, h.wf.gibses⟩⟩, rfl, rfl⟩

omit [DecidableEq G] in
theorem initial_wired (build : Build T) (host : Host P G T) :
    Wired (initial build host true : Singleton P G T X Output) :=
  ⟨rfl, List.nodup_nil, by simp [initial], rfl, ⟨Tracker.initial_wf, Finset.notMem_empty 0⟩⟩

theorem reached_wired (build : Build T) (host : Host P G T) (run : List (Turn P G T X Output)) :
    Wired (reached build host true run) :=
  machine.exec_invariant (I := Wired) (fun _ turn h => (step_core h turn).1) _ run (initial_wired build host)

/-- A run from a wired plugin is one of the core. -/
theorem exec_core (h : Wired singleton) (run : List (Turn P G T X Output)) :
    (machine.exec singleton run).core = (Core.machine Output).exec singleton.core (run.map Turn.action) ∧
      machine.emitted singleton run = (Core.machine Output).emitted singleton.core (run.map Turn.action) :=
  machine.exec_simulates (Core.machine Output) (I := Wired) (f := Singleton.core) (g := Turn.action)
    (fun _ turn h => step_core h turn) singleton run h

/-- Every run is the run of the core with the same actions, and it has the same notices: neither the order in
which the features were loaded nor the orders of the subscribers make a difference. -/
theorem reached_core (build : Build T) (host : Host P G T) (run : List (Turn P G T X Output)) :
    (reached build host true run).core = Core.reached Output build host (run.map Turn.action) ∧
      notices build host true run = Core.notices build host (run.map Turn.action) :=
  exec_core (initial_wired build host) run

/-- The core of the plugin after a run. -/
def coreAfter (build : Build T) (host : Host P G T) (run : List (Turn P G T X Output)) : Core P G T :=
  (reached build host true run).core

theorem coreAfter_eq (build : Build T) (host : Host P G T) (run : List (Turn P G T X Output)) :
    coreAfter build host run = Core.reached Output build host (run.map Turn.action) :=
  (exec_core (initial_wired build host) run).1

theorem coreAfter_snoc (build : Build T) (host : Host P G T) (run : List (Turn P G T X Output))
    (turn : Turn P G T X Output) :
    coreAfter build host (run ++ [turn]) = (Core.machine Output).next (coreAfter build host run) turn.action := by
  rw [coreAfter_eq, coreAfter_eq, List.map_append]
  exact (Core.machine Output).exec_snoc _ _ _

/-- The feature has been loaded, by itself or with one that needs it. -/
def Loaded (feature : Feature) (run : List (Turn P G T X Output)) : Prop :=
  ∃ turn ∈ run, ∃ other, turn.action = .load other ∧ feature ∈ other.needed

theorem loaded_iff {build : Build T} {host : Host P G T} {feature : Feature} {run : List (Turn P G T X Output)} :
    feature ∈ (coreAfter build host run).loaded ↔ Loaded feature run := by
  unfold Loaded
  induction run using List.reverseRecOn with
  | nil => simp [coreAfter_eq, Core.reached, Core.initial]
  | append_singleton run turn ih =>
    have hmem : (∃ turn' ∈ run ++ [turn], ∃ other, turn'.action = .load other ∧ feature ∈ other.needed) ↔
        (∃ turn' ∈ run, ∃ other, turn'.action = .load other ∧ feature ∈ other.needed) ∨
          ∃ other, turn.action = .load other ∧ feature ∈ other.needed := by
      simp only [List.mem_append, List.mem_singleton, or_and_right, exists_or, exists_eq_left]
    rw [coreAfter_snoc, hmem, ← ih]
    obtain ⟨action, order, arrangement⟩ := turn
    cases action with
    | call call cell => exact (or_iff_left (by simp)).symm
    | table phase table => exact (or_iff_left (by simp)).symm
    | host host => exact (or_iff_left (by simp)).symm
    | hook phase target entity =>
      rw [Core.next_hook]
      dsimp only
      rw [Core.hook_loaded]
      exact (or_iff_left (by simp)).symm
    | load other =>
      show feature ∈ (coreAfter build host run).loaded ∪ other.needed ↔ _
      rw [Finset.mem_union]
      simp

theorem coreAfter_wf (build : Build T) (host : Host P G T) (run : List (Turn P G T X Output)) :
    Core.WF (coreAfter build host run) := by
  rw [coreAfter_eq]
  exact Core.reached_wf build host _

end Refrigerator.Plugin
