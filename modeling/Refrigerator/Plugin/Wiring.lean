/-
The plugin refines its core: what the features do together does not depend on the order in which they
were loaded, nor on the orders in which the dispatchers call the subscribers of their events.

The subscriptions are those of the loaded features (`Wired`), and no null is in the lists, so the handlers
come to their end. Subscribers of the same hook are independent, so the dispatch of a hook is that of the
one feature with a binding for it.
-/
import Refrigerator.Plugin.Hooks
import Mathlib.Data.List.Dedup
import Mathlib.Data.List.Permutation

namespace Refrigerator.Plugin

open Lib Metamod Bindings

variable {P G T X : Type} {Output : Target → Type} [LinearOrder P] [Zero P]

/-! ## Loading -/

/-- The bindings of a feature whose subscriptions last, in the order it injects them. -/
def Feature.handlers (keeps : Bool) (feature : Feature) : List (Handler P G T X Output) :=
  (feature.injections.filter fun injection => injection.1 || keeps).map Prod.snd

omit [LinearOrder P] [Zero P] in
theorem foldlM_inject {singleton : Singleton P G T X Output} {handlers : List (Handler P G T X Output)}
    (h : singleton.registry = some handlers) (more : List (Bool × Handler P G T X Output)) :
    more.foldlM Singleton.inject singleton =
      .ok { singleton with
            registry := some (handlers ++
              (more.filter fun injection => injection.1 || singleton.world.build.keeps).map Prod.snd) } := by
  induction more generalizing singleton handlers with
  | nil =>
    show Except.ok singleton = _
    rw [List.filter_nil, List.map_nil, List.append_nil, ← h]
  | cons injection more ih =>
    let handlers' := Singleton.subscribe singleton.world.build.keeps handlers injection
    have hinject : singleton.inject injection = .ok { singleton with registry := some handlers' } := by
      unfold Singleton.inject
      rw [h]
    rw [List.foldlM_cons, hinject]
    show more.foldlM Singleton.inject { singleton with registry := some handlers' } = _
    rw [ih rfl]
    simp only [handlers', Singleton.subscribe, List.filter_cons]
    split_ifs
    · rw [List.map_cons, List.append_assoc]; rfl
    · rfl

/-- The registry has the bindings of the loaded features, the butchering feature listens to the trusted
entities, which are loaded with it, and no null is in the lists. -/
structure Wired (singleton : Singleton P G T X Output) : Prop where
  registry : singleton.registry = some (singleton.loaded.flatMap (Feature.handlers singleton.world.build.keeps))
  nodup : singleton.loaded.Nodup
  trusted : .butchering ∈ singleton.loaded → .trustedEntities ∈ singleton.loaded
  listeners : singleton.world.listeners = if .butchering ∈ singleton.loaded then [.onExit, .onEnter] else []
  wf : Core.WF singleton.core

/-- What loading leaves: the wiring, the features that were asked for, and everything else as it was. -/
def Loads (singleton : Singleton P G T X Output) (needed : Finset Feature)
    (loading : Except Failure (Singleton P G T X Output)) : Prop :=
  ∃ singleton', loading = .ok singleton' ∧ Wired singleton' ∧
    singleton'.core = { singleton.core with loaded := singleton.core.loaded ∪ needed }

theorem loads_of_loaded {singleton : Singleton P G T X Output} (h : Wired singleton) {feature : Feature}
    {needed : Finset Feature} (hmem : feature ∈ singleton.loaded) (hneeded : ∀ f ∈ needed, f ∈ singleton.loaded)
    (construct : Except Failure (Singleton P G T X Output)) :
    Loads singleton needed (singleton.once feature construct) := by
  refine ⟨singleton, if_pos hmem, h, ?_⟩
  have hunion : singleton.core.loaded ∪ needed = singleton.core.loaded :=
    Finset.union_eq_left.2 fun f hf => List.mem_toFinset.2 (hneeded f hf)
  rw [hunion]

/-- A feature other than the butchering one needs only its own bindings. -/
theorem once_loads {singleton : Singleton P G T X Output} (h : Wired singleton) {feature : Feature}
    (hne : feature ≠ .butchering) :
    Loads singleton {feature} (singleton.once feature (feature.injections.foldlM Singleton.inject singleton)) := by
  by_cases hmem : feature ∈ singleton.loaded
  · exact loads_of_loaded h hmem (by simpa using hmem) _
  · have hiff : Feature.butchering ∈ singleton.loaded ++ [feature] ↔ Feature.butchering ∈ singleton.loaded := by
      simp [hne.symm]
    refine ⟨_, (if_neg hmem).trans (by rw [foldlM_inject h.registry]; rfl), ⟨?_, ?_, ?_, ?_, ?_⟩, ?_⟩
    · simp [Feature.handlers]
    · show (singleton.loaded ++ [feature]).Nodup
      rw [← List.concat_eq_append]
      exact h.nodup.concat hmem
    · intro hb
      exact List.mem_append_left _ (h.trusted (hiff.1 hb))
    · simp only [hiff]
      exact h.listeners
    · exact ⟨h.wf.tracker, h.wf.gibses⟩
    · simp [Singleton.core]

theorem loadButchering_loads {singleton : Singleton P G T X Output} (h : Wired singleton) :
    Loads singleton {.trustedEntities, .butchering} singleton.loadButchering := by
  by_cases hmem : Feature.butchering ∈ singleton.loaded
  · refine loads_of_loaded h hmem ?_ _
    simp [hmem, h.trusted hmem]
  · obtain ⟨trusted, hload, hwired, hcore⟩ := once_loads h (show Feature.trustedEntities ≠ .butchering by decide)
    have hloaded : trusted.loaded.toFinset = singleton.loaded.toFinset ∪ {.trustedEntities} :=
      congrArg Core.loaded hcore
    have hmem' : Feature.butchering ∉ trusted.loaded := by
      rw [← List.mem_toFinset, hloaded]
      simp [hmem]
    have htrusted : Feature.trustedEntities ∈ trusted.loaded := by
      rw [← List.mem_toFinset, hloaded]
      simp
    have hlisteners : trusted.world.listeners = [] := hwired.listeners.trans (if_neg hmem')
    let listening : Singleton P G T X Output :=
      { trusted with world.listeners := trusted.world.listeners ++ [.onExit, .onEnter] }
    let keeps := listening.world.build.keeps
    have hregistry : listening.registry = some (listening.loaded.flatMap (Feature.handlers keeps)) :=
      hwired.registry
    let handlers : List (Handler P G T X Output) :=
      listening.loaded.flatMap (Feature.handlers keeps) ++ Feature.butchering.handlers keeps
    refine ⟨{ listening with registry := some handlers, loaded := listening.loaded ++ [.butchering] },
      (if_neg hmem).trans ?_, ⟨?_, ?_, ?_, ?_, ?_⟩, ?_⟩
    · show (singleton.loadTrustedEntities >>= _) >>= _ = _
      unfold Singleton.loadTrustedEntities
      rw [hload]
      show Feature.butchering.injections.foldlM Singleton.inject listening >>= _ = _
      rw [foldlM_inject hregistry]
      rfl
    · show some handlers = some ((listening.loaded ++ [Feature.butchering]).flatMap (Feature.handlers keeps))
      simp [handlers]
    · show (trusted.loaded ++ [Feature.butchering]).Nodup
      rw [← List.concat_eq_append]
      exact hwired.nodup.concat hmem'
    · intro _
      exact List.mem_append_left _ htrusted
    · show trusted.world.listeners ++ [.onExit, .onEnter] = _
      rw [hlisteners, if_pos (List.mem_append_right _ (List.mem_singleton_self _))]
      rfl
    · exact ⟨hwired.wf.tracker, hwired.wf.gibses⟩
    · have hset : (trusted.loaded ++ [Feature.butchering]).toFinset =
          singleton.loaded.toFinset ∪ {.trustedEntities, .butchering} := by
        rw [List.toFinset_append, hloaded]
        ext f
        simp
      show ({ trusted.core with loaded := _ } : Core P G T) = _
      rw [hcore]
      exact congrArg (fun loaded => ({ singleton.core with loaded } : Core P G T)) hset

theorem load_loads {singleton : Singleton P G T X Output} (h : Wired singleton) (feature : Feature) :
    Loads singleton feature.needed (singleton.load feature) := by
  cases feature with
  | trustedEntities => exact once_loads h (by decide)
  | butchering => exact loadButchering_loads h
  | report => exact once_loads h (by decide)

/-! ## Independent bindings -/

/-- Each binding is for a hook of its feature. -/
theorem feature_of_mem {f : Feature} {keeps : Bool} {handler : Handler P G T X Output}
    (h : handler ∈ f.handlers keeps) : feature handler.phase handler.key = some f := by
  obtain ⟨injection, hinjection, rfl⟩ := List.mem_map.1 h
  replace hinjection := List.mem_of_mem_filter hinjection
  cases f with
  | trustedEntities =>
    obtain ⟨binding, hbinding, rfl⟩ := List.mem_map.1 hinjection
    simp only [Raw.TrustedEntities.bindings, List.mem_cons, List.not_mem_nil, or_false] at hbinding
    rcases hbinding with rfl | rfl | rfl | rfl | rfl | rfl | rfl | rfl <;> rfl
  | butchering =>
    simp only [Feature.injections, List.mem_cons, List.not_mem_nil, or_false] at hinjection
    rcases hinjection with rfl | rfl <;> rfl
  | report =>
    obtain rfl := List.mem_singleton.1 hinjection
    rfl

theorem track_void (binding : Raw.TrustedEntities.Binding P) : (track binding : Handler P G T X Output).Void := by
  intro entity w
  unfold track
  dsimp only
  cases binding.action { entity, globals := w.metamod, memory := w.host.memory } w.tracker with
  | error fault => rfl
  | ok tracked =>
    rw [Raw.ok_bind]
    cases w.track tracked with
    | error fault => rfl
    | ok w' => rfl

/-- Two of the bindings meet at a removal, and one of them does nothing. -/
theorem pairwise_trustedEntities : (Raw.TrustedEntities.bindings.map track : List (Handler P G T X Output)).Pairwise
    ActionHandler.Independent := by
  refine List.pairwise_map.2 ?_
  have hkeys : ∀ {binding other : Raw.TrustedEntities.Binding P},
      binding.target ≠ other.target ∨ binding.phase ≠ other.phase →
        (track binding : Handler P G T X Output).Independent (track other) := fun h => Or.inl h
  simp only [Raw.TrustedEntities.bindings, List.pairwise_cons, List.mem_cons, List.not_mem_nil, or_false,
    forall_eq_or_imp, forall_eq, false_imp_iff, implies_true, List.Pairwise.nil, and_true]
  refine ⟨?_, ⟨?_, Or.inr (Or.inl ⟨fun _ _ => rfl, track_void _⟩), ?_⟩, ?_, ?_, ?_, ?_, ?_⟩
  all_goals simp [hkeys]

theorem pairwise_handlers (keeps : Bool) (f : Feature) :
    (f.handlers keeps : List (Handler P G T X Output)).Pairwise ActionHandler.Independent := by
  have hsublist : (f.handlers keeps : List (Handler P G T X Output)).Sublist (f.injections.map Prod.snd) :=
    List.filter_sublist.map _
  refine List.Pairwise.sublist hsublist ?_
  cases f with
  | trustedEntities =>
    rw [Feature.injections, List.map_map]
    exact pairwise_trustedEntities
  | butchering =>
    have hkey : Target.think ≠ .frame := by decide
    exact List.pairwise_pair.2 (Or.inl (Or.inl hkey))
  | report => exact List.pairwise_singleton _ _

/-- The subscriptions of different features are for different hooks. -/
theorem pairwise_loaded (keeps : Bool) {loaded : List Feature} (h : loaded.Nodup) :
    (loaded.flatMap (Feature.handlers keeps) : List (Handler P G T X Output)).Pairwise
      ActionHandler.Independent := by
  refine List.pairwise_flatMap.2 ⟨fun f _ => pairwise_handlers keeps f, h.imp ?_⟩
  intro f f' hne handler hhandler other hother
  refine Or.inl (not_and_or.1 ?_)
  rintro ⟨hkey, hphase⟩
  have hf := feature_of_mem hhandler
  rw [hkey, hphase, feature_of_mem hother] at hf
  exact hne (Option.some.inj hf).symm

/-! ## Dispatching a hook -/

variable {phase : Phase} {target : Target} {entity : P} {keeps : Bool}

/-- A feature without a binding for the hook does nothing. -/
theorem foldl_foreign {f : Feature} (h : feature phase target ≠ some f)
    (progress : Progress (World P G T) (Effect P) X (Output target)) :
    (f.handlers keeps).foldl (ActionHandler.handle target phase entity) progress = progress := by
  rw [ActionHandler.foldl_handle_filter, List.filter_eq_nil_iff.2]
  · rfl
  · intro handler hhandler
    rw [decide_eq_true_iff]
    rintro ⟨rfl, rfl⟩
    exact h (feature_of_mem hhandler)

/-- Of the loaded features at most one is concerned. -/
theorem foldl_loaded {loaded : List Feature} (hnodup : loaded.Nodup)
    (progress : Progress (World P G T) (Effect P) X (Output target)) :
    (loaded.flatMap (Feature.handlers keeps)).foldl (ActionHandler.handle target phase entity) progress =
      match feature phase target with
      | none => progress
      | some f =>
        if f ∈ loaded then (f.handlers keeps).foldl (ActionHandler.handle target phase entity) progress
        else progress := by
  induction loaded generalizing progress with
  | nil => cases feature phase target <;> rfl
  | cons f loaded ih =>
    obtain ⟨hmem, hnodup⟩ := List.nodup_cons.1 hnodup
    rw [List.flatMap_cons, List.foldl_append, ih hnodup]
    by_cases hf : feature phase target = some f
    · rw [hf]
      simp only [hmem, if_false, List.mem_cons, true_or, if_true]
    · rw [foldl_foreign hf]
      cases hfeature : feature phase target with
      | none => rfl
      | some g =>
        have hne : g ≠ f := fun heq => hf (hfeature.trans (congrArg some heq))
        simp only [List.mem_cons, hne, false_or]

/-! ## Events of the trusted entities -/

/-- No event enters a null entity. -/
def Nonnull (events : List (Event P)) : Prop := ∀ event ∈ events, event.state = true → 0 ∉ event.list

/-- Of the two listeners one takes the event, in whatever order they are called. -/
theorem dispatch_listening {w : World P G T} (h : w.listeners = [.onExit, .onEnter]) {event : Event P}
    (hnull : event.state = true → 0 ∉ event.list) :
    w.dispatch event =
      .ok { w with butchering := Butchering.deliver w.engine.toFeatures w.host.memory w.butchering event } := by
  have horder : (w.arrangement event).arrange w.listeners = [.onExit, .onEnter] ∨
      (w.arrangement event).arrange w.listeners = [.onEnter, .onExit] := by
    rw [h]; exact List.perm_pair.1 ((w.arrangement event).perm _)
  have hexit : ∀ w : World P G T, event.state = false →
      w.notify event .onExit = .ok { w with butchering := Butchering.onExit w.butchering event.list } ∧
        w.notify event .onEnter = .ok w := by
    intro w hstate
    unfold World.notify
    rw [hstate]
    exact ⟨rfl, rfl⟩
  have henter : ∀ w : World P G T, event.state = true →
      w.notify event .onExit = .ok w ∧
        w.notify event .onEnter =
          .ok { w with
                butchering := Butchering.onEnter w.engine.toFeatures w.host.memory w.butchering event.list } := by
    intro w hstate
    unfold World.notify
    rw [Raw.Gibs.onEnter_ok w.engine w.host.memory (hnull hstate), hstate]
    exact ⟨rfl, rfl⟩
  unfold World.dispatch Butchering.deliver
  cases hstate : event.state with
  | false =>
    rcases horder with heq | heq
    · rw [heq, List.foldlM_cons, (hexit w hstate).1, Raw.ok_bind, List.foldlM_cons, (hexit _ hstate).2]; rfl
    · rw [heq, List.foldlM_cons, (hexit w hstate).2, Raw.ok_bind, List.foldlM_cons, (hexit w hstate).1]; rfl
  | true =>
    rcases horder with heq | heq
    · rw [heq, List.foldlM_cons, (henter w hstate).1, Raw.ok_bind, List.foldlM_cons, (henter w hstate).2]; rfl
    · rw [heq, List.foldlM_cons, (henter w hstate).2, Raw.ok_bind, List.foldlM_cons, (henter _ hstate).1]; rfl

theorem track_listening {w : World P G T} (h : w.listeners = [.onExit, .onEnter])
    (tracked : Tracker.Context P × List (Event P)) (hnull : Nonnull tracked.2) :
    w.track tracked =
      .ok { w with
            tracker := tracked.1
            butchering := Butchering.deliverAll w.engine.toFeatures w.host.memory w.butchering tracked.2 } := by
  obtain ⟨setting, old, listeners, context, arrangement⟩ := w
  obtain rfl : listeners = [.onExit, .onEnter] := h
  obtain ⟨tracker, events⟩ := tracked
  unfold World.track Butchering.deliverAll
  induction events generalizing context with
  | nil => rfl
  | cons event events ih =>
    obtain ⟨hevent, hevents⟩ := List.forall_mem_cons.1 hnull
    rw [List.foldlM_cons, dispatch_listening rfl hevent]
    exact ih _ hevents

theorem track_alone {w : World P G T} (h : w.listeners = []) (tracked : Tracker.Context P × List (Event P)) :
    w.track tracked = .ok { w with tracker := tracked.1 } := by
  obtain ⟨tracker, events⟩ := tracked
  unfold World.track
  induction events with
  | nil => rfl
  | cons event events ih =>
    have hdispatch : ({ w with tracker } : World P G T).dispatch event = .ok { w with tracker } := by
      have hnil : (w.arrangement event).arrange w.listeners = [] := by
        rw [h]; exact List.perm_nil.1 ((w.arrangement event).perm [])
      unfold World.dispatch
      rw [hnil]
      rfl
    rw [List.foldlM_cons, hdispatch]
    exact ih

/-- Handler calls of the trusted entities are those of the core. -/
theorem core_track {singleton : Singleton P G T X Output} (h : Wired singleton) (calls : List (Tracker.Call P)) :
    let w := singleton.world
    ∃ w', w.track (Tracker.machine.exec w.tracker calls, Tracker.machine.emitted w.tracker calls) = .ok w' ∧
      w'.listeners = w.listeners ∧
      ({ singleton with world := w' } : Singleton P G T X Output).core = singleton.core.follow calls := by
  dsimp only
  have hnull : Nonnull (Tracker.machine.emitted singleton.world.tracker calls) :=
    Tracker.machine.forall_emitted_of_steps (I := Tracker.WF) (C := fun _ _ => True) h.wf.tracker
      (fun _ call hc _ => Tracker.step_wf hc call) (fun _ call hc _ => Core.enter_nonnull hc call) calls
      fun _ _ _ => trivial
  have hmem : Feature.butchering ∈ singleton.core.loaded ↔ .butchering ∈ singleton.loaded := List.mem_toFinset
  unfold Core.follow
  by_cases hb : Feature.butchering ∈ singleton.loaded
  · rw [track_listening (h.listeners.trans (if_pos hb)) _ hnull, if_pos (hmem.2 hb)]
    exact ⟨_, rfl, rfl, rfl⟩
  · rw [track_alone (h.listeners.trans (if_neg hb)), if_neg (fun hc => hb (hmem.1 hc))]
    exact ⟨_, rfl, rfl, rfl⟩

end Refrigerator.Plugin
