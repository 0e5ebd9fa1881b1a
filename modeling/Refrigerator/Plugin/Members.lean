/-
What one call of a handler of the trusted entities does to the members of the lists, and what one action
of the hosts does: each list goes on as its members enter and leave.

`Core.called` is the call that an action makes; by `Core.next_lists` nothing else touches the lists.
-/
import Refrigerator.Plugin.Hooks

namespace Refrigerator

open Lib Metamod

variable {P : Type} [LinearOrder P] [Zero P]

/-! ## What one call does -/

namespace Tracker

/-- A frame in a session. -/
def SweepsOn (c : Context P) (memory : Memory P) (call : Call P) : Prop := c.state = true ∧ call = .frame memory

/-- The call takes `e`, or everything, out of the lists. -/
def Clears (e : P) (call : Call P) : Prop := call = .remove e ∨ call = .shutdown

omit [LinearOrder P] in
theorem state_step_iff [DecidableEq P] (c : Context P) (call : Call P) :
    (step c call).1.state = true ↔ call = .init ∨ (c.state = true ∧ call ≠ .shutdown) := by
  rw [step_state]
  cases call <;> simp

theorem queue_step_iff {e : P} (he : e ≠ 0) (c : Context P) (call : Call P) :
    e ∈ (step c call).1.queue ↔
      Adds e call ∨ (e ∈ c.queue ∧ ¬ (Clears e call ∨ ∃ memory, SweepsOn c memory call)) := by
  unfold Clears SweepsOn
  cases call with
  | init => simp [step, onInit, Adds]
  | spawn entity =>
    show e ∈ (onSpawn c entity).queue ↔ _
    rw [mem_queue_onSpawn]
    simp only [Adds, reduceCtorEq, or_self, and_false, exists_false, not_false_eq_true, and_true]
    constructor
    · rintro (h | ⟨rfl, -⟩)
      · exact Or.inr h
      · exact Or.inl rfl
    · rintro (rfl | h)
      · exact Or.inr ⟨rfl, he⟩
      · exact Or.inl h
  | create globals =>
    show e ∈ (onCreate globals c).queue ↔ _
    rw [onCreate_eq, mem_queue_onSpawn]
    simp only [Adds, reduceCtorEq, or_self, and_false, exists_false, not_false_eq_true, and_true]
    rw [← created_eq_iff he]
    constructor
    · rintro (h | ⟨rfl, -⟩)
      · exact Or.inr h
      · exact Or.inl rfl
    · rintro (rfl | h)
      · exact Or.inr ⟨rfl, he⟩
      · exact Or.inl h
  | remove entity =>
    show e ∈ (onRemove c entity).1.queue ↔ _
    by_cases h0 : entity = 0
    · subst h0
      rw [onRemove_null]
      simp [Adds, Ne.symm he]
    · rw [onRemove_eq h0]
      simp [Adds, @eq_comm P entity e]
  | frame memory =>
    show e ∈ (onFrame memory c).1.queue ↔ _
    cases hs : c.state with
    | false => rw [onFrame_idle hs]; simp [Adds]
    | true => rw [onFrame_eq hs]; simp [Adds]
  | shutdown =>
    show e ∈ (onShutdown c).1.queue ↔ _
    rw [onShutdown_eq]
    simp [Adds]

/-- The call enters `e`. -/
def EntersOn (e : P) (c : Context P) (memory : Memory P) (call : Call P) : Prop :=
  SweepsOn c memory call ∧ e ∈ c.queue ∧ memory.isFree e = false

theorem entered_step_iff {e : P} (he : e ≠ 0) (c : Context P) (call : Call P) :
    e ∈ (step c call).1.entered ↔
      (∃ memory, EntersOn e c memory call) ∨
        (e ∈ c.entered ∧ ¬ (Clears e call ∨
          ∃ memory, SweepsOn c memory call ∧ memory.isFree e = true ∧ ¬ Trailing memory c e)) := by
  unfold EntersOn Clears SweepsOn
  cases call with
  | init => simp [step, onInit]
  | spawn entity => simp [step]
  | create globals => simp [step, onCreate_eq]
  | remove entity =>
    show e ∈ (onRemove c entity).1.entered ↔ _
    by_cases h0 : entity = 0
    · subst h0
      rw [onRemove_null]
      simp [Ne.symm he]
    · rw [onRemove_eq h0]
      simp [@eq_comm P entity e]
  | frame memory =>
    show e ∈ (onFrame memory c).1.entered ↔ _
    cases hs : c.state with
    | false => rw [onFrame_idle hs]; simp
    | true =>
      have htrailing : Trailing memory c e → e ∈ c.entered := List.mem_of_mem_drop
      rw [onFrame_eq hs]
      simp only [List.mem_append, Context.mem_compacted, mem_swept_iff, Context.mem_admitted, Call.frame.injEq,
        true_and, reduceCtorEq, or_self, false_or, exists_eq_left', not_and, not_not]
      constructor
      · rintro ((⟨hmem, hlive⟩ | htail) | hadmitted)
        · exact Or.inr ⟨hmem, fun hfree => by rw [hlive] at hfree; cases hfree⟩
        · exact Or.inr ⟨htrailing htail, fun _ => htail⟩
        · exact Or.inl hadmitted
      · rintro (hadmitted | ⟨hmem, hstays⟩)
        · exact Or.inr hadmitted
        · cases hfree : memory.isFree e with
          | false => exact Or.inl (Or.inl ⟨hmem, rfl⟩)
          | true => exact Or.inl (Or.inr (hstays hfree))
  | shutdown =>
    show e ∈ (onShutdown c).1.entered ↔ _
    rw [onShutdown_eq]
    simp

end Tracker

namespace Butchering

/-- The call is heard of as an exit of `e`. -/
def ExitsOn (e : P) (c : Tracker.Context P) (memory : Memory P) (call : Tracker.Call P) : Prop :=
  (Tracker.Clears e call ∧ e ∈ c.entered) ∨ (Tracker.SweepsOn c memory call ∧ Tracker.Trailing memory c e)

theorem gib_step_iff {engine : Engine} {memory : Memory P} {context : Context P} {e : P} (he : e ≠ 0)
    (c : Tracker.Context P) (call : Tracker.Call P) (hmemory : ∀ memory', call = .frame memory' → memory' = memory) :
    e ∈ (deliverAll engine memory context (Tracker.step c call).2).gibses ↔
      (Tracker.EntersOn e c memory call ∧ IsGib engine memory e) ∨
        (e ∈ context.gibses ∧ ¬ ExitsOn e c memory call) := by
  unfold ExitsOn Tracker.EntersOn Tracker.Clears Tracker.SweepsOn
  cases call with
  | init => simp [Tracker.step, deliverAll]
  | spawn entity => simp [Tracker.step, deliverAll]
  | create globals => simp [Tracker.step, deliverAll]
  | remove entity =>
    show e ∈ (deliverAll engine memory context (Tracker.onRemove c entity).2).gibses ↔ _
    by_cases h0 : entity = 0
    · subst h0
      rw [Tracker.onRemove_null]
      simp [deliverAll, Ne.symm he]
    · rw [Tracker.onRemove_eq h0]
      dsimp only
      by_cases hentered : entity ∈ c.entered
      · rw [if_pos hentered]
        have hmem : e ∈ (deliverAll engine memory context [{ list := [entity], state := false }]).gibses ↔ _ :=
          mem_deliverAll_exits (by simp)
        rw [hmem]
        by_cases heq : entity = e
        · subst heq; simp [hentered]
        · simp [heq, Ne.symm heq]
      · rw [if_neg hentered]
        have hno : ¬ (entity = e ∧ e ∈ c.entered) := by
          rintro ⟨rfl, h⟩
          exact hentered h
        simp only [deliverAll, List.foldl_nil, reduceCtorEq, and_false, false_and, false_or, Tracker.Call.remove.injEq,
          or_false, hno, not_false_eq_true, and_true]
  | frame memory' =>
    obtain rfl := hmemory memory' rfl
    show e ∈ (deliverAll engine memory' context (Tracker.onFrame memory' c).2).gibses ↔ _
    cases hs : c.state with
    | false =>
      rw [Tracker.onFrame_idle hs]
      simp [deliverAll]
    | true =>
      rw [mem_deliverAll_frame hs, Tracker.Context.mem_admitted, or_comm]
      simp
  | shutdown =>
    show e ∈ (deliverAll engine memory context (Tracker.onShutdown c).2).gibses ↔ _
    rw [Tracker.onShutdown_eq]
    dsimp only
    by_cases hnil : c.entered = []
    · rw [if_pos hnil, hnil]; simp [deliverAll]
    · rw [if_neg hnil]
      have hmem : e ∈ (deliverAll engine memory context [{ list := c.entered, state := false }]).gibses ↔ _ :=
        mem_deliverAll_exits (by simp)
      rw [hmem]
      simp

end Butchering

/-! ## What an action does -/

namespace Plugin

open Bindings

variable {G T X : Type} {Output : Target → Type}

namespace Core

/-- The action is a hook, and the trusted entities are loaded. -/
def Tracks (core : Core P G T) (action : Action P G T X) (phase : Phase) (target : Target) (entity : P) : Prop :=
  .trustedEntities ∈ core.loaded ∧ action = .hook phase target entity

/-- The call of a handler of the trusted entities in an action. -/
def called (core : Core P G T) : Action P G T X → Option (Tracker.Call P)
  | .hook phase target entity =>
    if .trustedEntities ∈ core.loaded then (Tracker.hookCalls phase target (core.input entity)).head? else none
  | _ => none

section Called

variable {core : Core P G T} {action : Action P G T X}

omit [LinearOrder P] [Zero P]

theorem called_hook (core : Core P G T) (phase : Phase) (target : Target) (entity : P) :
    core.called (.hook phase target entity : Action P G T X) =
      if .trustedEntities ∈ core.loaded then (Tracker.hookCalls phase target (core.input entity)).head?
      else none := rfl

theorem called_iff {call : Tracker.Call P} : core.called action = some call ↔
    ∃ phase target entity, core.Tracks action phase target entity ∧
      (Tracker.hookCalls phase target (core.input entity)).head? = some call := by
  constructor
  · intro hcall
    cases action with
    | hook phase target entity =>
      rw [called_hook] at hcall
      split_ifs at hcall with hloaded
      exact ⟨phase, target, entity, ⟨hloaded, rfl⟩, hcall⟩
    | _ => cases hcall
  · rintro ⟨phase, target, entity, ⟨hloaded, rfl⟩, hcall⟩
    rw [called_hook, if_pos hloaded, hcall]

theorem called_init_iff : core.called action = some .init ↔ ∃ x, core.Tracks action .after .init x := by
  rw [called_iff]
  constructor
  · rintro ⟨phase, target, x, htracks, hcall⟩
    obtain ⟨rfl, rfl⟩ := Tracker.head_init_iff.1 hcall
    exact ⟨x, htracks⟩
  · rintro ⟨x, htracks⟩
    exact ⟨.after, .init, x, htracks, rfl⟩

theorem called_spawn_iff {e : P} : core.called action = some (.spawn e) ↔ core.Tracks action .after .spawn e := by
  rw [called_iff]
  constructor
  · rintro ⟨phase, target, x, htracks, hcall⟩
    obtain ⟨⟨rfl, rfl⟩, rfl⟩ := Tracker.head_spawn_iff.1 hcall
    exact htracks
  · exact fun htracks => ⟨.after, .spawn, e, htracks, rfl⟩

theorem called_create_iff {globals : Globals P} : core.called action = some (.create globals) ↔
    (∃ x, core.Tracks action .after .createEntity x ∨ core.Tracks action .before .createNamedEntity x) ∧
      core.metamod = some globals := by
  rw [called_iff]
  constructor
  · rintro ⟨phase, target, x, htracks, hcall⟩
    obtain ⟨⟨rfl, rfl⟩ | ⟨rfl, rfl⟩, hglobals⟩ := Tracker.head_create_iff.1 hcall
    · exact ⟨⟨x, Or.inl htracks⟩, hglobals⟩
    · exact ⟨⟨x, Or.inr htracks⟩, hglobals⟩
  · rintro ⟨⟨x, htracks | htracks⟩, hglobals⟩
    · exact ⟨.after, .createEntity, x, htracks, Tracker.head_create_iff.2 ⟨Or.inl ⟨rfl, rfl⟩, hglobals⟩⟩
    · exact ⟨.before, .createNamedEntity, x, htracks, Tracker.head_create_iff.2 ⟨Or.inr ⟨rfl, rfl⟩, hglobals⟩⟩

theorem called_remove_iff {e : P} :
    core.called action = some (.remove e) ↔ core.Tracks action .before .removeEntity e := by
  rw [called_iff]
  constructor
  · rintro ⟨phase, target, x, htracks, hcall⟩
    obtain ⟨⟨rfl, rfl⟩, rfl⟩ := Tracker.head_remove_iff.1 hcall
    exact htracks
  · exact fun htracks => ⟨.before, .removeEntity, e, htracks, rfl⟩

theorem called_frame_iff {memory : Memory P} : core.called action = some (.frame memory) ↔
    (∃ x, core.Tracks action .before .frame x) ∧ memory = core.host.memory := by
  rw [called_iff]
  constructor
  · rintro ⟨phase, target, x, htracks, hcall⟩
    obtain ⟨⟨rfl, rfl⟩, rfl⟩ := Tracker.head_frame_iff.1 hcall
    exact ⟨⟨x, htracks⟩, rfl⟩
  · rintro ⟨⟨x, htracks⟩, rfl⟩
    exact ⟨.before, .frame, x, htracks, rfl⟩

theorem called_shutdown_iff : core.called action = some .shutdown ↔ ∃ x, core.Tracks action .before .shutdown x := by
  rw [called_iff]
  constructor
  · rintro ⟨phase, target, x, htracks, hcall⟩
    obtain ⟨rfl, rfl⟩ := Tracker.head_shutdown_iff.1 hcall
    exact ⟨x, htracks⟩
  · rintro ⟨x, htracks⟩
    exact ⟨.before, .shutdown, x, htracks, rfl⟩

end Called

omit [LinearOrder P] [Zero P] in
theorem hookCalls_eq_nil {phase : Phase} {target : Target} (h : feature phase target ≠ some .trustedEntities)
    (input : Tracker.Input P) : Tracker.hookCalls phase target input = [] := by
  cases phase <;> cases target <;> first | rfl | exact absurd rfl h

variable (Output) in
/-- An action calls a handler of the trusted entities, whose events are delivered, or it leaves the lists. -/
theorem next_lists [DecidableEq G] [Inhabited T] (core : Core P G T) (action : Action P G T X) :
    (∃ call, core.called action = some call ∧
      (∀ memory, call = .frame memory → memory = core.host.memory) ∧
      ((machine Output).next core action).tracker = (Tracker.step core.tracker call).1 ∧
      ((machine Output).next core action).butchering =
        if .butchering ∈ core.loaded then
          Butchering.deliverAll core.engine.toFeatures core.host.memory core.butchering
            (Tracker.step core.tracker call).2
        else core.butchering) ∨
    (core.called action = none ∧ ((machine Output).next core action).tracker = core.tracker ∧
      ((machine Output).next core action).butchering = core.butchering) := by
  cases action with
  | load feature => exact Or.inr ⟨rfl, rfl, rfl⟩
  | call call cell => exact Or.inr ⟨rfl, rfl, rfl⟩
  | table phase table => exact Or.inr ⟨rfl, rfl, rfl⟩
  | host host => exact Or.inr ⟨rfl, rfl, rfl⟩
  | hook phase target entity =>
    rw [next_hook]
    by_cases htracked : .trustedEntities ∈ core.loaded ∧ feature phase target = some .trustedEntities
    · obtain ⟨hloaded, hfeature⟩ := htracked
      rw [hook_tracked entity hloaded hfeature]
      rw [called_hook, if_pos hloaded]
      rcases hookCalls_cases phase target (core.input entity) with hcalls | ⟨call, hcalls⟩
      · rw [hcalls]
        refine Or.inr ⟨rfl, rfl, ?_⟩
        show (if _ then _ else _) = _
        split_ifs <;> rfl
      · refine Or.inl ⟨call, by rw [hcalls]; rfl, ?_, by rw [hcalls]; rfl, ?_⟩
        · rintro memory rfl
          exact (frame_of_hookCalls (hcalls ▸ List.mem_singleton_self _)).2.2
        · rw [hcalls]
          show (if _ then _ else _) = _
          rw [Machine.emitted_cons, Machine.emitted_nil, List.append_nil]
          rfl
    · refine Or.inr ⟨?_, ?_⟩
      · rw [called_hook]
        split_ifs with hloaded
        · rw [hookCalls_eq_nil fun hfeature => htracked ⟨hloaded, hfeature⟩]; rfl
        · rfl
      · rcases core.hook_cases phase target entity with
          ⟨answer, effects, heq, -⟩ | ⟨-, heq⟩ | ⟨e, -, heq⟩ | ⟨hloaded, hfeature, -⟩
        · rw [heq]; exact ⟨rfl, rfl⟩
        · rw [heq]; exact ⟨rfl, rfl⟩
        · rw [heq]; exact ⟨rfl, rfl⟩
        · exact absurd ⟨hloaded, hfeature⟩ htracked

variable (Output) in
/-- A condition on the context that the calls start and stop. -/
theorem next_iff [DecidableEq G] [Inhabited T] {I : Tracker.Context P → Prop}
    (starts stops : Tracker.Context P → Tracker.Call P → Prop)
    (hstep : ∀ c call, I (Tracker.step c call).1 ↔ starts c call ∨ (I c ∧ ¬ stops c call)) (core : Core P G T)
    (action : Action P G T X) :
    I ((machine Output).next core action).tracker ↔
      (∃ call, core.called action = some call ∧ starts core.tracker call) ∨
        (I core.tracker ∧ ¬ ∃ call, core.called action = some call ∧ stops core.tracker call) := by
  rcases core.next_lists Output action with ⟨call, hcall, -, htracker, -⟩ | ⟨hcall, htracker, -⟩
  · rw [htracker, hstep, hcall]
    simp
  · rw [htracker, hcall]
    simp

variable (Output) in
theorem gib_next [DecidableEq G] [Inhabited T] {e : P} (he : e ≠ 0) (core : Core P G T) (action : Action P G T X) :
    e ∈ ((machine Output).next core action).butchering.gibses ↔
      (.butchering ∈ core.loaded ∧ ∃ call, core.called action = some call ∧
        Tracker.EntersOn e core.tracker core.host.memory call ∧
        Butchering.IsGib core.engine.toFeatures core.host.memory e) ∨
      (e ∈ core.butchering.gibses ∧ ¬ (.butchering ∈ core.loaded ∧
        ∃ call, core.called action = some call ∧ Butchering.ExitsOn e core.tracker core.host.memory call)) := by
  rcases core.next_lists Output action with ⟨call, hcall, hmemory, -, hgibses⟩ | ⟨hcall, -, hgibses⟩
  · rw [hgibses, hcall]
    split_ifs with hloaded
    · rw [Butchering.gib_step_iff he core.tracker call hmemory]
      simp [hloaded]
    · simp [hloaded]
  · rw [hgibses, hcall]
    simp

end Core

end Plugin

end Refrigerator
