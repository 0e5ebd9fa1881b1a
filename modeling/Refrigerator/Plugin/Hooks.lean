/-
What a hook can do to the core, and the invariant of the cores that runs lead to.

A hook leaves the core as it is, freezes the gib it is about, thaws the first gib, or is one call of a
handler of the trusted entities (`hook_cases`). Gibs come in by a frame only (`gib_of_follow`).
-/
import Refrigerator.Butchering.Thaw
import Refrigerator.Plugin.Core
import Refrigerator.Tracker.Session

namespace Refrigerator.Plugin

open Lib Metamod Bindings

variable {P G T X : Type} {Output : Target → Type} [LinearOrder P] [Zero P]

namespace Core

/-! ## One hook -/

/-- Thinking freezes a gib while there is capacity, and else answers without a change. -/
theorem think_cases (engine : Engine) (memory : Memory P) (context : Butchering.Context P) (e : P) :
    (∃ answer, (transformBefore answer = .ignored ∨ transformBefore answer = .handled) ∧
      Butchering.onThink engine memory context e = (answer, memory)) ∨
    (e ≠ 0 ∧ e ∈ context.gibses ∧ 0 < Butchering.fadeoutFreezerCapacity engine ∧
      Butchering.onThink engine memory context e =
        (.supercede, memory.setVariables e (Butchering.freeze (memory e).v))) := by
  unfold Butchering.onThink
  split_ifs with h0 hg hc
  · exact Or.inl ⟨.ignored, Or.inl rfl, rfl⟩
  · exact Or.inr ⟨h0, hg, hc, rfl⟩
  · exact Or.inl ⟨.handled, Or.inr rfl, rfl⟩
  · exact Or.inl ⟨.ignored, Or.inl rfl, rfl⟩

/-- A hook that freezes the gib it is about. -/
structure Freezes (core : Core P G T) (phase : Phase) (target : Target) (entity : P) : Prop where
  phase : phase = .before
  target : target = .think
  loaded : .butchering ∈ core.loaded
  nonnull : entity ≠ 0
  gib : entity ∈ core.butchering.gibses
  capacity : Butchering.HasCapacity core.engine.toFeatures

/-- A hook that thaws `e`, the least of the gibs. -/
structure Thaws (core : Core P G T) (phase : Phase) (target : Target) (e : P) : Prop where
  phase : phase = .after
  target : target = .frame
  loaded : .butchering ∈ core.loaded
  capacity : ¬ Butchering.HasCapacity core.engine.toFeatures
  gib : e ∈ core.butchering.gibses
  least : ∀ gib ∈ core.butchering.gibses, e ≤ gib
  frozen : (core.host.memory e).v.nextthink.isFinite = false

/-- The core with other variables of an entity. -/
def write (core : Core P G T) (entity : P) (v : Variables) : Core P G T :=
  { core with host.memory := core.host.memory.setVariables entity v }

variable {core : Core P G T} {phase : Phase} {target : Target}

theorem Freezes.hook {entity : P} (h : core.Freezes phase target entity) :
    core.hook phase target entity =
      (core.write entity (Butchering.freeze (core.host.memory entity).v), .supercede, []) := by
  obtain ⟨rfl, rfl, hloaded, h0, hgib, hcapacity⟩ := h
  rw [hook_think entity hloaded]
  unfold Butchering.onThink
  rw [if_neg h0, if_pos hgib, if_neg (not_not.2 (Butchering.fadeoutFreezerCapacity_pos_iff.2 hcapacity))]
  rfl

theorem Thaws.hook {e : P} (h : core.Thaws phase target e) (entity : P) :
    core.hook phase target entity =
      (core.write e { (core.host.memory e).v with nextthink := Butchering.nearestThinkTime core.engine.toFeatures },
        .handled, []) := by
  obtain ⟨rfl, rfl, hloaded, hcapacity, hgib, hleast, hfrozen⟩ := h
  rw [hook_frame entity hloaded]
  unfold Butchering.onFrame
  rw [← Butchering.fadeoutFreezerCapacity_pos_iff, not_lt, Nat.le_zero] at hcapacity
  rw [Butchering.thawed_iff.2 ⟨hcapacity, hgib, hleast, hfrozen⟩]
  rfl

theorem hook_cases (core : Core P G T) (phase : Phase) (target : Target) (entity : P) :
    (∃ answer effects, core.hook phase target entity = (core, answer, effects) ∧
      (answer = .ignored ∨ answer = .handled)) ∨
    (core.Freezes phase target entity ∧
      core.hook phase target entity =
        (core.write entity (Butchering.freeze (core.host.memory entity).v), .supercede, [])) ∨
    (∃ e, core.Thaws phase target e ∧
      core.hook phase target entity =
        (core.write e { (core.host.memory e).v with nextthink := Butchering.nearestThinkTime core.engine.toFeatures },
          .handled, [])) ∨
    (.trustedEntities ∈ core.loaded ∧ feature phase target = some .trustedEntities ∧
      core.hook phase target entity =
        (core.follow (Tracker.hookCalls phase target (core.input entity)), .handled, [])) := by
  cases hs : core.serves phase target with
  | false => exact Or.inl ⟨.ignored, [], hook_ignored entity hs, Or.inl rfl⟩
  | true =>
    obtain ⟨f, hloaded, hf, hlasts⟩ := serves_iff.1 hs
    cases f with
    | trustedEntities =>
      exact Or.inr (Or.inr (Or.inr ⟨hloaded, hf, hook_tracked entity hloaded hf⟩))
    | report =>
      cases phase with
      | before => cases target <;> cases hf
      | after =>
        cases target with
        | clientCommand => exact Or.inl ⟨.handled, _, hook_command entity hloaded hlasts, Or.inr rfl⟩
        | _ => cases hf
    | butchering =>
      cases phase with
      | before =>
        cases target with
        | think =>
          rw [hook_think entity hloaded]
          rcases think_cases core.engine.toFeatures core.host.memory core.butchering entity with
            ⟨answer, hanswer, heq⟩ | ⟨h0, hgib, hcapacity, heq⟩
          · rw [heq]
            exact Or.inl ⟨transformBefore answer, [], rfl, hanswer⟩
          · rw [heq]
            have hcapacity := Butchering.fadeoutFreezerCapacity_pos_iff.1 hcapacity
            exact Or.inr (Or.inl ⟨⟨rfl, rfl, hloaded, h0, hgib, hcapacity⟩, rfl⟩)
        | _ => cases hf
      | after =>
        cases target with
        | frame =>
          rw [hook_frame entity hloaded]
          unfold Butchering.onFrame
          cases ht : Butchering.thawed core.engine.toFeatures core.host.memory core.butchering with
          | none => exact Or.inl ⟨.handled, [], rfl, Or.inr rfl⟩
          | some e =>
            obtain ⟨hcapacity, hgib, hleast, hfrozen⟩ := Butchering.thawed_iff.1 ht
            rw [← Nat.le_zero, ← not_lt, Butchering.fadeoutFreezerCapacity_pos_iff] at hcapacity
            exact Or.inr (Or.inr (Or.inl ⟨e, ⟨rfl, rfl, hloaded, hcapacity, hgib, hleast, hfrozen⟩, rfl⟩))
        | _ => cases hf

/-- Of the setting a hook changes only the memory. -/
theorem hook_setting (core : Core P G T) (phase : Phase) (target : Target) (entity : P) :
    (core.hook phase target entity).1.toSetting =
      { core.toSetting with host.memory := (core.hook phase target entity).1.host.memory } := by
  rcases core.hook_cases phase target entity with
    ⟨answer, effects, heq, -⟩ | ⟨-, heq⟩ | ⟨thawed, -, heq⟩ | ⟨-, -, heq⟩
  · rw [heq]
  · rw [heq]; rfl
  · rw [heq]; rfl
  · rw [heq]; rfl

theorem hook_loaded (core : Core P G T) (phase : Phase) (target : Target) (entity : P) :
    (core.hook phase target entity).1.loaded = core.loaded := by
  rcases core.hook_cases phase target entity with
    ⟨answer, effects, heq, -⟩ | ⟨-, heq⟩ | ⟨thawed, -, heq⟩ | ⟨-, -, heq⟩
  · rw [heq]
  · rw [heq]; rfl
  · rw [heq]; rfl
  · rw [heq]; rfl

/-! ## Handler calls of a hook -/

omit [LinearOrder P] [Zero P] in
theorem hookCalls_cases (phase : Phase) (target : Target) (input : Tracker.Input P) :
    Tracker.hookCalls phase target input = [] ∨ ∃ call, Tracker.hookCalls phase target input = [call] := by
  obtain ⟨entity, globals, memory⟩ := input
  cases phase <;> cases target <;> cases globals <;> simp [Tracker.hookCalls]

omit [LinearOrder P] [Zero P] in
theorem frame_of_hookCalls {phase : Phase} {target : Target} {input : Tracker.Input P} {memory : Memory P}
    (h : .frame memory ∈ Tracker.hookCalls phase target input) :
    phase = .before ∧ target = .frame ∧ memory = input.memory := by
  obtain ⟨entity, globals, memory'⟩ := input
  cases phase <;> cases target <;> cases globals <;> simp_all [Tracker.hookCalls]

/-- Only a frame in a session dispatches an enter, and what it names was queued and is live. -/
theorem enter_of_step {c : Tracker.Context P} {call : Tracker.Call P} {event : Event P} {e : P}
    (hevent : event ∈ (Tracker.step c call).2) (hstate : event.state = true) (he : e ∈ event.list) :
    ∃ memory, call = .frame memory ∧ c.state = true ∧ e ∈ c.queue ∧ memory.isFree e = false := by
  by_cases hidle : ∀ memory, call = .frame memory → c.state = false
  · have hexit := (Tracker.step_exits hidle).exit event hevent
    rw [hstate] at hexit; cases hexit
  · obtain ⟨memory, rfl, hs⟩ : ∃ memory, call = .frame memory ∧ c.state = true := by simpa using hidle
    refine ⟨memory, rfl, hs, ?_⟩
    change event ∈ (Tracker.onFrame memory c).2 at hevent
    rw [Tracker.onFrame_eq hs] at hevent
    rcases List.mem_append.1 hevent with hevent | hevent
    · rw [Tracker.mem_unlessEmpty hevent] at hstate; cases hstate
    · rw [Tracker.mem_unlessEmpty hevent] at he
      exact Tracker.Context.mem_admitted.1 he

/-- No event of a call enters a null entity. -/
theorem enter_nonnull {c : Tracker.Context P} (h : Tracker.WF c) (call : Tracker.Call P) :
    ∀ event ∈ (Tracker.step c call).2, event.state = true → 0 ∉ event.list := by
  intro event hevent hstate hnull
  obtain ⟨memory, -, -, hqueue, -⟩ := enter_of_step hevent hstate hnull
  exact h.queueNonnull hqueue

omit [Zero P] in
/-- A gib was one before, or it entered as one. -/
theorem gib_of_deliverAll {engine : Engine} {memory : Memory P} {context : Butchering.Context P}
    {events : List (Event P)} {e : P} (h : e ∈ (Butchering.deliverAll engine memory context events).gibses) :
    e ∈ context.gibses ∨
      ∃ event ∈ events, event.state = true ∧ e ∈ event.list ∧ Butchering.IsGib engine memory e := by
  unfold Butchering.deliverAll at h
  induction events generalizing context with
  | nil => exact Or.inl h
  | cons event events ih =>
    rcases ih h with h | ⟨event', hevent, hrest⟩
    · rw [Butchering.mem_deliver] at h
      split_ifs at h with hstate
      · rcases h with h | ⟨he, hgib⟩
        · exact Or.inl h
        · exact Or.inr ⟨event, List.mem_cons_self, hstate, he, hgib⟩
      · exact Or.inl h.1
    · exact Or.inr ⟨event', List.mem_cons_of_mem event hevent, hrest⟩

/-- What a hook reads of the queue and makes a gib: only a frame in a session does. -/
theorem gib_of_follow {core : Core P G T} {phase : Phase} {target : Target} {entity e : P}
    (h : e ∈ (core.follow (Tracker.hookCalls phase target (core.input entity))).butchering.gibses) :
    e ∈ core.butchering.gibses ∨
      (phase = .before ∧ target = .frame ∧ .butchering ∈ core.loaded ∧ core.tracker.state = true ∧
        e ∈ core.tracker.queue ∧ core.host.memory.isFree e = false ∧
        Butchering.IsGib core.engine.toFeatures core.host.memory e) := by
  unfold follow at h
  dsimp only at h
  split_ifs at h with hloaded
  · rcases gib_of_deliverAll h with h | ⟨event, hevent, hstate, he, hgib⟩
    · exact Or.inl h
    · rcases hookCalls_cases phase target (core.input entity) with hcalls | ⟨call, hcalls⟩
      · rw [hcalls] at hevent; cases hevent
      · rw [hcalls, Machine.emitted_cons, Machine.emitted_nil, List.append_nil] at hevent
        obtain ⟨memory, rfl, hs, hqueue, hlive⟩ := enter_of_step hevent hstate he
        obtain ⟨hphase, htarget, rfl⟩ := frame_of_hookCalls (hcalls ▸ List.mem_singleton_self _)
        exact Or.inr ⟨hphase, htarget, hloaded, hs, hqueue, hlive, hgib⟩
  · exact Or.inl h

/-! ## The invariant -/

/-- No null pointer is in the lists or among the gibs. -/
structure WF (core : Core P G T) : Prop where
  tracker : Tracker.WF core.tracker
  gibses : 0 ∉ core.butchering.gibses

theorem follow_wf {core : Core P G T} (h : WF core) (phase : Phase) (target : Target) (entity : P) :
    WF (core.follow (Tracker.hookCalls phase target (core.input entity))) := by
  refine ⟨Tracker.machine.exec_invariant (I := Tracker.WF) (fun _ call hc => Tracker.step_wf hc call) _ _ h.tracker,
    fun hnull => ?_⟩
  rcases gib_of_follow hnull with hgib | ⟨-, -, -, -, hqueue, -⟩
  · exact h.gibses hgib
  · exact h.tracker.queueNonnull hqueue

theorem hook_wf {core : Core P G T} (h : WF core) (phase : Phase) (target : Target) (entity : P) :
    WF (core.hook phase target entity).1 := by
  rcases core.hook_cases phase target entity with ⟨answer, effects, heq, -⟩ | ⟨-, heq⟩ | ⟨e, -, heq⟩ | ⟨-, -, heq⟩
  · rw [heq]; exact h
  · rw [heq]; exact ⟨h.tracker, h.gibses⟩
  · rw [heq]; exact ⟨h.tracker, h.gibses⟩
  · rw [heq]; exact follow_wf h phase target entity

variable [DecidableEq G] [Inhabited T]

theorem step_wf {core : Core P G T} (h : WF core) (action : Action P G T X) :
    WF ((machine Output).next core action) := by
  cases action with
  | load feature => exact ⟨h.tracker, h.gibses⟩
  | call call cell => exact ⟨h.tracker, h.gibses⟩
  | table phase table => exact ⟨h.tracker, h.gibses⟩
  | host host => exact ⟨h.tracker, h.gibses⟩
  | hook phase target entity =>
    obtain ⟨htracker, hgibses⟩ := hook_wf h phase target entity
    exact ⟨htracker, hgibses⟩

theorem reached_wf (build : Build T) (host : Host P G T) (run : List (Action P G T X)) :
    WF (reached Output build host run) :=
  (machine Output).exec_invariant (I := WF) (fun _ action h => step_wf h action) _ run
    ⟨Tracker.initial_wf, Finset.notMem_empty 0⟩

end Core

end Refrigerator.Plugin
