/-
What one action of the hosts makes the plugin write: the variables of a gib that it freezes or thaws, and
the result of a hook in metamod's globals.

Each lemma tells what is written and when, and that else the datum stays.
-/
import Refrigerator.Plugin.Cells
import Refrigerator.Plugin.Hooks

namespace Refrigerator.Plugin

open Lib Metamod Bindings

variable {P G T X : Type} {Output : Target → Type} [LinearOrder P] [Zero P]

namespace Core

/-! ## What a hook writes -/

/-- The action freezes `e`. -/
def Freezing (core : Core P G T) (action : Action P G T X) (e : P) : Prop :=
  ∃ phase target, action = .hook phase target e ∧ core.Freezes phase target e

/-- The action thaws `e`. -/
def Thawing (core : Core P G T) (action : Action P G T X) (e : P) : Prop :=
  ∃ phase target entity, action = .hook phase target entity ∧ core.Thaws phase target e

/-- The result that a hook is answered with. -/
structure Reports (core : Core P G T) (phase : Phase) (target : Target) (entity : P) (answer : HookResult) : Prop where
  supercede : answer = .supercede ↔ core.Freezes phase target entity
  ignored : answer = .ignored ↔ core.serves phase target = false ∨
    (phase = .before ∧ target = .think ∧ entity ∉ core.butchering.gibses)
  handled : answer ≠ .supercede → answer ≠ .ignored → answer = .handled

omit [LinearOrder P] in
theorem Reports.unique {core : Core P G T} {phase : Phase} {target : Target} {entity : P} {answer answer' : HookResult}
    (h : core.Reports phase target entity answer) (h' : core.Reports phase target entity answer') :
    answer = answer' := by
  by_cases hsupercede : answer = .supercede
  · rw [hsupercede, h'.supercede.2 (h.supercede.1 hsupercede)]
  by_cases hignored : answer = .ignored
  · rw [hignored, h'.ignored.2 (h.ignored.1 hignored)]
  rw [h.handled hsupercede hignored, h'.handled]
  · exact fun heq => hsupercede (h.supercede.2 (h'.supercede.1 heq))
  · exact fun heq => hignored (h.ignored.2 (h'.ignored.1 heq))

/-- The result of a hook for a thought: no override. -/
theorem think_reports {core : Core P G T} (h : WF core) (hloaded : .butchering ∈ core.loaded) (entity : P) :
    core.Reports .before .think entity (core.hook .before .think entity).2.1 := by
  have hfreezes : core.Freezes .before .think entity ↔
      entity ∈ core.butchering.gibses ∧ 0 < Butchering.fadeoutFreezerCapacity core.engine.toFeatures := by
    rw [Butchering.fadeoutFreezerCapacity_pos_iff]
    constructor
    · exact fun hf => ⟨hf.gib, hf.capacity⟩
    · rintro ⟨hgib, hcapacity⟩
      refine ⟨rfl, rfl, hloaded, ?_, hgib, hcapacity⟩
      rintro rfl
      exact h.gibses hgib
  have hserves : core.serves .before .think = true := serves_iff.2 ⟨_, hloaded, rfl, rfl⟩
  rw [hook_think entity hloaded]
  dsimp only
  unfold Butchering.onThink
  split_ifs with h0 hgib hcapacity
  · subst h0
    refine ⟨?_, ?_, by simp [transformBefore]⟩
    · rw [hfreezes]; simp [transformBefore, h.gibses]
    · simp [transformBefore, h.gibses]
  · refine ⟨?_, ?_, by simp [transformBefore]⟩
    · rw [hfreezes]; simp [transformBefore, hgib, hcapacity]
    · simp [transformBefore, hgib, hserves]
  · refine ⟨?_, ?_, by simp [transformBefore]⟩
    · rw [hfreezes]; simp [transformBefore, hgib, hcapacity]
    · simp [transformBefore, hgib, hserves]
  · refine ⟨?_, ?_, by simp [transformBefore]⟩
    · rw [hfreezes]; simp [transformBefore, hgib]
    · simp [transformBefore, hgib]

/-- The result of a hook. -/
theorem WF.hook_reports {core : Core P G T} (h : WF core) (phase : Phase) (target : Target) (entity : P) :
    core.Reports phase target entity (core.hook phase target entity).2.1 := by
  by_cases hthink : phase = .before ∧ target = .think
  · obtain ⟨rfl, rfl⟩ := hthink
    by_cases hloaded : .butchering ∈ core.loaded
    · exact think_reports h hloaded entity
    · have hserves : core.serves .before .think = false := serves_eq_false (by
        rintro f hf hfeature
        cases hfeature
        exact absurd hf hloaded)
      rw [hook_ignored entity hserves]
      refine ⟨?_, by simp [hserves], by simp⟩
      simpa using fun hf : core.Freezes .before .think entity => hloaded hf.loaded
  · have hfreezes : ¬ core.Freezes phase target entity := fun hf => hthink ⟨hf.phase, hf.target⟩
    have hanswer : (core.hook phase target entity).2.1 = if core.serves phase target then .handled else .ignored := by
      cases hserves : core.serves phase target with
      | false => rw [hook_ignored entity hserves]; rfl
      | true =>
        unfold hook
        rw [hserves]
        cases phase <;> cases target <;> first | rfl | exact absurd ⟨rfl, rfl⟩ hthink
    rw [hanswer]
    cases hserves : core.serves phase target with
    | false => exact ⟨by simp [hfreezes], by simp [hserves], by simp⟩
    | true =>
      have hno : ¬ (phase = .before ∧ target = .think ∧ entity ∉ core.butchering.gibses) :=
        fun hall => hthink ⟨hall.1, hall.2.1⟩
      exact ⟨by simp [hfreezes], by simp [hserves, hno], by simp⟩

omit [Zero P] in
theorem write_memory (core : Core P G T) (entity : P) (v : Variables) (e : P) :
    (core.write entity v).host.memory e =
      if e = entity then { core.host.memory e with v } else core.host.memory e := by
  unfold write Memory.setVariables
  by_cases heq : e = entity
  · subst heq; simp
  · simp [heq]

/-- A hook changes the memory only where it freezes or thaws a gib. -/
theorem hook_memory (core : Core P G T) (phase : Phase) (target : Target) (entity e : P)
    (hfreezes : ¬ (entity = e ∧ core.Freezes phase target e)) (hthaws : ¬ core.Thaws phase target e) :
    (core.hook phase target entity).1.host.memory e = core.host.memory e := by
  rcases core.hook_cases phase target entity with
    ⟨answer, effects, heq, -⟩ | ⟨hentity, heq⟩ | ⟨thawed, hthawed, heq⟩ | ⟨-, -, heq⟩
  · rw [heq]
  · rw [heq]
    have hne : e ≠ entity := by
      rintro rfl
      exact hfreezes ⟨rfl, hentity⟩
    exact (core.write_memory _ _ _).trans (if_neg hne)
  · rw [heq]
    have hne : e ≠ thawed := by
      rintro rfl
      exact hthaws hthawed
    exact (core.write_memory _ _ _).trans (if_neg hne)
  · rw [heq]
    rfl

/-! ## What an action writes -/

section Next

variable [DecidableEq G] [Inhabited T] {core : Core P G T} {action : Action P G T X}

theorem next_setting (core : Core P G T) (phase : Phase) (target : Target) (entity : P) :
    ((machine (X := X) Output).next core (.hook phase target entity)).toSetting =
      { core.toSetting with host.memory := (core.hook phase target entity).1.host.memory : Setting P G T }.report
        (core.hook phase target entity).2.1 := by
  rw [next_hook, ← hook_setting]

variable (Output) in
/-- The memory after an action. -/
theorem next_memory (haction : ∀ host, action ≠ .host host) (e : P) :
    (core.Freezing action e ∧ ((machine Output).next core action).host.memory e =
      { core.host.memory e with v := Butchering.freeze (core.host.memory e).v }) ∨
    (core.Thawing action e ∧ ((machine Output).next core action).host.memory e =
      { core.host.memory e with v.nextthink := Butchering.nearestThinkTime core.engine.toFeatures }) ∨
    (¬ core.Freezing action e ∧ ¬ core.Thawing action e ∧
      ((machine Output).next core action).host.memory e = core.host.memory e) := by
  have hidle (h : ∀ phase target entity, action ≠ .hook phase target entity) :
      ¬ core.Freezing action e ∧ ¬ core.Thawing action e := by
    constructor
    · rintro ⟨phase, target, heq, -⟩; exact h phase target e heq
    · rintro ⟨phase, target, entity, heq, -⟩; exact h phase target entity heq
  cases action with
  | load feature =>
    obtain ⟨hf, ht⟩ := hidle fun _ _ _ => nofun
    exact Or.inr (Or.inr ⟨hf, ht, rfl⟩)
  | call call cell =>
    obtain ⟨hf, ht⟩ := hidle fun _ _ _ => nofun
    exact Or.inr (Or.inr ⟨hf, ht, rfl⟩)
  | table phase table =>
    obtain ⟨hf, ht⟩ := hidle fun _ _ _ => nofun
    exact Or.inr (Or.inr ⟨hf, ht, rfl⟩)
  | host host => exact absurd rfl (haction host)
  | hook phase target entity =>
    have hmemory : ((machine (X := X) Output).next core (.hook phase target entity)).host.memory =
        (core.hook phase target entity).1.host.memory := by rw [next_setting, Setting.report_memory]
    rw [hmemory]
    by_cases hfreezes : entity = e ∧ core.Freezes phase target e
    · obtain ⟨rfl, hfreezes⟩ := hfreezes
      refine Or.inl ⟨⟨phase, target, rfl, hfreezes⟩, ?_⟩
      rw [hfreezes.hook]
      exact (core.write_memory _ _ _).trans (if_pos rfl)
    by_cases hthaws : core.Thaws phase target e
    · refine Or.inr (Or.inl ⟨⟨phase, target, entity, rfl, hthaws⟩, ?_⟩)
      rw [hthaws.hook entity]
      exact (core.write_memory _ _ _).trans (if_pos rfl)
    · refine Or.inr (Or.inr ⟨?_, ?_, core.hook_memory phase target entity e hfreezes hthaws⟩)
      · rintro ⟨phase', target', heq, hf⟩
        cases heq
        exact hfreezes ⟨rfl, hf⟩
      · rintro ⟨phase', target', entity', heq, ht⟩
        cases heq
        exact hthaws ht

omit [DecidableEq G] [Inhabited T] in
/-- An action does not thaw what it freezes. -/
theorem Freezing.not_thawing {e e' : P} (h : core.Freezing action e) : ¬ core.Thawing action e' := by
  obtain ⟨phase, target, rfl, hfreezes⟩ := h
  rintro ⟨phase', target', entity, heq, hthaws⟩
  cases heq
  exact absurd (hfreezes.phase.symm.trans hthaws.phase) (by decide)

variable (Output) in
/-- An action that is not the hosts' own leaves what they answer and show. -/
theorem next_frame (haction : ∀ host, action ≠ .host host) :
    ((machine Output).next core action).host.appearance = core.host.appearance ∧
      ((machine Output).next core action).host.services = core.host.services ∧
      ((machine Output).next core action).host.engine = core.host.engine := by
  cases action with
  | load feature => exact ⟨rfl, rfl, rfl⟩
  | call call cell => exact ⟨rfl, rfl, rfl⟩
  | table phase table => exact ⟨rfl, rfl, rfl⟩
  | host host => exact absurd rfl (haction host)
  | hook phase target entity =>
    rw [next_setting, Setting.report_appearance, Setting.report_services, Setting.report_engine]
    exact ⟨rfl, rfl, rfl⟩

variable (Output) in
/-- Metamod's globals after an action. -/
theorem next_metamod (h : WF core) (haction : ∀ host, action ≠ .host host) (g : G) :
    (∃ phase target entity answer, action = .hook phase target entity ∧ core.api.metamod.globals = some g ∧
      core.Reports phase target entity answer ∧
      ((machine Output).next core action).host.metamod g = { core.host.metamod g with current := answer }) ∨
    ((∀ phase target entity, action = .hook phase target entity → core.api.metamod.globals ≠ some g) ∧
      ((machine Output).next core action).host.metamod g = core.host.metamod g) := by
  cases action with
  | load feature => exact Or.inr ⟨fun _ _ _ => nofun, rfl⟩
  | call call cell => exact Or.inr ⟨fun _ _ _ => nofun, rfl⟩
  | table phase table => exact Or.inr ⟨fun _ _ _ => nofun, rfl⟩
  | host host => exact absurd rfl (haction host)
  | hook phase target entity =>
    rw [next_setting, Setting.report_metamod]
    by_cases hg : core.api.metamod.globals = some g
    · exact Or.inl ⟨phase, target, entity, _, rfl, hg, h.hook_reports phase target entity, if_pos hg⟩
    · refine Or.inr ⟨fun phase' target' entity' _ => hg, if_neg hg⟩

variable (Output) in
/-- Of metamod's globals only the result is written. -/
theorem next_metamod_frame (haction : ∀ host, action ≠ .host host) (g : G) :
    { ((machine Output).next core action).host.metamod g with current := .unset } =
      { core.host.metamod g with current := .unset } := by
  cases action with
  | load feature => rfl
  | call call cell => rfl
  | table phase table => rfl
  | host host => exact absurd rfl (haction host)
  | hook phase target entity =>
    rw [next_setting, Setting.report_metamod]
    split_ifs
    · rfl
    · rfl

theorem next_hook_cells (core : Core P G T) (phase : Phase) (target : Target) (entity : P) :
    ((machine (X := X) Output).next core (.hook phase target entity)).host.cells = core.host.cells := by
  rw [next_setting, Setting.report_cells]

end Next

end Core

end Refrigerator.Plugin
