/-
The values of the configuration: all tristate values are at most y (`bounded`), and what the computations
of the values of symbols and choices result in, one lemma for each.
-/
import Refrigerator.Kconfiglib.Caching

namespace Refrigerator.Kconfiglib

open Lib

variable {S C R : Type}

namespace Kconfig

/-! ## Bounds -/

/-- The tristate values are n, m and y. -/
def Bounded : ∀ node : Node S C, node.Value → Prop
  | .visibility _, vis => vis ≤ (2 : Nat)
  | .triValue _, val => val.value ≤ (2 : Nat)
  | _, _ => True

abbrev Tristate (p : Eval S C Nat) : Prop := p.Ensures Bounded (· ≤ 2)

theorem tristate_pure {val : Nat} (h : val ≤ 2) : Tristate (pure val : Eval S C Nat) := .pure h

theorem tristate_tri (s : S) : Tristate (tri s : Eval S C Nat) :=
  (Reading.Ensures.value (V := Bounded) (.triValue s)).bind fun _ h => .pure h

theorem tristate_visible (item : Item S C) : Tristate (visible item : Eval S C Nat) :=
  Reading.Ensures.value (V := Bounded) (.visibility item)

theorem ensures_any (p : Eval S C R) : p.Ensures Bounded (fun _ => True) := .of_forall (fun _ => trivial) p

theorem tristate_promote {vis : Nat} (h : vis ≤ 2) (type : Eval S C Kind) : Tristate (Properties.promote vis type) := by
  unfold Properties.promote
  split_ifs
  · refine (ensures_any _).bind fun kind _ => .pure ?_
    split_ifs <;> omega
  · exact tristate_pure h

theorem yields_promote {compute : ∀ node : Node S C, Eval S C node.Value} {type : Eval S C Kind} {vis result : Nat}
    (h : Yields compute (Properties.promote vis type) result) :
    (vis ≠ 1 ∧ result = vis) ∨
      (vis = 1 ∧ ∃ kind, Yields compute type kind ∧ result = if kind = .tristate then 1 else 2) := by
  unfold Properties.promote at h
  split_ifs at h with hvis
  · obtain ⟨kind, hkind, h⟩ := yields_bind.1 h
    rw [yields_pure] at h
    subst hvis
    exact Or.inr ⟨rfl, kind, hkind, h⟩
  · exact Or.inl ⟨hvis, yields_pure.1 h⟩

variable [DecidableEq S] [DecidableEq C] {kconfig : Kconfig S C} {users : Users S C}

theorem tristate_mode (c : C) : Tristate (kconfig.mode users c) := by
  unfold Properties.mode
  refine (tristate_visible (.choice c)).bind fun vis hvis => ?_
  dsimp only
  split_ifs
  · refine (ensures_any _).bind fun type _ => .pure ?_
    split_ifs <;> omega
  · exact tristate_pure ((min_le_right _ _).trans hvis)

theorem tristate_exprValue (e : Expr S C) : Tristate (kconfig.exprValue users e) := by
  induction e with
  | item item =>
    unfold Properties.exprValue
    cases item with
    | sym s => exact tristate_tri s
    | choice c => exact tristate_mode c
  | and left right ihl ihr =>
    unfold Properties.exprValue
    refine ihl.bind fun v1 h1 => ?_
    split_ifs
    · exact tristate_pure (by omega)
    · exact ihr.bind fun v2 h2 => .pure (by omega)
  | or left right ihl ihr =>
    unfold Properties.exprValue
    refine ihl.bind fun v1 h1 => ?_
    split_ifs
    · exact tristate_pure (by omega)
    · exact ihr.bind fun v2 h2 => .pure (by omega)
  | not operand ih => exact ih.bind fun v _ => .pure (by omega)
  | relation relation left right =>
    refine (ensures_any _).bind fun comp _ => .pure ?_
    split_ifs <;> omega

theorem tristate_promptVisibility (prompts : List (Expr S C)) {vis : Nat} (h : vis ≤ 2) :
    Tristate (kconfig.promptVisibility users prompts vis) := by
  induction prompts generalizing vis with
  | nil => exact .pure h
  | cons cond prompts ih => exact (tristate_exprValue cond).bind fun v hv => ih (by omega)

theorem tristate_visibility (item : Item S C) : Tristate (kconfig.visibility users item) := by
  cases item with
  | choice c =>
    exact (tristate_promptVisibility _ (by omega)).bind fun vis hvis => tristate_promote hvis _
  | sym s =>
    unfold Properties.visibility
    refine (tristate_promptVisibility _ (by omega)).bind fun vis hvis => ?_
    cases (kconfig.symbol s).choice with
    | none => exact tristate_promote hvis _
    | some c =>
      dsimp only
      split_ifs
      · refine (tristate_mode c).bind fun mode _ => ?_
        split_ifs
        · exact tristate_pure (by omega)
        · exact tristate_promote hvis _
      · refine (tristate_mode c).bind fun mode _ => ?_
        split_ifs
        · exact tristate_pure (by omega)
        · exact tristate_promote hvis _
      · exact tristate_promote hvis _

theorem tristate_defaultValue (defaults : List (Expr S C × Expr S C)) :
    Tristate (kconfig.defaultValue users defaults) := by
  induction defaults with
  | nil => exact tristate_pure (by omega)
  | cons default defaults ih =>
    refine (tristate_exprValue default.2).bind fun depVal hdep => ?_
    split_ifs
    · exact (tristate_exprValue default.1).bind fun v _ => .pure (by omega)
    · exact ih

abbrev TristateWritten (p : Eval S C (Written Nat)) : Prop := p.Ensures Bounded (·.value ≤ 2)

theorem tristate_plainValue (s : S) {vis : Nat} (hvis : vis ≤ 2) :
    TristateWritten (kconfig.plainValue users s vis) := by
  have himplied (write : Bool) : TristateWritten (kconfig.impliedValue users (kconfig.symbol s) write) := by
    unfold Properties.impliedValue
    refine (tristate_defaultValue _).bind fun val hval => ?_
    refine (tristate_exprValue _).bind fun depVal hdep => ?_
    split_ifs
    · exact .pure hval
    · refine (tristate_exprValue _).bind fun direct _ => ?_
      split_ifs
      · exact .pure hval
      · exact .pure (by dsimp only; omega)
  have hstart : TristateWritten (kconfig.startValue users s vis) := by
    unfold Properties.startValue
    cases (users.value s).bind Assigned.tri? with
    | none => exact himplied _
    | some value =>
      dsimp only
      split_ifs
      · exact himplied _
      · exact .pure (by dsimp only; omega)
  refine hstart.bind fun start hstart => ?_
  have hselected : TristateWritten (kconfig.selectedValue users (kconfig.symbol s) start) := by
    unfold Properties.selectedValue
    refine (tristate_exprValue _).bind fun depVal hdep => ?_
    split_ifs
    · exact .pure hstart
    · exact (tristate_exprValue _).bind fun _ _ => .pure (by dsimp only; omega)
  refine hselected.bind fun current hcurrent => ?_
  unfold Properties.promotedValue
  split_ifs
  · refine (ensures_any _).bind fun type _ => ?_
    split_ifs
    · exact .pure (by dsimp only; omega)
    · refine (tristate_exprValue _).bind fun weak _ => ?_
      split_ifs
      · exact .pure (by dsimp only; omega)
      · exact .pure hcurrent
  · exact .pure hcurrent

theorem tristate_triValue (s : S) : TristateWritten (kconfig.triValue users s) := by
  unfold Properties.triValue
  cases hpreset : (kconfig.symbol s).preset with
  | some value => exact .pure (kconfig.presets s value hpreset)
  | none =>
    dsimp only
    split_ifs
    · exact .pure (by dsimp only; omega)
    · refine (tristate_visible _).bind fun vis hvis => ?_
      cases (kconfig.symbol s).choice with
      | none => exact tristate_plainValue s hvis
      | some c =>
        show TristateWritten (Properties.chosenValue users s c vis)
        unfold Properties.chosenValue
        split_ifs
        · refine (ensures_any _).bind fun selection _ => .pure ?_
          dsimp only
          split_ifs <;> omega
        · refine .pure ?_
          dsimp only
          split_ifs <;> omega

/-- Every tristate value is n, m or y. -/
theorem bounded (kconfig : Kconfig S C) (users : Users S C) (node : Node S C) :
    (kconfig.compute users node).Ensures Bounded (Bounded node) := by
  cases node with
  | visibility item => exact tristate_visibility item
  | triValue s => exact tristate_triValue s
  | _ => exact Reading.Ensures.of_forall (fun _ => trivial) _

theorem visible_le {item : Item S C} {vis : Nat} (h : Yields (kconfig.compute users) (visible item) vis) : vis ≤ 2 :=
  h.ensures (bounded kconfig users) (tristate_visible item)

theorem exprValue_le {e : Expr S C} {val : Nat} (h : Yields (kconfig.compute users) (kconfig.exprValue users e) val) :
    val ≤ 2 := h.ensures (bounded kconfig users) (tristate_exprValue e)

end Kconfig

end Refrigerator.Kconfiglib
