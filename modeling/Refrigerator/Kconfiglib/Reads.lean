/-
What the values of the configuration are computed from: whatever a value of an item reads belongs to the
item itself, to an item that has it as a dependent, or to a constant, or it is the value of the symbol that
stands for modules. And a computation stays the same when something is set that belongs to none of these
(`compute_alike`).
-/
import Refrigerator.Kconfiglib.Caching

namespace Refrigerator.Kconfiglib

open Lib

variable {S C R : Type} [DecidableEq S] [DecidableEq C]

namespace Kconfig

section Alike

variable (kconfig : Kconfig S C)

/-! ## What an item may read -/

/-- An item may read another one: when that changes, its values are cleared. -/
def Reaches (item other : Item S C) : Prop :=
  other = item ∨
    (kconfig.defines item = true ∧ (item ∈ kconfig.dependents other ∨ kconfig.constant other = true))

def Sees (item : Item S C) (node : Node S C) : Prop :=
  kconfig.Reaches item node.item ∨ (kconfig.defines item = true ∧ node = .triValue kconfig.modules)

/-- A symbol without a prompt is not visible. -/
def Possible : ∀ node : Node S C, node.Value → Prop
  | .visibility (.sym s), vis => (kconfig.symbol s).prompts = [] → vis = (0 : Nat)
  | _, _ => True

/-- What the user has set for choices is the same as far as an item reads it. -/
structure SameModes (item : Item S C) (users users' : Users S C) : Prop where
  mode : ∀ c, kconfig.Reaches item (.choice c) → users.mode c = users'.mode c
  selection : ∀ c, item = .choice c → users.selection c = users'.selection c

/-- What the user has set is the same as far as an item reads it. -/
structure Agrees (item : Item S C) (users users' : Users S C) : Prop extends SameModes kconfig item users users' where
  value : ∀ s, item = .sym s → (kconfig.symbol s).prompts ≠ [] → users.value s = users'.value s

/-- The computations are the same for an item, and read what it may read. -/
abbrev Alike (item : Item S C) (p p' : Eval S C R) : Prop := p.Agree kconfig.Possible (kconfig.Sees item) p'

/-- All items in the expression may be read. -/
def Covers (item : Item S C) (e : Expr S C) : Prop := ∀ other ∈ e.items, kconfig.Reaches item other

variable {kconfig} {users users' : Users S C} {item : Item S C}

theorem defines_choice (c : C) : kconfig.defines (.choice c) = true := decide_eq_true (kconfig.mem_choices c)

theorem Reaches.defines {c : C} (h : kconfig.Reaches item (.choice c)) : kconfig.defines item = true := by
  rcases h with rfl | ⟨hitem, -⟩
  · exact defines_choice c
  · exact hitem

theorem alike_value {node : Node S C} (h : kconfig.Sees item node) :
    kconfig.Alike item (Reading.value node) (Reading.value node) := .value h

theorem alike_tri {s : S} (h : kconfig.Reaches item (.sym s)) : kconfig.Alike item (tri s) (tri s) :=
  (alike_value (Or.inl h)).bind fun _ => .pure _

theorem alike_str {s : S} (h : kconfig.Reaches item (.sym s)) : kconfig.Alike item (str s) (str s) :=
  (alike_value (Or.inl h)).bind fun _ => .pure _

theorem alike_visible {other : Item S C} (h : kconfig.Reaches item other) :
    kconfig.Alike item (visible other) (visible other) := alike_value (Or.inl h : kconfig.Sees item (.visibility other))

theorem alike_modules (h : kconfig.defines item = true) :
    kconfig.Alike item (tri kconfig.modules) (tri kconfig.modules) :=
  (alike_value (Or.inr ⟨h, rfl⟩)).bind fun _ => .pure _

/-! ## Types and modes -/

theorem alike_choiceType (h : kconfig.defines item = true) (c : C) :
    kconfig.Alike item (kconfig.choiceType c) (kconfig.choiceType c) := by
  unfold Properties.choiceType
  split_ifs
  · exact (alike_modules h).bind fun _ => .pure _
  · exact .pure _

theorem alike_mode (h : kconfig.SameModes item users users') {c : C} (hc : kconfig.Reaches item (.choice c)) :
    kconfig.Alike item (kconfig.mode users c) (kconfig.mode users' c) := by
  have hrequested : kconfig.requestedMode users c = kconfig.requestedMode users' c := by
    unfold Properties.requestedMode
    rw [h.mode c hc]
  unfold Properties.mode
  rw [hrequested]
  refine (alike_visible hc).bind fun vis => ?_
  dsimp only
  split_ifs
  · exact (alike_choiceType hc.defines c).bind fun _ => .pure _
  · exact .pure _

theorem alike_symbolType (h : kconfig.SameModes item users users') (hitem : kconfig.defines item = true) {s : S}
    (hchoice : ∀ c, (kconfig.symbol s).choice = some c → kconfig.Reaches item (.choice c)) :
    kconfig.Alike item (kconfig.symbolType users s) (kconfig.symbolType users' s) := by
  have hinY : kconfig.Alike item (kconfig.inYMode users (kconfig.symbol s).choice)
      (kconfig.inYMode users' (kconfig.symbol s).choice) := by
    unfold Properties.inYMode
    cases hc : (kconfig.symbol s).choice with
    | none => exact .pure _
    | some c => exact (alike_mode h (hchoice c hc)).bind fun _ => .pure _
  unfold Properties.symbolType
  split_ifs
  · refine hinY.bind fun inY => ?_
    split_ifs
    · exact .pure _
    · exact (alike_modules hitem).bind fun _ => .pure _
  · exact .pure _

/-! ## Expressions -/

theorem alike_symToNum {s : S} (h : kconfig.Reaches item (.sym s)) :
    kconfig.Alike item (kconfig.symToNum s) (kconfig.symToNum s) := by
  unfold Properties.symToNum
  split_ifs
  · exact (alike_tri h).bind fun _ => .pure _
  · exact (alike_str h).bind fun _ => .pure _

theorem alike_compareStrings {left right : S} (hl : kconfig.Reaches item (.sym left))
    (hr : kconfig.Reaches item (.sym right)) :
    kconfig.Alike item (Properties.compareStrings left right) (Properties.compareStrings left right) :=
  (alike_str hl).bind fun _ => (alike_str hr).bind fun _ => .pure _

theorem alike_compare {left right : S} (hl : kconfig.Reaches item (.sym left))
    (hr : kconfig.Reaches item (.sym right)) :
    kconfig.Alike item (kconfig.compare left right) (kconfig.compare left right) := by
  unfold Properties.compare
  split_ifs
  · exact alike_compareStrings hl hr
  · refine (alike_symToNum hl).bind fun n1 => ?_
    cases n1 with
    | none => exact alike_compareStrings hl hr
    | some n1 =>
      refine (alike_symToNum hr).bind fun n2 => ?_
      cases n2 with
      | none => exact alike_compareStrings hl hr
      | some n2 => exact .pure _

theorem alike_exprValue (h : kconfig.SameModes item users users') {e : Expr S C} (he : kconfig.Covers item e) :
    kconfig.Alike item (kconfig.exprValue users e) (kconfig.exprValue users' e) := by
  induction e with
  | item other =>
    have hother := he other (List.mem_singleton_self other)
    unfold Properties.exprValue
    cases other with
    | sym s => exact alike_tri hother
    | choice c => exact alike_mode h hother
  | and left right ihl ihr =>
    have hl := ihl fun other hother => he other (List.mem_append_left _ hother)
    have hr := ihr fun other hother => he other (List.mem_append_right _ hother)
    unfold Properties.exprValue
    refine hl.bind fun v1 => ?_
    split_ifs
    · exact .pure _
    · exact hr.bind fun _ => .pure _
  | or left right ihl ihr =>
    have hl := ihl fun other hother => he other (List.mem_append_left _ hother)
    have hr := ihr fun other hother => he other (List.mem_append_right _ hother)
    unfold Properties.exprValue
    refine hl.bind fun v1 => ?_
    split_ifs
    · exact .pure _
    · exact hr.bind fun _ => .pure _
  | not operand ih => exact (ih he).bind fun _ => .pure _
  | relation relation left right =>
    have hl := he (.sym left) (by simp [Expr.items])
    have hr := he (.sym right) (by simp [Expr.items])
    exact (alike_compare hl hr).bind fun _ => .pure _

theorem alike_promptVisibility (h : kconfig.SameModes item users users') {prompts : List (Expr S C)}
    (hprompts : ∀ cond ∈ prompts, kconfig.Covers item cond) (vis : Nat) :
    kconfig.Alike item (kconfig.promptVisibility users prompts vis) (kconfig.promptVisibility users' prompts vis) := by
  induction prompts generalizing vis with
  | nil => exact .pure _
  | cons cond prompts ih =>
    obtain ⟨hcond, hprompts⟩ := List.forall_mem_cons.1 hprompts
    exact (alike_exprValue h hcond).bind fun v => ih hprompts (max vis v)

theorem alike_promote {type type' : Eval S C Kind} (h : kconfig.Alike item type type') (vis : Nat) :
    kconfig.Alike item (Properties.promote vis type) (Properties.promote vis type') := by
  unfold Properties.promote
  split_ifs
  · exact h.bind fun _ => .pure _
  · exact .pure _

/-! ## What is read for the properties -/

theorem reaches_sources {s : S} (hs : s ∈ kconfig.definedSyms) {other : Item S C}
    (h : other ∈ (kconfig.symbol s).sources) : kconfig.Reaches (.sym s) other := by
  refine Or.inr ⟨decide_eq_true hs, ?_⟩
  cases hother : kconfig.constant other with
  | true => exact Or.inr rfl
  | false => exact Or.inl ((kconfig.mem_dependents_sym s other).2 ⟨hs, h, hother⟩)

theorem defined_of_choice {s : S} {c : C} (h : (kconfig.symbol s).choice = some c) : s ∈ kconfig.definedSyms := by
  by_contra hs
  have hnone := (kconfig.undefined s hs).2.1
  rw [h] at hnone; cases hnone

theorem reaches_choice (hlinked : kconfig.Linked) {s : S} {c : C} (h : (kconfig.symbol s).choice = some c) :
    kconfig.Reaches (.sym s) (.choice c) :=
  Or.inr ⟨decide_eq_true (defined_of_choice h), Or.inl (hlinked.propagated s c h)⟩

theorem reaches_syms {c : C} {s : S} (h : s ∈ (kconfig.choice c).syms) : kconfig.Reaches (.choice c) (.sym s) :=
  Or.inr ⟨defines_choice c,
    Or.inl ((kconfig.mem_dependents_choice c _).2 ⟨kconfig.mem_choices c, Or.inr ⟨s, h, rfl⟩⟩)⟩

theorem covers_of_choice {c : C} {e : Expr S C} (h : ∀ other ∈ e.items, other ∈ (kconfig.choice c).sources) :
    kconfig.Covers (.choice c) e := by
  intro other hother
  refine Or.inr ⟨defines_choice c, ?_⟩
  cases hconstant : kconfig.constant other with
  | true => exact Or.inr rfl
  | false =>
    exact Or.inl ((kconfig.mem_dependents_choice c other).2
      ⟨kconfig.mem_choices c, Or.inl ⟨h other hother, hconstant⟩⟩)

section Defined

variable {s : S} (hs : s ∈ kconfig.definedSyms)
include hs

theorem covers_prompts : ∀ cond ∈ (kconfig.symbol s).prompts, kconfig.Covers (.sym s) cond :=
  fun cond hcond other hother => reaches_sources hs (by
    simp only [Symbol.sources, List.mem_append, List.mem_flatMap]
    exact Or.inl (Or.inl (Or.inl (Or.inl (Or.inl ⟨cond, hcond, hother⟩)))))

theorem covers_defaults : ∀ default ∈ (kconfig.symbol s).defaults,
    kconfig.Covers (.sym s) default.1 ∧ kconfig.Covers (.sym s) default.2 := by
  intro default hdefault
  have hmem : ∀ other ∈ default.1.items ++ default.2.items, kconfig.Reaches (.sym s) other :=
    fun other hother => reaches_sources hs (by
      simp only [Symbol.sources, List.mem_append, List.mem_flatMap]
      exact Or.inl (Or.inl (Or.inl (Or.inl (Or.inr ⟨default, hdefault, List.mem_append.1 hother⟩)))))
  exact ⟨fun other hother => hmem other (List.mem_append_left _ hother),
    fun other hother => hmem other (List.mem_append_right _ hother)⟩

theorem covers_ranges : ∀ range ∈ (kconfig.symbol s).ranges, kconfig.Reaches (.sym s) (.sym range.1) ∧
    kconfig.Reaches (.sym s) (.sym range.2.1) ∧ kconfig.Covers (.sym s) range.2.2 := by
  intro range hrange
  have hmem : ∀ other ∈ Item.sym range.1 :: .sym range.2.1 :: range.2.2.items, kconfig.Reaches (.sym s) other :=
    fun other hother => reaches_sources hs (by
      simp only [Symbol.sources, List.mem_append, List.mem_flatMap]
      exact Or.inl (Or.inr ⟨range, hrange, hother⟩))
  exact ⟨hmem _ (by simp), hmem _ (by simp), fun other hother => hmem other (by simp [hother])⟩

theorem covers_revDep : kconfig.Covers (.sym s) (kconfig.symbol s).revDep :=
  fun other hother => reaches_sources hs (by
    simp only [Symbol.sources, List.mem_append]
    exact Or.inl (Or.inl (Or.inl (Or.inr hother))))

theorem covers_weakRevDep : kconfig.Covers (.sym s) (kconfig.symbol s).weakRevDep :=
  fun other hother => reaches_sources hs (by
    simp only [Symbol.sources, List.mem_append]
    exact Or.inl (Or.inl (Or.inr hother)))

theorem covers_directDep : kconfig.Covers (.sym s) (kconfig.symbol s).directDep :=
  fun other hother => reaches_sources hs (by
    simp only [Symbol.sources, List.mem_append]
    exact Or.inr hother)

end Defined

/-! ## Visibility -/

theorem sees_self (node : Node S C) : kconfig.Sees node.item node := Or.inl (Or.inl rfl)

theorem alike_visibility_choice {c : C} (h : kconfig.SameModes (.choice c) users users') :
    kconfig.Alike (.choice c) (kconfig.visibility users (.choice c)) (kconfig.visibility users' (.choice c)) := by
  have hprompts : ∀ cond ∈ (kconfig.choice c).prompts, kconfig.Covers (.choice c) cond :=
    fun cond hcond => covers_of_choice fun other hother => by
      simp only [Choice.sources, List.mem_append, List.mem_flatMap]
      exact Or.inl ⟨cond, hcond, hother⟩
  exact (alike_promptVisibility h hprompts 0).bind fun vis => alike_promote (alike_choiceType (defines_choice c) c) vis

theorem alike_visibility_sym (hlinked : kconfig.Linked) {s : S} (h : kconfig.SameModes (.sym s) users users') :
    kconfig.Alike (.sym s) (kconfig.visibility users (.sym s)) (kconfig.visibility users' (.sym s)) := by
  by_cases hs : s ∈ kconfig.definedSyms
  · have htype := alike_promote (alike_symbolType h (decide_eq_true hs) fun c hc => reaches_choice hlinked hc)
    unfold Properties.visibility
    refine (alike_promptVisibility h (covers_prompts hs) 0).bind fun vis => ?_
    cases hc : (kconfig.symbol s).choice with
    | none => exact htype vis
    | some c =>
      have hmode := alike_mode h (reaches_choice hlinked hc)
      dsimp only
      split_ifs
      · refine hmode.bind fun mode => ?_
        split_ifs
        · exact .pure _
        · exact htype vis
      · refine hmode.bind fun mode => ?_
        split_ifs
        · exact .pure _
        · exact htype vis
      · exact htype vis
  · obtain ⟨hprompts, hchoice, -⟩ := kconfig.undefined s hs
    unfold Properties.visibility
    dsimp only
    rw [hprompts, hchoice]
    exact .pure _

/-! ## Tristate values -/

theorem alike_defaultValue (h : kconfig.SameModes item users users') {defaults : List (Expr S C × Expr S C)}
    (hdefaults : ∀ default ∈ defaults, kconfig.Covers item default.1 ∧ kconfig.Covers item default.2) :
    kconfig.Alike item (kconfig.defaultValue users defaults) (kconfig.defaultValue users' defaults) := by
  induction defaults with
  | nil => exact .pure _
  | cons default defaults ih =>
    obtain ⟨⟨hvalue, hcond⟩, hdefaults⟩ := List.forall_mem_cons.1 hdefaults
    refine (alike_exprValue h hcond).bind fun depVal => ?_
    split_ifs
    · exact (alike_exprValue h hvalue).bind fun _ => .pure _
    · exact ih hdefaults

section Defined

variable {s : S} (h : kconfig.SameModes (.sym s) users users') (hs : s ∈ kconfig.definedSyms)
include h hs

theorem alike_impliedValue (write : Bool) : kconfig.Alike (.sym s)
    (kconfig.impliedValue users (kconfig.symbol s) write) (kconfig.impliedValue users' (kconfig.symbol s) write) := by
  unfold Properties.impliedValue
  refine (alike_defaultValue h (covers_defaults hs)).bind fun val => ?_
  refine (alike_exprValue h (covers_weakRevDep hs)).bind fun depVal => ?_
  split_ifs
  · exact .pure _
  · refine (alike_exprValue h (covers_directDep hs)).bind fun direct => ?_
    split_ifs <;> exact .pure _

theorem alike_selectedValue (current : Written Nat) : kconfig.Alike (.sym s)
    (kconfig.selectedValue users (kconfig.symbol s) current)
    (kconfig.selectedValue users' (kconfig.symbol s) current) := by
  unfold Properties.selectedValue
  refine (alike_exprValue h (covers_revDep hs)).bind fun depVal => ?_
  split_ifs
  · exact .pure _
  · exact (alike_exprValue h (covers_directDep hs)).bind fun _ => .pure _

theorem alike_type (hlinked : kconfig.Linked) :
    kconfig.Alike (.sym s) (kconfig.symbolType users s) (kconfig.symbolType users' s) :=
  alike_symbolType h (decide_eq_true hs) fun _ hc => reaches_choice hlinked hc

theorem alike_promotedValue (hlinked : kconfig.Linked) (current : Written Nat) : kconfig.Alike (.sym s)
    (kconfig.promotedValue users s current) (kconfig.promotedValue users' s current) := by
  unfold Properties.promotedValue
  split_ifs
  · refine (alike_type h hs hlinked).bind fun type => ?_
    split_ifs
    · exact .pure _
    · refine (alike_exprValue h (covers_weakRevDep hs)).bind fun _ => ?_
      split_ifs <;> exact .pure _
  · exact .pure _

/-- Without a prompt a symbol is not visible, and then the user value is not looked at. -/
theorem alike_startValue (hvalue : (kconfig.symbol s).prompts ≠ [] → users.value s = users'.value s) {vis : Nat}
    (hvis : (kconfig.symbol s).prompts = [] → vis = 0) :
    kconfig.Alike (.sym s) (kconfig.startValue users s vis) (kconfig.startValue users' s vis) := by
  unfold Properties.startValue
  by_cases hprompts : (kconfig.symbol s).prompts = []
  · obtain rfl := hvis hprompts
    cases (users.value s).bind Assigned.tri? with
    | none =>
      cases (users'.value s).bind Assigned.tri? with
      | none => exact alike_impliedValue h hs _
      | some _ => exact alike_impliedValue h hs _
    | some _ =>
      cases (users'.value s).bind Assigned.tri? with
      | none => exact alike_impliedValue h hs _
      | some _ => exact alike_impliedValue h hs _
  · rw [hvalue hprompts]
    cases (users'.value s).bind Assigned.tri? with
    | none => exact alike_impliedValue h hs _
    | some value =>
      dsimp only
      split_ifs
      · exact alike_impliedValue h hs _
      · exact .pure _

theorem alike_plainValue (hlinked : kconfig.Linked)
    (hvalue : (kconfig.symbol s).prompts ≠ [] → users.value s = users'.value s) {vis : Nat}
    (hvis : (kconfig.symbol s).prompts = [] → vis = 0) :
    kconfig.Alike (.sym s) (kconfig.plainValue users s vis) (kconfig.plainValue users' s vis) :=
  (alike_startValue h hs hvalue hvis).bind fun start =>
    (alike_selectedValue h hs start).bind fun current => alike_promotedValue h hs hlinked current

end Defined

theorem alike_chosenValue (hlinked : kconfig.Linked) {s : S} {c : C}
    (hvalue : (kconfig.symbol s).prompts ≠ [] → users.value s = users'.value s)
    (hchoice : (kconfig.symbol s).choice = some c) {vis : Nat} (hvis : (kconfig.symbol s).prompts = [] → vis = 0) :
    kconfig.Alike (.sym s) (Properties.chosenValue users s c vis) (Properties.chosenValue users' s c vis) := by
  unfold Properties.chosenValue
  split_ifs with htwo
  · have hsees : kconfig.Sees (.sym s) (.selection c) := Or.inl (reaches_choice hlinked hchoice)
    exact (alike_value hsees).bind fun _ => .pure _
  · by_cases hprompts : (kconfig.symbol s).prompts = []
    · obtain rfl := hvis hprompts
      exact .pure _
    · rw [hvalue hprompts]
      exact .pure _

theorem alike_triValue (hlinked : kconfig.Linked) {s : S} (h : kconfig.SameModes (.sym s) users users')
    (hvalue : (kconfig.symbol s).prompts ≠ [] → users.value s = users'.value s) :
    kconfig.Alike (.sym s) (kconfig.triValue users s) (kconfig.triValue users' s) := by
  unfold Properties.triValue
  cases hpreset : (kconfig.symbol s).preset with
  | some value => exact .pure _
  | none =>
    dsimp only
    by_cases hs : s ∈ kconfig.definedSyms
    · split_ifs
      · exact .pure _
      · refine Reading.Agree.value_bind (sees_self _) fun vis hvis => ?_
        cases hchoice : (kconfig.symbol s).choice with
        | none => exact alike_plainValue h hs hlinked hvalue hvis
        | some c => exact alike_chosenValue hlinked hvalue hchoice hvis
    · obtain ⟨-, -, hunknown | ⟨-, hsome⟩⟩ := kconfig.undefined s hs
      · rw [hunknown]; exact .pure _
      · rw [hpreset] at hsome; cases hsome

/-! ## String values -/

theorem alike_activeRange (h : kconfig.SameModes item users users') (base : Nat) {ranges : List (S × S × Expr S C)}
    (hranges : ∀ range ∈ ranges, kconfig.Reaches item (.sym range.1) ∧ kconfig.Reaches item (.sym range.2.1) ∧
      kconfig.Covers item range.2.2) :
    kconfig.Alike item (kconfig.activeRange users base ranges) (kconfig.activeRange users' base ranges) := by
  induction ranges with
  | nil => exact .pure _
  | cons range ranges ih =>
    obtain ⟨⟨hlow, hhigh, hcond⟩, hrest⟩ := List.forall_mem_cons.1 hranges
    refine (alike_exprValue h hcond).bind fun val => ?_
    split_ifs
    · exact (alike_str hlow).bind fun low => (alike_str hhigh).bind fun _ => .pure _
    · exact ih hrest

theorem alike_defaultString {e : Expr S C} (h : kconfig.Covers item e) :
    kconfig.Alike item (Properties.defaultString e) (Properties.defaultString e) := by
  cases e with
  | item other =>
    cases other with
    | sym s => exact alike_str (h _ (List.mem_singleton_self _))
    | choice c => exact .pure _
  | _ => exact .pure _

theorem alike_stringDefault (h : kconfig.SameModes item users users') {defaults : List (Expr S C × Expr S C)}
    (hdefaults : ∀ default ∈ defaults, kconfig.Covers item default.1 ∧ kconfig.Covers item default.2) :
    kconfig.Alike item (kconfig.stringDefault users defaults) (kconfig.stringDefault users' defaults) := by
  induction defaults with
  | nil => exact .pure _
  | cons default defaults ih =>
    obtain ⟨⟨hvalue, hcond⟩, hdefaults⟩ := List.forall_mem_cons.1 hdefaults
    refine (alike_exprValue h hcond).bind fun val => ?_
    split_ifs
    · exact (alike_defaultString hvalue).bind fun _ => .pure _
    · exact ih hdefaults

section Defined

variable {s : S} (h : kconfig.SameModes (.sym s) users users') (hs : s ∈ kconfig.definedSyms)
  (hvalue : (kconfig.symbol s).prompts ≠ [] → users.value s = users'.value s)
include h hs hvalue

theorem alike_numberString (kind : Kind) {vis : Nat} (hvis : (kconfig.symbol s).prompts = [] → vis = 0) :
    kconfig.Alike (.sym s) (kconfig.numberString users s kind vis) (kconfig.numberString users' s kind vis) := by
  refine (alike_activeRange h kind.base (covers_ranges hs)).bind fun range => ?_
  have hused : Properties.usedNumber kind.base vis range ((users.value s).bind Assigned.text?) =
      Properties.usedNumber kind.base vis range ((users'.value s).bind Assigned.text?) := by
    by_cases hprompts : (kconfig.symbol s).prompts = []
    · have hnone (user : Option String) : Properties.usedNumber kind.base 0 range user = none := by
        cases user <;> simp [Properties.usedNumber]
      rw [hvis hprompts, hnone, hnone]
    · rw [hvalue hprompts]
  rw [hused]
  cases Properties.usedNumber kind.base vis range ((users'.value s).bind Assigned.text?) with
  | some text => exact .pure _
  | none => exact (alike_stringDefault h (covers_defaults hs)).bind fun _ => .pure _

theorem alike_textString {vis : Nat} (hvis : (kconfig.symbol s).prompts = [] → vis = 0) :
    kconfig.Alike (.sym s) (kconfig.textString users s vis) (kconfig.textString users' s vis) := by
  have hdefaulted (vis : Nat) : kconfig.Alike (.sym s) (kconfig.defaultedString users (kconfig.symbol s) vis)
      (kconfig.defaultedString users' (kconfig.symbol s) vis) :=
    (alike_stringDefault h (covers_defaults hs)).bind fun _ => .pure _
  unfold Properties.textString
  by_cases hprompts : (kconfig.symbol s).prompts = []
  · obtain rfl := hvis hprompts
    cases (users.value s).bind Assigned.text? with
    | none =>
      cases (users'.value s).bind Assigned.text? with
      | none => exact hdefaulted 0
      | some _ => exact hdefaulted 0
    | some _ =>
      cases (users'.value s).bind Assigned.text? with
      | none => exact hdefaulted 0
      | some _ => exact hdefaulted 0
  · rw [hvalue hprompts]
    cases (users'.value s).bind Assigned.text? with
    | none => exact hdefaulted vis
    | some text =>
      dsimp only
      split_ifs
      · exact hdefaulted vis
      · exact .pure _

end Defined

theorem alike_strValue {s : S} (h : kconfig.SameModes (.sym s) users users')
    (hvalue : (kconfig.symbol s).origType.logical = false → (kconfig.symbol s).prompts ≠ [] →
      users.value s = users'.value s) :
    kconfig.Alike (.sym s) (kconfig.strValue users s) (kconfig.strValue users' s) := by
  have hlogical : kconfig.Alike (.sym s)
      (do let val ← Reading.value (Node.triValue s); pure (Written.mk (triToStr val.value) val.writeToConf))
      (do let val ← Reading.value (Node.triValue s); pure (Written.mk (triToStr val.value) val.writeToConf)) :=
    (alike_value (sees_self (.triValue s))).bind fun _ => .pure _
  unfold Properties.strValue
  by_cases hs : s ∈ kconfig.definedSyms
  · cases hkind : (kconfig.symbol s).origType with
    | unknown => exact .pure _
    | bool => exact hlogical
    | tristate => exact hlogical
    | string =>
      have htext := hvalue (by rw [hkind]; rfl)
      exact Reading.Agree.value_bind (sees_self _) fun vis hvis =>
        (alike_textString h hs htext hvis).bind fun _ => .pure _
    | int =>
      have hnumber := hvalue (by rw [hkind]; rfl)
      exact Reading.Agree.value_bind (sees_self _) fun vis hvis =>
        (alike_numberString h hs hnumber .int hvis).bind fun _ => .pure _
    | hex =>
      have hnumber := hvalue (by rw [hkind]; rfl)
      exact Reading.Agree.value_bind (sees_self _) fun vis hvis =>
        (alike_numberString h hs hnumber .hex hvis).bind fun _ => .pure _
  · obtain ⟨-, -, hunknown | ⟨htristate, -⟩⟩ := kconfig.undefined s hs
    · rw [hunknown]; exact .pure _
    · rw [htristate]; exact hlogical

/-! ## Selections -/

theorem alike_firstVisible {c : C} {syms : List S} (h : ∀ s ∈ syms, s ∈ (kconfig.choice c).syms) :
    kconfig.Alike (.choice c) (Properties.firstVisible syms) (Properties.firstVisible syms) := by
  induction syms with
  | nil => exact .pure _
  | cons s syms ih =>
    obtain ⟨hs, hsyms⟩ := List.forall_mem_cons.1 h
    refine (alike_visible (reaches_syms hs)).bind fun vis => ?_
    split_ifs
    · exact .pure _
    · exact ih hsyms

theorem alike_selectionFromDefaults (hlinked : kconfig.Linked) {c : C} (h : kconfig.SameModes (.choice c) users users')
    {defaults : List (S × Expr S C)} (hdefaults : ∀ default ∈ defaults, default ∈ (kconfig.choice c).defaults) :
    kconfig.Alike (.choice c) (kconfig.selectionFromDefaults users (kconfig.choice c).syms defaults)
      (kconfig.selectionFromDefaults users' (kconfig.choice c).syms defaults) := by
  induction defaults with
  | nil => exact alike_firstVisible fun _ => id
  | cons default defaults ih =>
    obtain ⟨hdefault, hrest⟩ := List.forall_mem_cons.1 hdefaults
    have hcond : kconfig.Covers (.choice c) default.2 := covers_of_choice fun other hother => by
      simp only [Choice.sources, List.mem_append, List.mem_flatMap]
      exact Or.inr ⟨default, hdefault, hother⟩
    refine (alike_exprValue h hcond).bind fun val => ?_
    split_ifs
    · exact ih hrest
    · refine (alike_visible (reaches_syms (hlinked.contained c default hdefault))).bind fun vis => ?_
      split_ifs
      · exact ih hrest
      · exact .pure _

/-- The user's selection in a choice is a symbol in it. -/
def Selected (kconfig : Kconfig S C) (users : Users S C) : Prop :=
  ∀ c s, users.selection c = some s → (kconfig.symbol s).choice = some c

theorem alike_selection (hlinked : kconfig.Linked) {c : C} (h : kconfig.SameModes (.choice c) users users')
    (hselected : kconfig.Selected users) :
    kconfig.Alike (.choice c) (kconfig.selection users c) (kconfig.selection users' c) := by
  have hdefaulted := alike_selectionFromDefaults hlinked h fun _ => id
  unfold Properties.selection
  refine (alike_mode h (Or.inl rfl)).bind fun mode => ?_
  rw [← h.selection c rfl]
  split_ifs
  · exact .pure _
  · cases hselection : users.selection c with
    | none => exact hdefaulted
    | some s =>
      refine (alike_visible (reaches_syms (kconfig.listed s c (hselected c s hselection)))).bind fun vis => ?_
      split_ifs
      · exact .pure _
      · exact hdefaulted

/-! ## Assignable values -/

theorem alike_assignableModes (c : C) :
    kconfig.Alike (.choice c) (kconfig.assignableModes c) (kconfig.assignableModes c) := by
  unfold Properties.assignableModes
  refine (alike_visible (Or.inl rfl)).bind fun vis => ?_
  by_cases h0 : vis = 0
  · rw [if_pos h0]; exact .pure _
  · rw [if_neg h0]
    by_cases h2 : vis = 2
    · rw [if_pos h2]
      exact (alike_choiceType (defines_choice c) c).bind fun _ => .pure _
    · rw [if_neg h2]; exact .pure _

theorem alike_onlyYes (hlinked : kconfig.Linked) {s : S} (h : kconfig.SameModes (.sym s) users users')
    (hs : s ∈ kconfig.definedSyms) :
    kconfig.Alike (.sym s) (kconfig.onlyYes users s) (kconfig.onlyYes users' s) := by
  unfold Properties.onlyYes
  refine (alike_type h hs hlinked).bind fun type => ?_
  split_ifs
  · exact .pure _
  · exact (alike_exprValue h (covers_weakRevDep hs)).bind fun _ => .pure _

theorem alike_assignableValues (hlinked : kconfig.Linked) {s : S}
    (h : kconfig.SameModes (.sym s) users users') :
    kconfig.Alike (.sym s) (kconfig.assignableValues users s) (kconfig.assignableValues users' s) := by
  unfold Properties.assignableValues
  by_cases hlogical : (!(kconfig.symbol s).origType.logical) = true
  · rw [if_pos hlogical, if_pos hlogical]; exact .pure _
  rw [if_neg hlogical, if_neg hlogical]
  refine Reading.Agree.value_bind (sees_self _) fun vis hvis => ?_
  by_cases h0 : vis = 0
  · rw [if_pos h0, if_pos h0]; exact .pure _
  rw [if_neg h0, if_neg h0]
  -- what is not defined has no prompt
  have hs : s ∈ kconfig.definedSyms := by
    by_contra hs
    exact h0 (hvis (kconfig.undefined s hs).1)
  have honly := alike_onlyYes hlinked h hs
  refine (alike_exprValue h (covers_revDep hs)).bind fun revDepVal => ?_
  split_ifs
  · exact .pure _
  · exact honly.bind fun _ => .pure _
  · exact .pure _
  · exact honly.bind fun _ => .pure _
  · exact (alike_exprValue h (covers_weakRevDep hs)).bind fun _ => .pure _
  · exact .pure _
  · exact .pure _

/-! ## All values -/

/-- What a value is computed from. -/
theorem compute_alike (hlinked : kconfig.Linked) (hselected : kconfig.Selected users) (node : Node S C)
    (h : kconfig.Agrees node.item users users') :
    kconfig.Alike node.item (kconfig.compute users node) (kconfig.compute users' node) := by
  cases node with
  | visibility item =>
    cases item with
    | sym s => exact alike_visibility_sym hlinked h.toSameModes
    | choice c => exact alike_visibility_choice h.toSameModes
  | triValue s => exact alike_triValue hlinked h.toSameModes (h.value s rfl)
  | strValue s => exact alike_strValue h.toSameModes fun _ => h.value s rfl
  | selection c => exact alike_selection hlinked h.toSameModes hselected
  | assignable item =>
    cases item with
    | sym s => exact alike_assignableValues hlinked h.toSameModes
    | choice c => exact alike_assignableModes c

end Alike

end Kconfig

end Refrigerator.Kconfiglib
