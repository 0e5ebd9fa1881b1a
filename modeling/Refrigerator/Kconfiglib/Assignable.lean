/-
What can be assigned to a symbol: a value is among the assignable ones exactly if the symbol has it once it
has been set (`assignable_iff`), except that for a symbol that is visible and selected as m and implied as
y the list has m only, where the symbol is y whatever is set.

The user value makes no difference to what the list is computed from: whatever has a value does not need it
for itself.
-/
import Refrigerator.Kconfiglib.Coherence
import Refrigerator.Kconfiglib.Values

namespace Refrigerator.Kconfiglib

open Lib

variable {S C : Type} [DecidableEq S] [DecidableEq C]

namespace Kconfig

variable {kconfig : Kconfig S C} {users users' : Users S C}

/-! ## What the computations result in -/

theorem unset_of_defined {s : S} (hs : s ∈ kconfig.definedSyms) : (kconfig.symbol s).preset = none := by
  cases hpreset : (kconfig.symbol s).preset with
  | none => rfl
  | some value => exact absurd hs (kconfig.constants s (Or.inr (by rw [hpreset]; rfl)))

section Answered

variable {answer : ∀ node : Node S C, Option node.Value} {s : S}

/-- The type and the implying symbols decide whether m is possible. -/
theorem answered_selectedValue {symbol : Symbol S C} {current result : Written Nat}
    (h : (kconfig.selectedValue users symbol current).answered answer = some result) :
    ∃ dep, (kconfig.exprValue users symbol.revDep).answered answer = some dep ∧
      result.value = max dep current.value := by
  obtain ⟨dep, hdep, h⟩ := Reading.answered_bind_some h
  refine ⟨dep, hdep, ?_⟩
  split_ifs at h with hzero
  · obtain rfl := Option.some.inj h
    omega
  · obtain ⟨direct, -, h⟩ := Reading.answered_bind_some h
    obtain rfl := Option.some.inj h
    rfl

theorem answered_promotedValue {current result : Written Nat}
    (h : (kconfig.promotedValue users s current).answered answer = some result) :
    (current.value ≠ 1 ∧ result.value = current.value) ∨
      (current.value = 1 ∧ ∃ only, (kconfig.onlyYes users s).answered answer = some only ∧
        result.value = if only then 2 else 1) := by
  unfold Properties.promotedValue at h
  unfold Properties.onlyYes
  split_ifs at h with hone
  · refine Or.inr ⟨hone, ?_⟩
    obtain ⟨type, htype, h⟩ := Reading.answered_bind_some h
    rw [Reading.answered_bind, htype]
    dsimp only [Option.bind_some]
    split_ifs at h ⊢ with hbool
    · obtain rfl := Option.some.inj h
      exact ⟨true, rfl, rfl⟩
    · obtain ⟨weak, hweak, h⟩ := Reading.answered_bind_some h
      rw [Reading.answered_bind, hweak]
      refine ⟨decide (weak = 2), rfl, ?_⟩
      split_ifs at h with htwo
      · obtain rfl := Option.some.inj h
        simp [htwo]
      · obtain rfl := Option.some.inj h
        simp [htwo, hone]
  · obtain rfl := Option.some.inj h
    exact Or.inl ⟨hone, rfl⟩

/-- The value of a symbol that is in no choice, from the start value and the symbols that select it. -/
theorem answered_triValue {result : Written Nat} (hlogical : (kconfig.symbol s).origType.logical = true)
    (hpreset : (kconfig.symbol s).preset = none) (hchoice : (kconfig.symbol s).choice = none)
    (h : (kconfig.triValue users s).answered answer = some result) :
    ∃ vis start dep, (visible (.sym s) : Eval S C Nat).answered answer = some vis ∧
      (kconfig.startValue users s vis).answered answer = some start ∧
      (kconfig.exprValue users (kconfig.symbol s).revDep).answered answer = some dep ∧
      ((max dep start.value ≠ 1 ∧ result.value = max dep start.value) ∨
        (max dep start.value = 1 ∧ ∃ only, (kconfig.onlyYes users s).answered answer = some only ∧
          result.value = if only then 2 else 1)) := by
  unfold Properties.triValue at h
  rw [hpreset, hlogical, hchoice] at h
  obtain ⟨vis, hvis, h⟩ := Reading.answered_bind_some h
  obtain ⟨start, hstart, h⟩ := Reading.answered_bind_some h
  obtain ⟨current, hcurrent, h⟩ := Reading.answered_bind_some h
  obtain ⟨dep, hdep, hmax⟩ := answered_selectedValue hcurrent
  have hpromoted := answered_promotedValue h
  rw [hmax] at hpromoted
  exact ⟨vis, start, dep, hvis, hstart, hdep, hpromoted⟩

end Answered

/-- The assignable values of a symbol that is visible as y. -/
theorem yields_assignable_two {s : S} {values : List Nat} (hlogical : (kconfig.symbol s).origType.logical = true)
    (hchoice : (kconfig.symbol s).choice = none) (hvis : Yields (kconfig.compute users) (visible (.sym s)) 2)
    (h : Yields (kconfig.compute users) (Reading.value (.assignable (.sym s))) values) :
    ∃ dep, Yields (kconfig.compute users) (kconfig.exprValue users (kconfig.symbol s).revDep) dep ∧
      (dep = 2 ∧ values = [2] ∨ dep ≠ 2 ∧ ∃ only, Yields (kconfig.compute users) (kconfig.onlyYes users s) only ∧
        values = if dep = 0 then (if only then [0, 2] else [0, 1, 2]) else (if only then [2] else [1, 2])) := by
  have hvalues : Yields (kconfig.compute users) (kconfig.assignableValues users s) values := yields_value.1 h
  unfold Properties.assignableValues at hvalues
  rw [hlogical, hchoice] at hvalues
  obtain ⟨vis, hvis', hvalues⟩ := yields_bind.1 hvalues
  obtain rfl := hvis.unique hvis'
  obtain ⟨dep, hdep, hvalues⟩ := yields_bind.1 hvalues
  refine ⟨dep, hdep, ?_⟩
  dsimp only [Option.isSome_none] at hvalues
  rw [if_pos rfl, if_neg Bool.false_ne_true] at hvalues
  by_cases hzero : dep = 0
  · rw [if_pos hzero] at hvalues
    obtain ⟨only, honly, hvalues⟩ := yields_bind.1 hvalues
    refine Or.inr ⟨by omega, only, honly, ?_⟩
    rw [if_pos hzero]
    exact yields_pure.1 hvalues
  · rw [if_neg hzero] at hvalues
    by_cases htwo : dep = 2
    · rw [if_pos htwo] at hvalues
      exact Or.inl ⟨htwo, yields_pure.1 hvalues⟩
    · rw [if_neg htwo] at hvalues
      obtain ⟨only, honly, hvalues⟩ := yields_bind.1 hvalues
      refine Or.inr ⟨htwo, only, honly, ?_⟩
      rw [if_neg hzero]
      exact yields_pure.1 hvalues

/-- The assignable values of a symbol that is visible as m. -/
theorem yields_assignable_one {s : S} {values : List Nat} (hlogical : (kconfig.symbol s).origType.logical = true)
    (hvis : Yields (kconfig.compute users) (visible (.sym s)) 1)
    (h : Yields (kconfig.compute users) (Reading.value (.assignable (.sym s))) values) :
    ∃ dep, Yields (kconfig.compute users) (kconfig.exprValue users (kconfig.symbol s).revDep) dep ∧
      (dep = 0 ∧ (∃ weak, Yields (kconfig.compute users) (kconfig.exprValue users (kconfig.symbol s).weakRevDep) weak ∧
          values = if weak = 2 then [0, 2] else [0, 1]) ∨
        dep = 2 ∧ values = [2] ∨ dep ≠ 0 ∧ dep ≠ 2 ∧ values = [1]) := by
  have hvalues : Yields (kconfig.compute users) (kconfig.assignableValues users s) values := yields_value.1 h
  unfold Properties.assignableValues at hvalues
  rw [hlogical] at hvalues
  obtain ⟨vis, hvis', hvalues⟩ := yields_bind.1 hvalues
  obtain rfl := hvis.unique hvis'
  obtain ⟨dep, hdep, hvalues⟩ := yields_bind.1 hvalues
  refine ⟨dep, hdep, ?_⟩
  rw [if_neg (by decide)] at hvalues
  by_cases hzero : dep = 0
  · rw [if_pos hzero] at hvalues
    obtain ⟨weak, hweak, hvalues⟩ := yields_bind.1 hvalues
    refine Or.inl ⟨hzero, weak, hweak, ?_⟩
    rw [yields_pure.1 hvalues, ite_not]
  · rw [if_neg hzero] at hvalues
    by_cases htwo : dep = 2
    · rw [if_pos htwo] at hvalues
      exact Or.inr (Or.inl ⟨htwo, yields_pure.1 hvalues⟩)
    · rw [if_neg htwo] at hvalues
      exact Or.inr (Or.inr ⟨hzero, htwo, yields_pure.1 hvalues⟩)

/-- A symbol that is visible as m is of type tristate. -/
theorem yields_type_one {s : S} (hchoice : (kconfig.symbol s).choice = none)
    (hvis : Yields (kconfig.compute users) (visible (.sym s)) 1) :
    Yields (kconfig.compute users) (kconfig.symbolType users s) .tristate := by
  have hvisibility : Yields (kconfig.compute users) (kconfig.visibility users (.sym s)) 1 := yields_value.1 hvis
  unfold Properties.visibility at hvisibility
  obtain ⟨prompted, -, hvisibility⟩ := yields_bind.1 hvisibility
  rw [hchoice] at hvisibility
  rcases yields_promote hvisibility with ⟨hne, heq⟩ | ⟨-, kind, hkind, hone⟩
  · exact absurd heq.symm hne
  · split_ifs at hone with htristate
    · exact htristate ▸ hkind
    · cases hone

/-- So m is possible for it, unless it is implied as y. -/
theorem yields_onlyYes_one {s : S} {only : Bool} (hchoice : (kconfig.symbol s).choice = none)
    (hvis : Yields (kconfig.compute users) (visible (.sym s)) 1)
    (h : Yields (kconfig.compute users) (kconfig.onlyYes users s) only) :
    ∃ weak, Yields (kconfig.compute users) (kconfig.exprValue users (kconfig.symbol s).weakRevDep) weak ∧
      only = decide (weak = 2) := by
  obtain ⟨kind, hkind, h⟩ := yields_bind.1 h
  obtain rfl := (yields_type_one hchoice hvis).unique hkind
  rw [if_neg (by decide)] at h
  obtain ⟨weak, hweak, h⟩ := yields_bind.1 h
  exact ⟨weak, hweak, yields_pure.1 h⟩

theorem yields_type_bool {s : S} {kind : Kind} (hbool : (kconfig.symbol s).origType = .bool)
    (h : Yields (kconfig.compute users) (kconfig.symbolType users s) kind) : kind = .bool := by
  unfold Properties.symbolType at h
  rw [hbool, if_neg (by decide)] at h
  exact yields_pure.1 h

/-- For a bool symbol m is never possible. -/
theorem yields_onlyYes_bool {s : S} {only : Bool} (hbool : (kconfig.symbol s).origType = .bool)
    (h : Yields (kconfig.compute users) (kconfig.onlyYes users s) only) : only = true := by
  obtain ⟨kind, hkind, h⟩ := yields_bind.1 h
  rw [yields_type_bool hbool hkind, if_pos rfl] at h
  exact yields_pure.1 h

/-! ## The user value of the symbol -/

theorem possible_of_fresh (depth : Nat) (node : Node S C) (a : node.Value)
    (ha : fresh (kconfig.compute users) depth node = some a) : kconfig.Possible node a := by
  cases depth with
  | zero => cases ha
  | succ depth =>
    cases node with
    | visibility item =>
      cases item with
      | sym s => exact fun hprompts => visibility_unprompted hprompts ha
      | choice c => trivial
    | _ => trivial

/-- Only the user value of one symbol differs. -/
structure DifferAt (s : S) (users users' : Users S C) : Prop where
  value : ∀ t ≠ s, users'.value t = users.value t
  mode : users'.mode = users.mode
  selection : users'.selection = users.selection

theorem DifferAt.sameModes {s : S} (h : DifferAt s users users') (item : Item S C) :
    kconfig.SameModes item users' users := ⟨fun c _ => congrFun h.mode c, fun c _ => congrFun h.selection c⟩

/-- Only the value of the symbol itself is computed another way. -/
theorem DifferAt.alike (hlinked : kconfig.Linked) {s : S} (h : DifferAt s users users')
    (hlogical : (kconfig.symbol s).origType.logical = true)
    (hselected : kconfig.Selected users') (node : Node S C) (hnode : ¬ node = .triValue s) :
    kconfig.Alike node.item (kconfig.compute users' node) (kconfig.compute users node) := by
  cases node with
  | visibility item =>
    cases item with
    | sym t => exact alike_visibility_sym hlinked (h.sameModes _)
    | choice c => exact alike_visibility_choice (h.sameModes _)
  | triValue t => exact alike_triValue hlinked (h.sameModes _) fun _ => h.value t fun heq => hnode (by rw [heq])
  | strValue t =>
    refine alike_strValue (h.sameModes _) fun hkind _ => h.value t ?_
    rintro rfl
    rw [hlogical] at hkind
    cases hkind
  | selection c => exact alike_selection hlinked (h.sameModes _) hselected
  | assignable item =>
    cases item with
    | sym t => exact alike_assignableValues hlinked (h.sameModes _)
    | choice c => exact alike_assignableModes c

/-- What the value of the symbol needs does not depend on its user value. -/
theorem DifferAt.yields {R : Type} (hlinked : kconfig.Linked) {s : S} (h : DifferAt s users users')
    (hlogical : (kconfig.symbol s).origType.logical = true) (hselected : kconfig.Selected users') {item : Item S C}
    {p p' : Eval S C R} (hp : kconfig.Alike item p p')
    (hneeds : ∀ depth a, (kconfig.triValue users' s).answered (fresh (kconfig.compute users') depth) = some a →
      ∃ r, p.answered (fresh (kconfig.compute users') depth) = some r)
    {result : R} (hresult : Yields (kconfig.compute users') p result) : Yields (kconfig.compute users) p' result := by
  refine Yields.of_needed possible_of_fresh (K := (· = .triValue s)) (h.alike hlinked hlogical hselected) hp ?_ hresult
  rintro depth node a rfl ha
  exact hneeds depth a ha

/-- The value of a visible symbol with a user value, from what does not depend on that. -/
theorem DifferAt.yields_tri (hlinked : kconfig.Linked) {s : S} {v vis w : Nat} (h : DifferAt s users users')
    (hlogical : (kconfig.symbol s).origType.logical = true) (hchoice : (kconfig.symbol s).choice = none)
    (hselected : kconfig.Selected users') (hs : s ∈ kconfig.definedSyms) (hvalue : users'.value s = some (.tri v))
    (hvis : Yields (kconfig.compute users) (visible (.sym s)) vis) (hvisible : vis ≠ 0)
    (hw : Yields (kconfig.compute users') (tri s) w) :
    ∃ dep, Yields (kconfig.compute users) (kconfig.exprValue users (kconfig.symbol s).revDep) dep ∧
      ((max dep (min v vis) ≠ 1 ∧ w = max dep (min v vis)) ∨
        (max dep (min v vis) = 1 ∧ ∃ only, Yields (kconfig.compute users) (kconfig.onlyYes users s) only ∧
          w = if only then 2 else 1)) := by
  have hpreset := unset_of_defined hs
  have hstart {vis : Nat} {start : Written Nat} {answer : ∀ node : Node S C, Option node.Value} (hne : vis ≠ 0)
      (hstart : (kconfig.startValue users' s vis).answered answer = some start) : start.value = min v vis := by
    unfold Properties.startValue at hstart
    rw [hvalue] at hstart
    dsimp only [Option.bind_some, Assigned.tri?] at hstart
    rw [if_neg hne] at hstart
    obtain rfl := Option.some.inj hstart
    rfl
  obtain ⟨written, hwritten, hpure⟩ := yields_bind.1 hw
  obtain ⟨depth, ha⟩ := yields_value.1 hwritten
  obtain rfl := yields_pure.1 hpure
  obtain ⟨vis', start, dep, hvis', hstart', hdep, hresult⟩ := answered_triValue hlogical hpreset hchoice ha
  -- the visibility and the symbols that select it are needed for every value of the symbol
  have hvis'' : Yields (kconfig.compute users) (visible (.sym s)) vis' := by
    have halike : kconfig.Alike (.sym s) (visible (.sym s) : Eval S C Nat) (visible (.sym s)) :=
      alike_visible (Or.inl rfl)
    refine h.yields hlinked hlogical hselected halike (fun depth a ha => ?_) ⟨depth, hvis'⟩
    obtain ⟨vis, -, -, hvis, -⟩ := answered_triValue hlogical hpreset hchoice ha
    exact ⟨vis, hvis⟩
  obtain rfl := hvis.unique hvis''
  have hdep' : Yields (kconfig.compute users) (kconfig.exprValue users (kconfig.symbol s).revDep) dep := by
    have halike := alike_exprValue (h.sameModes _) (covers_revDep hs)
    refine h.yields hlinked hlogical hselected halike (fun depth a ha => ?_) ⟨depth, hdep⟩
    obtain ⟨-, -, dep, -, -, hdep, -⟩ := answered_triValue hlogical hpreset hchoice ha
    exact ⟨dep, hdep⟩
  rw [hstart hvisible hstart'] at hresult
  refine ⟨dep, hdep', hresult.imp_right fun ⟨hone, only, honly, hw⟩ => ⟨hone, only, ?_, hw⟩⟩
  -- and so is the type, since the value comes out as m
  have halike := alike_onlyYes hlinked (h.sameModes _) hs
  refine h.yields hlinked hlogical hselected halike (fun depth' a ha => ?_) ⟨depth, honly⟩
  obtain ⟨vis₁, start₁, dep₁, hvis₁, hstart₁, hdep₁, hresult₁⟩ := answered_triValue hlogical hpreset hchoice ha
  have hvis₂ : vis₁ = vis := Yields.unique ⟨depth', hvis₁⟩ ⟨depth, hvis'⟩
  have hdep₂ : dep₁ = dep := Yields.unique ⟨depth', hdep₁⟩ ⟨depth, hdep⟩
  subst hvis₂ hdep₂
  rw [hstart hvisible hstart₁] at hresult₁
  rcases hresult₁ with ⟨hne, -⟩ | ⟨-, only₁, honly₁, -⟩
  · exact absurd hone hne
  · exact ⟨only₁, honly₁⟩

/-! ## Assignment -/

/-- A value that is set and well-formed is stored, and no other one is. -/
theorem setValue_users (state : State S C) {s : S} {v : Nat} (hchoice : (kconfig.symbol s).choice = none) :
    (kconfig.setValue state s (.tri v)).users =
      if wellFormed (kconfig.symbol s).origType (.tri v) then
        { state.users with value := Function.update state.users.value s (some (.tri v)) }
      else state.users := by
  have hstrToTri : strToTri (.tri v) = .tri v := rfl
  unfold setValue
  rw [hstrToTri, ite_self, hchoice]
  dsimp only
  cases hwell : wellFormed (kconfig.symbol s).origType (.tri v) with
  | true =>
    rw [if_neg (by decide : ¬ (!true) = true), if_pos rfl]
    split_ifs with hsame
    · rw [← hsame.1, Function.update_eq_self]
    · rfl
  | false =>
    rw [if_pos (by decide : (!false) = true), ite_self, if_neg Bool.false_ne_true]

/-- The symbol is visible as m, selected as m and implied as y. -/
def Locked (kconfig : Kconfig S C) (users : Users S C) (s : S) : Prop :=
  Yields (kconfig.compute users) (visible (.sym s)) 1 ∧
    Yields (kconfig.compute users) (kconfig.exprValue users (kconfig.symbol s).revDep) 1 ∧
    Yields (kconfig.compute users) (kconfig.exprValue users (kconfig.symbol s).weakRevDep) 2

section Effect

variable {s : S} {v vis w : Nat} {values : List Nat} (hlinked : kconfig.Linked) (h : DifferAt s users users')
  (hlogical : (kconfig.symbol s).origType.logical = true) (hchoice : (kconfig.symbol s).choice = none)
  (hselected : kconfig.Selected users') (hs : s ∈ kconfig.definedSyms) (hvalue : users'.value s = some (.tri v))
  (hv : v ≤ 2) (hvis : Yields (kconfig.compute users) (visible (.sym s)) vis) (hvisible : vis ≠ 0)
  (hvalues : Yields (kconfig.compute users) (Reading.value (.assignable (.sym s))) values)
  (hw : Yields (kconfig.compute users') (tri s) w)
include hlinked h hlogical hchoice hselected hs hvalue hv hvis hvisible hvalues hw

/-- A value that is set takes effect if it is among the assignable ones, and only then. -/
theorem DifferAt.mem_iff_or : (v ∈ values ↔ w = v) ∨ kconfig.Locked users s := by
  obtain ⟨dep, hdep, hresult⟩ := h.yields_tri hlinked hlogical hchoice hselected hs hvalue hvis hvisible hw
  have hdep2 := exprValue_le hdep
  have hvis2 := visible_le hvis
  have hcases : vis = 1 ∨ vis = 2 := by omega
  rcases hcases with rfl | rfl
  · obtain ⟨dep', hdep', hlist⟩ := yields_assignable_one hlogical hvis hvalues
    obtain rfl := hdep.unique hdep'
    rcases hlist with ⟨rfl, weak, hweak, rfl⟩ | ⟨rfl, rfl⟩ | ⟨hzero, htwo, rfl⟩
    · refine Or.inl ?_
      rcases hresult with ⟨hne, rfl⟩ | ⟨hone, only, honly, rfl⟩
      · have hv0 : v = 0 := by omega
        subst hv0
        split_ifs <;> simp
      · obtain ⟨weak', hweak', rfl⟩ := yields_onlyYes_one hchoice hvis honly
        obtain rfl := hweak.unique hweak'
        by_cases htwo : weak = 2
        · simp [htwo]; omega
        · simp [htwo]; omega
    · refine Or.inl ?_
      rcases hresult with ⟨-, rfl⟩ | ⟨hone, -⟩
      · simp; omega
      · omega
    · obtain rfl : dep = 1 := by omega
      rcases hresult with ⟨hne, -⟩ | ⟨-, only, honly, rfl⟩
      · omega
      · obtain ⟨weak, hweak, rfl⟩ := yields_onlyYes_one hchoice hvis honly
        by_cases htwo : weak = 2
        · subst htwo
          exact Or.inr ⟨hvis, hdep, hweak⟩
        · refine Or.inl ?_
          simp [htwo]; omega
  · refine Or.inl ?_
    obtain ⟨dep', hdep', hlist⟩ := yields_assignable_two hlogical hchoice hvis hvalues
    obtain rfl := hdep.unique hdep'
    rcases hlist with ⟨rfl, rfl⟩ | ⟨htwo, only, honly, rfl⟩
    · rcases hresult with ⟨-, rfl⟩ | ⟨hone, -⟩
      · simp; omega
      · omega
    · rcases hresult with ⟨hne, rfl⟩ | ⟨hone, only', honly', rfl⟩
      · cases only <;> split_ifs <;> simp <;> omega
      · obtain rfl := honly.unique honly'
        cases only <;> split_ifs <;> simp <;> omega

omit hv in
/-- A locked symbol is y, whatever is set, and m is listed for it. -/
theorem DifferAt.of_locked (hlocked : kconfig.Locked users s) : values = [1] ∧ w = 2 := by
  obtain ⟨hone, hrev, hweak⟩ := hlocked
  obtain rfl := hvis.unique hone
  obtain ⟨dep, hdep, hresult⟩ := h.yields_tri hlinked hlogical hchoice hselected hs hvalue hvis hvisible hw
  obtain rfl := hdep.unique hrev
  constructor
  · obtain ⟨dep, hdep', ⟨rfl, -⟩ | ⟨rfl, -⟩ | ⟨-, -, hlist⟩⟩ := yields_assignable_one hlogical hvis hvalues
    · exact absurd (hdep'.unique hrev) (by decide)
    · exact absurd (hdep'.unique hrev) (by decide)
    · exact hlist
  · rcases hresult with ⟨hne, -⟩ | ⟨-, only, honly, rfl⟩
    · omega
    · obtain ⟨weak, hweak', rfl⟩ := yields_onlyYes_one hchoice hvis honly
      obtain rfl := hweak.unique hweak'
      rfl

end Effect

/-- A bool symbol is never m, and m is never listed for it. -/
theorem not_m_of_bool {s : S} {vis w : Nat} {values : List Nat} (hbool : (kconfig.symbol s).origType = .bool)
    (hchoice : (kconfig.symbol s).choice = none) (hs : s ∈ kconfig.definedSyms)
    (hvis : Yields (kconfig.compute users) (visible (.sym s)) vis) (hvisible : vis ≠ 0)
    (hvalues : Yields (kconfig.compute users) (Reading.value (.assignable (.sym s))) values)
    (hw : Yields (kconfig.compute users) (tri s) w) : 1 ∉ values ∧ w ≠ 1 := by
  have hlogical : (kconfig.symbol s).origType.logical = true := by rw [hbool]; rfl
  have hvis2 : vis = 2 := by
    have hle := visible_le hvis
    have hne : vis ≠ 1 := by
      rintro rfl
      cases yields_type_bool hbool (yields_type_one hchoice hvis)
    omega
  subst hvis2
  constructor
  · obtain ⟨dep, -, ⟨-, rfl⟩ | ⟨-, only, honly, rfl⟩⟩ := yields_assignable_two hlogical hchoice hvis hvalues
    · decide
    · obtain rfl := yields_onlyYes_bool hbool honly
      rw [if_pos rfl, if_pos rfl]
      split_ifs <;> decide
  · obtain ⟨written, hwritten, hpure⟩ := yields_bind.1 hw
    obtain ⟨depth, ha⟩ := yields_value.1 hwritten
    obtain rfl := yields_pure.1 hpure
    obtain ⟨_, _, _, -, -, -, ⟨hne, heq⟩ | ⟨-, only, honly, heq⟩⟩ :=
      answered_triValue hlogical (unset_of_defined hs) hchoice ha
    · rw [heq]; exact hne
    · obtain rfl := yields_onlyYes_bool hbool ⟨depth, honly⟩
      rw [heq]; decide

/-- After any run: a value of a visible symbol takes effect when it is set if it is among the assignable
ones, and only then. For a symbol that is visible as m, selected as m and implied as y only m is listed,
and it is y whatever is set. -/
theorem assignable_iff (kconfig : Kconfig S C) (hlinked : kconfig.Linked) (run : List (Operation S C)) {s : S}
    {v vis w : Nat} {values : List Nat} (hlogical : (kconfig.symbol s).origType.logical = true)
    (hchoice : (kconfig.symbol s).choice = none) (hv : v ≤ 2)
    (hvis : Yields (kconfig.compute (kconfig.after run).users) (visible (.sym s)) vis) (hvisible : vis ≠ 0)
    (hvalues : Yields (kconfig.compute (kconfig.after run).users) (Reading.value (.assignable (.sym s))) values)
    (hw : Yields (kconfig.compute (kconfig.after (run ++ [.setValue s (.tri v)])).users) (tri s) w) :
    (¬ kconfig.Locked (kconfig.after run).users s → (v ∈ values ↔ w = v)) ∧
      (kconfig.Locked (kconfig.after run).users s → values = [1] ∧ w = 2) := by
  have hs : s ∈ kconfig.definedSyms := by
    by_contra hs
    obtain ⟨depth, hdepth⟩ := hvis
    exact hvisible (possible_of_fresh depth (.visibility (.sym s)) vis
      ((Reading.answered_value _).symm.trans hdepth) (kconfig.undefined s hs).1)
  have hselected := after_selected kconfig (run ++ [.setValue s (.tri v)])
  have husers : (kconfig.after (run ++ [.setValue s (.tri v)])).users =
      (kconfig.setValue (kconfig.after run) s (.tri v)).users := by
    rw [after, Machine.exec_snoc]
    rfl
  rw [setValue_users _ hchoice] at husers
  split_ifs at husers with hwell
  · have hdiffer : DifferAt s (kconfig.after run).users (kconfig.after (run ++ [.setValue s (.tri v)])).users := by
      rw [husers]
      exact ⟨fun t ht => Function.update_of_ne ht _ _, rfl, rfl⟩
    have hvalue : (kconfig.after (run ++ [.setValue s (.tri v)])).users.value s = some (.tri v) := by
      rw [husers]
      exact Function.update_self _ _ _
    constructor
    · have hcases := hdiffer.mem_iff_or hlinked hlogical hchoice hselected hs hvalue hv hvis hvisible hvalues hw
      exact fun hfree => hcases.resolve_right hfree
    · exact hdiffer.of_locked hlinked hlogical hchoice hselected hs hvalue hvis hvisible hvalues hw
  · -- the value m of a bool symbol is refused
    obtain ⟨hbool, rfl⟩ : (kconfig.symbol s).origType = .bool ∧ v = 1 := by
      cases hkind : (kconfig.symbol s).origType with
      | bool =>
        rw [hkind] at hwell
        simp [wellFormed] at hwell
        exact ⟨rfl, by omega⟩
      | tristate =>
        rw [hkind] at hwell
        simp [wellFormed] at hwell
        omega
      | _ => rw [hkind] at hlogical; cases hlogical
    rw [husers] at hw
    obtain ⟨hlist, hne⟩ := not_m_of_bool hbool hchoice hs hvis hvisible hvalues hw
    refine ⟨fun _ => iff_of_false hlist hne, fun hlocked => ?_⟩
    -- and a bool symbol is never visible as m
    cases yields_type_bool hbool (yields_type_one hchoice hlocked.1)

theorem assignable_iff_small :
    ∃ w, Yields (small.compute (small.after ([] ++ [.setValue 3 (.tri 1)])).users) (tri 3) w ∧
      (1 ∈ [0, 1, 2] ↔ w = 1) := by
  have hvalues : Yields (small.compute (small.after []).users) (Reading.value (.assignable (.sym 3))) [0, 1, 2] :=
    ⟨9, by decide⟩
  have hvis : Yields (small.compute (small.after []).users) (visible (.sym 3)) 2 := ⟨9, by decide⟩
  have hw : Yields (small.compute (small.after ([] ++ [.setValue 3 (.tri 1)])).users) (tri 3) 1 := ⟨9, by decide⟩
  have hfree : ¬ small.Locked (small.after []).users 3 := fun hlocked => absurd (hvis.unique hlocked.1) (by decide)
  have hiff := assignable_iff small small_linked [] (by decide) (by decide) (by decide) hvis (by decide) hvalues hw
  exact ⟨1, hw, hiff.1 hfree⟩

end Kconfig

end Refrigerator.Kconfiglib
