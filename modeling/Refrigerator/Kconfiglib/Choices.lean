/-
Choices in y mode: exactly one of the visible symbols is y, and it is the one that the user has selected
last if that is visible (`choice_exclusive`).
-/
import Refrigerator.Kconfiglib.Coherence
import Refrigerator.Kconfiglib.Values

namespace Refrigerator.Kconfiglib

open Lib

variable {S C : Type} [DecidableEq S] [DecidableEq C]

namespace Kconfig

variable {kconfig : Kconfig S C} {users : Users S C}

/-! ## Visibility -/

/-- A symbol that is not of type tristate is visible as y or not at all. -/
theorem promoted_of_ne {s : S} {vis result : Nat} (hkind : (kconfig.symbol s).origType ≠ .tristate) (hvis : vis ≤ 2)
    (h : Yields (kconfig.compute users) (Properties.promote vis (kconfig.symbolType users s)) result) :
    result = 0 ∨ result = 2 := by
  rcases yields_promote h with ⟨hne, rfl⟩ | ⟨-, kind, hkind', rfl⟩
  · omega
  · unfold Properties.symbolType at hkind'
    rw [if_neg hkind, yields_pure] at hkind'
    rw [if_neg (hkind' ▸ hkind)]
    exact Or.inr rfl

theorem visibility_yMode {s : S} {c : C} {vis : Nat} (hchoice : (kconfig.symbol s).choice = some c)
    (hmode : Yields (kconfig.compute users) (kconfig.mode users c) 2)
    (h : Yields (kconfig.compute users) (visible (.sym s)) vis) : vis = 0 ∨ vis = 2 := by
  have hle := visible_le h
  have hvisibility : Yields (kconfig.compute users) (kconfig.visibility users (.sym s)) vis := yields_value.1 h
  unfold Properties.visibility at hvisibility
  obtain ⟨prompted, hprompted, hvisibility⟩ := yields_bind.1 hvisibility
  have hprompted2 : prompted ≤ 2 := hprompted.ensures (bounded kconfig users) (tristate_promptVisibility _ (by omega))
  rw [hchoice] at hvisibility
  dsimp only at hvisibility
  split_ifs at hvisibility with hother hm
  · obtain ⟨mode, hmode', hvisibility⟩ := yields_bind.1 hvisibility
    obtain rfl := hmode.unique hmode'
    exact promoted_of_ne hother.2 hprompted2 hvisibility
  · obtain ⟨mode, hmode', hvisibility⟩ := yields_bind.1 hvisibility
    obtain rfl := hmode.unique hmode'
    exact Or.inl (yields_pure.1 hvisibility)
  · by_cases htristate : (kconfig.symbol s).origType = .tristate
    · have hne : prompted ≠ 1 := fun heq => hm ⟨htristate, heq⟩
      rcases yields_promote hvisibility with ⟨-, rfl⟩ | ⟨heq, -⟩
      · omega
      · exact absurd heq hne
    · exact promoted_of_ne htristate hprompted2 hvisibility

/-! ## Selections -/

omit [DecidableEq S] [DecidableEq C] in
theorem yields_firstVisible {compute : ∀ node : Node S C, Eval S C node.Value} {syms : List S} {result : Option S}
    (h : Yields compute (Properties.firstVisible syms) result) :
    (result = none ∧ ∀ s ∈ syms, Yields compute (visible (.sym s)) 0) ∨
      ∃ s ∈ syms, result = some s ∧ ¬ Yields compute (visible (.sym s)) 0 := by
  induction syms with
  | nil => exact Or.inl ⟨yields_pure.1 h, nofun⟩
  | cons s syms ih =>
    obtain ⟨vis, hvis, h⟩ := yields_bind.1 h
    split_ifs at h with hzero
    · exact Or.inr ⟨s, List.mem_cons_self, yields_pure.1 h, fun hnone => hzero (hvis.unique hnone)⟩
    · rw [not_not] at hzero
      subst hzero
      rcases ih h with ⟨hnone, hsyms⟩ | ⟨t, ht, hsome⟩
      · exact Or.inl ⟨hnone, List.forall_mem_cons.2 ⟨hvis, hsyms⟩⟩
      · exact Or.inr ⟨t, List.mem_cons_of_mem s ht, hsome⟩

theorem yields_selectionFromDefaults {c : C} {defaults : List (S × Expr S C)} {result : Option S}
    (hdefaults : ∀ default ∈ defaults, default.1 ∈ (kconfig.choice c).syms)
    (h : Yields (kconfig.compute users) (kconfig.selectionFromDefaults users (kconfig.choice c).syms defaults) result) :
    (result = none ∧ ∀ s ∈ (kconfig.choice c).syms, Yields (kconfig.compute users) (visible (.sym s)) 0) ∨
      ∃ s ∈ (kconfig.choice c).syms, result = some s ∧ ¬ Yields (kconfig.compute users) (visible (.sym s)) 0 := by
  induction defaults with
  | nil => exact yields_firstVisible h
  | cons default defaults ih =>
    obtain ⟨hdefault, hrest⟩ := List.forall_mem_cons.1 hdefaults
    obtain ⟨cond, -, h⟩ := yields_bind.1 h
    split_ifs at h
    · exact ih hrest h
    · obtain ⟨vis, hvis, h⟩ := yields_bind.1 h
      split_ifs at h with hzero
      · exact ih hrest h
      · exact Or.inr ⟨default.1, hdefault, yields_pure.1 h, fun hnone => hzero (hvis.unique hnone)⟩

/-- The selection of a choice in y mode: there is one if a symbol is visible, and it is the user's one if
that is visible. -/
theorem yields_selection (hselected : kconfig.Selected users) {c : C} {result : Option S}
    (hdefaults : ∀ default ∈ (kconfig.choice c).defaults, default.1 ∈ (kconfig.choice c).syms)
    (hmode : Yields (kconfig.compute users) (kconfig.mode users c) 2)
    (h : Yields (kconfig.compute users) (Reading.value (.selection c)) result) :
    (result = none ∧ ∀ s ∈ (kconfig.choice c).syms, Yields (kconfig.compute users) (visible (.sym s)) 0) ∨
      ∃ s ∈ (kconfig.choice c).syms, result = some s ∧ ¬ Yields (kconfig.compute users) (visible (.sym s)) 0 ∧
        ∀ u, users.selection c = some u → ¬ Yields (kconfig.compute users) (visible (.sym u)) 0 → s = u := by
  have hselection : Yields (kconfig.compute users) (kconfig.selection users c) result := yields_value.1 h
  unfold Properties.selection at hselection
  obtain ⟨mode, hmode', hselection⟩ := yields_bind.1 hselection
  obtain rfl := hmode.unique hmode'
  rw [if_neg (by decide)] at hselection
  cases huser : users.selection c with
  | none =>
    rw [huser] at hselection
    rcases yields_selectionFromDefaults hdefaults hselection with hnone | ⟨s, hs, hsome, hvis⟩
    · exact Or.inl hnone
    · exact Or.inr ⟨s, hs, hsome, hvis, nofun⟩
  | some u =>
    rw [huser] at hselection
    obtain ⟨vis, hvis, hselection⟩ := yields_bind.1 hselection
    split_ifs at hselection with hzero
    · have hu := kconfig.listed u c (hselected c u huser)
      refine Or.inr ⟨u, hu, yields_pure.1 hselection, fun hnone => hzero (hvis.unique hnone), fun u' hu' _ => ?_⟩
      exact Option.some.inj hu'
    · rw [not_not] at hzero
      subst hzero
      rcases yields_selectionFromDefaults hdefaults hselection with hnone | ⟨s, hs, hsome, hsvis⟩
      · exact Or.inl hnone
      · refine Or.inr ⟨s, hs, hsome, hsvis, fun u' hu' hvisible => ?_⟩
        obtain rfl := Option.some.inj hu'
        exact absurd hvis hvisible

/-! ## Values -/

/-- The value of a symbol in a choice. -/
theorem yields_chosen {s : S} {c : C} {val : Nat} (hchoice : (kconfig.symbol s).choice = some c)
    (hlogical : (kconfig.symbol s).origType.logical = true) (h : Yields (kconfig.compute users) (tri s) val) :
    ∃ vis, Yields (kconfig.compute users) (visible (.sym s)) vis ∧
      (vis = 0 → val = 0) ∧
      (vis = 2 → ∃ selection, Yields (kconfig.compute users) (Reading.value (.selection c)) selection ∧
        val = if selection = some s then 2 else 0) := by
  obtain ⟨written, hwritten, h⟩ := yields_bind.1 h
  rw [yields_pure] at h
  subst h
  have htriValue : Yields (kconfig.compute users) (kconfig.triValue users s) written := yields_value.1 hwritten
  unfold Properties.triValue at htriValue
  cases hpreset : (kconfig.symbol s).preset with
  | some value => exact absurd (defined_of_choice hchoice) (kconfig.constants s (Or.inr (by rw [hpreset]; rfl)))
  | none =>
    rw [hpreset, hlogical, hchoice] at htriValue
    obtain ⟨vis, hvis, hchosen⟩ := yields_bind.1 htriValue
    refine ⟨vis, hvis, ?_, ?_⟩
    · rintro rfl
      rw [yields_pure.1 hchosen]
      rfl
    · rintro rfl
      obtain ⟨selection, hselection, hchosen⟩ := yields_bind.1 hchosen
      exact ⟨selection, hselection, by rw [yields_pure.1 hchosen]⟩

/-- In y mode, either no symbol of a choice is visible and all of them are n, or exactly one symbol is y
and all others are n. It is the selection, and the user's one if that is visible. Its symbols are in no
other choice and of a logical type, and its defaults are among them. -/
theorem choice_exclusive (kconfig : Kconfig S C) (run : List (Operation S C)) (c : C)
    (hdefaults : ∀ default ∈ (kconfig.choice c).defaults, default.1 ∈ (kconfig.choice c).syms)
    (hsyms : ∀ s ∈ (kconfig.choice c).syms,
      (kconfig.symbol s).choice = some c ∧ (kconfig.symbol s).origType.logical = true)
    (hmode : Yields (kconfig.compute (kconfig.after run).users) (kconfig.mode (kconfig.after run).users c) 2)
    (hvalues : ∀ s ∈ (kconfig.choice c).syms, ∃ val, Yields (kconfig.compute (kconfig.after run).users) (tri s) val) :
    (∀ s ∈ (kconfig.choice c).syms, Yields (kconfig.compute (kconfig.after run).users) (visible (.sym s)) 0 ∧
      Yields (kconfig.compute (kconfig.after run).users) (tri s) 0) ∨
    ∃ s ∈ (kconfig.choice c).syms,
      Yields (kconfig.compute (kconfig.after run).users) (Reading.value (.selection c)) (some s) ∧
      (∀ t ∈ (kconfig.choice c).syms,
        Yields (kconfig.compute (kconfig.after run).users) (tri t) (if t = s then 2 else 0)) ∧
      ∀ u, (kconfig.after run).users.selection c = some u →
        ¬ Yields (kconfig.compute (kconfig.after run).users) (visible (.sym u)) 0 → s = u := by
  set users := (kconfig.after run).users
  have hchosen : ∀ s ∈ (kconfig.choice c).syms, ∃ vis val, (vis = 0 ∨ vis = 2) ∧
      Yields (kconfig.compute users) (visible (.sym s)) vis ∧ Yields (kconfig.compute users) (tri s) val ∧
      (vis = 0 → val = 0) ∧ (vis = 2 → ∃ selection,
        Yields (kconfig.compute users) (Reading.value (.selection c)) selection ∧
          val = if selection = some s then 2 else 0) := by
    intro s hs
    obtain ⟨val, hval⟩ := hvalues s hs
    obtain ⟨vis, hvis, h⟩ := yields_chosen (hsyms s hs).1 (hsyms s hs).2 hval
    exact ⟨vis, val, visibility_yMode (hsyms s hs).1 hmode hvis, hvis, hval, h⟩
  by_cases hvisible : ∀ s ∈ (kconfig.choice c).syms, Yields (kconfig.compute users) (visible (.sym s)) 0
  · refine Or.inl fun s hs => ⟨hvisible s hs, ?_⟩
    obtain ⟨vis, val, -, hvis, hval, hzero, -⟩ := hchosen s hs
    exact hzero (hvis.unique (hvisible s hs)) ▸ hval
  · obtain ⟨s₀, hs₀, hvis₀⟩ := not_forall₂.1 hvisible
    obtain ⟨vis, _, hcases, hvis, -, -, htwo⟩ := hchosen s₀ hs₀
    have hvis2 : vis = 2 := hcases.resolve_left fun heq => hvis₀ (heq ▸ hvis)
    obtain ⟨selection, hselection, -⟩ := htwo hvis2
    rcases yields_selection (after_selected kconfig run) hdefaults hmode hselection with
      ⟨-, hnone⟩ | ⟨s, hs, rfl, hsvis, huser⟩
    · exact absurd hnone hvisible
    · refine Or.inr ⟨s, hs, hselection, fun t ht => ?_, huser⟩
      obtain ⟨vis, val, hcases, hvis, hval, hzero, htwo⟩ := hchosen t ht
      rcases hcases with rfl | rfl
      · have hne : t ≠ s := fun heq => hsvis (heq ▸ hvis)
        rw [if_neg hne]
        exact hzero rfl ▸ hval
      · obtain ⟨selection', hselection', rfl⟩ := htwo rfl
        obtain rfl := hselection'.unique hselection
        by_cases heq : t = s
        · subst heq
          rw [if_pos rfl] at hval ⊢
          exact hval
        · rw [if_neg fun hsome => heq (Option.some.inj hsome).symm] at hval
          rw [if_neg heq]
          exact hval

theorem choice_exclusive_small :
    Yields (small.compute (small.after [.setValue 5 (.tri 2)]).users) (tri 5) 2 ∧
      Yields (small.compute (small.after [.setValue 5 (.tri 2)]).users) (tri 4) 0 := by
  have hvisible : Yields (small.compute (small.after [.setValue 5 (.tri 2)]).users) (visible (.sym 5)) 2 :=
    ⟨9, by decide⟩
  rcases choice_exclusive small [.setValue 5 (.tri 2)] 0 (by decide) (by decide) ⟨9, by decide⟩ (fun s hs => by
    rcases List.mem_pair.1 hs with rfl | rfl
    · exact ⟨0, 9, by decide⟩
    · exact ⟨2, 9, by decide⟩) with hnone | ⟨s, -, -, hvalues, huser⟩
  · exact absurd ((hnone 5 (by decide)).1.unique hvisible) (by decide)
  · obtain rfl := huser 5 (by decide) fun hnone => absurd (hnone.unique hvisible) (by decide)
    exact ⟨hvalues 5 (by decide), hvalues 4 (by decide)⟩

end Kconfig

end Refrigerator.Kconfiglib
