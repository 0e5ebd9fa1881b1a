/-
The cached values of the configuration are right: whatever has been set, in whatever order, and whatever
has been asked for in between, what is found from the cached values is what is computed afresh from what
has been set (`cached_exact`).

The invalidation goes through the dependents as far as it finds cached values. `Clears` says what it
leaves; that it need not go further is because the first thing that a value reads is the visibility of its
item (`inert_of_not_flagged`).
-/
import Refrigerator.Kconfiglib.Reads

namespace Refrigerator.Kconfiglib

open Lib

variable {S C : Type} [DecidableEq S] [DecidableEq C]

namespace Kconfig

variable {kconfig : Kconfig S C}

/-! ## Invalidation -/

/-- The values of the items in `D` are no longer cached, and nothing that has cached values depends on one
of them. -/
structure Clears (kconfig : Kconfig S C) (D : Item S C → Prop) (cache cache' : Cache (Node.Value (S := S) (C := C))) :
    Prop where
  dropped : ∀ node, D node.item → cache' node = none
  kept : ∀ node, ¬ D node.item → cache' node = cache node
  defined : ∀ item, D item → kconfig.defines item = true
  dependents : ∀ item, D item → ∀ other ∈ kconfig.dependents item, flagged cache' other = false
  modules : D (.sym kconfig.modules) → ∀ item, kconfig.defines item = true → D item

variable {D D' : Item S C → Prop} {cache cache' cache'' : Cache (Node.Value (S := S) (C := C))}

theorem Clears.refl (cache : Cache (Node.Value (S := S) (C := C))) : kconfig.Clears (fun _ => False) cache cache :=
  ⟨nofun, fun _ _ => rfl, nofun, nofun, nofun⟩

theorem Clears.grows (h : kconfig.Clears D cache cache') : cache'.Grows cache := by
  intro node a ha
  by_cases hD : D node.item
  · rw [h.dropped node hD] at ha; cases ha
  · rw [← h.kept node hD]; exact ha

omit [DecidableEq S] [DecidableEq C] in
theorem flagged_of_grows (h : cache'.Grows cache) {item : Item S C} (hflag : flagged cache' item = true) :
    flagged cache item = true := by
  obtain ⟨vis, hvis⟩ := Option.isSome_iff_exists.1 hflag
  exact Option.isSome_iff_exists.2 ⟨vis, h _ vis hvis⟩

omit [DecidableEq S] [DecidableEq C] in
theorem not_flagged_of_grows (h : cache'.Grows cache) {item : Item S C} (hflag : flagged cache item = false) :
    flagged cache' item = false := by
  rw [← Bool.not_eq_true] at hflag ⊢
  exact fun hflag' => hflag (flagged_of_grows h hflag')

theorem Clears.trans (h : kconfig.Clears D cache cache') (h' : kconfig.Clears D' cache' cache'') :
    kconfig.Clears (fun item => D item ∨ D' item) cache cache'' where
  dropped node hD := by
    by_cases hD' : D' node.item
    · exact h'.dropped node hD'
    · rw [h'.kept node hD']
      exact h.dropped node (hD.resolve_right hD')
  kept node hD := by
    obtain ⟨hD, hD'⟩ := not_or.1 hD
    rw [h'.kept node hD', h.kept node hD]
  defined item hD := hD.elim (h.defined item) (h'.defined item)
  dependents item hD other hother := by
    rcases hD with hD | hD
    · exact not_flagged_of_grows h'.grows (h.dependents item hD other hother)
    · exact h'.dependents item hD other hother
  modules hD item hitem := hD.imp (fun hD => h.modules hD item hitem) fun hD => h'.modules hD item hitem

theorem mem_items {item : Item S C} : item ∈ kconfig.items ↔ kconfig.defines item = true := by
  cases item <;> simp [items, defines]

theorem defines_dependent {item other : Item S C} (h : other ∈ kconfig.dependents item) :
    kconfig.defines other = true := by
  cases other with
  | sym s => exact decide_eq_true ((kconfig.mem_dependents_sym s item).1 h).1
  | choice c => exact defines_choice c

/-- The items that have cached values. -/
def pending (kconfig : Kconfig S C) (cache : Cache (Node.Value (S := S) (C := C))) : Nat :=
  kconfig.items.countP (flagged cache)

theorem pending_mono (h : cache'.Grows cache) : kconfig.pending cache' ≤ kconfig.pending cache :=
  List.countP_mono_left fun _ _ => flagged_of_grows h

theorem invalidate_grows (item : Item S C) : (invalidate cache item).Grows cache :=
  fun _ _ ha => (Cache.clear_eq_some.1 ha).2

theorem invalidate_self {node : Node S C} : invalidate cache node.item node = none := if_pos rfl

theorem invalidate_of_ne {node : Node S C} {item : Item S C} (h : node.item ≠ item) :
    invalidate cache item node = cache node := if_neg h

/-- An item that has cached values is counted no more when it is invalidated. -/
theorem pending_invalidate {item : Item S C} (hitem : kconfig.defines item = true) (h : flagged cache item = true) :
    kconfig.pending (invalidate cache item) < kconfig.pending cache := by
  obtain ⟨before, after, hsplit⟩ := List.append_of_mem (mem_items.2 hitem)
  have hself : flagged (invalidate cache item) item = false := by
    have hnone : invalidate cache item (.visibility item) = none := invalidate_self
    exact congrArg Option.isSome hnone
  have hmono (list : List (Item S C)) : list.countP (flagged (invalidate cache item)) ≤ list.countP (flagged cache) :=
    List.countP_mono_left fun _ _ => flagged_of_grows (invalidate_grows item)
  unfold pending
  rw [hsplit, List.countP_append, List.countP_append, List.countP_cons_of_neg (by simp [hself]),
    List.countP_cons_of_pos h]
  have hbefore := hmono before
  have hafter := hmono after
  omega

/-- The dependents, one after the other: if each of them is invalidated as it should be, none of them has
cached values in the end. -/
theorem foldl_clears {depth : Nat}
    (ih : ∀ cache item, kconfig.defines item = true → kconfig.pending (invalidate cache item) < depth →
      ∃ D, D item ∧ kconfig.Clears D cache (kconfig.recInvalidate depth cache item))
    (others : List (Item S C)) (hothers : ∀ other ∈ others, kconfig.defines other = true)
    (hdepth : kconfig.pending cache ≤ depth) :
    ∃ D, kconfig.Clears D cache (others.foldl
        (fun cache other => if flagged cache other then kconfig.recInvalidate depth cache other else cache) cache) ∧
      ∀ other ∈ others, flagged (others.foldl
        (fun cache other => if flagged cache other then kconfig.recInvalidate depth cache other else cache) cache)
          other = false := by
  induction others generalizing cache with
  | nil => exact ⟨_, Clears.refl cache, nofun⟩
  | cons other others ihothers =>
    obtain ⟨hother, hrest⟩ := List.forall_mem_cons.1 hothers
    rw [List.foldl_cons]
    cases hflag : flagged cache other with
    | false =>
      rw [if_neg Bool.false_ne_true]
      obtain ⟨D, hclears, hnone⟩ := ihothers hrest hdepth
      exact ⟨D, hclears, List.forall_mem_cons.2 ⟨not_flagged_of_grows hclears.grows hflag, hnone⟩⟩
    | true =>
      rw [if_pos rfl]
      have hless := pending_invalidate hother hflag
      obtain ⟨D, hD, hclears⟩ := ih cache other hother (by omega)
      obtain ⟨D', hclears', hnone⟩ := ihothers hrest ((pending_mono hclears.grows).trans hdepth)
      refine ⟨_, hclears.trans hclears', List.forall_mem_cons.2 ⟨?_, hnone⟩⟩
      have hdropped := hclears.dropped (.visibility other) hD
      exact not_flagged_of_grows hclears'.grows (congrArg Option.isSome hdropped)

theorem recInvalidate_clears (depth : Nat) (cache : Cache (Node.Value (S := S) (C := C))) (item : Item S C)
    (hitem : kconfig.defines item = true) (hdepth : kconfig.pending (invalidate cache item) < depth) :
    ∃ D, D item ∧ kconfig.Clears D cache (kconfig.recInvalidate depth cache item) := by
  induction depth generalizing cache item with
  | zero => omega
  | succ depth ih =>
    rw [recInvalidate]
    by_cases hmodules : item = .sym kconfig.modules
    · rw [if_pos hmodules]
      refine ⟨fun item => kconfig.defines item = true, hitem, ?_⟩
      refine ⟨fun _ hnode => if_pos hnode, fun _ hnode => if_neg hnode, fun _ => id, fun item hD other hother => ?_,
        fun _ _ => id⟩
      exact congrArg Option.isSome (if_pos (defines_dependent hother) :
        kconfig.invalidateAll cache (.visibility other) = none)
    · rw [if_neg hmodules]
      obtain ⟨D, hclears, hnone⟩ :=
        foldl_clears ih (kconfig.dependents item) (fun _ => defines_dependent) (Nat.lt_succ_iff.1 hdepth)
      refine ⟨fun other => other = item ∨ D other, Or.inl rfl, ?_, ?_, ?_, ?_, ?_⟩
      · intro node hnode
        by_cases hD : D node.item
        · exact hclears.dropped node hD
        · rw [hclears.kept node hD, ← hnode.resolve_right hD, invalidate_self]
      · intro node hnode
        obtain ⟨hne, hD⟩ := not_or.1 hnode
        rw [hclears.kept node hD, invalidate_of_ne hne]
      · rintro other (rfl | hD)
        · exact hitem
        · exact hclears.defined other hD
      · rintro other (rfl | hD)
        · exact hnone
        · exact hclears.dependents other hD
      · rintro (heq | hD) other hother
        · exact absurd heq.symm hmodules
        · exact Or.inr (hclears.modules hD other hother)

/-- What `_rec_invalidate` leaves; it always comes to an end. -/
theorem cleared_clears (cache : Cache (Node.Value (S := S) (C := C))) {item : Item S C}
    (hitem : kconfig.defines item = true) : ∃ D, D item ∧ kconfig.Clears D cache (kconfig.cleared cache item) :=
  recInvalidate_clears _ cache item hitem (Nat.lt_succ_iff.2 List.countP_le_length)

/-! ## What is cached -/

variable {users users' : Users S C}

theorem visibility_unprompted {s : S} {answer : ∀ node : Node S C, Option node.Value} {vis : Nat}
    (hprompts : (kconfig.symbol s).prompts = [])
    (h : (kconfig.visibility users (.sym s)).answered answer = some vis) : vis = 0 := by
  have hpromote (type : Eval S C Kind) : Properties.promote 0 type = pure 0 := rfl
  unfold Properties.visibility at h
  dsimp only at h
  rw [hprompts] at h
  obtain ⟨vis', h0, h⟩ := Reading.answered_bind_some h
  obtain rfl : 0 = vis' := Option.some.inj h0
  rw [hpromote] at h
  cases hchoice : (kconfig.symbol s).choice with
  | none =>
    rw [hchoice] at h
    exact (Option.some.inj h).symm
  | some c =>
    rw [hchoice] at h
    dsimp only at h
    split_ifs at h
    · obtain ⟨mode, -, h⟩ := Reading.answered_bind_some h
      rw [ite_self] at h
      exact (Option.some.inj h).symm
    · obtain ⟨mode, -, h⟩ := Reading.answered_bind_some h
      rw [ite_self] at h
      exact (Option.some.inj h).symm
    · exact (Option.some.inj h).symm

/-- Cached values are possible ones. -/
theorem possible_of_valid (hvalid : Valid (kconfig.compute users) cache) (node : Node S C) (a : node.Value)
    (ha : cache node = some a) : kconfig.Possible node a := by
  cases node with
  | visibility item =>
    cases item with
    | sym s => exact fun hprompts => visibility_unprompted hprompts (hvalid.answered ha)
    | choice c => trivial
  | _ => trivial

omit [DecidableEq S] [DecidableEq C] in
/-- The visibility has been asked for first. -/
theorem flagged_of_visible {R : Type} {item : Item S C} {after : Nat → Eval S C R} {result : R}
    (h : (visible item >>= after).answered cache = some result) : flagged cache item = true := by
  obtain ⟨vis, hvis, -⟩ := Reading.answered_bind_some h
  have hcached : cache (.visibility item) = some vis := (Reading.answered_value _).symm.trans hvis
  exact Option.isSome_iff_exists.2 ⟨vis, hcached⟩

/-- The tristate value is cached together with the visibility, except for a symbol that has none. -/
theorem flagged_of_triValue (hvalid : Valid (kconfig.compute users) cache) {s : S} {a : Written Nat}
    (ha : cache (.triValue s) = some a) (hs : s ∈ kconfig.definedSyms)
    (hlogical : (kconfig.symbol s).origType.logical = true) : flagged cache (.sym s) = true := by
  have hanswered : (kconfig.triValue users s).answered cache = some a := hvalid.answered ha
  unfold Properties.triValue at hanswered
  cases hpreset : (kconfig.symbol s).preset with
  | none =>
    rw [hpreset, hlogical] at hanswered
    exact flagged_of_visible hanswered
  | some value => exact absurd hs (kconfig.constants s (Or.inr (by rw [hpreset]; rfl)))

/-- Cached values of an item without a cached visibility are computed from nothing. -/
theorem inert_of_not_flagged (hvalid : Valid (kconfig.compute users) cache) {node : Node S C} {a : node.Value}
    (ha : cache node = some a) (hdefined : kconfig.defines node.item = true)
    (hflag : flagged cache node.item = false) : ∃ r, ∀ users', kconfig.compute users' node = .done r := by
  have hanswered := hvalid.answered ha
  have hnot : ¬ flagged cache node.item = true := by rw [hflag]; decide
  cases node with
  | visibility item => exact absurd (Option.isSome_iff_exists.2 ⟨a, ha⟩) hnot
  | triValue s =>
    have hs : s ∈ kconfig.definedSyms := of_decide_eq_true hdefined
    cases hlogical : (kconfig.symbol s).origType.logical with
    | true => exact absurd (flagged_of_triValue hvalid ha hs hlogical) hnot
    | false =>
      cases hpreset : (kconfig.symbol s).preset with
      | none =>
        refine ⟨⟨0, false⟩, fun users' => ?_⟩
        show kconfig.triValue users' s = _
        unfold Properties.triValue
        rw [hpreset, hlogical]
        rfl
      | some value => exact absurd hs (kconfig.constants s (Or.inr (by rw [hpreset]; rfl)))
  | strValue s =>
    have hs : s ∈ kconfig.definedSyms := of_decide_eq_true hdefined
    have hanswered : (kconfig.strValue users s).answered cache = some a := hvalid.answered ha
    have hlogical (h : Reading.answered cache (do
          let b ← (Reading.value (Node.triValue s) : Eval S C _)
          pure ⟨triToStr b.value, b.writeToConf⟩) = some a)
        (hkind : (kconfig.symbol s).origType.logical = true) : flagged cache (.sym s) = true := by
      obtain ⟨b, hb, -⟩ := Reading.answered_bind_some h
      exact flagged_of_triValue hvalid ((Reading.answered_value _).symm.trans hb) hs hkind
    unfold Properties.strValue at hanswered
    cases hkind : (kconfig.symbol s).origType with
    | unknown =>
      refine ⟨⟨(kconfig.symbol s).name, false⟩, fun users' => ?_⟩
      show kconfig.strValue users' s = _
      unfold Properties.strValue
      rw [hkind]
      rfl
    | bool => rw [hkind] at hanswered; exact absurd (hlogical hanswered (by rw [hkind]; rfl)) hnot
    | tristate => rw [hkind] at hanswered; exact absurd (hlogical hanswered (by rw [hkind]; rfl)) hnot
    | string => rw [hkind] at hanswered; exact absurd (flagged_of_visible hanswered) hnot
    | int => rw [hkind] at hanswered; exact absurd (flagged_of_visible hanswered) hnot
    | hex => rw [hkind] at hanswered; exact absurd (flagged_of_visible hanswered) hnot
  | selection c =>
    have hanswered : (kconfig.selection users c).answered cache = some a := hvalid.answered ha
    obtain ⟨mode, hmode, -⟩ := Reading.answered_bind_some hanswered
    exact absurd (flagged_of_visible hmode) hnot
  | assignable item =>
    cases item with
    | sym s =>
      have hanswered : (kconfig.assignableValues users s).answered cache = some a := hvalid.answered ha
      unfold Properties.assignableValues at hanswered
      cases hlogical : (kconfig.symbol s).origType.logical with
      | true => rw [hlogical] at hanswered; exact absurd (flagged_of_visible hanswered) hnot
      | false =>
        refine ⟨[], fun users' => ?_⟩
        show kconfig.assignableValues users' s = _
        unfold Properties.assignableValues
        rw [hlogical]
        rfl
    | choice c =>
      have hanswered : (kconfig.assignableModes c).answered cache = some a := hvalid.answered ha
      exact absurd (flagged_of_visible hanswered) hnot

/-! ## What stays -/

/-- After an invalidation the cache is valid for what has been set, if what stays has not been affected by
it: the user values that it reads are the same, or it depends on an item that has been cleared. -/
theorem valid_of_clears (hlinked : kconfig.Linked) (hvalid : Valid (kconfig.compute users) cache)
    (hselected : kconfig.Selected users) (hclears : kconfig.Clears D cache cache')
    (hagrees : ∀ item, ¬ D item →
      kconfig.Agrees item users users' ∨ ∃ other, D other ∧ item ∈ kconfig.dependents other) :
    Valid (kconfig.compute users') cache' := by
  have hkept : ∀ node a, cache' node = some a → ¬ D node.item := by
    intro node a ha hD
    rw [hclears.dropped node hD] at ha
    cases ha
  -- what stays and depends on an item that has been cleared has read nothing
  have hinert : ∀ node a, cache' node = some a → ∀ other, D other → node.item ∈ kconfig.dependents other →
      ∃ r, ∀ users', kconfig.compute users' node = .done r := by
    intro node a ha other hother hnode
    have hflag := hclears.dependents other hother node.item hnode
    rw [flagged, hclears.kept (.visibility node.item) (hkept node a ha)] at hflag
    exact inert_of_not_flagged hvalid (hclears.grows node a ha) (defines_dependent hnode) hflag
  refine hvalid.restrict hclears.grows (V := kconfig.Possible) (S := fun node => kconfig.Sees node.item)
    (possible_of_valid hvalid) ?_ ?_
  · intro node a ha
    rcases hagrees node.item (hkept node a ha) with h | ⟨other, hother, hnode⟩
    · exact compute_alike hlinked hselected node h
    · obtain ⟨r, hr⟩ := hinert node a ha other hother hnode
      rw [hr, hr]
      exact .done r
  · intro node a ha m hm hsees
    refine hclears.kept m fun hD => ?_
    rcases hsees with (heq | ⟨-, hnode | hconstant⟩) | ⟨hdefined, rfl⟩
    · exact hkept node a ha (heq ▸ hD)
    · obtain ⟨r, hr⟩ := hinert node a ha m.item hD hnode
      rw [hr] at hm
      cases hm
    · cases hitem : m.item with
      | sym s =>
        rw [hitem] at hD hconstant
        exact kconfig.constants s (Or.inl hconstant) (of_decide_eq_true (hclears.defined _ hD))
      | choice c => rw [hitem] at hconstant; cases hconstant
    · exact hkept node a ha (hclears.modules hD node.item hdefined)

/-- What is set for a choice and the symbols in it. -/
theorem valid_cleared_choice (hlinked : kconfig.Linked) (hvalid : Valid (kconfig.compute users) cache)
    (hselected : kconfig.Selected users) {c : C} (hmode : ∀ c' ≠ c, users.mode c' = users'.mode c')
    (hselection : ∀ c' ≠ c, users.selection c' = users'.selection c')
    (hvalue : ∀ s, (kconfig.symbol s).choice ≠ some c → users.value s = users'.value s) :
    Valid (kconfig.compute users') (kconfig.cleared cache (.choice c)) := by
  have hdefined : kconfig.defines (.choice c) = true := defines_choice c
  obtain ⟨D, hD, hclears⟩ := cleared_clears cache hdefined
  refine valid_of_clears hlinked hvalid hselected hclears fun item hitem => ?_
  by_cases hdependent : item ∈ kconfig.dependents (.choice c)
  · exact Or.inr ⟨_, hD, hdependent⟩
  refine Or.inl ⟨⟨fun c' hc' => hmode c' ?_, fun c' hc' => hselection c' ?_⟩, fun s hs _ => hvalue s fun hchoice => ?_⟩
  · rintro rfl
    rcases hc' with rfl | ⟨-, h | h⟩
    · exact hitem hD
    · exact hdependent h
    · cases h
  · rintro rfl
    exact hitem (hc' ▸ hD)
  · rw [hs] at hdependent
    exact hdependent (hlinked.propagated s c hchoice)

/-- The user value of a symbol is set. Without a prompt it makes no difference. -/
theorem valid_clearedIfPrompt (hlinked : kconfig.Linked) (hvalid : Valid (kconfig.compute users) cache)
    (hselected : kconfig.Selected users) (s : S) (value : Option Assigned) :
    Valid (kconfig.compute { users with value := Function.update users.value s value })
      (kconfig.clearedIfPrompt cache s) := by
  unfold clearedIfPrompt
  by_cases hprompts : (kconfig.symbol s).prompts = []
  · rw [if_pos hprompts]
    refine valid_of_clears hlinked hvalid hselected (Clears.refl cache) fun item _ =>
      Or.inl ⟨⟨fun _ _ => rfl, fun _ _ => rfl⟩, ?_⟩
    intro other _ hother
    have hne : other ≠ s := fun heq => hother (heq ▸ hprompts)
    exact (Function.update_of_ne hne _ _).symm
  · rw [if_neg hprompts]
    have hdefined : kconfig.defines (.sym s) = true := by
      refine decide_eq_true ?_
      by_contra hs
      exact hprompts (kconfig.undefined s hs).1
    obtain ⟨D, hD, hclears⟩ := cleared_clears cache hdefined
    refine valid_of_clears hlinked hvalid hselected hclears fun item hitem =>
      Or.inl ⟨⟨fun _ _ => rfl, fun _ _ => rfl⟩, ?_⟩
    intro other hother _
    have hne : other ≠ s := by
      rintro rfl
      exact hitem (hother ▸ hD)
    exact (Function.update_of_ne hne _ _).symm

/-! ## Runs -/

section Selections

variable {state : State S C}

/-- The user's selection in one choice is set. -/
theorem Selected.update (h : kconfig.Selected users) {c : C} {selection : Option S}
    (hselection : ∀ s, selection = some s → (kconfig.symbol s).choice = some c) :
    kconfig.Selected { users with selection := Function.update users.selection c selection } := by
  intro c' s hs
  dsimp only at hs
  by_cases hc : c' = c
  · subst hc
    rw [Function.update_self] at hs
    exact hselection s hs
  · rw [Function.update_of_ne hc] at hs
    exact h c' s hs

theorem setValue_selected (h : kconfig.Selected state.users) (s : S) (value : Assigned) :
    kconfig.Selected (kconfig.setValue state s value).users := by
  unfold setValue
  dsimp only
  generalize (if (kconfig.symbol s).origType.logical = true then strToTri value else value) = value
  cases hchoice : (kconfig.symbol s).choice with
  | none =>
    dsimp only
    split_ifs <;> exact h
  | some c =>
    rw [if_neg fun heq => nomatch heq.2]
    dsimp only
    split_ifs
    · exact h
    · have hvalue : kconfig.Selected { state.users with value := Function.update state.users.value s (some value) } := h
      refine hvalue.update fun s' hs' => ?_
      cases hs'
      exact hchoice
    · exact h

theorem query_users (state : State S C) (depth : Nat) (node : Node S C) :
    (kconfig.query state depth node).users = state.users := by
  unfold query
  cases evaluate (kconfig.compute state.users) depth node state.cache <;> rfl

theorem step_selected (h : kconfig.Selected state.users) (operation : Operation S C) :
    kconfig.Selected (kconfig.step state operation).users := by
  cases operation with
  | setValue s value => exact setValue_selected h s value
  | unsetValue s =>
    show kconfig.Selected (kconfig.unsetValue state s).users
    unfold unsetValue
    split_ifs <;> exact h
  | setMode c value =>
    show kconfig.Selected (kconfig.setMode state c value).users
    unfold setMode
    cases strToTri value with
    | text _ => exact h
    | tri value =>
      dsimp only
      split_ifs <;> exact h
  | unsetMode c =>
    show kconfig.Selected (kconfig.unsetMode state c).users
    unfold unsetMode
    split_ifs
    · exact h
    · have hmode : kconfig.Selected { state.users with mode := Function.update state.users.mode c none } := h
      exact hmode.update nofun
  | query depth node =>
    show kconfig.Selected (kconfig.query state depth node).users
    rw [query_users]
    exact h

theorem after_selected (kconfig : Kconfig S C) (run : List (Operation S C)) :
    kconfig.Selected (kconfig.after run).users := by
  have hstep (state : State S C) (operation : Operation S C) (h : kconfig.Selected state.users) :
      kconfig.Selected (kconfig.machine.next state operation).users := step_selected h operation
  exact kconfig.machine.exec_invariant (I := fun state => kconfig.Selected state.users) hstep {} run nofun

end Selections

structure Coherent (kconfig : Kconfig S C) (state : State S C) : Prop where
  valid : Valid (kconfig.compute state.users) state.cache
  selected : kconfig.Selected state.users

section Coherence

variable {state : State S C} (hlinked : kconfig.Linked) (h : kconfig.Coherent state)
include hlinked h

theorem setValue_valid (s : S) (value : Assigned) :
    Valid (kconfig.compute (kconfig.setValue state s value).users) (kconfig.setValue state s value).cache := by
  unfold setValue
  dsimp only
  generalize (if (kconfig.symbol s).origType.logical = true then strToTri value else value) = value
  have hvalue := valid_clearedIfPrompt hlinked h.valid h.selected s (some value)
  cases hchoice : (kconfig.symbol s).choice with
  | none =>
    dsimp only
    split_ifs
    · exact h.valid
    · exact h.valid
    · exact hvalue
  | some c =>
    rw [if_neg fun heq => nomatch heq.2]
    dsimp only
    split_ifs
    · exact h.valid
    · refine valid_cleared_choice hlinked h.valid h.selected (fun _ _ => rfl) (fun c' hc' => ?_) fun s' hs' => ?_
      · exact (Function.update_of_ne hc' _ _).symm
      · have hne : s' ≠ s := fun heq => hs' (heq ▸ hchoice)
        exact (Function.update_of_ne hne _ _).symm
    · exact hvalue

theorem unsetValue_valid (s : S) :
    Valid (kconfig.compute (kconfig.unsetValue state s).users) (kconfig.unsetValue state s).cache := by
  unfold unsetValue
  split_ifs
  · exact h.valid
  · exact valid_clearedIfPrompt hlinked h.valid h.selected s none

theorem setMode_valid (c : C) (value : Assigned) :
    Valid (kconfig.compute (kconfig.setMode state c value).users) (kconfig.setMode state c value).cache := by
  unfold setMode
  cases strToTri value with
  | text _ => exact h.valid
  | tri value =>
    dsimp only
    split_ifs
    · exact h.valid
    · exact h.valid
    · refine valid_cleared_choice hlinked h.valid h.selected (fun c' hc' => ?_) (fun _ _ => rfl) fun _ _ => rfl
      exact (Function.update_of_ne hc' _ _).symm

theorem unsetMode_valid (c : C) :
    Valid (kconfig.compute (kconfig.unsetMode state c).users) (kconfig.unsetMode state c).cache := by
  unfold unsetMode
  split_ifs
  · exact h.valid
  · refine valid_cleared_choice hlinked h.valid h.selected (fun c' hc' => ?_) (fun c' hc' => ?_) fun _ _ => rfl
    · exact (Function.update_of_ne hc' _ _).symm
    · exact (Function.update_of_ne hc' _ _).symm

omit hlinked in
theorem query_valid (depth : Nat) (node : Node S C) :
    Valid (kconfig.compute (kconfig.query state depth node).users) (kconfig.query state depth node).cache := by
  unfold query
  cases hquery : evaluate (kconfig.compute state.users) depth node state.cache with
  | none => exact h.valid
  | some pair =>
    obtain ⟨a, cache⟩ := pair
    exact (evaluate_valid depth h.valid hquery).valid

theorem step_coherent (operation : Operation S C) : kconfig.Coherent (kconfig.step state operation) := by
  refine ⟨?_, step_selected h.selected operation⟩
  cases operation with
  | setValue s value => exact setValue_valid hlinked h s value
  | unsetValue s => exact unsetValue_valid hlinked h s
  | setMode c value => exact setMode_valid hlinked h c value
  | unsetMode c => exact unsetMode_valid hlinked h c
  | query depth node => exact query_valid h depth node

end Coherence

theorem after_coherent (hlinked : kconfig.Linked) (run : List (Operation S C)) :
    kconfig.Coherent (kconfig.after run) := by
  have hempty : kconfig.Coherent {} := ⟨valid_empty, nofun⟩
  have hstep (state : State S C) (operation : Operation S C) (h : kconfig.Coherent state) :
      kconfig.Coherent (kconfig.machine.next state operation) := step_coherent hlinked h operation
  exact kconfig.machine.exec_invariant hstep {} run hempty

/-! ## Queries in between -/

/-- The operation is no query. -/
def Operation.assigns : Operation S C → Bool
  | .query _ _ => false
  | _ => true

/-- What is set does not depend on what is cached. -/
theorem step_users {state state' : State S C} (h : state.users = state'.users) (operation : Operation S C) :
    (kconfig.step state operation).users = (kconfig.step state' operation).users := by
  obtain ⟨users, cache⟩ := state
  obtain ⟨users', cache'⟩ := state'
  obtain rfl : users = users' := h
  cases operation with
  | setValue s value =>
    show (kconfig.setValue _ s value).users = (kconfig.setValue _ s value).users
    unfold setValue
    cases (kconfig.symbol s).choice <;> dsimp only <;> split_ifs <;> rfl
  | unsetValue s =>
    show (kconfig.unsetValue _ s).users = (kconfig.unsetValue _ s).users
    unfold unsetValue
    dsimp only
    split_ifs <;> rfl
  | setMode c value =>
    show (kconfig.setMode _ c value).users = (kconfig.setMode _ c value).users
    unfold setMode
    cases strToTri value with
    | text _ => rfl
    | tri value =>
      dsimp only
      split_ifs <;> rfl
  | unsetMode c =>
    show (kconfig.unsetMode _ c).users = (kconfig.unsetMode _ c).users
    unfold unsetMode
    dsimp only
    split_ifs <;> rfl
  | query depth node =>
    show (kconfig.query _ depth node).users = (kconfig.query _ depth node).users
    rw [query_users, query_users]

theorem after_users (kconfig : Kconfig S C) (run : List (Operation S C)) :
    (kconfig.after run).users = (kconfig.after (run.filter Operation.assigns)).users := by
  induction run using List.reverseRecOn with
  | nil => rfl
  | append_singleton run operation ih =>
    rw [List.filter_append, after, after, Machine.exec_snoc]
    cases hassigns : operation.assigns with
    | true =>
      rw [List.filter_cons_of_pos hassigns, List.filter_nil, Machine.exec_snoc]
      exact step_users ih operation
    | false =>
      rw [List.filter_cons_of_neg (by rw [hassigns]; decide), List.filter_nil, List.append_nil]
      cases operation with
      | query depth node => exact (query_users _ depth node).trans ih
      | _ => cases hassigns

/-- After any run, a computation has the results, from the cached values, that it has from values computed
afresh from what has been set. What has been asked for before makes no difference. -/
theorem cached_exact {R : Type} (kconfig : Kconfig S C) (hlinked : kconfig.Linked) (run : List (Operation S C))
    (p : Eval S C R) (result : R) :
    (∃ depth cache, p.visit (evaluate (kconfig.compute (kconfig.after run).users) depth) (kconfig.after run).cache =
        some (result, cache)) ↔
      Yields (kconfig.compute (kconfig.after (run.filter Operation.assigns)).users) p result := by
  rw [← after_users]
  exact visit_iff_yields (after_coherent hlinked run).valid

theorem cached_exact_small :
    let state := small.after [.query 9 (.selection 0), .setValue 5 (.tri 2)]
    ∃ depth cache, (tri 5).visit (evaluate (small.compute state.users) depth) state.cache = some (2, cache) :=
  (cached_exact small small_linked [.query 9 (.selection 0), .setValue 5 (.tri 2)] (tri 5) 2).2 ⟨9, by decide⟩

end Kconfig

end Refrigerator.Kconfiglib
