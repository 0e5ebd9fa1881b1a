/-
Thawing without freezer capacity: rounds of a frame that thaws the first gib and an exit of the gibs
that think again, until no gib is left.

A round with gibs takes one of them at least: after its frame the first gib thinks at a finite time,
whether the frame wrote that time or found it.
-/
import Refrigerator.Butchering.Basic
import Mathlib.Data.Finset.Sort

namespace Refrigerator.Butchering

open Lib

variable {P : Type*} [LinearOrder P]

/-! ## What a frame writes -/

theorem thawed_spec {engine : Engine} {memory : Memory P} {context : Context P} {e : P}
    (h : thawed engine memory context = some e) :
    fadeoutFreezerCapacity engine = 0 ∧ e ∈ context.gibses ∧ (memory e).v.nextthink.isFinite = false := by
  unfold thawed at h
  split_ifs at h with hc hne
  obtain ⟨hinf, rfl⟩ : (memory (context.gibses.min' hne)).v.nextthink.isFinite = false ∧
      context.gibses.min' hne = e := by simpa using h
  exact ⟨by omega, context.gibses.min'_mem hne, hinf⟩

/-- Without capacity a frame thaws the least of the gibs, if that does not think. -/
theorem thawed_iff {engine : Engine} {memory : Memory P} {context : Context P} {e : P} :
    thawed engine memory context = some e ↔
      fadeoutFreezerCapacity engine = 0 ∧ e ∈ context.gibses ∧ (∀ gib ∈ context.gibses, e ≤ gib) ∧
        (memory e).v.nextthink.isFinite = false := by
  constructor
  · intro h
    obtain ⟨hc, hmem, hinf⟩ := thawed_spec h
    unfold thawed at h
    split_ifs at h with hcapacity hne
    obtain ⟨-, rfl⟩ : (memory (context.gibses.min' hne)).v.nextthink.isFinite = false ∧
        context.gibses.min' hne = e := by simpa using h
    exact ⟨hc, hmem, fun gib hgib => context.gibses.min'_le gib hgib, hinf⟩
  · rintro ⟨hc, hmem, hleast, hinf⟩
    have hmin : context.gibses.min' ⟨e, hmem⟩ = e :=
      le_antisymm (context.gibses.min'_le e hmem) (hleast _ (context.gibses.min'_mem _))
    unfold thawed
    rw [if_neg (by omega), dif_pos ⟨e, hmem⟩]
    dsimp only
    rw [hmin, hinf, if_neg Bool.false_ne_true]

/-- A frame changes the entity it thaws only. -/
theorem thawed_of_changed {engine : Engine} {memory : Memory P} {context : Context P} {x : P}
    (h : onFrame engine memory context x ≠ memory x) : thawed engine memory context = some x := by
  unfold onFrame at h
  cases ht : thawed engine memory context with
  | none => rw [ht] at h; exact absurd rfl h
  | some e =>
    rw [ht] at h
    by_cases hx : x = e
    · rw [hx]
    · exact absurd (Function.update_of_ne hx _ _) h

theorem onFrame_frozen {engine : Engine} {memory : Memory P} {context : Context P}
    (hc : 0 < fadeoutFreezerCapacity engine) : onFrame engine memory context = memory := by
  unfold onFrame thawed
  rw [if_pos hc]

/-- After a frame without capacity the first gib thinks at a finite time. -/
theorem isFinite_first {engine : Engine} {memory : Memory P} {context : Context P}
    (hc : fadeoutFreezerCapacity engine = 0) (hne : context.gibses.Nonempty) :
    (onFrame engine memory context (context.gibses.min' hne)).v.nextthink.isFinite = true := by
  cases hf : (memory (context.gibses.min' hne)).v.nextthink.isFinite with
  | true =>
    -- the frame has left it alone
    by_contra h
    have hchanged : onFrame engine memory context (context.gibses.min' hne) ≠ memory (context.gibses.min' hne) := by
      intro heq; rw [heq] at h; exact h hf
    have hinf := (thawed_spec (thawed_of_changed hchanged)).2.2
    rw [hf] at hinf; cases hinf
  | false =>
    rw [onFrame_nextthink (thawed_eq hc hne hf)]
    exact nearestThinkTime_isFinite engine

/-! ## Rounds -/

/-- The gibs that think at a finite time. -/
def awake (memory : Memory P) (context : Context P) : Finset P :=
  context.gibses.filter fun e => (memory e).v.nextthink.isFinite

/-- A frame, and then the exit of all gibs that think at a finite time. -/
def thawRound (engine : Engine) : Memory P × Context P → Memory P × Context P
  | (memory, context) =>
    let memory := onFrame engine memory context
    (memory, onExit context (awake memory context).sort)

/-- Rounds, each with the engine as it is then. -/
def thawing : Machine (Memory P × Context P) Engine Empty := ⟨fun s engine => (thawRound engine s, [])⟩

theorem mem_thawRound {engine : Engine} {memory : Memory P} {context : Context P} {e : P} :
    e ∈ (thawRound engine (memory, context)).2.gibses ↔
      e ∈ context.gibses ∧ (onFrame engine memory context e).v.nextthink.isFinite = false := by
  unfold thawRound
  rw [mem_onExit]
  simp +contextual [awake]

theorem thawRound_ssubset {engine : Engine} (hc : fadeoutFreezerCapacity engine = 0) {memory : Memory P}
    {context : Context P} (hne : context.gibses.Nonempty) :
    (thawRound engine (memory, context)).2.gibses ⊂ context.gibses := by
  refine (Finset.ssubset_iff_of_subset fun e he => (mem_thawRound.1 he).1).2 ?_
  refine ⟨_, context.gibses.min'_mem hne, fun hmem => ?_⟩
  have hinf := (mem_thawRound.1 hmem).2
  rw [isFinite_first hc hne] at hinf; cases hinf

theorem card_thawRound {engine : Engine} (hc : fadeoutFreezerCapacity engine = 0) (s : Memory P × Context P) :
    (thawRound engine s).2.gibses.card ≤ s.2.gibses.card - 1 := by
  obtain ⟨memory, context⟩ := s
  by_cases hne : context.gibses.Nonempty
  · have hlt : (thawRound engine (memory, context)).2.gibses.card < context.gibses.card :=
      Finset.card_lt_card (thawRound_ssubset hc hne)
    show _ ≤ context.gibses.card - 1
    omega
  · have hempty : context.gibses = ∅ := Finset.not_nonempty_iff_eq_empty.1 hne
    have hround : (thawRound engine (memory, context)).2.gibses = ∅ :=
      Finset.eq_empty_of_forall_notMem fun e he => by simpa [hempty] using (mem_thawRound.1 he).1
    rw [hround]; simp

/-- Without freezer capacity as many rounds as there are gibs leave none, and each takes one at least;
with any capacity a frame changes one entity at most, a gib that did not think at a finite time, and
nothing when there is capacity left. -/
theorem thawing_drains (memory : Memory P) (context : Context P) (engines : List Engine)
    (hc : ∀ engine ∈ engines, fadeoutFreezerCapacity engine = 0) (hn : context.gibses.card ≤ engines.length) :
    (thawing.exec (memory, context) engines).2.gibses = ∅ ∧
      (∀ p engine, p ++ [engine] <+: engines → (thawing.exec (memory, context) p).2.gibses.Nonempty →
        (thawing.exec (memory, context) (p ++ [engine])).2.gibses ⊂ (thawing.exec (memory, context) p).2.gibses) ∧
      ∀ (engine : Engine) (memory : Memory P) (context : Context P),
        (∀ x y, onFrame engine memory context x ≠ memory x → onFrame engine memory context y ≠ memory y → x = y) ∧
        (∀ x, onFrame engine memory context x ≠ memory x →
          x ∈ context.gibses ∧ (memory x).v.nextthink.isFinite = false) ∧
        (0 < fadeoutFreezerCapacity engine → onFrame engine memory context = memory) := by
  have hcard : (thawing.exec (memory, context) engines).2.gibses.card ≤ context.gibses.card - engines.length :=
    thawing.exec_drains (f := fun s : Memory P × Context P => s.2.gibses.card)
      (fun s _ hengine => card_thawRound hengine s) (memory, context) engines hc
  refine ⟨Finset.card_eq_zero.1 (by omega), fun p engine hp hne => ?_, fun engine memory context => ?_⟩
  · rw [thawing.exec_snoc]
    exact thawRound_ssubset (hc engine (hp.subset (by simp))) hne
  · refine ⟨fun x y hx hy => ?_, fun x hx => (thawed_spec (thawed_of_changed hx)).2, onFrame_frozen⟩
    exact Option.some.inj ((thawed_of_changed hx).symm.trans (thawed_of_changed hy))

/-- Two gibs of which the first thinks already are gone after two rounds. -/
theorem thawing_drains_two :
    let memory : Memory Nat := fun e => if e = 2 then { v := { nextthink := .infinity } } else {}
    (thawing.exec (memory, { gibses := {1, 2} }) [{}, {}]).2.gibses = ∅ :=
  (thawing_drains _ _ _ (by decide) (by decide)).1

end Refrigerator.Butchering
