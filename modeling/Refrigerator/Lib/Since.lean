/-
Conditions on the past of a run: some inputs start them, others stop them, and they hold since the last
start (`Since`). A cell holds what was written last since it was last set to its base, or that base
(`Holds`).

Inputs are judged together with the run before them. What one more input does decides both: a condition
with the step of `since_snoc_iff` is that one (`iff_since`), and likewise for a cell (`holds_of_step`).
-/
import Refrigerator.Lib.Machine

namespace Refrigerator.Lib

variable {A V : Type*}

/-! ## Since a start -/

/-- Some input starts, and no later one stops. -/
def Since (starts stops : List A → A → Prop) (run : List A) : Prop :=
  ∃ p a q, run = p ++ a :: q ∧ starts p a ∧ ∀ p' b, p' ++ [b] <+: q → ¬ stops (p ++ a :: p') b

section Since

variable {starts stops : List A → A → Prop} {run : List A} {a : A}

theorem not_since_nil : ¬ Since starts stops [] := by
  rintro ⟨p, a, q, h, -⟩
  simp at h

/-- One more input starts, or it does not stop. -/
theorem since_snoc_iff : Since starts stops (run ++ [a]) ↔ starts run a ∨ (Since starts stops run ∧ ¬ stops run a) := by
  constructor
  · rintro ⟨p, b, q, h, hstart, hstop⟩
    rcases q.eq_nil_or_concat with rfl | ⟨q, c, rfl⟩
    · obtain ⟨rfl, hb⟩ := List.append_inj' h rfl
      cases hb; exact Or.inl hstart
    · rw [List.concat_eq_append, ← List.cons_append, ← List.append_assoc] at h
      obtain ⟨rfl, hc⟩ := List.append_inj' h rfl
      cases hc
      rw [List.concat_eq_append] at hstop
      obtain ⟨hq, hlast⟩ := Machine.forall_step_snoc.1 hstop
      exact Or.inr ⟨⟨p, b, q, rfl, hstart, hq⟩, hlast⟩
  · rintro (hstart | ⟨⟨p, b, q, rfl, hstart, hstop⟩, hlast⟩)
    · exact ⟨run, a, [], rfl, hstart, fun p' b h => by simp at h⟩
    · exact ⟨p, b, q ++ [a], by simp, hstart, Machine.forall_step_snoc.2 ⟨hstop, hlast⟩⟩

/-- A condition that is false at first and goes on as `Since` does. -/
theorem iff_since {I : List A → Prop} (hnil : ¬ I [])
    (hsnoc : ∀ run a, I (run ++ [a]) ↔ starts run a ∨ (I run ∧ ¬ stops run a)) (run : List A) :
    I run ↔ Since starts stops run := by
  induction run using List.reverseRecOn with
  | nil => exact iff_of_false hnil not_since_nil
  | append_singleton run a ih => rw [hsnoc, since_snoc_iff, ih]

end Since

/-! ## The last value -/

/-- `v` has been written, and nothing after it was written or reset. -/
def Written (writes : List A → A → V → Prop) (resets : List A → A → Prop) (v : V) : List A → Prop :=
  Since (fun p a => writes p a v) fun p a => resets p a ∨ ∃ v', writes p a v'

/-- `v` has been written last, or it is the base and nothing has been written since the last reset. -/
def Holds (writes : List A → A → V → Prop) (resets : List A → A → Prop) (base v : V) (run : List A) : Prop :=
  Written writes resets v run ∨ ((∀ v', ¬ Written writes resets v' run) ∧ v = base)

/-- A cell that takes what is written, goes back to its base when it is reset, and else stays. -/
theorem holds_of_step {writes : List A → A → V → Prop} {resets : List A → A → Prop} (f base : List A → V)
    (hnil : f [] = base []) (hwrite : ∀ run a v, writes run a v → f (run ++ [a]) = v)
    (hreset : ∀ run a, resets run a → f (run ++ [a]) = base (run ++ [a]))
    (hkeep : ∀ run a, ¬ resets run a → base (run ++ [a]) = base run ∧
      ((∀ v, ¬ writes run a v) → f (run ++ [a]) = f run)) (run : List A) :
    Holds writes resets (base run) (f run) run := by
  induction run using List.reverseRecOn with
  | nil => exact Or.inr ⟨fun _ => not_since_nil, hnil⟩
  | append_singleton run a ih =>
    by_cases hw : ∃ v, writes run a v
    · obtain ⟨v, hv⟩ := hw
      rw [hwrite run a v hv]
      exact Or.inl (since_snoc_iff.2 (Or.inl hv))
    · have hsilent : ∀ v, ¬ writes run a v := not_exists.1 hw
      by_cases hr : resets run a
      · refine Or.inr ⟨fun v' hv' => ?_, hreset run a hr⟩
        rcases since_snoc_iff.1 hv' with hv' | ⟨-, hstop⟩
        · exact hsilent v' hv'
        · exact hstop (Or.inl hr)
      · obtain ⟨hbase, hf⟩ := hkeep run a hr
        rw [hbase, hf hsilent]
        have hstop : ¬ (resets run a ∨ ∃ v, writes run a v) := not_or.2 ⟨hr, hw⟩
        rcases ih with hwritten | ⟨hnone, heq⟩
        · exact Or.inl (since_snoc_iff.2 (Or.inr ⟨hwritten, hstop⟩))
        · refine Or.inr ⟨fun v' hv' => ?_, heq⟩
          rcases since_snoc_iff.1 hv' with hv' | ⟨hv', -⟩
          · exact hsilent v' hv'
          · exact hnone v' hv'

end Refrigerator.Lib
