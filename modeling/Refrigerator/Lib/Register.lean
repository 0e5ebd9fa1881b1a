/-
Registers of a machine: a part of the state that some inputs overwrite and all others leave alone
holds, after any run, the value that was written last, or its first value when none was written.
-/
import Refrigerator.Lib.Since

namespace Refrigerator.Lib.Machine

variable {S A E V : Type*} (m : Machine S A E)

/-! ## The last write -/

/-- The input writes no value in this state. -/
def Silent (W : S → A → V → Prop) (s : S) (a : A) : Prop := ∀ v, ¬ W s a v

/-- Some input of the run from `s` writes `v`, and no later one writes. -/
def LastWrite (W : S → A → V → Prop) (s : S) (as : List A) (v : V) : Prop :=
  ∃ p a q, as = p ++ a :: q ∧ W (m.exec s p) a v ∧
    ∀ p' b, p' ++ [b] <+: q → Silent W (m.exec s (p ++ a :: p')) b

variable {m} {W : S → A → V → Prop} {s : S}

/-- A last write is one since which nothing is written. -/
theorem lastWrite_iff_since {as : List A} {v : V} :
    m.LastWrite W s as v ↔
      Since (fun p a => W (m.exec s p) a v) (fun p a => ∃ v', W (m.exec s p) a v') as := by
  unfold LastWrite Since Silent
  simp only [not_exists]

theorem not_lastWrite_nil {v : V} : ¬ m.LastWrite W s [] v := mt lastWrite_iff_since.1 not_since_nil

/-- The last write of a run extended by one input is that input's, or an earlier one's if it is silent. -/
theorem lastWrite_snoc_iff {as : List A} {a : A} {v : V} :
    m.LastWrite W s (as ++ [a]) v ↔ W (m.exec s as) a v ∨ (m.LastWrite W s as v ∧ Silent W (m.exec s as) a) := by
  rw [lastWrite_iff_since, lastWrite_iff_since, since_snoc_iff, not_exists]
  rfl

/-! ## The value of a register -/

section Register

variable {f : S → V} (hwrite : ∀ s a v, W s a v → f (m.next s a) = v)
  (hkeep : ∀ s a, Silent W s a → f (m.next s a) = f s)
include hwrite hkeep

theorem register_eq_of_lastWrite {as : List A} {v : V} (h : m.LastWrite W s as v) : f (m.exec s as) = v := by
  induction as using List.reverseRecOn with
  | nil => exact absurd h not_lastWrite_nil
  | append_singleton as a ih =>
    rw [exec_snoc]
    rcases lastWrite_snoc_iff.1 h with hw | ⟨hlast, hsilent⟩
    · exact hwrite _ a v hw
    · rw [hkeep _ a hsilent]; exact ih hlast

omit hwrite in
theorem register_eq_of_no_write {as : List A} (h : ∀ v, ¬ m.LastWrite W s as v) : f (m.exec s as) = f s := by
  induction as using List.reverseRecOn with
  | nil => rfl
  | append_singleton as a ih =>
    have hsilent : Silent W (m.exec s as) a := fun v hw => h v (lastWrite_snoc_iff.2 (Or.inl hw))
    rw [exec_snoc, hkeep _ a hsilent]
    exact ih fun v hlast => h v (lastWrite_snoc_iff.2 (Or.inr ⟨hlast, hsilent⟩))

/-- A register holds its first value or the one written last. -/
theorem register_cases (as : List A) :
    m.LastWrite W s as (f (m.exec s as)) ∨ ((∀ v, ¬ m.LastWrite W s as v) ∧ f (m.exec s as) = f s) := by
  by_cases h : ∃ v, m.LastWrite W s as v
  · obtain ⟨v, hv⟩ := h
    left
    rw [register_eq_of_lastWrite hwrite hkeep hv]; exact hv
  · have hnone : ∀ v, ¬ m.LastWrite W s as v := fun v hv => h ⟨v, hv⟩
    exact Or.inr ⟨hnone, register_eq_of_no_write hkeep hnone⟩

end Register

end Refrigerator.Lib.Machine
