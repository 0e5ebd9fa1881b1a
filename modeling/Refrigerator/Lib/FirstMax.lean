/-
Maxima of lists: the running maximum, and the first maximal element by the place where it stands,
with all elements before it smaller and none after it greater.
-/
import Mathlib.Data.List.MinMax
import Mathlib.Order.Bounds.Basic

namespace Refrigerator.Lib

variable {α β : Type*} [LinearOrder β] {f : α → β}

theorem isGreatest_foldl_max (a : β) (l : List β) : IsGreatest {x | x = a ∨ x ∈ l} (l.foldl max a) := by
  induction l generalizing a with
  | nil => simp [IsGreatest, upperBounds]
  | cons y l ih =>
    obtain ⟨hmem, hup⟩ := ih (max a y)
    refine ⟨?_, ?_⟩
    · rcases hmem with h | h
      · rcases max_choice a y with hm | hm
        · exact Or.inl (h.trans hm)
        · exact Or.inr (by rw [List.foldl_cons, h, hm]; exact List.mem_cons_self)
      · exact Or.inr (List.mem_cons_of_mem y h)
    · have htop : max a y ≤ l.foldl max (max a y) := hup (Or.inl rfl)
      rintro x (rfl | hx)
      · exact (le_max_left x y).trans htop
      · rcases List.mem_cons.1 hx with rfl | hx
        · exact (le_max_right a x).trans htop
        · exact hup (Or.inr hx)

/-- `a` stands in `before ++ a :: after` as the first element of greatest `f`. -/
structure IsFirstMax (f : α → β) (before : List α) (a : α) (after : List α) : Prop where
  before_lt : ∀ x ∈ before, f x < f a
  after_le : ∀ x ∈ after, f x ≤ f a

theorem IsFirstMax.argmax_eq {before after : List α} {a : α} (h : IsFirstMax f before a after) :
    (before ++ a :: after).argmax f = some a := by
  obtain ⟨hb, ha⟩ := h
  induction after using List.reverseRecOn with
  | nil =>
    rw [List.argmax_concat]
    cases hc : before.argmax f with
    | none => rfl
    | some c => simp [hb c (List.argmax_mem hc)]
  | append_singleton after x ih =>
    have hx : f x ≤ f a := ha x (by simp)
    rw [← List.cons_append, ← List.append_assoc, List.argmax_concat,
      ih fun y hy => ha y (List.mem_append_left _ hy)]
    simp [not_lt.2 hx]

theorem exists_isFirstMax {l : List α} {a : α} (h : l.argmax f = some a) :
    ∃ before after, l = before ++ a :: after ∧ IsFirstMax f before a after := by
  induction l using List.reverseRecOn generalizing a with
  | nil => cases h
  | append_singleton l x ih =>
    rw [List.argmax_concat] at h
    cases hc : l.argmax f with
    | none =>
      rw [hc] at h; cases h
      exact ⟨[], [], by rw [List.argmax_eq_none.1 hc], by simp, by simp⟩
    | some c =>
      obtain ⟨before, after, rfl, hb, ha⟩ := ih hc
      simp only [hc] at h
      split_ifs at h with hlt <;> cases h
      · -- a new maximum: everything before it is smaller
        refine ⟨before ++ c :: after, [], by simp, fun y hy => ?_, by simp⟩
        exact lt_of_le_of_lt (List.le_of_mem_argmax hy hc) hlt
      · refine ⟨before, after ++ [x], by simp, hb, fun y hy => ?_⟩
        rcases List.mem_append.1 hy with hy | hy
        · exact ha y hy
        · rw [List.mem_singleton.1 hy]; exact not_lt.1 hlt

end Refrigerator.Lib
