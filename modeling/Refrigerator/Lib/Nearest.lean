/-
The nearest element of a list within a bound, and how it changes when the list grows: a search that
only looks nearer than the best element found so far finds the same as one that looks at them all.
-/
import Mathlib.Data.List.MinMax

namespace Refrigerator.Lib

variable {α β : Type*} [LinearOrder β] (distance : α → Option β) (bound : β)

/-- The elements that have a distance less than the bound. -/
def within (l : List α) : List α := l.filter fun a => (distance a).any (· < bound)

/-- The element of least distance within the bound, the first one among equals. -/
def nearest (l : List α) : Option α := (within distance bound l).argmin fun a => (distance a).getD bound

/-- The distance of the nearest element; the bound, if there is none. -/
def leastDistance (l : List α) : β := ((nearest distance bound l).bind distance).getD bound

variable {distance bound} {l : List α} {a : α} {x : β}

@[simp] theorem nearest_nil : nearest distance bound [] = none := rfl
@[simp] theorem leastDistance_nil : leastDistance distance bound [] = bound := rfl

theorem mem_within_iff : a ∈ within distance bound l ↔ a ∈ l ∧ ∃ x, distance a = some x ∧ x < bound := by
  unfold within
  rw [List.mem_filter, Option.any_eq_true]
  simp only [decide_eq_true_eq]

theorem exists_distance_of_nearest (h : nearest distance bound l = some a) :
    a ∈ l ∧ ∃ x, distance a = some x ∧ x < bound :=
  mem_within_iff.1 (List.argmin_mem h)

theorem leastDistance_of_nearest (h : nearest distance bound l = some a) (ha : distance a = some x) :
    leastDistance distance bound l = x := by
  unfold leastDistance
  rw [h, Option.bind_some, ha, Option.getD_some]

theorem leastDistance_of_none (h : nearest distance bound l = none) : leastDistance distance bound l = bound := by
  unfold leastDistance
  rw [h, Option.bind_none, Option.getD_none]

theorem leastDistance_le : leastDistance distance bound l ≤ bound := by
  cases h : nearest distance bound l with
  | none => exact (leastDistance_of_none h).le
  | some a =>
    obtain ⟨-, x, hx, hlt⟩ := exists_distance_of_nearest h
    rw [leastDistance_of_nearest h hx]; exact hlt.le

/-! ## One element more -/

theorem within_snoc_of_lt (ha : distance a = some x) (hlt : x < bound) :
    within distance bound (l ++ [a]) = within distance bound l ++ [a] := by
  unfold within
  rw [List.filter_append, List.filter_cons_of_pos (by rw [ha]; exact decide_eq_true hlt), List.filter_nil]

theorem within_snoc_of_not_lt (h : ∀ x, distance a = some x → ¬ x < bound) :
    within distance bound (l ++ [a]) = within distance bound l := by
  have hnot : ¬ (distance a).any (· < bound) = true := by
    rw [Option.any_eq_true]
    rintro ⟨x, hx, hlt⟩
    exact h x hx (of_decide_eq_true hlt)
  unfold within
  rw [List.filter_append, List.filter_cons_of_neg (p := fun a => (distance a).any (· < bound)) hnot, List.filter_nil,
    List.append_nil]

/-- An element within the bound takes the place of the nearest one if it is nearer. -/
theorem nearest_snoc_of_within (ha : distance a = some x) (hlt : x < bound) :
    nearest distance bound (l ++ [a]) =
      if x < leastDistance distance bound l then some a else nearest distance bound l := by
  have hsnoc : nearest distance bound (l ++ [a]) = Option.casesOn (nearest distance bound l) (some a)
      fun b => if (distance a).getD bound < (distance b).getD bound then some a else some b := by
    unfold nearest
    rw [within_snoc_of_lt ha hlt, List.argmin_concat]
  cases h : nearest distance bound l with
  | none =>
    rw [hsnoc, h, leastDistance_of_none h, if_pos hlt]
  | some b =>
    obtain ⟨-, y, hy, -⟩ := exists_distance_of_nearest h
    rw [hsnoc, h, leastDistance_of_nearest h hy]
    dsimp only
    rw [ha, hy, Option.getD_some, Option.getD_some]

theorem nearest_snoc_of_lt (ha : distance a = some x) (hlt : x < leastDistance distance bound l) :
    nearest distance bound (l ++ [a]) = some a := by
  rw [nearest_snoc_of_within ha (hlt.trans_le leastDistance_le), if_pos hlt]

theorem nearest_snoc_of_not_lt (h : ∀ x, distance a = some x → ¬ x < leastDistance distance bound l) :
    nearest distance bound (l ++ [a]) = nearest distance bound l := by
  by_cases hwithin : ∃ x, distance a = some x ∧ x < bound
  · obtain ⟨x, hx, hlt⟩ := hwithin
    rw [nearest_snoc_of_within hx hlt, if_neg (h x hx)]
  · unfold nearest
    rw [within_snoc_of_not_lt fun x hx hlt => hwithin ⟨x, hx, hlt⟩]

theorem leastDistance_snoc_of_lt (ha : distance a = some x) (hlt : x < leastDistance distance bound l) :
    leastDistance distance bound (l ++ [a]) = x :=
  leastDistance_of_nearest (nearest_snoc_of_lt ha hlt) ha

theorem leastDistance_snoc_of_not_lt (h : ∀ x, distance a = some x → ¬ x < leastDistance distance bound l) :
    leastDistance distance bound (l ++ [a]) = leastDistance distance bound l := by
  unfold leastDistance at h ⊢
  rw [nearest_snoc_of_not_lt h]

end Refrigerator.Lib
