/-
In-place compaction of a sequence, as `std::remove_if` does it on elements that keep their value
when moved from: the elements kept are moved to the front in their order, and from the returned
position on the sequence still holds what stood there before.

`removeIf_eq` is the closed form. The positions from the returned one on hold exactly the removed
elements only when these stood behind all the others (`pairwise_of_compact_nodup`,
`compact_eq_self`).
-/
import Mathlib.Data.List.Nodup

namespace Refrigerator.Lib

variable {α : Type*}

/-! ## The algorithm -/

/-- The loop of `remove_if`: `kept` stands before the write position, `gap` between it and the
read position. A kept element is copied over the first element of the gap and stays in its own
place. -/
def removeIfLoop (p : α → Bool) : List α → List α → List α → List α × List α
  | kept, gap, [] => (kept, gap)
  | kept, gap, x :: rest =>
    if p x then removeIfLoop p kept (gap ++ [x]) rest
    else removeIfLoop p (kept ++ [x]) ((gap ++ [x]).drop 1) rest

/-- The sequence after `remove_if`, split at the returned position. -/
def removeIf (p : α → Bool) (l : List α) : List α × List α := removeIfLoop p [] [] l

/-- The number of elements `remove_if` keeps. -/
def keptCount (p : α → Bool) (l : List α) : Nat := l.countP fun x => !p x

/-- After the elements `done`, `kept` holds the kept ones and `gap` the rest of their places. -/
theorem removeIfLoop_eq (p : α → Bool) : ∀ done rest : List α,
    removeIfLoop p (done.filter fun x => !p x) (done.drop (keptCount p done)) rest =
      ((done ++ rest).filter fun x => !p x, (done ++ rest).drop (keptCount p (done ++ rest)))
  | done, [] => by simp [removeIfLoop]
  | done, x :: rest => by
    have ih := removeIfLoop_eq p (done ++ [x]) rest
    have hle : keptCount p done ≤ done.length := List.countP_le_length
    rw [List.append_assoc, List.singleton_append] at ih
    rw [← ih, removeIfLoop]
    cases hx : p x with
    | true =>
      have hk : keptCount p (done ++ [x]) = keptCount p done := by simp [keptCount, hx]
      rw [if_pos rfl, hk, List.drop_append_of_le_length hle]
      simp [hx]
    | false =>
      have hk : keptCount p (done ++ [x]) = keptCount p done + 1 := by simp [keptCount, hx]
      rw [if_neg (by simp), hk, ← List.drop_drop, List.drop_append_of_le_length hle]
      simp [hx]

theorem removeIf_eq (p : α → Bool) (l : List α) :
    removeIf p l = (l.filter fun x => !p x, l.drop (keptCount p l)) := by
  simpa [removeIf, keptCount] using removeIfLoop_eq p [] l

example : removeIf (· == 1) [1, 2] = ([2], [2]) := by decide

/-! ## What is left behind the returned position -/

theorem mem_of_mem_moved {p : α → Bool} {l : List α} {x : α} (h : x ∈ (removeIf p l).2) : x ∈ l := by
  rw [removeIf_eq] at h; exact List.mem_of_mem_drop h

theorem mem_kept {p : α → Bool} {l : List α} {x : α} : x ∈ (removeIf p l).1 ↔ x ∈ l ∧ p x = false := by
  rw [removeIf_eq]; simp

theorem moved_eq_nil_iff {p : α → Bool} {l : List α} : (removeIf p l).2 = [] ↔ ∀ x ∈ l, p x = false := by
  have hle : keptCount p l ≤ l.length := List.countP_le_length
  have heq : keptCount p l = l.length ↔ ∀ x ∈ l, p x = false := by
    unfold keptCount; rw [List.countP_eq_length]; simp
  rw [removeIf_eq, List.drop_eq_nil_iff, ← heq]
  omega

/-- When the removed elements stand behind all the others, compaction changes nothing. -/
theorem compact_eq_self {p : α → Bool} : ∀ {l : List α}, l.Pairwise (fun a b => p a = true → p b = true) →
    (removeIf p l).1 ++ (removeIf p l).2 = l
  | [], _ => rfl
  | a :: l, h => by
    obtain ⟨ha, hl⟩ := List.pairwise_cons.1 h
    have ih := compact_eq_self hl
    rw [removeIf_eq] at ih ⊢
    cases hp : p a with
    | true =>
      have hf : l.filter (fun x => !p x) = [] := List.filter_eq_nil_iff.2 fun x hx => by simp [ha x hx hp]
      have hk : keptCount p l = 0 := by rw [keptCount, List.countP_eq_length_filter, hf]; rfl
      have hk' : keptCount p (a :: l) = keptCount p l := by simp [keptCount, hp]
      simp [hk', hk, hp, hf]
    | false =>
      have hk : keptCount p (a :: l) = keptCount p l + 1 := by simp [keptCount, hp]
      simpa [hk, hp] using ih

/-- When only removed elements are left behind the returned position, the removed elements stood
behind all the others. -/
theorem pairwise_of_forall_moved {p : α → Bool} {l : List α} (h : ∀ x ∈ (removeIf p l).2, p x = true) :
    l.Pairwise (fun a b => p a = true → p b = true) := by
  rw [removeIf_eq] at h
  -- everything before the position is kept, by counting
  have hkept : ∀ x ∈ l.take (keptCount p l), p x = false := by
    have hle : keptCount p l ≤ l.length := List.countP_le_length
    have hsplit : keptCount p (l.take (keptCount p l)) + keptCount p (l.drop (keptCount p l)) = keptCount p l := by
      unfold keptCount; rw [← List.countP_append, List.take_append_drop]
    have hzero : keptCount p (l.drop (keptCount p l)) = 0 :=
      List.countP_eq_zero.2 fun x hx => by simp [h x hx]
    have hall : keptCount p (l.take (keptCount p l)) = (l.take (keptCount p l)).length := by
      rw [List.length_take]; omega
    intro x hx
    simpa using List.countP_eq_length.1 hall x hx
  rw [← List.take_append_drop (keptCount p l) l, List.pairwise_append]
  refine ⟨?_, ?_, ?_⟩
  · exact List.pairwise_of_forall_mem_list fun a ha b _ hpa => absurd hpa (by simp [hkept a ha])
  · exact List.pairwise_of_forall_mem_list fun a _ b hb _ => h b hb
  · exact fun a _ b hb _ => h b hb

/-- When no element is left behind the returned position and kept as well, the removed elements
stood behind all the others. -/
theorem pairwise_of_compact_nodup {p : α → Bool} {l : List α}
    (h : ((removeIf p l).1 ++ (removeIf p l).2).Nodup) : l.Pairwise (fun a b => p a = true → p b = true) := by
  have hdis := (List.nodup_append.1 h).2.2
  -- what is left behind is in the list and not kept
  refine pairwise_of_forall_moved fun x hx => ?_
  cases hp : p x with
  | true => rfl
  | false => exact absurd rfl (hdis x (mem_kept.2 ⟨mem_of_mem_moved hx, hp⟩) x hx)

/-- The elements left behind the returned position are the removed ones exactly when these stood
behind all the others. -/
theorem moved_eq_removed_iff {p : α → Bool} {l : List α} :
    (removeIf p l).2 = l.filter p ↔ l.Pairwise (fun a b => p a = true → p b = true) := by
  constructor
  · exact fun h => pairwise_of_forall_moved fun x hx => (List.mem_filter.1 (h ▸ hx)).2
  · intro h
    have hnone : ∀ x ∈ (removeIf p l).1, ¬ p x = true := fun x hx => by simp [(mem_kept.1 hx).2]
    have hall : ∀ x ∈ (removeIf p l).2, p x = true := by
      -- as many are left behind as there are removed elements
      have hlen : l.length = l.countP p + keptCount p l := by
        simpa [keptCount] using List.length_eq_countP_add_countP p (l := l)
      have hcount : l.countP p = (removeIf p l).2.countP p := by
        conv_lhs => rw [← compact_eq_self h, List.countP_append, List.countP_eq_zero.2 hnone, Nat.zero_add]
      have hmoved : (removeIf p l).2.length = l.length - keptCount p l := by rw [removeIf_eq, List.length_drop]
      exact List.countP_eq_length.1 (by omega)
    calc (removeIf p l).2 = (removeIf p l).1.filter p ++ (removeIf p l).2.filter p := by
          rw [List.filter_eq_nil_iff.2 hnone, List.filter_eq_self.2 hall, List.nil_append]
      _ = l.filter p := by rw [← List.filter_append, compact_eq_self h]

end Refrigerator.Lib
