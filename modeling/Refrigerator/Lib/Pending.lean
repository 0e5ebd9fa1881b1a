/-
Pending elements: a list under additions at its end, which do nothing when the element is there
already, and removals of an element from everywhere.

`isPending` describes the list by the operations alone: it holds the elements whose last removal is
followed by an addition, each once, in the order of the first such addition.
-/
import Mathlib.Data.List.Nodup
import Mathlib.Data.List.Induction
import Mathlib.Data.Nat.Find
import Mathlib.Order.Bounds.Basic

namespace Refrigerator.Lib

variable {α : Type*}

/-! ## Operations -/

/-- An operation on a pending list; `skip` does nothing. -/
inductive PendingOp (α : Type*)
  | add (x : α)
  | remove (x : α)
  | skip

variable [DecidableEq α]

def PendingOp.apply (l : List α) : PendingOp α → List α
  | .add x => if x ∈ l then l else l ++ [x]
  | .remove x => l.filter (· ≠ x)
  | .skip => l

/-- What a list of operations leaves of the empty list. -/
def pending (ops : List (PendingOp α)) : List α := ops.foldl PendingOp.apply []

theorem pending_snoc (ops : List (PendingOp α)) (op : PendingOp α) :
    pending (ops ++ [op]) = op.apply (pending ops) := by
  unfold pending; rw [List.foldl_append]; rfl

/-! ## Additions that are in effect -/

omit [DecidableEq α]

/-- The `n`-th operation adds `x`, and no later one removes it. -/
def InEffect (ops : List (PendingOp α)) (x : α) (n : Nat) : Prop :=
  ops[n]? = some (.add x) ∧ .remove x ∉ ops.drop (n + 1)

theorem InEffect.lt {ops : List (PendingOp α)} {x : α} {n : Nat} (h : InEffect ops x n) : n < ops.length :=
  (List.getElem?_eq_some_iff.1 h.1).1

theorem not_inEffect_nil {x : α} {n : Nat} : ¬ InEffect ([] : List (PendingOp α)) x n := fun h => by
  cases h.lt

/-- One more operation removes the effect of the earlier additions, or adds at its own place. -/
theorem inEffect_snoc_iff {ops : List (PendingOp α)} {op : PendingOp α} {x : α} {n : Nat} :
    InEffect (ops ++ [op]) x n ↔ (InEffect ops x n ∧ op ≠ .remove x) ∨ (n = ops.length ∧ op = .add x) := by
  unfold InEffect
  rcases lt_trichotomy n ops.length with hn | rfl | hn
  · rw [List.getElem?_append_left hn, List.drop_append_of_le_length (by omega)]
    have hne : n ≠ ops.length := by omega
    simp [hne, and_assoc, eq_comm]
  · simp
  · have hne : n ≠ ops.length := by omega
    have hlen : (ops ++ [op]).length ≤ n := by simp; omega
    simp [hne, List.getElem?_eq_none hlen, List.getElem?_eq_none hn.le]

/-- The `n`-th operation is the first addition of `x` that is in effect. -/
def FirstInEffect (ops : List (PendingOp α)) (x : α) (n : Nat) : Prop := IsLeast {n | InEffect ops x n} n

/-- Some addition of `x` is in effect. -/
def Effective (ops : List (PendingOp α)) (x : α) : Prop := ∃ n, InEffect ops x n

/-- Additions of both are in effect, and the first one of `x` is before the first one of `y`. -/
def Earlier (ops : List (PendingOp α)) (x y : α) : Prop :=
  ∃ m n, FirstInEffect ops x m ∧ FirstInEffect ops y n ∧ m < n

theorem exists_firstInEffect {ops : List (PendingOp α)} {x : α} (h : Effective ops x) :
    ∃ n, FirstInEffect ops x n := by
  classical
  exact ⟨Nat.find h, Nat.find_spec h, fun _ hm => Nat.find_min' h hm⟩

theorem effective_snoc_iff {ops : List (PendingOp α)} {op : PendingOp α} {x : α} :
    Effective (ops ++ [op]) x ↔ (Effective ops x ∧ op ≠ .remove x) ∨ op = .add x := by
  simp only [Effective, inEffect_snoc_iff, exists_or, exists_and_right, exists_eq, true_and]

/-- The first addition of an element in effect stays the first, unless the element is removed. -/
theorem firstInEffect_snoc {ops : List (PendingOp α)} {op : PendingOp α} {x : α} {n : Nat}
    (h : FirstInEffect ops x n) (hop : op ≠ .remove x) : FirstInEffect (ops ++ [op]) x n := by
  refine ⟨inEffect_snoc_iff.2 (Or.inl ⟨h.1, hop⟩), fun m hm => ?_⟩
  rcases inEffect_snoc_iff.1 hm with ⟨hm, -⟩ | ⟨rfl, -⟩
  · exact h.2 hm
  · exact h.1.lt.le

/-- An addition of an element without an earlier one in effect is the first. -/
theorem firstInEffect_add {ops : List (PendingOp α)} {x : α} (h : ¬ Effective ops x) :
    FirstInEffect (ops ++ [.add x]) x ops.length := by
  refine ⟨inEffect_snoc_iff.2 (Or.inr ⟨rfl, rfl⟩), fun m hm => ?_⟩
  rcases inEffect_snoc_iff.1 hm with ⟨hm, -⟩ | ⟨rfl, -⟩
  · exact absurd ⟨m, hm⟩ h
  · exact le_rfl

theorem earlier_snoc {ops : List (PendingOp α)} {op : PendingOp α} {x y : α} (h : Earlier ops x y)
    (hx : op ≠ .remove x) (hy : op ≠ .remove y) : Earlier (ops ++ [op]) x y := by
  obtain ⟨m, n, hm, hn, hlt⟩ := h
  exact ⟨m, n, firstInEffect_snoc hm hx, firstInEffect_snoc hn hy, hlt⟩

theorem earlier_add {ops : List (PendingOp α)} {x y : α} (hx : Effective ops x) (hy : ¬ Effective ops y) :
    Earlier (ops ++ [.add y]) x y := by
  obtain ⟨m, hm⟩ := exists_firstInEffect hx
  exact ⟨m, ops.length, firstInEffect_snoc hm (by simp), firstInEffect_add hy, hm.1.lt⟩

/-! ## What is pending -/

/-- The list holds the elements with an addition in effect, in the order of the first of these. -/
structure IsPending (ops : List (PendingOp α)) (l : List α) : Prop where
  mem : ∀ x, x ∈ l ↔ Effective ops x
  order : l.Pairwise (Earlier ops)

/-- An element is not earlier than itself, so each stands once. -/
theorem IsPending.nodup {ops : List (PendingOp α)} {l : List α} (h : IsPending ops l) : l.Nodup := by
  refine h.order.imp fun {x y} hxy => ?_
  obtain ⟨m, n, hm, hn, hlt⟩ := hxy
  rintro rfl
  exact absurd (hm.unique hn) (by omega)

variable [DecidableEq α]

theorem isPending_apply {ops : List (PendingOp α)} {l : List α} (h : IsPending ops l) (op : PendingOp α) :
    IsPending (ops ++ [op]) (op.apply l) := by
  cases op with
  | add x =>
    show IsPending _ (if x ∈ l then l else l ++ [x])
    split_ifs with hx
    · -- the element has an addition in effect already, so the first one stays the first
      refine ⟨fun y => ?_, h.order.imp fun hxy => earlier_snoc hxy (by simp) (by simp)⟩
      rw [effective_snoc_iff, ← h.mem y]
      constructor
      · exact fun hy => Or.inl ⟨hy, by simp⟩
      · rintro (⟨hy, -⟩ | hy)
        · exact hy
        · cases hy; exact hx
    · have hnew : ¬ Effective ops x := fun hx' => hx ((h.mem x).2 hx')
      refine ⟨fun y => ?_, List.pairwise_append.2
        ⟨h.order.imp fun hxy => earlier_snoc hxy (by simp) (by simp), List.pairwise_singleton _ x, ?_⟩⟩
      · rw [effective_snoc_iff, ← h.mem y]
        simp [eq_comm]
      · intro y hy z hz
        rw [List.mem_singleton.1 hz]
        exact earlier_add ((h.mem y).1 hy) hnew
  | remove x =>
    refine ⟨fun y => ?_, ?_⟩
    · rw [effective_snoc_iff, ← h.mem y]
      simp [PendingOp.apply, @eq_comm _ x y]
    · have hne : ∀ y ∈ l.filter (· ≠ x), PendingOp.remove x ≠ .remove y := fun y hy heq => by
        cases heq; simp at hy
      exact List.Pairwise.imp_of_mem (fun hy hz hyz => earlier_snoc hyz (hne _ hy) (hne _ hz)) (h.order.filter _)
  | skip =>
    refine ⟨fun y => ?_, h.order.imp fun hxy => earlier_snoc hxy (by simp) (by simp)⟩
    rw [effective_snoc_iff, ← h.mem y]
    simp [PendingOp.apply]

theorem isPending (ops : List (PendingOp α)) : IsPending ops (pending ops) := by
  induction ops using List.reverseRecOn with
  | nil => exact ⟨fun x => by simp [pending, Effective, not_inEffect_nil], List.Pairwise.nil⟩
  | append_singleton ops op ih =>
    rw [pending_snoc]; exact isPending_apply ih op

end Refrigerator.Lib
