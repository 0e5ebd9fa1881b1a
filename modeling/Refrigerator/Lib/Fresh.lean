/-
Values that are computed from each other on demand, computed afresh.

`fresh` computes to a depth, which makes no difference but that it may not suffice, and a computation
`Yields` what it results in at some depth. Two rules: what every computation keeps holds of all values
(`fresh_ensures`), and what some values cannot do without does not depend on how these are computed
(`Yields.of_needed`).
-/
import Refrigerator.Lib.Reading
import Mathlib.Order.Lattice

namespace Refrigerator.Lib

variable {N : Type} {A : N → Type} {R R' : Type}

/-- The value of a node, computed afresh; `none` where the depth does not suffice. -/
def fresh (compute : ∀ node, Reading A (A node)) : Nat → ∀ node, Option (A node)
  | 0, _ => none
  | depth + 1, node => (compute node).answered (fresh compute depth)

/-! ## The depth -/

variable {compute compute' : ∀ node, Reading A (A node)}

theorem fresh_succ (depth : Nat) (node : N) (a : A node) (h : fresh compute depth node = some a) :
    fresh compute (depth + 1) node = some a := by
  induction depth generalizing node with
  | zero => cases h
  | succ depth ih => exact (compute node).answered_mono h ih

theorem fresh_mono {depth depth' : Nat} (hle : depth ≤ depth') {node : N} {a : A node}
    (h : fresh compute depth node = some a) : fresh compute depth' node = some a := by
  induction hle with
  | refl => exact h
  | step _ ih => exact fresh_succ _ node a ih

/-- The depth makes no difference. -/
theorem fresh_unique {depth depth' : Nat} {node : N} {a b : A node} (h : fresh compute depth node = some a)
    (h' : fresh compute depth' node = some b) : a = b := by
  have hmax := fresh_mono (le_max_left depth depth') h
  rw [fresh_mono (le_max_right depth depth') h'] at hmax
  exact (Option.some.inj hmax).symm

/-- One depth suffices for finitely many values. -/
theorem exists_depth {known : ∀ node, Option (A node)} {nodes : List N}
    (h : ∀ node ∈ nodes, ∃ depth a, known node = some a ∧ fresh compute depth node = some a) :
    ∃ depth, ∀ node ∈ nodes, fresh compute depth node = known node := by
  induction nodes with
  | nil => exact ⟨0, by simp⟩
  | cons node nodes ih =>
    obtain ⟨⟨depth, a, hknown, hfresh⟩, hrest⟩ := List.forall_mem_cons.1 h
    obtain ⟨depth', hdepth'⟩ := ih hrest
    refine ⟨max depth depth', List.forall_mem_cons.2 ⟨?_, fun other hother => ?_⟩⟩
    · rw [hknown]; exact fresh_mono (le_max_left depth depth') hfresh
    · obtain ⟨_, b, hb, -⟩ := hrest other hother
      rw [hb]
      refine fresh_mono (le_max_right depth depth') ?_
      rw [hdepth' other hother, hb]

/-! ## Results -/

/-- The computation has this result. -/
def Yields (compute : ∀ node, Reading A (A node)) (p : Reading A R) (result : R) : Prop :=
  ∃ depth, p.answered (fresh compute depth) = some result

theorem answered_fresh_mono {depth depth' : Nat} (hle : depth ≤ depth') {p : Reading A R} {result : R}
    (h : p.answered (fresh compute depth) = some result) : p.answered (fresh compute depth') = some result :=
  p.answered_mono h fun _ _ => fresh_mono hle

theorem Yields.unique {p : Reading A R} {r r' : R} (h : Yields compute p r) (h' : Yields compute p r') : r = r' := by
  obtain ⟨depth, h⟩ := h
  obtain ⟨depth', h'⟩ := h'
  have hmax := answered_fresh_mono (le_max_left depth depth') h
  rw [answered_fresh_mono (le_max_right depth depth') h'] at hmax
  exact (Option.some.inj hmax).symm

@[simp] theorem yields_pure {r r' : R} : Yields compute (pure r : Reading A R) r' ↔ r' = r := by
  constructor
  · rintro ⟨depth, h⟩
    exact (Option.some.inj h).symm
  · rintro rfl
    exact ⟨0, rfl⟩

/-- The value of a node is what its computation yields. -/
theorem yields_value {node : N} {a : A node} :
    Yields compute (Reading.value node) a ↔ Yields compute (compute node) a := by
  constructor
  · rintro ⟨depth, h⟩
    rw [Reading.answered_value] at h
    cases depth with
    | zero => cases h
    | succ depth => exact ⟨depth, h⟩
  · rintro ⟨depth, h⟩
    exact ⟨depth + 1, (Reading.answered_value node).trans h⟩

theorem yields_bind {p : Reading A R} {after : R → Reading A R'} {result : R'} :
    Yields compute (p >>= after) result ↔ ∃ r, Yields compute p r ∧ Yields compute (after r) result := by
  constructor
  · rintro ⟨depth, h⟩
    obtain ⟨r, hr, hafter⟩ := Reading.answered_bind_some h
    exact ⟨r, ⟨depth, hr⟩, ⟨depth, hafter⟩⟩
  · rintro ⟨r, ⟨depth, hr⟩, ⟨depth', hafter⟩⟩
    refine ⟨max depth depth', ?_⟩
    rw [Reading.answered_bind, answered_fresh_mono (le_max_left depth depth') hr]
    exact answered_fresh_mono (le_max_right depth depth') hafter

/-! ## What all values keep -/

theorem fresh_ensures {V : ∀ node, A node → Prop} (h : ∀ node, (compute node).Ensures V (V node)) (depth : Nat)
    (node : N) (a : A node) (ha : fresh compute depth node = some a) : V node a := by
  induction depth generalizing node with
  | zero => cases ha
  | succ depth ih => exact (h node).answered ha ih

theorem Yields.ensures {V : ∀ node, A node → Prop} (h : ∀ node, (compute node).Ensures V (V node)) {p : Reading A R}
    {Q : R → Prop} (hp : p.Ensures V Q) {result : R} (hresult : Yields compute p result) : Q result := by
  obtain ⟨depth, hdepth⟩ := hresult
  exact hp.answered hdepth (fresh_ensures h depth)

/-! ## What values cannot do without -/

/-- If the values of the nodes in `K` need the result of a computation, that does not depend on how the
values are computed. -/
theorem Yields.of_needed {V : ∀ node, A node → Prop} (hV : ∀ depth node a, fresh compute depth node = some a → V node a)
    {K : N → Prop} {S : N → N → Prop} (hsame : ∀ node, ¬ K node → (compute node).Agree V (S node) (compute' node))
    {p p' : Reading A R} {S' : N → Prop} (hp : p.Agree V S' p')
    (hneeds : ∀ depth node a, K node → (compute node).answered (fresh compute depth) = some a →
      ∃ r, p.answered (fresh compute depth) = some r)
    {result : R} (h : Yields compute p result) : Yields compute' p' result := by
  obtain ⟨depth, h⟩ := h
  -- at the least depth that suffices, no value of a node in `K` is known
  induction depth using Nat.strong_induction_on with
  | _ depth ih =>
    by_cases hless : ∃ depth' < depth, ∃ r, p.answered (fresh compute depth') = some r
    · obtain ⟨depth', hlt, r, hr⟩ := hless
      have heq : r = result := Yields.unique ⟨depth', hr⟩ ⟨depth, h⟩
      exact ih depth' hlt (heq ▸ hr)
    · have hunknown : ∀ depth' ≤ depth, ∀ node, K node → fresh compute depth' node = none := by
        intro depth' hle node hnode
        cases depth' with
        | zero => rfl
        | succ depth' =>
          refine Option.eq_none_iff_forall_ne_some.2 fun a ha => hless ?_
          obtain ⟨r, hr⟩ := hneeds depth' node a hnode ha
          exact ⟨depth', by omega, r, hr⟩
      have hfresh : ∀ depth' ≤ depth, ∀ node a, fresh compute depth' node = some a →
          fresh compute' depth' node = some a := by
        intro depth'
        induction depth' with
        | zero => exact fun _ _ _ hnone => nomatch hnone
        | succ depth' ihdepth =>
          intro hle node a ha
          by_cases hnode : K node
          · rw [hunknown _ hle node hnode] at ha
            cases ha
          · have hanswered := ((hsame node hnode).answered ha fun m _ b => hV depth' m b).1
            exact (compute' node).answered_mono hanswered (ihdepth (by omega))
      have hanswered := (hp.answered h fun m _ b => hV depth m b).1
      exact ⟨depth, p'.answered_mono hanswered (hfresh depth le_rfl)⟩

end Refrigerator.Lib
