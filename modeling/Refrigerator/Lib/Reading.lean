/-
Computations that read the values of nodes, each of a type of its own, and end with a result.

What a computation reads depends on what it has read: `reads` are the nodes on the path that some answers
lead to, and answers that agree on these lead to the same result (`answered_congr`). Computations `Agree` if
they are the same along all paths on which the values of the nodes are as they can be.
-/
import Mathlib.Data.List.Basic
import Mathlib.Order.Basic

namespace Refrigerator.Lib

/-- A computation over nodes with values in `A`, and results `R`. -/
inductive Reading {N : Type} (A : N → Type) (R : Type)
  | done (result : R)
  | read (node : N) (next : A node → Reading A R)

namespace Reading

variable {N : Type} {A : N → Type} {R R' : Type}

/-- The value of a node. -/
def value (node : N) : Reading A (A node) := .read node .done

def bind : Reading A R → (R → Reading A R') → Reading A R'
  | .done result, after => after result
  | .read node next, after => .read node fun a => (next a).bind after

instance : Monad (Reading A) where
  pure := .done
  bind := bind

@[simp] theorem pure_eq (result : R) : (pure result : Reading A R) = .done result := rfl

@[simp] theorem done_bind (result : R) (after : R → Reading A R') :
    ((Reading.done result : Reading A R) >>= after) = after result := rfl

@[simp] theorem read_bind (node : N) (next : A node → Reading A R) (after : R → Reading A R') :
    (Reading.read node next >>= after) = .read node fun a => next a >>= after := rfl

@[simp] theorem value_bind (node : N) (after : A node → Reading A R) : (value node >>= after) = .read node after := rfl

/-! ## Answers -/

/-- The result, if all nodes that are read have an answer. -/
def answered (answer : ∀ node, Option (A node)) : Reading A R → Option R
  | .done result => some result
  | .read node next =>
    match answer node with
    | none => none
    | some a => (next a).answered answer

/-- The nodes that are read. -/
def reads (answer : ∀ node, Option (A node)) : Reading A R → List N
  | .done _ => []
  | .read node next =>
    match answer node with
    | none => [node]
    | some a => node :: (next a).reads answer

variable {answer answer' : ∀ node, Option (A node)}

@[simp] theorem answered_done (result : R) : (done result : Reading A R).answered answer = some result := rfl

@[simp] theorem answered_value (node : N) : (value node : Reading A (A node)).answered answer = answer node := by
  rw [value, answered]
  cases answer node <;> rfl

@[simp] theorem reads_done (result : R) : (done result : Reading A R).reads answer = [] := rfl

theorem answered_read_none {node : N} {next : A node → Reading A R} (h : answer node = none) :
    (read node next).answered answer = none := by rw [answered, h]

theorem answered_read_some {node : N} {next : A node → Reading A R} {a : A node} (h : answer node = some a) :
    (read node next).answered answer = (next a).answered answer := by rw [answered, h]

theorem reads_read_some {node : N} {next : A node → Reading A R} {a : A node} (h : answer node = some a) :
    (read node next).reads answer = node :: (next a).reads answer := by rw [reads, h]

/-- A first read that is answered. -/
theorem answered_read {node : N} {next : A node → Reading A R} {result : R}
    (h : (read node next).answered answer = some result) :
    ∃ a, answer node = some a ∧ (next a).answered answer = some result := by
  cases hanswer : answer node with
  | none => rw [answered_read_none hanswer] at h; cases h
  | some a => exact ⟨a, rfl, by rw [answered_read_some hanswer] at h; exact h⟩

/-- What is read on the way to a result has an answer. -/
theorem answer_of_reads {result : R} : ∀ (p : Reading A R), p.answered answer = some result →
    ∀ node ∈ p.reads answer, ∃ a, answer node = some a
  | .done _, _, node, hnode => by simp at hnode
  | .read first next, h, node, hnode => by
    obtain ⟨a, hanswer, hnext⟩ := answered_read h
    rw [reads_read_some hanswer] at hnode
    rcases List.mem_cons.1 hnode with rfl | hnode
    · exact ⟨a, hanswer⟩
    · exact answer_of_reads (next a) hnext node hnode

/-- Answers that agree on what is read lead to the same result, by the same reads. -/
theorem answered_congr {result : R} : ∀ (p : Reading A R), p.answered answer = some result →
    (∀ node ∈ p.reads answer, answer' node = answer node) →
    p.answered answer' = some result ∧ p.reads answer' = p.reads answer
  | .done _, h, _ => ⟨h, rfl⟩
  | .read node next, h, hagree => by
    obtain ⟨a, hanswer, hnext⟩ := answered_read h
    rw [reads_read_some hanswer] at hagree ⊢
    obtain ⟨hnode, hrest⟩ := List.forall_mem_cons.1 hagree
    have hanswer' : answer' node = some a := hnode.trans hanswer
    obtain ⟨hresult, hreads⟩ := answered_congr (next a) hnext hrest
    rw [answered_read_some hanswer', reads_read_some hanswer', hreads]
    exact ⟨hresult, rfl⟩

theorem answered_mono {result : R} (p : Reading A R) (h : p.answered answer = some result)
    (hle : ∀ node a, answer node = some a → answer' node = some a) : p.answered answer' = some result := by
  refine (answered_congr p h fun node hnode => ?_).1
  obtain ⟨a, ha⟩ := answer_of_reads p h node hnode
  rw [hle node a ha, ha]

theorem answered_bind (p : Reading A R) (after : R → Reading A R') :
    (p >>= after).answered answer = (p.answered answer).bind fun result => (after result).answered answer := by
  induction p with
  | done result => rfl
  | read node next ih =>
    rw [read_bind]
    cases hanswer : answer node with
    | none => rw [answered_read_none hanswer, answered_read_none hanswer]; rfl
    | some a => rw [answered_read_some hanswer, answered_read_some hanswer]; exact ih a

theorem answered_bind_some {p : Reading A R} {after : R → Reading A R'} {result : R'}
    (h : (p >>= after).answered answer = some result) :
    ∃ r, p.answered answer = some r ∧ (after r).answered answer = some result := by
  rw [answered_bind] at h
  exact Option.bind_eq_some_iff.1 h

/-! ## Computations that agree -/

/-- The computations are the same as long as the answers are in `V`, and then they read nodes in `S` only. -/
inductive Agree (V : ∀ node, A node → Prop) (S : N → Prop) : Reading A R → Reading A R → Prop
  | done (result : R) : Agree V S (.done result) (.done result)
  | read {node : N} {next next' : A node → Reading A R} (hnode : S node)
      (hnext : ∀ a, V node a → Agree V S (next a) (next' a)) : Agree V S (.read node next) (.read node next')

variable {V : ∀ node, A node → Prop} {S : N → Prop}

theorem Agree.pure (result : R) : Agree V S (Pure.pure result : Reading A R) (Pure.pure result) := .done result

theorem Agree.value {node : N} (h : S node) :
    Agree V S (Reading.value node : Reading A (A node)) (Reading.value node) :=
  .read h fun a _ => .done a

theorem Agree.bind {p p' : Reading A R} {after after' : R → Reading A R'} (h : Agree V S p p')
    (hafter : ∀ r, Agree V S (after r) (after' r)) : Agree V S (p >>= after) (p' >>= after') := by
  induction h with
  | done result => exact hafter result
  | read hnode _ ih => exact .read hnode ih

/-- What is done with the value of a node may depend on its being in `V`. -/
theorem Agree.value_bind {node : N} {after after' : A node → Reading A R} (h : S node)
    (hafter : ∀ a, V node a → Agree V S (after a) (after' a)) :
    Agree V S (Reading.value node >>= after) (Reading.value node >>= after') := .read h hafter

/-- Computations that agree have the same results. -/
theorem Agree.answered {p p' : Reading A R} (h : Agree V S p p') {result : R}
    (hresult : p.answered answer = some result)
    (hV : ∀ node ∈ p.reads answer, ∀ a, answer node = some a → V node a) :
    p'.answered answer = some result ∧ ∀ node ∈ p.reads answer, S node := by
  induction h with
  | done _ => exact ⟨hresult, nofun⟩
  | read hnode _ ih =>
    obtain ⟨a, ha, hnext⟩ := answered_read hresult
    rw [reads_read_some ha] at hV ⊢
    obtain ⟨hVnode, hVnext⟩ := List.forall_mem_cons.1 hV
    rw [answered_read_some ha]
    obtain ⟨hresult', hreads⟩ := ih a (hVnode a ha) hnext hVnext
    exact ⟨hresult', List.forall_mem_cons.2 ⟨hnode, hreads⟩⟩

/-! ## What computations ensure -/

/-- If the answers are in `V`, the result is in `Q`. -/
inductive Ensures (V : ∀ node, A node → Prop) (Q : R → Prop) : Reading A R → Prop
  | done {result : R} (h : Q result) : Ensures V Q (.done result)
  | read {node : N} {next : A node → Reading A R} (h : ∀ a, V node a → Ensures V Q (next a)) :
      Ensures V Q (.read node next)

theorem Ensures.pure {Q : R → Prop} {result : R} (h : Q result) : Ensures V Q (Pure.pure result : Reading A R) :=
  .done h

theorem Ensures.value (node : N) : Ensures V (V node) (Reading.value node : Reading A (A node)) :=
  .read fun _ h => .done h

theorem Ensures.bind {Q : R → Prop} {Q' : R' → Prop} {p : Reading A R} {after : R → Reading A R'} (h : Ensures V Q p)
    (hafter : ∀ r, Q r → Ensures V Q' (after r)) : Ensures V Q' (p >>= after) := by
  induction h with
  | done h => exact hafter _ h
  | read _ ih => exact .read ih

/-- What holds of every result. -/
theorem Ensures.of_forall {Q : R → Prop} (h : ∀ r, Q r) : ∀ p : Reading A R, Ensures V Q p
  | .done result => .done (h result)
  | .read _ next => .read fun a _ => of_forall h (next a)

theorem Ensures.answered {Q : R → Prop} {p : Reading A R} (h : Ensures V Q p) {result : R}
    (hresult : p.answered answer = some result) (hV : ∀ node a, answer node = some a → V node a) : Q result := by
  induction h with
  | done h => cases hresult; exact h
  | read _ ih =>
    obtain ⟨a, ha, hnext⟩ := answered_read hresult
    exact ih a (hV _ a ha) hnext

end Reading

end Refrigerator.Lib
