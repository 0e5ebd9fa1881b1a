/-
Creations between two sweeps: the queue holds exactly the entities added after their last removal, in
the order of the first such addition, and the next sweep enters those that are not free.
-/
import Refrigerator.Tracker.Session
import Refrigerator.Lib.Pending

namespace Refrigerator.Tracker

open Lib

variable {P : Type*} [Zero P]

/-! ## The queue as a pending list -/

/-- The calls of a batch: no shutdown, and no frame that sweeps. -/
def Batched (c : Context P) : Call P → Prop
  | .frame _ => c.state = false
  | .shutdown => False
  | _ => True

section Operations

variable [DecidableEq P]

/-- An addition, unless the pointer is null. -/
def addition (entity : P) : PendingOp P := if entity = 0 then .skip else .add entity

/-- What a call of a batch does to the queue. -/
def Call.op : Call P → PendingOp P
  | .spawn entity => addition entity
  | .create globals => addition (created globals)
  | .remove entity => if entity = 0 then .skip else .remove entity
  | _ => .skip

theorem queue_onSpawn (c : Context P) (e : P) : (onSpawn c e).queue = (addition e).apply c.queue := by
  unfold onSpawn addition
  by_cases h0 : e = 0
  · rw [if_pos h0, if_pos h0]; rfl
  · rw [if_neg h0, if_neg h0]
    show _ = if e ∈ c.queue then c.queue else c.queue ++ [e]
    split_ifs <;> rfl

theorem queue_batched {c : Context P} {call : Call P} (h : Batched c call) :
    (step c call).1.queue = call.op.apply c.queue := by
  cases call with
  | init => rfl
  | spawn e => exact queue_onSpawn c e
  | create globals =>
    show (onCreate globals c).queue = _
    rw [onCreate_eq, queue_onSpawn]; rfl
  | remove e =>
    show (onRemove c e).1.queue = _
    by_cases h0 : e = 0
    · subst h0; rw [onRemove_null]; simp [Call.op, PendingOp.apply]
    · rw [onRemove_eq h0]; simp [Call.op, PendingOp.apply, h0]
  | frame memory =>
    show (onFrame memory c).1.queue = _
    rw [onFrame_idle h]; rfl
  | shutdown => exact h.elim

theorem queue_batch {c : Context P} (hq : c.queue = []) (calls : List (Call P))
    (h : ∀ p call, p ++ [call] <+: calls → Batched (machine.exec c p) call) :
    (machine.exec c calls).queue = pending (calls.map Call.op) := by
  induction calls using List.reverseRecOn with
  | nil => exact hq
  | append_singleton calls call ih =>
    obtain ⟨hcalls, hcall⟩ := Machine.forall_step_snoc.1 h
    rw [machine.exec_snoc, List.map_append, List.map_singleton, pending_snoc, ← ih hcalls]
    exact queue_batched hcall

end Operations

/-! ## Additions after the last removal -/

/-- The `n`-th call adds `e`, and no later call removes it. -/
def AddedAt (calls : List (Call P)) (e : P) (n : Nat) : Prop :=
  (∃ call, calls[n]? = some call ∧ Adds e call) ∧ .remove e ∉ calls.drop (n + 1)

/-- The first addition of `a` after its last removal is before that of `b`. -/
def AddedBefore (calls : List (Call P)) (a b : P) : Prop :=
  ∃ m n, IsLeast {n | AddedAt calls a n} m ∧ IsLeast {n | AddedAt calls b n} n ∧ m < n

variable [DecidableEq P]

theorem addition_eq_add_iff {entity e : P} : addition entity = .add e ↔ entity = e ∧ e ≠ 0 := by
  unfold addition
  split_ifs with h0
  · simp only [false_iff]
    rintro ⟨rfl, hne⟩; exact hne h0
  · rw [PendingOp.add.injEq]
    exact ⟨fun h => ⟨h, h ▸ h0⟩, And.left⟩

theorem addition_ne_remove (entity e : P) : addition entity ≠ .remove e := by
  unfold addition; split_ifs <;> simp

theorem op_eq_add_iff {call : Call P} {e : P} : call.op = .add e ↔ Adds e call ∧ e ≠ 0 := by
  cases call with
  | spawn entity => exact addition_eq_add_iff
  | create globals => exact addition_eq_add_iff.trans (and_congr_left fun he => created_eq_iff he)
  | remove entity =>
    show (if entity = 0 then PendingOp.skip else .remove entity) = _ ↔ _
    split_ifs <;> simp [Adds]
  | _ => simp [Call.op, Adds]

theorem op_eq_remove_iff {call : Call P} {e : P} : call.op = .remove e ↔ call = .remove e ∧ e ≠ 0 := by
  cases call with
  | spawn entity => simp [Call.op, addition_ne_remove]
  | create globals => simp [Call.op, addition_ne_remove]
  | remove entity =>
    show (if entity = 0 then PendingOp.skip else .remove entity) = _ ↔ _
    split_ifs with h0
    · simp only [Call.remove.injEq, false_iff]
      rintro ⟨rfl, hne⟩; exact hne h0
    · rw [PendingOp.remove.injEq, Call.remove.injEq]
      exact ⟨fun h => ⟨h, h ▸ h0⟩, And.left⟩
  | _ => simp [Call.op]

/-- For the operations, an addition of a pointer that is not null is in effect. -/
theorem inEffect_op_iff {calls : List (Call P)} {e : P} {n : Nat} :
    InEffect (calls.map Call.op) e n ↔ e ≠ 0 ∧ AddedAt calls e n := by
  have hadd : (calls.map Call.op)[n]? = some (.add e) ↔ e ≠ 0 ∧ ∃ call, calls[n]? = some call ∧ Adds e call := by
    simp only [List.getElem?_map, Option.map_eq_some_iff, op_eq_add_iff]
    constructor
    · rintro ⟨call, hcall, hadds, h0⟩; exact ⟨h0, call, hcall, hadds⟩
    · rintro ⟨h0, call, hcall, hadds⟩; exact ⟨call, hcall, hadds, h0⟩
  have hremove : e ≠ 0 → (.remove e ∈ (calls.map Call.op).drop (n + 1) ↔ .remove e ∈ calls.drop (n + 1)) := by
    intro h0
    rw [← List.map_drop, List.mem_map]
    simp only [op_eq_remove_iff, ne_eq, h0, not_false_eq_true, and_true]
    exact ⟨fun ⟨_, hmem, heq⟩ => heq ▸ hmem, fun hmem => ⟨_, hmem, rfl⟩⟩
  unfold InEffect AddedAt
  rw [hadd, and_assoc]
  exact and_congr_right fun h0 => and_congr_right fun _ => not_congr (hremove h0)

theorem AddedBefore.of_earlier {calls : List (Call P)} {a b : P} (h : Earlier (calls.map Call.op) a b) :
    AddedBefore calls a b := by
  obtain ⟨m, n, hm, hn, hlt⟩ := h
  have hset : ∀ {e : P} {k : Nat}, FirstInEffect (calls.map Call.op) e k → IsLeast {n | AddedAt calls e n} k := by
    intro e k hk
    obtain ⟨h0, hadded⟩ := inEffect_op_iff.1 hk.1
    exact ⟨hadded, fun i hi => hk.2 (inEffect_op_iff.2 ⟨h0, hi⟩)⟩
  exact ⟨m, n, hset hm, hset hn, hlt⟩

/-! ## The next sweep -/

omit [Zero P] [DecidableEq P] in
/-- The enter event of a sweep is the only one it dispatches with a true state. -/
theorem enters_onFrame {memory : Memory P} {c : Context P} (hs : c.state = true) :
    (onFrame memory c).2.filter (·.state) =
      dispatchUnlessEmpty { list := c.admitted memory, state := true } := by
  have hkeep : ∀ event : Event P, (dispatchUnlessEmpty event).filter (·.state) =
      if event.state then dispatchUnlessEmpty event else [] := fun event => by
    unfold dispatchUnlessEmpty
    split_ifs <;> simp_all
  rw [onFrame_eq hs, List.filter_append, hkeep, hkeep]
  simp

/-- After a batch the queue holds the entities added after their last removal, each once, ordered by the
first such addition, and the next sweep enters them less the ones that are free by then. -/
theorem batch_exact {c : Context P} (hq : c.queue = []) (calls : List (Call P))
    (h : ∀ p call, p ++ [call] <+: calls → Batched (machine.exec c p) call) :
    let c' := machine.exec c calls
    (∀ e, e ∈ c'.queue ↔ e ≠ 0 ∧ ∃ n, AddedAt calls e n) ∧ c'.queue.Nodup ∧
      c'.queue.Pairwise (AddedBefore calls) ∧
      (c'.state = true → ∀ memory, (onFrame memory c').1.queue = [] ∧
        (onFrame memory c').2.filter (·.state) =
          dispatchUnlessEmpty { list := c'.queue.filter fun e => !memory.isFree e, state := true }) := by
  intro c'
  have hpending : IsPending (calls.map Call.op) c'.queue := by
    show IsPending _ (machine.exec c calls).queue
    rw [queue_batch hq calls h]; exact isPending _
  refine ⟨fun e => ?_, hpending.nodup, hpending.order.imp AddedBefore.of_earlier, fun hs memory => ?_⟩
  · rw [hpending.mem]
    simp only [Effective, inEffect_op_iff, exists_and_left]
  · exact ⟨by rw [onFrame_eq hs], enters_onFrame hs⟩

/-- An entity that is created again after its removal queues behind the one spawned in between; the entity
of the overriding plugin is added in place of the one the engine has created. -/
theorem batch_exact_readded :
    let calls : List (Call Nat) := [.frame (Memory.freeing []), .create { original := some 1 }, .spawn 2, .remove 1,
      .create { original := some 3, override := some 1 }, .init]
    AddedBefore calls 2 1 ∧ (¬ ∃ n, AddedAt calls 3 n) ∧
      (onFrame (Memory.freeing [1]) (machine.exec {} calls)).2.filter (·.state) = [{ list := [2], state := true }] := by
  intro calls
  have hbatch : ∀ p call, p ++ [call] <+: calls → Batched (machine.exec {} p) call := by
    simp only [calls, machine.forall_step_cons]
    exact ⟨rfl, trivial, trivial, trivial, trivial, trivial, machine.forall_step_nil⟩
  obtain ⟨hmem, -, horder, hnext⟩ := batch_exact (c := {}) rfl calls hbatch
  have hqueue : (machine.exec {} calls).queue = [2, 1] := by decide
  refine ⟨?_, fun hadded => ?_, (hnext (by decide) (Memory.freeing [1])).2.trans (by rw [hqueue]; decide)⟩
  · rw [hqueue] at horder
    exact (List.pairwise_cons.1 horder).1 1 (by simp)
  · have hthree := (hmem 3).2 ⟨by decide, hadded⟩
    rw [hqueue] at hthree
    exact absurd hthree (by decide)

end Refrigerator.Tracker
