/-
The freezer capacity as a number: what `fadeout_freezer_capacity_` computes on the engine's 32-bit
integers, and the threshold that thinking and frames read from opposite sides.
-/
import Refrigerator.Butchering.Freeze
import Refrigerator.Butchering.Thaw
import Refrigerator.Lib.Checked

namespace Refrigerator.Butchering

open Lib Bindings

/-! ## The integers -/

/-- The entities kept for others: a quarter of the maximum, but 128 at least. -/
def reserve (maximum : Int) : Int := max 128 (maximum / 4)

/-- How many more entities there may be before the reserve is touched. -/
def capacity (maximum total : Int) : Int := max 0 (maximum - reserve maximum - total)

/-- The capacity grows with the limit and shrinks with the count. -/
theorem capacity_le {maximum maximum' total total' : Int} (hm : maximum ≤ maximum') (ht : total' ≤ total) :
    capacity maximum total ≤ capacity maximum' total' := by
  unfold capacity reserve
  omega

theorem capacity_of_nonpos {maximum total : Int} (hm : maximum ≤ 0) (ht : 0 ≤ total) : capacity maximum total = 0 := by
  unfold capacity reserve
  omega

theorem capacity_pos_iff {maximum total : Int} : 0 < capacity maximum total ↔ total < maximum - reserve maximum := by
  unfold capacity
  omega

/-- `fadeout_freezer_capacity_` on 32-bit integers, with no value where the behaviour is undefined. -/
def fadeoutFreezerCapacityChecked (maxEntities numberOfEntities : Option Int32) : Option Nat :=
  match maxEntities, numberOfEntities with
  | none, _ => some 0
  | some _, none => some 0
  | some maximum, some total =>
    if ¬ 0 < maximum then some 0
    else do
      let reserved := max 128 (← checkedDiv maximum 4)
      if ¬ reserved < maximum then return 0
      let limit ← checkedSub maximum reserved
      if limit > total then return (← checkedSub limit total).toInt.toNat
      return 0

/-- The engine's limit and count of entities are these. -/
structure Counts (engine : Engine) (maximum total : Int32) : Prop where
  globals : engine.globals = some { maxEntities := maximum.toInt }
  numberOfEntities : engine.functions.numberOfEntities = some total.toInt

theorem capacity_eq {engine : Engine} {maximum total : Int32} (h : Counts engine maximum total) (ht : 0 ≤ total.toInt) :
    (fadeoutFreezerCapacity engine : Int) = capacity maximum.toInt total.toInt := by
  unfold fadeoutFreezerCapacity capacity reserve
  rw [h.globals, h.numberOfEntities]
  by_cases hm : 0 < maximum.toInt
  · have hdiv : maximum.toInt.tdiv 4 = maximum.toInt / 4 := Int.tdiv_eq_ediv_of_nonneg hm.le
    simp only [hm, hdiv, not_true_eq_false, if_false]
    split_ifs <;> omega
  · simp only [hm, not_false_eq_true, if_true]
    omega

/-- No operation overflows. -/
theorem checked_eq {engine : Engine} {maximum total : Int32} (h : Counts engine maximum total) (ht : 0 ≤ total.toInt) :
    fadeoutFreezerCapacityChecked (some maximum) (some total) = some (fadeoutFreezerCapacity engine) := by
  obtain ⟨quarter, hdiv, hquarter⟩ := checkedDiv_eq (a := maximum) (b := 4) (by decide)
  have hreserved : (max 128 quarter).toInt = max 128 (maximum.toInt.tdiv 4) := by
    rw [toInt_max, hquarter]; rfl
  unfold fadeoutFreezerCapacityChecked fadeoutFreezerCapacity
  rw [h.globals, h.numberOfEntities]
  simp only [gt_iff_lt, Int32.lt_iff_toInt_lt, Int32.toInt_zero, hdiv, Option.bind_eq_bind, Option.bind_some, hreserved]
  by_cases hm : 0 < maximum.toInt
  · by_cases hr : max 128 (maximum.toInt.tdiv 4) < maximum.toInt
    · obtain ⟨limit, hsub, hlimit⟩ : ∃ c, checkedSub maximum (max 128 quarter) = some c ∧ c.toInt = _ :=
        checkedSub_of_nonneg (by omega) (by omega)
      rw [hreserved] at hlimit
      by_cases hl : total.toInt < limit.toInt
      · obtain ⟨rest, hrest, hvalue⟩ := checkedSub_of_nonneg (a := limit) (b := total) (by omega) ht
        rw [hlimit] at hl hvalue
        rw [← hvalue]
        simp [hm, hr, hsub, hrest, hlimit, hl]
      · rw [hlimit] at hl
        simp [hm, hr, hsub, hlimit, hl]
    · simp [hm, hr]
  · simp [hm]

/-! ## Runs of thinking and frames -/

/-- A call of `on_think` or `on_frame`, with the engine as it is then. -/
inductive Handling (P : Type*)
  | think (engine : Engine) (entity : P)
  | frame (engine : Engine)

variable {P : Type*}

def Handling.engine : Handling P → Engine
  | .think engine _ => engine
  | .frame engine => engine

/-- What a call does to an entity. -/
inductive Effect (P : Type*)
  | freezes (entity : P)
  | thaws (entity : P)

variable [LinearOrder P] [Zero P]

def handle (context : Context P) (memory : Memory P) : Handling P → Memory P × List (Effect P)
  | .think engine entity =>
    let (answer, memory) := onThink engine memory context entity
    (memory, if answer = .supercede then [.freezes entity] else [])
  | .frame engine => (onFrame engine memory context, ((thawed engine memory context).map .thaws).toList)

def handling (context : Context P) : Machine (Memory P) (Handling P) (Effect P) := ⟨handle context⟩

theorem freezes_iff {context : Context P} {memory : Memory P} {call : Handling P} {e : P} :
    .freezes e ∈ (handling context).emit memory call ↔
      ∃ engine, call = .think engine e ∧ (onThink engine memory context e).1 = .supercede := by
  show _ ∈ (handle context memory call).2 ↔ _
  cases call with
  | think engine entity =>
    show _ ∈ (if (onThink engine memory context entity).1 = .supercede then [Effect.freezes entity] else []) ↔ _
    split_ifs with hs
    · constructor
      · intro he
        obtain rfl : e = entity := by simpa using he
        exact ⟨engine, rfl, hs⟩
      · rintro ⟨_, heq, -⟩; cases heq; simp
    · constructor
      · intro he; cases he
      · rintro ⟨_, heq, hs'⟩; cases heq; exact absurd hs' hs
  | frame engine => simp [handle]

theorem thaws_iff {context : Context P} {memory : Memory P} {call : Handling P} {e : P} :
    .thaws e ∈ (handling context).emit memory call ↔
      ∃ engine, call = .frame engine ∧ thawed engine memory context = some e := by
  show _ ∈ (handle context memory call).2 ↔ _
  cases call with
  | think engine entity =>
    show _ ∈ (if (onThink engine memory context entity).1 = .supercede then [Effect.freezes entity] else []) ↔ _
    split_ifs <;> simp
  | frame engine => simp [handle]

theorem onThink_supercede {engine : Engine} {memory : Memory P} {context : Context P} {e : P}
    (h : (onThink engine memory context e).1 = .supercede) :
    0 < fadeoutFreezerCapacity engine ∧ e ∈ context.gibses ∧
      (onThink engine memory context e).2 = memory.setVariables e (freeze (memory e).v) := by
  have hc : 0 < fadeoutFreezerCapacity engine := by
    unfold onThink at h
    split_ifs at h with h0 hg hc
    exact hc
  rcases onThink_cases engine memory context e with ⟨answer, hne, heq⟩ | ⟨hg, heq⟩
  · rw [heq] at h; exact absurd h hne
  · exact ⟨hc, hg, by rw [heq]⟩

section Threshold

variable {maximum total : Int32} (ht : 0 ≤ total.toInt)
include ht

theorem capacity_pos_engine {engine : Engine} (h : Counts engine maximum total) :
    0 < fadeoutFreezerCapacity engine ↔ total.toInt < maximum.toInt - reserve maximum.toInt := by
  have heq := capacity_eq h ht
  rw [← capacity_pos_iff, ← heq]
  omega

/-- Freezing leaves the reserve unused, and takes a gib. -/
theorem freezes_spec {context : Context P} {memory : Memory P} {call : Handling P} {e : P}
    (h : Counts call.engine maximum total) (he : .freezes e ∈ (handling context).emit memory call) :
    total.toInt < maximum.toInt - reserve maximum.toInt ∧ e ∈ context.gibses ∧
      ((handling context).next memory call e).v.nextthink = .infinity := by
  obtain ⟨engine, rfl, hs⟩ := freezes_iff.1 he
  obtain ⟨hc, hg, hmemory⟩ := onThink_supercede hs
  refine ⟨(capacity_pos_engine ht h).1 hc, hg, ?_⟩
  show ((onThink engine memory context e).2 e).v.nextthink = .infinity
  rw [hmemory, Memory.v_setVariables, if_pos rfl]; rfl

theorem thaws_spec {context : Context P} {memory : Memory P} {call : Handling P} {e : P}
    (h : Counts call.engine maximum total) (he : .thaws e ∈ (handling context).emit memory call) :
    ¬ total.toInt < maximum.toInt - reserve maximum.toInt := by
  obtain ⟨engine, rfl, hs⟩ := thaws_iff.1 he
  have hc := (thawed_spec hs).1
  rw [← capacity_pos_engine ht h]
  show ¬ 0 < fadeoutFreezerCapacity engine
  omega

end Threshold

/-- A call without an effect leaves the memory as it is. -/
theorem next_of_silent {context : Context P} {memory : Memory P} {call : Handling P}
    (h : (handling context).emit memory call = []) : (handling context).next memory call = memory := by
  cases call with
  | think engine entity =>
    rcases onThink_cases engine memory context entity with ⟨answer, -, heq⟩ | ⟨-, heq⟩
    · show (onThink engine memory context entity).2 = memory
      rw [heq]
    · have hfreezes : .freezes entity ∈ (handling context).emit memory (.think engine entity) :=
        freezes_iff.2 ⟨engine, rfl, by rw [heq]⟩
      rw [h] at hfreezes; cases hfreezes
  | frame engine =>
    show onFrame engine memory context = memory
    unfold onFrame
    cases ht : thawed engine memory context with
    | none => rfl
    | some e =>
      have hthaws : .thaws e ∈ (handling context).emit memory (.frame engine) := thaws_iff.2 ⟨engine, rfl, ht⟩
      rw [h] at hthaws; cases hthaws

/-- While the limit and the count stay the same, thinking and frames stand on one side of the
threshold: no call freezes, or no call thaws. -/
theorem freezes_or_thaws {maximum total : Int32} (ht : 0 ≤ total.toInt) (context : Context P) (memory : Memory P)
    (calls : List (Handling P)) (h : ∀ call ∈ calls, Counts call.engine maximum total) :
    (∀ e, .freezes e ∉ (handling context).emitted memory calls) ∨
      ∀ e, .thaws e ∉ (handling context).emitted memory calls := by
  have hside : ∀ (R : Effect P → Prop), (∀ memory call, Counts call.engine maximum total →
      ∀ effect ∈ (handling context).emit memory call, R effect) →
      ∀ effect ∈ (handling context).emitted memory calls, R effect := fun R hR =>
    (handling context).forall_emitted_of_steps (I := fun _ => True)
      (C := fun _ call => Counts call.engine maximum total) trivial (fun _ _ _ _ => trivial)
      (fun memory call _ hcall => hR memory call hcall) calls
      fun p call hp => h call (hp.subset (by simp))
  by_cases hlt : total.toInt < maximum.toInt - reserve maximum.toInt
  · refine Or.inr fun e he => hside (fun effect => effect ≠ .thaws e) ?_ _ he rfl
    rintro memory call hcall effect hmem rfl
    exact thaws_spec ht hcall hmem hlt
  · refine Or.inl fun e he => hside (fun effect => effect ≠ .freezes e) ?_ _ he rfl
    rintro memory call hcall effect hmem rfl
    exact hlt (freezes_spec ht hcall hmem).1

/-- The capacity is computed without overflow, grows with the limit and shrinks with the count; freezing
needs it and thawing needs it gone, so while both stay the same no run of calls does both. -/
theorem capacity_respected {maximum total : Int32} (ht : 0 ≤ total.toInt) :
    (∀ engine, Counts engine maximum total →
      fadeoutFreezerCapacityChecked (some maximum) (some total) = some (fadeoutFreezerCapacity engine) ∧
      (fadeoutFreezerCapacity engine : Int) = capacity maximum.toInt total.toInt ∧
      (maximum.toInt ≤ 0 → fadeoutFreezerCapacity engine = 0) ∧
      ∀ engine' maximum' total', Counts engine' maximum' total' → 0 ≤ total'.toInt →
        maximum.toInt ≤ maximum'.toInt → total'.toInt ≤ total.toInt →
        fadeoutFreezerCapacity engine ≤ fadeoutFreezerCapacity engine') ∧
      ∀ (context : Context P) (memory : Memory P) (calls : List (Handling P)),
        (∀ call ∈ calls, Counts call.engine maximum total) →
        ((∀ e, .freezes e ∉ (handling context).emitted memory calls) ∨
          ∀ e, .thaws e ∉ (handling context).emitted memory calls) ∧
        ∀ p call, p ++ [call] <+: calls →
          let reached := (handling context).exec memory p
          (∀ e, .freezes e ∈ (handling context).emit reached call →
            total.toInt < maximum.toInt - reserve maximum.toInt ∧ e ∈ context.gibses ∧
              ((handling context).next reached call e).v.nextthink = .infinity) ∧
          (∀ e, .thaws e ∈ (handling context).emit reached call →
            ¬ total.toInt < maximum.toInt - reserve maximum.toInt) ∧
          ((handling context).emit reached call = [] → (handling context).next reached call = reached) := by
  refine ⟨fun engine h => ?_, fun context memory calls h => ?_⟩
  · have heq := capacity_eq h ht
    refine ⟨checked_eq h ht, heq, fun hm => ?_, fun engine' maximum' total' h' ht' hmax htotal => ?_⟩
    · rw [capacity_of_nonpos hm ht] at heq; omega
    · have heq' := capacity_eq h' ht'
      have hle := capacity_le hmax htotal
      omega
  · refine ⟨freezes_or_thaws ht context memory calls h, fun p call hp => ?_⟩
    have hcall : Counts call.engine maximum total := h call (hp.subset (by simp))
    exact ⟨fun e he => freezes_spec ht hcall he, fun e he => thaws_spec ht hcall he, next_of_silent⟩

/-- With 1000 entities at most and 749 in use a gib can be frozen, and a run that does it thaws none. With 750
none can. -/
theorem capacity_respected_quarter :
    let engine : Engine := { functions.numberOfEntities := some 749, globals := some { maxEntities := 1000 } }
    let calls : List (Handling Nat) := [.think engine 1, .think engine 1, .frame engine]
    (∀ memory : Memory Nat, ∀ e, .thaws e ∉ (handling { gibses := {1} }).emitted memory calls) ∧
      (∀ engine, Counts engine 1000 749 → fadeoutFreezerCapacity engine = 1) ∧
      ∀ engine, Counts engine 1000 750 → fadeoutFreezerCapacity engine = 0 := by
  intro engine calls
  refine ⟨fun memory => ?_, fun engine h => ?_, fun engine h => ?_⟩
  · have hcounts : ∀ call ∈ calls, Counts call.engine 1000 749 := by
      simp only [calls, List.forall_mem_cons, List.not_mem_nil, false_imp_iff, implies_true, and_true]
      exact ⟨⟨rfl, rfl⟩, ⟨rfl, rfl⟩, ⟨rfl, rfl⟩⟩
    obtain ⟨hnone | hnone, -⟩ := (capacity_respected (P := Nat) (by decide)).2 { gibses := {1} } memory calls hcounts
    · exact absurd (List.mem_append_left _ (freezes_iff.2 ⟨_, rfl, rfl⟩)) (hnone 1)
    · exact hnone
  · have heq := ((capacity_respected (P := Nat) (by decide)).1 engine h).2.1
    have hone : capacity (Int32.toInt 1000) (Int32.toInt 749) = 1 := by decide
    omega
  · have heq := ((capacity_respected (P := Nat) (by decide)).1 engine h).2.1
    have hzero : capacity (Int32.toInt 1000) (Int32.toInt 750) = 0 := by decide
    omega

end Refrigerator.Butchering
