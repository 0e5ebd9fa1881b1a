/-
Actions that change the world they run in: the dispatch of an event to subscribers that share a state.

The dispatcher calls its subscribers one after another, in an order that the plugin does not know.
What an event does to the cells of `target_handler` is what the answers of its actions do there
(`foldl_handle_state`). The order makes no difference if of any two subscribers of the same event one
is idle (`foldl_handle_perm`).
-/
import Refrigerator.Bindings.Faults
import Mathlib.Data.List.Pairwise

namespace Refrigerator.Bindings

open Metamod

variable {I W E X V : Type} {Output : Target → Type}

/-! ## Handlers -/

/-- A subscribed action with its key and phase: it gets the input of an event and the world, and leaves
its answer, the world after it and its effects elsewhere. -/
structure ActionHandler (I W E X : Type) (Output : Target → Type) where
  key : Target
  phase : Phase
  action : I → W → Answer X phase (Output key) × W × List E

/-- An event on its way through the subscribers. -/
structure Progress (W E X V : Type) where
  world : W
  state : State X V := {}
  effects : List E := []

/-- An answer without a value only raises the result. -/
theorem respond_valueless {answer : Answer X phase V} {r : HookResult} (h : answer.reply = some (r, none))
    (merged : HookResult) : respond answer { merged } = ({ merged := max merged r } : State X V) := by
  rw [respond_reply h]
  rcases le_or_gt r merged with hle | hlt
  · rw [absorb_le hle, max_eq_left hle]; rfl
  · rw [absorb_lt hlt, max_eq_right hlt.le]; rfl

theorem reply_void {phase : Phase} : (.void : Answer X phase V).reply = some (.handled, none) := by
  cases phase with
  | before => rfl
  | after => rfl

namespace ActionHandler

/-- The subscriber that the action is in this world. -/
def subscriber (handler : ActionHandler I W E X Output) (input : I) (world : W) : Subscriber X Output where
  key := handler.key
  phase := handler.phase
  action := (handler.action input world).1

/-- `action_handler`, with its two filters. -/
def handle (key : Target) (phase : Phase) (input : I) (progress : Progress W E X (Output key))
    (handler : ActionHandler I W E X Output) : Progress W E X (Output key) :=
  if handler.key ≠ key then progress
  else if handler.phase ≠ phase then progress
  else
    let (_, world, effects) := handler.action input progress.world
    { world
      state := actionHandler key phase progress.state (handler.subscriber input progress.world)
      effects := progress.effects ++ effects }

variable {key : Target} {phase : Phase} {input : I} {progress : Progress W E X (Output key)}
  {handler : ActionHandler I W E X Output}

theorem handle_other (h : handler.key ≠ key ∨ handler.phase ≠ phase) :
    handler.handle key phase input progress = progress := by
  unfold handle
  by_cases hkey : handler.key = key
  · rw [if_neg (not_not.2 hkey), if_pos (h.resolve_left (not_not.2 hkey))]
  · rw [if_pos hkey]

theorem handle_own (hkey : handler.key = key) (hphase : handler.phase = phase) :
    handler.handle key phase input progress =
      { world := (handler.action input progress.world).2.1
        state := actionHandler key phase progress.state (handler.subscriber input progress.world)
        effects := progress.effects ++ (handler.action input progress.world).2.2 } := by
  unfold handle
  rw [if_neg (not_not.2 hkey), if_neg (not_not.2 hphase)]

/-! ## Answers -/

/-- The handler answers nothing. -/
def Void (handler : ActionHandler I W E X Output) : Prop := ∀ input world, (handler.action input world).1 = .void

/-- The handler does nothing. -/
def Idle (handler : ActionHandler I W E X Output) : Prop :=
  ∀ input world, handler.action input world = (.void, world, [])

theorem Idle.void (h : handler.Idle) : handler.Void := fun input world => by rw [h]

theorem Void.handle_own (h : handler.Void) (hkey : handler.key = key) (hphase : handler.phase = phase) :
    handler.handle key phase input progress =
      { world := (handler.action input progress.world).2.1
        state := respond (.void : Answer X phase (Output key)) progress.state
        effects := progress.effects ++ (handler.action input progress.world).2.2 } := by
  rw [ActionHandler.handle_own hkey hphase]
  obtain ⟨key', phase', action⟩ := handler
  subst hkey hphase
  have hvoid : (action input progress.world).1 = .void := h input progress.world
  unfold actionHandler subscriber
  rw [hvoid, matching_eq_some_iff.2 rfl]

/-- An answer without a value only raises the result. -/
theorem handle_valueless (hkey : handler.key = key) (hphase : handler.phase = phase) {world : W} {r : HookResult}
    (h : (handler.action input world).1.reply = some (r, none)) (merged : HookResult) (effects : List E) :
    handler.handle key phase input { world, state := { merged }, effects } =
      { world := (handler.action input world).2.1
        state := { merged := max merged r }
        effects := effects ++ (handler.action input world).2.2 } := by
  rw [handle_own hkey hphase]
  obtain ⟨key', phase', action⟩ := handler
  subst hkey hphase
  unfold actionHandler subscriber
  rw [matching_eq_some_iff.2 rfl]
  exact congrArg (Progress.mk _ · _) (respond_valueless h merged)

/-! ## The cells -/

/-- The subscribers of an event, each as it is in the world it meets. -/
def subscribers (key : Target) (phase : Phase) (input : I) :
    W → List (ActionHandler I W E X Output) → List (Subscriber X Output)
  | _, [] => []
  | world, handler :: handlers =>
    let progress : Progress W E X (Output key) := { world }
    handler.subscriber input world ::
      subscribers key phase input (handler.handle key phase input progress).world handlers

/-- The world does not depend on the cells. -/
theorem handle_world (progress progress' : Progress W E X (Output key)) (h : progress.world = progress'.world) :
    (handler.handle key phase input progress).world = (handler.handle key phase input progress').world := by
  by_cases hmatch : handler.key = key ∧ handler.phase = phase
  · rw [handle_own hmatch.1 hmatch.2, handle_own hmatch.1 hmatch.2, h]
  · rw [handle_other (not_and_or.1 hmatch), handle_other (not_and_or.1 hmatch), h]

theorem handle_state (progress : Progress W E X (Output key)) :
    (handler.handle key phase input progress).state =
      actionHandler key phase progress.state (handler.subscriber input progress.world) := by
  by_cases hmatch : handler.key = key ∧ handler.phase = phase
  · rw [handle_own hmatch.1 hmatch.2]
  · rw [handle_other (not_and_or.1 hmatch)]
    have hnone : (handler.subscriber input progress.world).matching key phase = none := by
      rw [Option.eq_none_iff_forall_not_mem]
      intro action haction
      have heq := matching_eq_some_iff.1 haction
      exact hmatch ⟨congrArg Subscriber.key heq, congrArg Subscriber.phase heq⟩
    unfold actionHandler
    rw [hnone]

/-- The cells are those that the answers make. -/
theorem foldl_handle_state (handlers : List (ActionHandler I W E X Output))
    (progress : Progress W E X (Output key)) :
    (handlers.foldl (handle key phase input) progress).state =
      (subscribers key phase input progress.world handlers).foldl (actionHandler key phase) progress.state := by
  induction handlers generalizing progress with
  | nil => rfl
  | cons handler handlers ih =>
    rw [List.foldl_cons, ih, handle_state, handle_world progress { world := progress.world } rfl]
    rfl

/-- Only the subscribers of the key and phase count. -/
theorem foldl_handle_filter (handlers : List (ActionHandler I W E X Output)) (progress : Progress W E X (Output key)) :
    handlers.foldl (handle key phase input) progress =
      (handlers.filter fun handler => handler.key = key ∧ handler.phase = phase).foldl (handle key phase input)
        progress := by
  induction handlers generalizing progress with
  | nil => rfl
  | cons handler handlers ih =>
    by_cases hmatch : handler.key = key ∧ handler.phase = phase
    · rw [List.filter_cons, if_pos (decide_eq_true hmatch), List.foldl_cons, List.foldl_cons, ih]
    · rw [List.filter_cons, if_neg (by rwa [decide_eq_true_iff]), List.foldl_cons,
        handle_other (not_and_or.1 hmatch), ih]

/-! ## The order of the subscribers -/

/-- The two never meet an event together, or one of them does nothing there. -/
def Independent (handler other : ActionHandler I W E X Output) : Prop :=
  (handler.key ≠ other.key ∨ handler.phase ≠ other.phase) ∨
    (handler.Idle ∧ other.Void) ∨ (handler.Void ∧ other.Idle)

variable {other : ActionHandler I W E X Output}

instance : Std.Symm (@Independent I W E X Output) where
  symm handler other h := by
    rcases h with h | ⟨hidle, hvoid⟩ | ⟨hvoid, hidle⟩
    · exact Or.inl (h.imp Ne.symm Ne.symm)
    · exact Or.inr (Or.inr ⟨hvoid, hidle⟩)
    · exact Or.inr (Or.inl ⟨hidle, hvoid⟩)

/-- An idle handler can be moved past one that answers nothing. -/
theorem handle_idle_comm (hidle : handler.Idle) (hvoid : other.Void) :
    other.handle key phase input (handler.handle key phase input progress) =
      handler.handle key phase input (other.handle key phase input progress) := by
  by_cases hhandler : handler.key = key ∧ handler.phase = phase
  · by_cases hother : other.key = key ∧ other.phase = phase
    · rw [hidle.void.handle_own hhandler.1 hhandler.2, hidle.void.handle_own hhandler.1 hhandler.2,
        hvoid.handle_own hother.1 hother.2, hvoid.handle_own hother.1 hother.2, hidle, hidle]
      simp
    · rw [handle_other (not_and_or.1 hother), handle_other (not_and_or.1 hother)]
  · rw [handle_other (not_and_or.1 hhandler), handle_other (not_and_or.1 hhandler)]

theorem Independent.comm (h : handler.Independent other) :
    other.handle key phase input (handler.handle key phase input progress) =
      handler.handle key phase input (other.handle key phase input progress) := by
  rcases h with h | ⟨hidle, hvoid⟩ | ⟨hvoid, hidle⟩
  · by_cases hhandler : handler.key = key ∧ handler.phase = phase
    · obtain ⟨rfl, rfl⟩ := hhandler
      have hskip (progress : Progress W E X (Output handler.key)) :
          other.handle handler.key handler.phase input progress = progress := handle_other (h.imp Ne.symm Ne.symm)
      rw [hskip, hskip]
    · rw [handle_other (not_and_or.1 hhandler), handle_other (not_and_or.1 hhandler)]
  · exact handle_idle_comm hidle hvoid
  · exact (handle_idle_comm hidle hvoid).symm

/-- Independent subscribers can be called in any order. -/
theorem foldl_handle_perm {handlers handlers' : List (ActionHandler I W E X Output)}
    (h : handlers.Pairwise Independent) (hperm : handlers.Perm handlers') :
    handlers.foldl (handle key phase input) progress = handlers'.foldl (handle key phase input) progress := by
  refine hperm.foldl_eq' (fun handler hhandler other hother progress => ?_) progress
  by_cases heq : handler = other
  · rw [heq]
  · exact (h.forall hhandler hother heq).comm

end ActionHandler

/-- The order in which a dispatcher calls its subscribers. -/
structure Order (A : Type) where
  arrange : List A → List A
  perm : ∀ subscribers, (arrange subscribers).Perm subscribers

/-- The order in which they have subscribed. -/
def Order.subscribed {A : Type} : Order A where
  arrange := id
  perm := List.Perm.refl

end Refrigerator.Bindings
