/-
Faulty and unrelated subscribers: what an event leaves does not depend on the subscribers that are
filtered out or throw, but for the error records.

`handleEvent` runs a subscriber with its exceptions explicit. An exception of the action is caught
before it reaches the dispatcher, so every subscriber is run (`dispatch_run`).
-/
import Refrigerator.Bindings.Merge

namespace Refrigerator.Bindings

open Metamod

variable {P X V : Type} {Output : Target → Type}

/-! ## Exceptions on the way -/

/-- A computation on the cells of an event that may throw. -/
abbrev EventM (X V : Type) := ExceptT X (StateM (State X V))

/-- The call of an action through `Type::inject`. -/
def runAction {phase : Phase} (action : Answer X phase V) : EventM X V (Meta phase) := fun state =>
  let (answer, output) := inject action state.temporary
  (answer, { state with temporary := output })

/-- `action_handler`. -/
def handleEvent (key : Target) (phase : Phase) (subscriber : Subscriber X Output) : EventM X (Output key) Unit :=
  match subscriber.matching key phase with
  | none => pure ()
  | some action => do
    let reply ← tryCatch (transform <$> runAction action) fun exception => do
      modify fun state => response state (.inl exception)
      pure .unset
    if .unset < reply then modify fun state => response state (.inr reply)

/-- The dispatcher: one subscriber after another, until one throws. -/
def dispatch (key : Target) (phase : Phase) (subscribers : List (Subscriber X Output)) : EventM X (Output key) Unit :=
  forM subscribers (handleEvent key phase)

theorem run_replied (reply : HookResult) (state : State X V) :
    (if .unset < reply then modify fun state => response state (.inr reply)
      else pure () : EventM X V Unit).run.run state =
      (.ok (), if .unset < reply then response state (.inr reply) else state) := by
  split <;> rfl

/-- No exception leaves a subscriber. -/
theorem handleEvent_run (key : Target) (phase : Phase) (subscriber : Subscriber X Output)
    (state : State X (Output key)) :
    (handleEvent key phase subscriber).run.run state = (.ok (), actionHandler key phase state subscriber) := by
  unfold handleEvent actionHandler
  cases subscriber.matching key phase with
  | none => rfl
  | some action =>
    cases action with
    | throws exception => exact run_replied .unset _
    | void => exact run_replied (transform Meta.handled) _
    | value output => exact run_replied (transform Meta.handled) _
    | alone answered => exact run_replied (transform answered) _
    | result answered output => exact run_replied (transform answered) _

/-- The dispatcher reaches the end of its subscribers. -/
theorem dispatch_run (key : Target) (phase : Phase) (subscribers : List (Subscriber X Output))
    (state : State X (Output key)) :
    (dispatch key phase subscribers).run.run state = (.ok (), subscribers.foldl (actionHandler key phase) state) := by
  unfold dispatch
  induction subscribers generalizing state with
  | nil => rfl
  | cons subscriber subscribers ih =>
    rw [List.forM_cons, ExceptT.run_bind, StateT.run_bind, handleEvent_run]
    exact ih _

/-! ## Deleting subscribers -/

/-- The subscriber is registered for another key or phase, or its action throws. -/
def Subscriber.Inert (subscriber : Subscriber X Output) (key : Target) (phase : Phase) : Prop :=
  subscriber.key ≠ key ∨ subscriber.phase ≠ phase ∨ ∃ exception, subscriber.action = .throws exception

/-- The second list is the first without some of its inert subscribers. -/
inductive Thinned (key : Target) (phase : Phase) : List (Subscriber X Output) → List (Subscriber X Output) → Prop
  | nil : Thinned key phase [] []
  | keep {subscribers subscribers'} (subscriber : Subscriber X Output)
      (h : Thinned key phase subscribers subscribers') :
      Thinned key phase (subscriber :: subscribers) (subscriber :: subscribers')
  | drop {subscribers subscribers'} {subscriber : Subscriber X Output} (hs : subscriber.Inert key phase)
      (h : Thinned key phase subscribers subscribers') : Thinned key phase (subscriber :: subscribers) subscribers'

theorem matching_eq_some_iff {subscriber : Subscriber X Output} {key : Target} {phase : Phase}
    {action : Answer X phase (Output key)} :
    subscriber.matching key phase = some action ↔ subscriber = { key, phase, action } := by
  obtain ⟨key', phase', action'⟩ := subscriber
  unfold Subscriber.matching
  by_cases hkey : key' = key
  · subst hkey
    by_cases hphase : phase' = phase
    · subst hphase; simp
    · simp [hphase]
  · simp [hkey]

/-- An inert subscriber has no reply. -/
theorem Subscriber.Inert.no_reply {subscriber : Subscriber X Output} {key : Target} {phase : Phase}
    (h : subscriber.Inert key phase) : (subscriber.matching key phase).bind Answer.reply = none := by
  cases hm : subscriber.matching key phase with
  | none => rfl
  | some action =>
    obtain rfl := matching_eq_some_iff.1 hm
    rcases h with h | h | ⟨exception, h⟩
    · exact absurd rfl h
    · exact absurd rfl h
    · obtain rfl : action = .throws exception := h
      rfl

theorem Thinned.replies_eq {key : Target} {phase : Phase} {subscribers subscribers' : List (Subscriber X Output)}
    (h : Thinned key phase subscribers subscribers') :
    replies subscribers key phase = replies subscribers' key phase := by
  induction h with
  | nil => rfl
  | keep subscriber h ih =>
    unfold replies at ih ⊢
    rw [List.filterMap_cons, List.filterMap_cons, ih]
  | drop hs h ih =>
    unfold replies at ih ⊢
    rw [List.filterMap_cons, hs.no_reply, ih]

/-- What an event reports and returns is a matter of its replies. -/
theorem targetHandler_congr {key : Target} {phase : Phase} {subscribers subscribers' : List (Subscriber X Output)}
    (h : replies subscribers key phase = replies subscribers' key phase) (globals : Option (Globals P)) :
    (targetHandler subscribers key phase globals).globals = (targetHandler subscribers' key phase globals).globals ∧
      (targetHandler subscribers key phase globals).result = (targetHandler subscribers' key phase globals).result := by
  unfold targetHandler
  rw [foldl_actionHandler, foldl_actionHandler, h]
  exact ⟨rfl, rfl⟩

theorem targetHandler_log (subscribers : List (Subscriber X Output)) (key : Target) (phase : Phase)
    (globals : Option (Globals P)) :
    (targetHandler subscribers key phase globals).log = exceptions subscribers key phase := by
  unfold targetHandler
  rw [foldl_actionHandler]; rfl

/-- Deleting inert subscribers changes neither the reported result nor the returned value; the dispatcher
runs all subscribers, and one that throws leaves the cells to the ones behind it as it found them, with
one more error record. -/
theorem faults_isolated (key : Target) (phase : Phase) (globals : Option (Globals P)) :
    (∀ subscribers subscribers' : List (Subscriber X Output), Thinned key phase subscribers subscribers' →
      (targetHandler subscribers key phase globals).globals = (targetHandler subscribers' key phase globals).globals ∧
      (targetHandler subscribers key phase globals).result = (targetHandler subscribers' key phase globals).result) ∧
    (∀ (before after : List (Subscriber X Output)) (exception : X),
      let reached := before.foldl (actionHandler key phase) {}
      (before ++ { key, phase, action := .throws exception } :: after).foldl (actionHandler key phase) {} =
        after.foldl (actionHandler key phase) { reached with log := reached.log ++ [exception] }) ∧
    ∀ subscribers : List (Subscriber X Output),
      (dispatch key phase subscribers).run.run {} = (.ok (), subscribers.foldl (actionHandler key phase) {}) ∧
      (targetHandler subscribers key phase globals).log = exceptions subscribers key phase := by
  refine ⟨fun subscribers subscribers' h => targetHandler_congr h.replies_eq globals, fun before after exception => ?_,
    fun subscribers => ⟨dispatch_run key phase subscribers {}, targetHandler_log subscribers key phase globals⟩⟩
  have hm : ({ key, phase, action := .throws exception } : Subscriber X Output).matching key phase =
      some (.throws exception) := matching_eq_some_iff.2 rfl
  rw [List.foldl_append, List.foldl_cons]
  congr 1
  unfold actionHandler
  rw [hm]
  exact respond_throws exception _

/-- A throwing action and one of another phase can be left out. -/
theorem faults_isolated_override :
    let subscriber : Subscriber Unit fun _ => Nat := { key := .think, phase := .before, action := .result .override 1 }
    let subscribers := [{ key := .think, phase := .before, action := .throws () },
      { key := .think, phase := .after, action := .value 2 }, subscriber]
    (targetHandler subscribers .think .before (some ({} : Globals Nat))).result =
      (targetHandler [subscriber] .think .before (some ({} : Globals Nat))).result := by
  intro subscriber subscribers
  refine ((faults_isolated .think .before (some {})).1 subscribers [subscriber] ?_).2
  exact .drop (Or.inr (Or.inr ⟨(), rfl⟩)) (.drop (Or.inr (Or.inl (by decide))) (.keep subscriber .nil))

end Refrigerator.Bindings
