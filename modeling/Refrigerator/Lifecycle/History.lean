/-
The `api` record as the history of calls explains it: metamod's globals and the game's tables come
from one and the same `attach`, the engine's globals and table from one and the same `inject`.
-/
import Refrigerator.Lifecycle.Calls
import Refrigerator.Lib.Register

namespace Refrigerator.Lifecycle

open Lib

variable {P T X : Type} [Inhabited T]

/-- The record after a sequence of calls. -/
def reached (plugin : Api.Plugin T) (calls : List (Call P T X)) : Api P T := machine.exec (initial plugin) calls

/-! ## Successful calls -/

def Succeeds (api : Api P T) (call : Call P T X) : Prop := (call.run api).1 = .ok ()

/-- The call is a successful `attach` with this pointer and copies of these tables. -/
def Attaches (api : Api P T) (call : Call P T X) (globals : P) (game : Api.Game T) : Prop :=
  call = .attach true (some globals) (some { standard := some game.standard, extension := some game.extension }) ∧
    Succeeds api call

/-- The call is a successful `inject` of this engine. -/
def Injects (api : Api P T) (call : Call P T X) (functions : T) (globals : P) : Prop :=
  call = .inject (some functions) (some globals) ∧ Succeeds api call

/-- What `attach` and `detach` write: metamod's globals and the game's tables. -/
def Hosts (api : Api P T) (call : Call P T X) (value : Option P × Api.Game T) : Prop :=
  (∃ globals game, Attaches api call globals game ∧ value = (some globals, game)) ∨
    (call = .detach ∧ value = (none, { standard := default, extension := default }))

/-- What `inject` writes: the engine's table and globals. -/
def Engages (api : Api P T) (call : Call P T X) (value : Api.Engine P T) : Prop :=
  ∃ functions globals, Injects api call functions globals ∧ value = { functions, globals := some globals }

/-! ## What a call does to the record -/

/-- The call neither injects, nor attaches, nor detaches. -/
structure Idle (api : Api P T) (call : Call P T X) : Prop where
  inject : ∀ functions globals, ¬ Injects api call functions globals
  attach : ∀ globals game, ¬ Attaches api call globals game
  detach : call ≠ .detach

theorem idle_of_rejected {api : Api P T} {call : Call P T X} (h : Rejected call api) : Idle api call := by
  obtain ⟨failure, info, heq⟩ := h
  have hno : ¬ Succeeds api call := fun hok => by rw [Succeeds, heq] at hok; cases hok
  refine ⟨fun _ _ hi => hno hi.2, fun _ _ ha => hno ha.2, ?_⟩
  rintro rfl
  exact hno rfl

theorem next_cases (api : Api P T) (call : Call P T X) :
    (∃ functions globals, Injects api call functions globals ∧
      machine.next api call = { api with engine := { functions, globals := some globals } }) ∨
    (∃ globals game, Attaches api call globals game ∧ api.engine.globals ≠ none ∧
      machine.next api call = { api with metamod.globals := some globals, game }) ∨
    (call = .detach ∧ machine.next api call =
      { api with metamod.globals := none, game := { standard := default, extension := default } }) ∨
    (Idle api call ∧ ∃ functions, machine.next api call = { api with metamod.functions := functions }) := by
  have hnext : machine.next api call = (call.run api).2.api := rfl
  have hrejected : Rejected call api →
      Idle api call ∧ ∃ functions, machine.next api call = { api with metamod.functions := functions } :=
    fun h => ⟨idle_of_rejected h, api.metamod.functions, h.api_eq⟩
  cases call with
  | inject functions globals =>
    rcases run_inject (X := X) functions globals api with ⟨hrej, -⟩ | ⟨f, g, rfl, rfl, heq⟩
    · exact Or.inr (Or.inr (Or.inr (hrejected hrej)))
    · exact Or.inl ⟨f, g, ⟨rfl, by rw [Succeeds, heq]⟩, by rw [hnext, heq]⟩
  | query version plugin functions container =>
    refine Or.inr (Or.inr (Or.inr ?_))
    rcases run_query version plugin functions container api with ⟨hrej, -⟩ | ⟨table, -, heq⟩
    · exact hrejected hrej
    · refine ⟨⟨fun _ _ h => ?_, fun _ _ h => ?_, by simp⟩, table, by rw [hnext, heq]⟩
      · cases h.1
      · cases h.1
  | attach plugin globals game =>
    rcases run_attach (X := X) plugin globals game api with ⟨hrej, -⟩ | ⟨g, tables, rfl, rfl, rfl, hengine, heq⟩
    · exact Or.inr (Or.inr (Or.inr (hrejected hrej)))
    · exact Or.inr (Or.inl ⟨g, tables, ⟨rfl, by rw [Succeeds, heq]⟩, hengine, by rw [hnext, heq]⟩)
  | detach => exact Or.inr (Or.inr (Or.inl ⟨rfl, rfl⟩))

/-- No call changes the plugin's own record. -/
theorem next_plugin (api : Api P T) (call : Call P T X) :
    (machine.next api call).metamod.plugin = api.metamod.plugin := by
  obtain ⟨functions, globals, -, heq⟩ | ⟨globals, game, -, -, heq⟩ | ⟨-, heq⟩ | ⟨-, functions, heq⟩ :=
    next_cases api call
  all_goals rw [heq]

/-- The engine's globals come by an `inject`, and stay. -/
theorem next_globals (api : Api P T) (call : Call P T X) :
    (machine.next api call).engine.globals ≠ none ↔
      api.engine.globals ≠ none ∨ ∃ functions globals, call = .inject (some functions) (some globals) := by
  have hother (h : ∀ functions globals, ¬ Injects api call functions globals) :
      ¬ ∃ functions globals, call = .inject (some functions) (some globals) := by
    rintro ⟨functions, globals, rfl⟩
    exact h functions globals ⟨rfl, rfl⟩
  obtain ⟨functions, globals, hinjects, heq⟩ | ⟨globals, game, hattaches, -, heq⟩ | ⟨rfl, heq⟩ |
    ⟨hidle, functions, heq⟩ := next_cases api call
  · rw [heq]
    exact iff_of_true (by simp) (Or.inr ⟨functions, globals, hinjects.1⟩)
  · rw [heq]
    refine (or_iff_left (hother fun functions globals' hinjects => ?_)).symm
    cases hinjects.1.symm.trans hattaches.1
  · rw [heq]
    exact (or_iff_left (hother fun functions globals hinjects => by cases hinjects.1)).symm
  · rw [heq]
    exact (or_iff_left (hother hidle.inject)).symm

/-! ## Metamod's globals and the game's tables -/

def hosted (api : Api P T) : Option P × Api.Game T := (api.metamod.globals, api.game)

theorem Attaches.unique {api : Api P T} {call : Call P T X} {g g' : P} {game game' : Api.Game T}
    (h : Attaches api call g game) (h' : Attaches api call g' game') : g = g' ∧ game = game' := by
  obtain ⟨rfl, -⟩ := h
  obtain ⟨heq, -⟩ := h'
  obtain ⟨standard, extension⟩ := game
  obtain ⟨standard', extension'⟩ := game'
  simpa using heq

theorem hosted_write (api : Api P T) (call : Call P T X) (value : Option P × Api.Game T) (h : Hosts api call value) :
    hosted (machine.next api call) = value := by
  rcases h with ⟨globals, game, ha, rfl⟩ | ⟨rfl, rfl⟩
  · rcases next_cases api call with ⟨functions, engine, hi, -⟩ | ⟨g, game', ha', -, heq⟩ | ⟨hd, -⟩ | ⟨hidle, -⟩
    · rw [ha.1] at hi; cases hi.1
    · obtain ⟨rfl, rfl⟩ := ha.unique ha'
      rw [heq]; rfl
    · rw [ha.1] at hd; cases hd
    · exact absurd ha (hidle.attach _ _)
  · rfl

theorem hosted_keep (api : Api P T) (call : Call P T X) (h : Machine.Silent Hosts api call) :
    hosted (machine.next api call) = hosted api := by
  rcases next_cases api call with ⟨functions, engine, -, heq⟩ | ⟨g, game, ha, -, -⟩ | ⟨hd, -⟩ | ⟨-, functions, heq⟩
  · rw [heq]; rfl
  · exact absurd (Or.inl ⟨g, game, ha, rfl⟩) (h _)
  · exact absurd (Or.inr ⟨hd, rfl⟩) (h _)
  · rw [heq]; rfl

/-- Either the last write is an `attach`, or the record holds neither. -/
theorem hosted_cases (plugin : Api.Plugin T) (calls : List (Call P T X)) :
    (∃ globals game, machine.LastWrite Hosts (initial plugin) calls (some globals, game) ∧
      hosted (reached plugin calls) = (some globals, game)) ∨
    hosted (reached plugin calls) = (none, { standard := default, extension := default }) := by
  rcases machine.register_cases hosted_write hosted_keep calls (s := initial plugin) with hlast | ⟨-, heq⟩
  · obtain ⟨p, call, q, -, ⟨globals, game, -, hvalue⟩ | ⟨-, hvalue⟩, -⟩ := id hlast
    · exact Or.inl ⟨globals, game, hvalue ▸ hlast, hvalue⟩
    · exact Or.inr hvalue
  · exact Or.inr heq

/-! ## The engine's table and globals -/

theorem engine_write (api : Api P T) (call : Call P T X) (value : Api.Engine P T) (h : Engages api call value) :
    (machine.next api call).engine = value := by
  obtain ⟨functions, globals, ⟨rfl, -⟩, rfl⟩ := h
  rfl

theorem engine_keep (api : Api P T) (call : Call P T X) (h : Machine.Silent Engages api call) :
    (machine.next api call).engine = api.engine := by
  rcases next_cases api call with ⟨functions, globals, hi, -⟩ | ⟨g, game, -, -, heq⟩ | ⟨-, heq⟩ | ⟨-, functions, heq⟩
  · exact absurd ⟨functions, globals, hi, rfl⟩ (h _)
  · rw [heq]
  · rw [heq]
  · rw [heq]

/-- Metamod's globals are there only with the engine's, which stay once they are there. -/
theorem globals_step (api : Api P T) (call : Call P T X)
    (h : api.metamod.globals ≠ none → api.engine.globals ≠ none) :
    (machine.next api call).metamod.globals ≠ none → (machine.next api call).engine.globals ≠ none := by
  obtain ⟨functions, globals, -, heq⟩ | ⟨g, game, -, hengine, heq⟩ | ⟨-, heq⟩ | ⟨-, functions, heq⟩ :=
    next_cases api call
  · rw [heq]; simp
  · rw [heq]; exact fun _ => hengine
  · rw [heq]; simp
  · rw [heq]; exact h

theorem reached_plugin (plugin : Api.Plugin T) (calls : List (Call P T X)) :
    (reached plugin calls).metamod.plugin = plugin :=
  machine.exec_invariant (I := fun api : Api P T => api.metamod.plugin = plugin)
    (fun api call h => (next_plugin api call).trans h) (initial plugin) calls rfl

theorem reached_globals (plugin : Api.Plugin T) (calls : List (Call P T X)) :
    (reached plugin calls).engine.globals ≠ none ↔
      ∃ functions globals, .inject (some functions) (some globals) ∈ calls := by
  unfold reached
  induction calls using List.reverseRecOn with
  | nil => simp [initial]
  | append_singleton calls call ih =>
    rw [machine.exec_snoc, next_globals, ih]
    simp only [List.mem_append, List.mem_singleton, eq_comm, exists_or]

/-! ## The record explained -/

/-- After any calls metamod's globals are those of the latest successful `attach` since the last `detach`,
and the game's tables are the copies it took; without one there are none of both. Metamod's globals
come only after the engine's, and the engine's with the table of the same `inject`, the latest. -/
theorem api_explained (plugin : Api.Plugin T) (calls : List (Call P T X)) :
    (∀ globals, (reached plugin calls).metamod.globals = some globals ↔
      ∃ game, machine.LastWrite Hosts (initial plugin) calls (some globals, game)) ∧
    (∀ globals game, machine.LastWrite Hosts (initial plugin) calls (some globals, game) →
      (reached plugin calls).game = game) ∧
    ((reached plugin calls).metamod.globals = none →
      (reached plugin calls).game = { standard := default, extension := default }) ∧
    ((reached plugin calls).metamod.globals ≠ none → (reached plugin calls).engine.globals ≠ none) ∧
    (machine.LastWrite Engages (initial plugin) calls (reached plugin calls).engine ∨
      (∀ engine, ¬ machine.LastWrite Engages (initial plugin) calls engine) ∧
        (reached plugin calls).engine = { functions := default, globals := none }) := by
  have hlast : ∀ {globals game}, machine.LastWrite Hosts (initial plugin) calls (some globals, game) →
      hosted (reached plugin calls) = (some globals, game) :=
    fun h => Machine.register_eq_of_lastWrite hosted_write hosted_keep h
  refine ⟨fun globals => ⟨fun h => ?_, ?_⟩, fun globals game h => congrArg Prod.snd (hlast h), fun h => ?_, ?_, ?_⟩
  · rcases hosted_cases plugin calls with ⟨g, game, hw, heq⟩ | heq
    · obtain rfl : g = globals := Option.some.inj ((congrArg Prod.fst heq).symm.trans h)
      exact ⟨game, hw⟩
    · cases h.symm.trans (congrArg Prod.fst heq)
  · rintro ⟨game, hw⟩
    exact congrArg Prod.fst (hlast hw)
  · rcases hosted_cases plugin calls with ⟨g, game, -, heq⟩ | heq
    · cases h.symm.trans (congrArg Prod.fst heq)
    · exact congrArg Prod.snd heq
  · exact machine.exec_invariant (I := fun api : Api P T => api.metamod.globals ≠ none → api.engine.globals ≠ none)
      globals_step (initial plugin) calls (fun h => absurd rfl h)
  · exact machine.register_cases engine_write engine_keep calls (s := initial plugin)

end Refrigerator.Lifecycle
