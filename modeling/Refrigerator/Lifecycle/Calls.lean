/-
What each entry point does in closed form: its checks come before its writes, so a failed call leaves
the record as it is. The exception is `query`, which puts metamod's table into the record before it
turns to the container: the log writes through that table, and the container logs.
-/
import Refrigerator.Lifecycle.Basic

namespace Refrigerator.Lifecycle

open Lib

variable {P T X : Type} [Inhabited T]

/-! ## Running a call -/

section Running

omit [Inhabited T]

variable {A B : Type} (s : State P T) (failure : Failure X)

theorem run_required_some (target : B) (body : B → CallM P T X A) :
    ((required (some target) failure >>= body).run.run s).run = ((body target).run.run s).run := rfl

theorem run_ensure (condition : Bool) (body : Unit → CallM P T X A) :
    ((ensure condition failure >>= body).run.run s).run =
      if condition then ((body ()).run.run s).run else (.error failure, s) := by
  cases condition <;> rfl

theorem run_ensure_true {condition : Bool} (h : condition = true) (body : Unit → CallM P T X A) :
    ((ensure condition failure >>= body).run.run s).run = ((body ()).run.run s).run := by rw [run_ensure, if_pos h]

theorem run_get (body : State P T → CallM P T X A) :
    ((get >>= body : CallM P T X A).run.run s).run = ((body s).run.run s).run := rfl

theorem run_modify (f : State P T → State P T) (body : Unit → CallM P T X A) :
    ((modify f >>= body : CallM P T X A).run.run s).run = ((body ()).run.run (f s)).run := rfl

end Running

/-! ## Closed forms -/

/-- A call that throws before it writes to the record; `query` may have written to `*plugin` by then. -/
def Rejected (call : Call P T X) (api : Api P T) : Prop :=
  ∃ failure info, call.run api = (.error failure, { api, info })

theorem run_inject (functions : Option T) (globals : Option P) (api : Api P T) :
    (Rejected (X := X) (.inject functions globals) api ∧ (functions = none ∨ globals = none)) ∨
      ∃ f g, functions = some f ∧ globals = some g ∧
        (Call.inject functions globals : Call P T X).run api =
          (.ok (), { api := { api with engine := { functions := f, globals := some g } } }) := by
  rcases globals with _ | g
  · exact Or.inl ⟨⟨_, none, rfl⟩, Or.inr rfl⟩
  rcases functions with _ | f
  · exact Or.inl ⟨⟨_, none, rfl⟩, Or.inl rfl⟩
  · exact Or.inr ⟨f, g, rfl, rfl, rfl⟩

/-- The call is an `attach` with all its pointers, at a time when the record has the engine's globals. -/
def Call.Supplies (engine : Prop) : Call P T X → Prop
  | .attach plugin globals game =>
    plugin = true ∧ globals ≠ none ∧
      (∃ tables : Api.Game T, game = some { standard := some tables.standard, extension := some tables.extension }) ∧
      engine
  | _ => False

theorem run_attach (plugin : Bool) (globals : Option P) (game : Option (GamePointers T)) (api : Api P T) :
    (Rejected (X := X) (.attach plugin globals game) api ∧
        ¬ (Call.attach plugin globals game : Call P T X).Supplies (api.engine.globals ≠ none)) ∨
      ∃ g tables, plugin = true ∧ globals = some g ∧
        game = some { standard := some tables.standard, extension := some tables.extension } ∧
        api.engine.globals ≠ none ∧
        (Call.attach plugin globals game : Call P T X).run api =
          (.ok (), { api := { api with metamod.globals := some g, game := tables }
                     functions := some api.metamod.plugin.functions }) := by
  cases plugin with
  | false => exact Or.inl ⟨⟨_, none, rfl⟩, by simp [Call.Supplies]⟩
  | true =>
    rcases globals with _ | g
    · exact Or.inl ⟨⟨_, none, rfl⟩, by simp [Call.Supplies]⟩
    rcases game with _ | ⟨_ | standard, _ | extension⟩
    · exact Or.inl ⟨⟨_, none, rfl⟩, by simp [Call.Supplies]⟩
    · exact Or.inl ⟨⟨_, none, rfl⟩, by simp [Call.Supplies]⟩
    · exact Or.inl ⟨⟨_, none, rfl⟩, by simp [Call.Supplies]⟩
    · exact Or.inl ⟨⟨_, none, rfl⟩, by simp [Call.Supplies]⟩
    obtain ⟨metamod, tables, functions, _ | engine⟩ := api
    · exact Or.inl ⟨⟨_, none, rfl⟩, by simp [Call.Supplies]⟩
    · exact Or.inr ⟨g, { standard, extension }, rfl, rfl, rfl, by simp, rfl⟩

theorem run_detach (api : Api P T) :
    (Call.detach : Call P T X).run api =
      (.ok (),
        { api := { api with metamod.globals := none, game := { standard := default, extension := default } } }) := rfl

/-- The call is a `query` with the table `table` that gets past all its checks, to the container. -/
def Call.Reaches (api : Api P T) (table : T) : Call P T X → Prop
  | .query version plugin functions _ =>
    plugin = true ∧ functions = some table ∧
      (∃ v, v ≠ "" ∧ version = some v ∧ api.metamod.plugin.info.interfaceVersion = some v) ∧ api.engine.globals ≠ none
  | _ => False

/-- `query` with the versions at hand. -/
theorem run_query_versions {version pluginVersion : String} (table : T) (container : Container X) {api : Api P T}
    (hv : version ≠ "") (hp : api.metamod.plugin.info.interfaceVersion = some pluginVersion) :
    (Call.query (some version) true (some table) container).run api =
      if pluginVersion = "" then (.error (.logicError "plugin api version is empty"), { api })
      else if version ≠ pluginVersion then
        (.error (.invalidArgument
            ("interface version mismatch: plugin[" ++ pluginVersion ++ "] != metamod[" ++ version ++ "]")),
          { api, info := some api.metamod.plugin.info })
      else if api.engine.globals = none then
        (.error (.logicError "invalid state: `GiveFnptrsToDll` success expected"),
          { api, info := some api.metamod.plugin.info })
      else ((resolveApi container).mapError (.runtimeError "container initialization failed"),
        { api := { api with metamod.functions := table }, info := some api.metamod.plugin.info }) := by
  unfold Call.run Call.body query
  simp only [run_required_some, run_ensure, run_get, run_modify, hp, hv, ne_eq, not_false_eq_true, decide_true, if_true]
  by_cases he : pluginVersion = ""
  · simp [he]
  by_cases hne : version = pluginVersion
  · cases hg : api.engine.globals with
    | none => simp [he, hne]
    | some globals => cases hc : resolveApi container <;> simp [he, hne] <;> rfl
  · simp [he, hne]

theorem run_query (version : Option String) (plugin : Bool) (functions : Option T) (container : Container X)
    (api : Api P T) :
    (Rejected (.query version plugin functions container) api ∧
      ∀ table, ¬ (Call.query version plugin functions container).Reaches api table) ∨
    ∃ table, (Call.query version plugin functions container).Reaches api table ∧
      (Call.query version plugin functions container).run api =
        ((resolveApi container).mapError (.runtimeError "container initialization failed"),
          { api := { api with metamod.functions := table }, info := some api.metamod.plugin.info }) := by
  rcases version with _ | version
  · exact Or.inl ⟨⟨_, none, rfl⟩, by simp [Call.Reaches]⟩
  by_cases hv : version = ""
  · subst hv
    exact Or.inl ⟨⟨_, none, rfl⟩, by simp [Call.Reaches]⟩
  have hstart := fun body : Unit → CallM P T X Unit =>
    run_ensure_true { api } (.invalidArgument "metamod api version is empty") (decide_eq_true hv) body
  rcases plugin with _ | _
  · exact Or.inl ⟨⟨_, none, (hstart _).trans rfl⟩, by simp [Call.Reaches]⟩
  rcases functions with _ | table
  · exact Or.inl ⟨⟨_, none, (hstart _).trans rfl⟩, by simp [Call.Reaches]⟩
  cases hp : api.metamod.plugin.info.interfaceVersion with
  | none =>
    refine Or.inl ⟨⟨.logicError "plugin api version pointer is null", none, (hstart _).trans ?_⟩,
      by simp [Call.Reaches, hp]⟩
    simp only [run_ensure, run_required_some, run_get, hp]
    rfl
  | some pluginVersion =>
    have hrun := run_query_versions table container hv hp
    by_cases he : pluginVersion = ""
    · subst he
      refine Or.inl ⟨⟨_, none, hrun.trans (if_pos rfl)⟩, ?_⟩
      rintro table' ⟨-, -, ⟨v, hne, -, heq⟩, -⟩
      exact hne (Option.some.inj (heq.symm.trans hp))
    rw [if_neg he] at hrun
    by_cases hne : version = pluginVersion
    · subst hne
      rw [if_neg (by simp)] at hrun
      by_cases hg : api.engine.globals = none
      · exact Or.inl ⟨⟨_, _, hrun.trans (if_pos hg)⟩, by simp [Call.Reaches, hg]⟩
      · exact Or.inr ⟨table, ⟨rfl, rfl, ⟨version, hv, rfl, hp⟩, hg⟩, hrun.trans (if_neg hg)⟩
    · refine Or.inl ⟨⟨_, _, hrun.trans (if_pos hne)⟩, ?_⟩
      rintro table' ⟨-, -, ⟨v, -, heq, heq'⟩, -⟩
      exact hne ((Option.some.inj heq).trans (Option.some.inj (heq'.symm.trans hp)))

/-! ## The cells of the hosts -/

/-- The call is a `query` that gets to the point where it writes `*plugin`. -/
def Call.Introduces (info : Api.Info) : Call P T X → Prop
  | .query version plugin functions _ =>
    (∃ v, version = some v ∧ v ≠ "") ∧ plugin = true ∧ functions ≠ none ∧
      ∃ v, info.interfaceVersion = some v ∧ v ≠ ""
  | _ => False

/-- What `query` writes to `*plugin`. -/
theorem query_info (version : Option String) (plugin : Bool) (functions : Option T) (container : Container X)
    (api : Api P T) :
    let call : Call P T X := .query version plugin functions container
    (call.Introduces api.metamod.plugin.info ∧ (call.run api).2.info = some api.metamod.plugin.info) ∨
      (¬ call.Introduces api.metamod.plugin.info ∧ (call.run api).2.info = none) := by
  dsimp only
  rcases version with _ | version
  · exact Or.inr ⟨by simp [Call.Introduces], rfl⟩
  by_cases hv : version = ""
  · subst hv
    exact Or.inr ⟨by simp [Call.Introduces], rfl⟩
  have hstart := fun body : Unit → CallM P T X Unit =>
    run_ensure_true { api } (.invalidArgument "metamod api version is empty") (decide_eq_true hv) body
  rcases plugin with _ | _
  · exact Or.inr ⟨by simp [Call.Introduces], congrArg (fun r => r.2.info) (hstart _)⟩
  rcases functions with _ | table
  · exact Or.inr ⟨by simp [Call.Introduces], congrArg (fun r => r.2.info) (hstart _)⟩
  cases hp : api.metamod.plugin.info.interfaceVersion with
  | none =>
    refine Or.inr ⟨by simp [Call.Introduces, hp], (congrArg (fun r => r.2.info) (hstart _)).trans ?_⟩
    simp only [run_ensure, run_required_some, run_get, hp]
    rfl
  | some pluginVersion =>
    rw [run_query_versions table container hv hp]
    by_cases he : pluginVersion = ""
    · subst he
      rw [if_pos rfl]
      exact Or.inr ⟨by simp [Call.Introduces, hp], rfl⟩
    · rw [if_neg he]
      refine Or.inl ⟨⟨⟨version, rfl, hv⟩, rfl, by simp, pluginVersion, hp, he⟩, ?_⟩
      split_ifs
      · rfl
      · rfl
      · rfl

/-- What a call writes to `*plugin` of `query`. -/
theorem run_info (call : Call P T X) (api : Api P T) :
    (call.Introduces api.metamod.plugin.info ∧ (call.run api).2.info = some api.metamod.plugin.info) ∨
      (¬ call.Introduces api.metamod.plugin.info ∧ (call.run api).2.info = none) := by
  cases call with
  | inject functions globals =>
    refine Or.inr ⟨id, ?_⟩
    cases globals with
    | none => rfl
    | some g => cases functions <;> rfl
  | query version plugin functions container => exact query_info version plugin functions container api
  | attach plugin globals game =>
    refine Or.inr ⟨id, ?_⟩
    obtain ⟨metamod, tables, functions, engine⟩ := api
    rcases plugin with _ | _ <;> rcases globals with _ | g <;> rcases game with _ | ⟨_ | standard, _ | extension⟩ <;>
      rcases engine with _ | engine <;> rfl
  | detach => exact Or.inr ⟨id, rfl⟩

/-- What a call writes to `*plugin` of `attach`. -/
theorem run_functions (call : Call P T X) (api : Api P T) :
    (call.Supplies (api.engine.globals ≠ none) ∧ (call.run api).2.functions = some api.metamod.plugin.functions) ∨
      (¬ call.Supplies (api.engine.globals ≠ none) ∧ (call.run api).2.functions = none) := by
  cases call with
  | inject functions globals =>
    refine Or.inr ⟨id, ?_⟩
    rcases run_inject (X := X) functions globals api with ⟨⟨failure, info, heq⟩, -⟩ | ⟨f, g, -, -, heq⟩
    · rw [heq]
    · rw [heq]
  | query version plugin functions container =>
    refine Or.inr ⟨id, ?_⟩
    rcases run_query version plugin functions container api with ⟨⟨failure, info, heq⟩, -⟩ | ⟨table, -, heq⟩
    · rw [heq]
    · rw [heq]
  | attach plugin globals game =>
    rcases run_attach (X := X) plugin globals game api with
      ⟨⟨failure, info, heq⟩, hno⟩ | ⟨g, tables, rfl, rfl, rfl, hengine, heq⟩
    · exact Or.inr ⟨hno, by rw [heq]⟩
    · exact Or.inl ⟨⟨rfl, by simp, ⟨tables, rfl⟩, hengine⟩, by rw [heq]⟩
  | detach => exact Or.inr ⟨id, rfl⟩

/-! ## Failed calls -/

theorem Rejected.api_eq {call : Call P T X} {api : Api P T} (h : Rejected call api) : (call.run api).2.api = api := by
  obtain ⟨failure, info, heq⟩ := h
  rw [heq]

/-- A failed call leaves the record as it is, unless it is a `query` that got to the container; such a
one leaves metamod's table in it and nothing else. -/
theorem failed_leaves {api : Api P T} {call : Call P T X} {failure : Failure X}
    (h : (call.run api).1 = .error failure) :
    ((call.run api).2.api = api ∧ ∀ table, ¬ call.Reaches api table) ∨
      ∃ table, call.Reaches api table ∧ (call.run api).2.api = { api with metamod.functions := table } := by
  cases call with
  | inject functions globals =>
    rcases run_inject (X := X) functions globals api with ⟨hrej, -⟩ | ⟨f, g, -, -, heq⟩
    · exact Or.inl ⟨hrej.api_eq, fun _ => id⟩
    · rw [heq] at h; cases h
  | query version plugin functions container =>
    rcases run_query version plugin functions container api with ⟨hrej, hno⟩ | ⟨table, hreach, heq⟩
    · exact Or.inl ⟨hrej.api_eq, hno⟩
    · exact Or.inr ⟨table, hreach, by rw [heq]⟩
  | attach plugin globals game =>
    rcases run_attach (X := X) plugin globals game api with ⟨hrej, -⟩ | ⟨g, tables, -, -, -, -, heq⟩
    · exact Or.inl ⟨hrej.api_eq, fun _ => id⟩
    · rw [heq] at h; cases h
  | detach => rw [run_detach] at h; cases h

/-- The container throws, or the versions do not match and it is not turned to. -/
theorem failed_leaves_collect :
    let api : Api Nat Nat := { initial { info := { interfaceVersion := some "5:13" }, functions := 1 } with
      engine := { functions := 2, globals := some 1 } }
    let query (version : String) : Call Nat Nat Unit :=
      .query (some version) true (some 3) { collect := .error () }
    ((query "5:13").run api).2.api.metamod.functions = 3 ∧ ((query "5:12").run api).2.api = api := by
  intro api query
  have hmatch : (query "5:13").Reaches api 3 := ⟨rfl, rfl, ⟨"5:13", by decide, rfl, rfl⟩, by simp [api]⟩
  refine ⟨?_, ?_⟩
  · rcases failed_leaves (show ((query "5:13").run api).1 = .error _ from rfl) with ⟨-, hno⟩ | ⟨table, ⟨-, heq, -⟩, h⟩
    · exact absurd hmatch (hno 3)
    · rw [h]; exact (Option.some.inj heq).symm
  · rcases failed_leaves (show ((query "5:12").run api).1 = .error _ from rfl) with ⟨h, -⟩ | ⟨table, hreach, -⟩
    · exact h
    · obtain ⟨-, -, ⟨v, -, hv, hv'⟩, -⟩ := hreach
      exact absurd (hv.trans hv'.symm) (by simp [api, initial])

theorem failed_changes : ¬ ∀ (api : Api Nat Nat) (call : Call Nat Nat Unit) (failure : Failure Unit),
    (call.run api).1 = .error failure → (call.run api).2.api = api := by
  intro h
  have hquery := h { initial { info := { interfaceVersion := some "5:13" }, functions := 1 } with
      engine := { functions := 2, globals := some 1 } }
    (.query (some "5:13") true (some 3) { collect := .error () }) _ rfl
  have htable := congrArg (fun api : Api Nat Nat => api.metamod.functions) hquery
  exact absurd htable (by decide)

end Refrigerator.Lifecycle
