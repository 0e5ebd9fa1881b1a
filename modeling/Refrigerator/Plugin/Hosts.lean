/-
What the plugin does to the data of its hosts over a whole run, and what it reports to metamod.

Between two changes by the hosts the plugin writes three things of theirs: the variables of gibs that it
freezes and thaws, the result in metamod's globals, and the cells that are handed over to it. After any
run each of them holds what was written last, and all else is as the hosts have left it (`hosts_kept`). A
hook reports `Supercede` when it freezes a gib, and else never more than `Handled` (`hook_reported`).
-/
import Refrigerator.Lib.Since
import Refrigerator.Lifecycle.History
import Refrigerator.Plugin.Refinement
import Refrigerator.Plugin.Writes

namespace Refrigerator.Plugin

open Lib Metamod Bindings

variable {P G T X : Type} {Output : Target → Type}

/-! ## What the hosts do themselves -/

/-- The hosts' data after an action, as the hosts themselves have left it. -/
def Action.owned (host : Host P G T) : Action P G T X → Host P G T
  | .host host' => host'
  | _ => host

/-- The hosts' data as the hosts have left it in a run. -/
def owned (host : Host P G T) (run : List (Turn P G T X Output)) : Host P G T :=
  run.foldl (fun host turn => turn.action.owned host) host

theorem owned_snoc (host : Host P G T) (run : List (Turn P G T X Output)) (turn : Turn P G T X Output) :
    owned host (run ++ [turn]) = turn.action.owned (owned host run) := by
  unfold owned
  rw [List.foldl_append]
  rfl

theorem owned_keep {turn : Turn P G T X Output} (h : ∀ host, turn.action ≠ .host host) (host : Host P G T)
    (run : List (Turn P G T X Output)) : owned host (run ++ [turn]) = owned host run := by
  rw [owned_snoc]
  unfold Action.owned
  split
  · rename_i heq
    exact absurd heq (h _)
  · rfl

/-- The hosts change their data. -/
def Changes (_ : List (Turn P G T X Output)) (turn : Turn P G T X Output) : Prop := ∃ host, turn.action = .host host

def Action.lifecycle : Action P G T X → Option (Lifecycle.Call G T X)
  | .call entry _ => some entry
  | _ => none

/-- The calls of the entry points in a run. -/
def lifecycle (run : List (Turn P G T X Output)) : List (Lifecycle.Call G T X) :=
  run.filterMap fun turn => turn.action.lifecycle

/-- The engine has injected itself, with both pointers. -/
def Injected (run : List (Turn P G T X Output)) : Prop :=
  ∃ functions globals, .inject (some functions) (some globals) ∈ lifecycle run

section Calls

variable [Inhabited T]

/-- Metamod's globals are those of the latest successful `attach`, and there was no `detach` since. -/
def Attached (build : Build T) (run : List (Turn P G T X Output)) (g : G) : Prop :=
  ∃ game, Lifecycle.machine.LastWrite Lifecycle.Hosts (Lifecycle.initial build.plugin) (lifecycle run) (some g, game)

end Calls

variable [LinearOrder P] [Zero P] [DecidableEq G] [Inhabited T] {build : Build T} {host : Host P G T}

theorem coreAfter_build (build : Build T) (host : Host P G T) (run : List (Turn P G T X Output)) :
    (coreAfter build host run).build = build := by
  induction run using List.reverseRecOn with
  | nil => rfl
  | append_singleton run turn ih =>
    rw [coreAfter_snoc]
    obtain ⟨action, order, arrangement⟩ := turn
    cases action with
    | load feature => exact ih
    | call call cell => exact ih
    | table phase table => exact ih
    | host host' => exact ih
    | hook phase target entity =>
      rw [Core.next_setting, Setting.report_build]
      exact ih

/-- The `api` record is that of the entry points alone. -/
theorem coreAfter_api (build : Build T) (host : Host P G T) (run : List (Turn P G T X Output)) :
    (coreAfter build host run).api = Lifecycle.reached build.plugin (lifecycle run) := by
  induction run using List.reverseRecOn with
  | nil => rfl
  | append_singleton run turn ih =>
    obtain ⟨action, order, arrangement⟩ := turn
    have hcalls : lifecycle (run ++ [⟨action, order, arrangement⟩]) = lifecycle run ++ action.lifecycle.toList := by
      unfold lifecycle
      rw [List.filterMap_append]
      cases action <;> rfl
    unfold Lifecycle.reached at ih ⊢
    rw [coreAfter_snoc, hcalls, Lifecycle.machine.exec_append, ← ih]
    cases action with
    | load feature => rfl
    | call call cell => rfl
    | table phase table => rfl
    | host host' => rfl
    | hook phase target entity =>
      rw [Core.next_setting, Setting.report_api]
      rfl

theorem attached_iff {run : List (Turn P G T X Output)} {g : G} :
    (coreAfter build host run).api.metamod.globals = some g ↔ Attached build run g := by
  rw [coreAfter_api]
  constructor
  · intro hglobals
    rcases Lifecycle.hosted_cases build.plugin (lifecycle run) with ⟨g', game, hlast, heq⟩ | heq
    · obtain rfl : g' = g := Option.some.inj ((congrArg Prod.fst heq).symm.trans hglobals)
      exact ⟨game, hlast⟩
    · cases hglobals.symm.trans (congrArg Prod.fst heq)
  · rintro ⟨game, hlast⟩
    exact congrArg Prod.fst
      (Machine.register_eq_of_lastWrite Lifecycle.hosted_write Lifecycle.hosted_keep hlast)

theorem injected_iff {run : List (Turn P G T X Output)} :
    (coreAfter build host run).api.engine.globals ≠ none ↔ Injected run := by
  rw [coreAfter_api]
  exact Lifecycle.reached_globals build.plugin (lifecycle run)

/-! ## What is written -/

section Writes

variable (build : Build T) (host : Host P G T)

/-- A turn makes `e` think at `v`: never, when it freezes it, and as soon as possible, when it thaws it. -/
def ThinksAt (e : P) (p : List (Turn P G T X Output)) (turn : Turn P G T X Output) (v : Binary32) : Prop :=
  ((coreAfter build host p).Freezing turn.action e ∧ v = .infinity) ∨
    ((coreAfter build host p).Thawing turn.action e ∧
      Butchering.NextThink (coreAfter build host p).engine.toFeatures v)

/-- `e` has been frozen since the hosts last changed their data. -/
def Frozen (e : P) : List (Turn P G T X Output) → Prop :=
  Since (fun p turn => (coreAfter build host p).Freezing turn.action e) Changes

/-- A turn is a hook that is answered in the globals `g` of metamod. -/
def AnsweredAt (g : G) (p : List (Turn P G T X Output)) (turn : Turn P G T X Output) (answer : HookResult) : Prop :=
  ∃ phase target entity, turn.action = .hook phase target entity ∧ Attached build p g ∧
    (coreAfter build host p).Reports phase target entity answer

/-- A turn is a `query` that is given the plugin's record. -/
def InfoAt (a : Nat) (_ : List (Turn P G T X Output)) (turn : Turn P G T X Output) (v : Option Api.Info) : Prop :=
  ∃ call, turn.action = .call call a ∧ call.Introduces build.plugin.info ∧ v = some build.plugin.info

/-- A turn is an `attach` that is given the plugin's table of functions. -/
def FunctionsAt (a : Nat) (p : List (Turn P G T X Output)) (turn : Turn P G T X Output) (v : T) : Prop :=
  ∃ call, turn.action = .call call a ∧ call.Supplies (Injected p) ∧ v = build.plugin.functions

def StandardAt (a : Nat) (p : List (Turn P G T X Output)) (turn : Turn P G T X Output)
    (v : Table StandardSlot Nat) : Prop :=
  ∃ phase call, turn.action = .table phase call ∧ call.StandardAt build (coreAfter build host p).host.cells a ∧
    v = executors (standardInterface build.standard) phase

def ExtensionAt (a : Nat) (p : List (Turn P G T X Output)) (turn : Turn P G T X Output)
    (v : Table ExtensionSlot Nat) : Prop :=
  ∃ phase call, turn.action = .table phase call ∧ call.ExtensionAt build (coreAfter build host p).host.cells a ∧
    v = executors (extensionInterface build.extension) phase

def EngineAt (a : Nat) (p : List (Turn P G T X Output)) (turn : Turn P G T X Output)
    (v : Table EngineSlot Nat) : Prop :=
  ∃ phase call, turn.action = .table phase call ∧ call.EngineAt build (coreAfter build host p).host.cells a ∧
    v = executors (engineInterface build.engine) phase

def VersionAt (a : Nat) (_ : List (Turn P G T X Output)) (turn : Turn P G T X Output) (v : Int) : Prop :=
  ∃ phase call, turn.action = .table phase call ∧ call.VersionAt build a v

/-! ## Whole runs -/

/-- The hosts' data after a run. What no action writes is as the hosts have left it; a datum that some
actions write holds what the last of them wrote since the hosts changed their data, if there is one. -/
structure HostsKept (run : List (Turn P G T X Output)) : Prop where
  appearance : (coreAfter build host run).host.appearance = (owned host run).appearance
  services : (coreAfter build host run).host.services = (owned host run).services
  engine : (coreAfter build host run).host.engine = (owned host run).engine
  free : ∀ e, ((coreAfter build host run).host.memory e).free = ((owned host run).memory e).free
  classname : ∀ e,
    ((coreAfter build host run).host.memory e).v.classname = ((owned host run).memory e).v.classname
  frozen : ∀ e, Frozen build host e run →
    Butchering.Hardened ((owned host run).memory e).v ((coreAfter build host run).host.memory e).v
  unfrozen : ∀ e, ¬ Frozen build host e run →
    ((coreAfter build host run).host.memory e).v.solid = ((owned host run).memory e).v.solid ∧
      ((coreAfter build host run).host.memory e).v.renderamt = ((owned host run).memory e).v.renderamt
  nextthink : ∀ e, Holds (ThinksAt build host e) Changes ((owned host run).memory e).v.nextthink
    ((coreAfter build host run).host.memory e).v.nextthink run
  metamod : ∀ g, (coreAfter build host run).host.metamod g =
    { (owned host run).metamod g with current := ((coreAfter build host run).host.metamod g).current }
  current : ∀ g, Holds (AnsweredAt build host g) Changes ((owned host run).metamod g).current
    ((coreAfter build host run).host.metamod g).current run
  info : ∀ a, Holds (InfoAt build a) Changes ((owned host run).cells.info a)
    ((coreAfter build host run).host.cells.info a) run
  functions : ∀ a, Holds (FunctionsAt build a) Changes ((owned host run).cells.functions a)
    ((coreAfter build host run).host.cells.functions a) run
  standard : ∀ a, Holds (StandardAt build host a) Changes ((owned host run).cells.standard a)
    ((coreAfter build host run).host.cells.standard a) run
  extension : ∀ a, Holds (ExtensionAt build host a) Changes ((owned host run).cells.extension a)
    ((coreAfter build host run).host.cells.extension a) run
  engineTable : ∀ a, Holds (EngineAt build host a) Changes ((owned host run).cells.engine a)
    ((coreAfter build host run).host.cells.engine a) run
  version : ∀ a, Holds (VersionAt build a) Changes ((owned host run).cells.version a)
    ((coreAfter build host run).host.cells.version a) run

end Writes

/-- A datum that no action but the hosts' own changes. -/
theorem kept {V : Type} {f : Host P G T → V} {run : List (Turn P G T X Output)}
    (h : ∀ (core : Core P G T) (action : Action P G T X), (∀ host, action ≠ .host host) →
      f ((Core.machine Output).next core action).host = f core.host) :
    f (coreAfter build host run).host = f (owned host run) := by
  induction run using List.reverseRecOn with
  | nil => rfl
  | append_singleton run turn ih =>
    by_cases hturn : ∃ host', turn.action = .host host'
    · obtain ⟨host', hhost⟩ := hturn
      rw [coreAfter_snoc, owned_snoc, hhost]
      rfl
    · rw [coreAfter_snoc, h _ _ (not_exists.1 hturn), owned_keep (not_exists.1 hturn), ih]

/-- A datum that takes what is written by a turn. -/
theorem holds_written {V : Type} {f : Host P G T → V}
    {writes : List (Turn P G T X Output) → Turn P G T X Output → V → Prop} {run : List (Turn P G T X Output)}
    (hunique : ∀ p turn v v', writes p turn v → writes p turn v' → v = v')
    (hhost : ∀ p turn v, writes p turn v → ∀ host, turn.action ≠ .host host)
    (hstep : ∀ p turn, (∀ host, turn.action ≠ .host host) →
      (∃ v, writes p turn v ∧ f ((Core.machine Output).next (coreAfter build host p) turn.action).host = v) ∨
        ((∀ v, ¬ writes p turn v) ∧
          f ((Core.machine Output).next (coreAfter build host p) turn.action).host = f (coreAfter build host p).host)) :
    Holds writes Changes (f (owned host run)) (f (coreAfter build host run).host) run := by
  refine holds_of_step (fun run => f (coreAfter build host run).host) (fun run => f (owned host run)) rfl
    (fun p turn v hv => ?_) (fun p turn hchange => ?_) (fun p turn hchange => ⟨?_, fun hsilent => ?_⟩) run
  · rw [coreAfter_snoc]
    rcases hstep p turn (hhost p turn v hv) with ⟨v', hv', heq⟩ | ⟨hno, -⟩
    · rw [heq, hunique p turn v' v hv' hv]
    · exact absurd hv (hno v)
  · obtain ⟨host', hturn⟩ := hchange
    rw [coreAfter_snoc, owned_snoc, hturn]
    rfl
  · rw [owned_keep (not_exists.1 hchange)]
  · rw [coreAfter_snoc]
    rcases hstep p turn (not_exists.1 hchange) with ⟨v, hv, -⟩ | ⟨-, heq⟩
    · exact absurd hv (hsilent v)
    · exact heq

/-! ## The entities -/

theorem classname_kept (e : P) (run : List (Turn P G T X Output)) :
    ((coreAfter build host run).host.memory e).v.classname = ((owned host run).memory e).v.classname := by
  refine kept (f := fun host => (host.memory e).v.classname) fun core action haction => ?_
  rcases Core.next_memory Output haction e with ⟨-, heq⟩ | ⟨-, heq⟩ | ⟨-, -, heq⟩
  · rw [heq]; exact Butchering.freeze_classname _
  · rw [heq]
  · rw [heq]

theorem free_kept (e : P) (run : List (Turn P G T X Output)) :
    ((coreAfter build host run).host.memory e).free = ((owned host run).memory e).free := by
  refine kept (f := fun host => (host.memory e).free) fun core action haction => ?_
  rcases Core.next_memory Output haction e with ⟨-, heq⟩ | ⟨-, heq⟩ | ⟨-, -, heq⟩
  all_goals rw [heq]

theorem thinks_kept (e : P) (run : List (Turn P G T X Output)) :
    Holds (ThinksAt build host e) Changes ((owned host run).memory e).v.nextthink
      ((coreAfter build host run).host.memory e).v.nextthink run := by
  refine holds_written (f := fun host => (host.memory e).v.nextthink) (fun p turn v v' hv hv' => ?_)
    (fun p turn v hv => ?_) fun p turn hturn => ?_
  · rcases hv with ⟨hfreezing, rfl⟩ | ⟨hthawing, hnext⟩
    · rcases hv' with ⟨-, rfl⟩ | ⟨hthawing, -⟩
      · rfl
      · exact absurd hthawing hfreezing.not_thawing
    · rcases hv' with ⟨hfreezing, -⟩ | ⟨-, hnext'⟩
      · exact absurd hthawing hfreezing.not_thawing
      · exact (Butchering.nextThink_iff.1 hnext).trans (Butchering.nextThink_iff.1 hnext').symm
  · rcases hv with ⟨⟨phase, target, heq, -⟩, -⟩ | ⟨⟨phase, target, entity, heq, -⟩, -⟩
    · rw [heq]; nofun
    · rw [heq]; nofun
  · rcases Core.next_memory Output hturn e with
      ⟨hfreezing, heq⟩ | ⟨hthawing, heq⟩ | ⟨hfreezing, hthawing, heq⟩
    · exact Or.inl ⟨_, Or.inl ⟨hfreezing, rfl⟩, by rw [heq]; rfl⟩
    · exact Or.inl ⟨_, Or.inr ⟨hthawing, Butchering.nextThink_iff.2 rfl⟩, by rw [heq]⟩
    · refine Or.inr ⟨fun v hv => ?_, by rw [heq]⟩
      rcases hv with ⟨h, -⟩ | ⟨h, -⟩
      · exact hfreezing h
      · exact hthawing h

/-- What is seen of an entity. -/
theorem frozen_kept (e : P) (run : List (Turn P G T X Output)) :
    let v := ((coreAfter build host run).host.memory e).v
    let v' := ((owned host run).memory e).v
    (Frozen build host e run → Butchering.Hardened v' v) ∧
      (¬ Frozen build host e run → v.solid = v'.solid ∧ v.renderamt = v'.renderamt) := by
  dsimp only
  induction run using List.reverseRecOn with
  | nil => exact ⟨fun h => absurd h not_since_nil, fun _ => ⟨rfl, rfl⟩⟩
  | append_singleton run turn ih =>
    unfold Frozen at ih ⊢
    rw [since_snoc_iff]
    by_cases hturn : ∃ host', turn.action = .host host'
    · have hnot : ¬ (coreAfter build host run).Freezing turn.action e := by
        obtain ⟨host', hhost⟩ := hturn
        rintro ⟨phase, target, heq, -⟩
        rw [hhost] at heq; cases heq
      refine ⟨fun h => ?_, fun _ => ?_⟩
      · rcases h with h | ⟨-, h⟩
        · exact absurd h hnot
        · exact absurd hturn h
      · obtain ⟨host', hhost⟩ := hturn
        rw [coreAfter_snoc, owned_snoc, hhost]
        exact ⟨rfl, rfl⟩
    · rw [owned_keep (not_exists.1 hturn), coreAfter_snoc]
      have hlater : ¬ Changes run turn := hturn
      rcases Core.next_memory Output (not_exists.1 hturn) e with
        ⟨hfreezing, heq⟩ | ⟨hthawing, heq⟩ | ⟨hfreezing, -, heq⟩
      · rw [heq]
        refine ⟨fun _ => Butchering.freeze_again ?_, fun h => absurd (Or.inl hfreezing) h⟩
        by_cases hfrozen : Since (fun p turn => (coreAfter build host p).Freezing turn.action e) Changes run
        · exact Or.inr (ih.1 hfrozen)
        · exact Or.inl (ih.2 hfrozen)
      · have hnot : ¬ (coreAfter build host run).Freezing turn.action e := fun h => h.not_thawing hthawing
        rw [heq]
        simp only [hnot, hlater, false_or, not_false_eq_true, and_true]
        -- the next think time is not seen
        exact ⟨fun h => ⟨(ih.1 h).solid, (ih.1 h).renderamt⟩, ih.2⟩
      · rw [heq]
        simp only [hfreezing, hlater, false_or, not_false_eq_true, and_true]
        exact ih

/-! ## Metamod's globals -/

theorem answers_kept (g : G) (run : List (Turn P G T X Output)) :
    Holds (AnsweredAt build host g) Changes ((owned host run).metamod g).current
      ((coreAfter build host run).host.metamod g).current run := by
  refine holds_written (f := fun host => (host.metamod g).current) ?_ ?_ fun p turn hturn => ?_
  · rintro p turn answer answer' ⟨phase, target, entity, heq, -, h⟩ ⟨phase', target', entity', heq', -, h'⟩
    rw [heq] at heq'; cases heq'
    exact h.unique h'
  · rintro p turn answer ⟨phase, target, entity, heq, -⟩ host
    rw [heq]; nofun
  · rcases Core.next_metamod Output (coreAfter_wf build host p) hturn g with
      ⟨phase, target, entity, answer, haction, hg, hreports, heq⟩ | ⟨hno, heq⟩
    · exact Or.inl ⟨answer, ⟨phase, target, entity, haction, attached_iff.1 hg, hreports⟩, by rw [heq]⟩
    · refine Or.inr ⟨?_, by rw [heq]⟩
      rintro answer ⟨phase, target, entity, haction, hg, -⟩
      exact hno phase target entity haction (attached_iff.2 hg)

theorem metamod_kept (g : G) (run : List (Turn P G T X Output)) :
    (coreAfter build host run).host.metamod g =
      { (owned host run).metamod g with current := ((coreAfter build host run).host.metamod g).current } := by
  have hframe : ({ (coreAfter build host run).host.metamod g with current := .unset } : Metamod.Globals P) =
      { (owned host run).metamod g with current := .unset } :=
    kept (f := fun host : Host P G T => { host.metamod g with current := .unset })
      fun core action haction => Core.next_metamod_frame Output haction g
  exact congrArg
    (fun globals : Metamod.Globals P =>
      { globals with current := ((coreAfter build host run).host.metamod g).current }) hframe

/-! ## The cells -/

/-- A cell that some calls write. -/
theorem cell_kept {V : Type} {f : Cells T → V} {writes : List (Turn P G T X Output) → Turn P G T X Output → V → Prop}
    (hunique : ∀ p turn v v', writes p turn v → writes p turn v' → v = v')
    (hwrites : ∀ p turn v, writes p turn v →
      (∃ call cell, turn.action = .call call cell) ∨ ∃ phase table, turn.action = .table phase table)
    (hcall : ∀ p turn call cell, turn.action = .call call cell →
      (∃ v, writes p turn v ∧ f ((coreAfter build host p).toSetting.call call cell).1.host.cells = v) ∨
        ((∀ v, ¬ writes p turn v) ∧
          f ((coreAfter build host p).toSetting.call call cell).1.host.cells = f (coreAfter build host p).host.cells))
    (htable : ∀ p turn phase table, turn.action = .table phase table →
      (∃ v, writes p turn v ∧ f (table.run build true phase (coreAfter build host p).host.cells).2.2 = v) ∨
        ((∀ v, ¬ writes p turn v) ∧
          f (table.run build true phase (coreAfter build host p).host.cells).2.2 =
            f (coreAfter build host p).host.cells))
    (run : List (Turn P G T X Output)) :
    Holds writes Changes (f (owned host run).cells) (f (coreAfter build host run).host.cells) run := by
  refine holds_written (f := fun host => f host.cells) hunique (fun p turn v hv host => ?_) fun p turn hturn => ?_
  · rcases hwrites p turn v hv with ⟨call, cell, heq⟩ | ⟨phase, table, heq⟩
    · rw [heq]; nofun
    · rw [heq]; nofun
  · have hidle (h : ∀ call cell, turn.action ≠ .call call cell) (h' : ∀ phase table, turn.action ≠ .table phase table)
        (v : V) : ¬ writes p turn v := by
      intro hv
      rcases hwrites p turn v hv with ⟨call, cell, heq⟩ | ⟨phase, table, heq⟩
      · exact h call cell heq
      · exact h' phase table heq
    cases haction : turn.action with
    | load feature => exact Or.inr ⟨hidle (by rw [haction]; nofun) (by rw [haction]; nofun), rfl⟩
    | host host' => exact absurd haction (hturn host')
    | call call cell => exact hcall p turn call cell haction
    | table phase table =>
      have hcells :
          ((Core.machine Output).next (coreAfter build host p) (.table phase table : Action P G T X)).host.cells =
            (table.run (coreAfter build host p).build true phase (coreAfter build host p).host.cells).2.2 := rfl
      rw [hcells, coreAfter_build]
      exact htable p turn phase table haction
    | hook phase target entity =>
      refine Or.inr ⟨hidle (by rw [haction]; nofun) (by rw [haction]; nofun), ?_⟩
      rw [Core.next_hook_cells]

theorem coreAfter_plugin (build : Build T) (host : Host P G T) (run : List (Turn P G T X Output)) :
    (coreAfter build host run).api.metamod.plugin = build.plugin := by
  rw [coreAfter_api]
  exact Lifecycle.reached_plugin build.plugin (lifecycle run)

theorem info_kept (a : Nat) (run : List (Turn P G T X Output)) :
    Holds (InfoAt build a) Changes ((owned host run).cells.info a) ((coreAfter build host run).host.cells.info a)
      run := by
  refine cell_kept (f := fun cells => cells.info a) ?_ ?_ (fun p turn call cell haction => ?_)
    (fun p turn phase table haction => ?_) run
  · rintro p turn v v' ⟨-, -, -, rfl⟩ ⟨-, -, -, rfl⟩
    rfl
  · rintro p turn v ⟨call, haction, -⟩
    exact Or.inl ⟨call, a, haction⟩
  · rcases (coreAfter build host p).toSetting.call_info call cell a with ⟨⟨rfl, hwrites⟩, heq⟩ | ⟨hno, heq⟩
    · rw [coreAfter_plugin] at hwrites heq
      exact Or.inl ⟨_, ⟨call, haction, hwrites, rfl⟩, heq⟩
    · rw [coreAfter_plugin] at hno
      refine Or.inr ⟨?_, heq⟩
      rintro v ⟨call', haction', hwrites, -⟩
      cases haction.symm.trans haction'
      exact hno ⟨rfl, hwrites⟩
  · refine Or.inr ⟨?_, congrFun (TableCall.run_plugin build _ phase true table).1 a⟩
    rintro v ⟨call, haction', -⟩
    cases haction.symm.trans haction'

theorem functions_kept (a : Nat) (run : List (Turn P G T X Output)) :
    Holds (FunctionsAt build a) Changes ((owned host run).cells.functions a)
      ((coreAfter build host run).host.cells.functions a) run := by
  refine cell_kept (f := fun cells => cells.functions a) ?_ ?_ (fun p turn call cell haction => ?_)
    (fun p turn phase table haction => ?_) run
  · rintro p turn v v' ⟨-, -, -, rfl⟩ ⟨-, -, -, rfl⟩
    rfl
  · rintro p turn v ⟨call, haction, -⟩
    exact Or.inl ⟨call, a, haction⟩
  · rcases (coreAfter build host p).toSetting.call_functions call cell a with ⟨⟨rfl, hwrites⟩, heq⟩ | ⟨hno, heq⟩
    · rw [coreAfter_plugin] at heq
      rw [injected_iff] at hwrites
      exact Or.inl ⟨_, ⟨call, haction, hwrites, rfl⟩, heq⟩
    · rw [injected_iff] at hno
      refine Or.inr ⟨?_, heq⟩
      rintro v ⟨call', haction', hwrites, -⟩
      cases haction.symm.trans haction'
      exact hno ⟨rfl, hwrites⟩
  · refine Or.inr ⟨?_, congrFun (TableCall.run_plugin build _ phase true table).2 a⟩
    rintro v ⟨call, haction', -⟩
    cases haction.symm.trans haction'

/-- A cell that the calls for a table write. -/
theorem tabled_kept {V : Type} {f : Cells T → V} (writes : Cells T → Phase → TableCall → V → Prop)
    (hunique : ∀ cells phase table v v', writes cells phase table v → writes cells phase table v' → v = v')
    (hcall : ∀ (setting : Setting P G T) (call : Lifecycle.Call G T X) cell,
      f (setting.call call cell).1.host.cells = f setting.host.cells)
    (htable : ∀ cells phase (table : TableCall),
      (∃ v, writes cells phase table v ∧ f (table.run build true phase cells).2.2 = v) ∨
        ((∀ v, ¬ writes cells phase table v) ∧ f (table.run build true phase cells).2.2 = f cells))
    (run : List (Turn P G T X Output)) :
    Holds (fun p turn v => ∃ phase table, turn.action = .table phase table ∧
        writes (coreAfter build host p).host.cells phase table v) Changes
      (f (owned host run).cells) (f (coreAfter build host run).host.cells) run := by
  refine cell_kept ?_ ?_ (fun p turn call cell haction => ?_) (fun p turn phase table haction => ?_) run
  · rintro p turn v v' ⟨phase, table, haction, hv⟩ ⟨phase', table', haction', hv'⟩
    cases haction.symm.trans haction'
    exact hunique _ phase table v v' hv hv'
  · rintro p turn v ⟨phase, table, haction, -⟩
    exact Or.inr ⟨phase, table, haction⟩
  · refine Or.inr ⟨?_, hcall _ call cell⟩
    rintro v ⟨phase, table, haction', -⟩
    cases haction.symm.trans haction'
  · rcases htable (coreAfter build host p).host.cells phase table with ⟨v, hv, heq⟩ | ⟨hno, heq⟩
    · exact Or.inl ⟨v, ⟨phase, table, haction, hv⟩, heq⟩
    · refine Or.inr ⟨?_, heq⟩
      rintro v ⟨phase', table', haction', hv⟩
      cases haction.symm.trans haction'
      exact hno v hv

/-- A table that the calls for it fill. -/
theorem filled_kept {Slot : Type} {f : Cells T → Table Slot Nat} {interface : Interface Slot}
    (fills : Cells T → TableCall → Prop)
    (hcall : ∀ (setting : Setting P G T) (call : Lifecycle.Call G T X) cell,
      f (setting.call call cell).1.host.cells = f setting.host.cells)
    (htable : ∀ cells phase (table : TableCall),
      (fills cells table ∧ f (table.run build true phase cells).2.2 = executors interface phase) ∨
        (¬ fills cells table ∧ f (table.run build true phase cells).2.2 = f cells))
    (run : List (Turn P G T X Output)) :
    Holds (fun p turn v => ∃ phase table, turn.action = .table phase table ∧
        fills (coreAfter build host p).host.cells table ∧ v = executors interface phase) Changes
      (f (owned host run).cells) (f (coreAfter build host run).host.cells) run := by
  refine tabled_kept (fun cells phase table v => fills cells table ∧ v = executors interface phase) ?_ hcall
    (fun cells phase table => ?_) run
  · rintro cells phase table v v' ⟨-, rfl⟩ ⟨-, rfl⟩
    rfl
  · rcases htable cells phase table with ⟨h, heq⟩ | ⟨h, heq⟩
    · exact Or.inl ⟨_, ⟨h, rfl⟩, heq⟩
    · exact Or.inr ⟨fun v hv => h hv.1, heq⟩

theorem hosts_kept (build : Build T) (host : Host P G T) (run : List (Turn P G T X Output)) :
    HostsKept build host run where
  appearance := kept (f := fun host => host.appearance) fun _ _ haction => (Core.next_frame Output haction).1
  services := kept (f := fun host => host.services) fun _ _ haction => (Core.next_frame Output haction).2.1
  engine := kept (f := fun host => host.engine) fun _ _ haction => (Core.next_frame Output haction).2.2
  free e := free_kept e run
  classname e := classname_kept e run
  frozen e := (frozen_kept e run).1
  unfrozen e := (frozen_kept e run).2
  nextthink e := thinks_kept e run
  metamod g := metamod_kept g run
  current g := answers_kept g run
  info a := info_kept a run
  functions a := functions_kept a run
  standard a := filled_kept (f := fun cells => cells.standard a) (fun cells table => table.StandardAt build cells a)
    (fun _ _ _ => rfl) (fun cells phase table => table.run_standard build cells phase a) run
  extension a := filled_kept (f := fun cells => cells.extension a) (fun cells table => table.ExtensionAt build cells a)
    (fun _ _ _ => rfl) (fun cells phase table => table.run_extension build cells phase a) run
  engineTable a := filled_kept (f := fun cells => cells.engine a) (fun cells table => table.EngineAt build cells a)
    (fun _ _ _ => rfl) (fun cells phase table => table.run_engine build cells phase a) run
  version a := tabled_kept (f := fun cells => cells.version a) (fun _ _ table v => table.VersionAt build a v)
    (fun _ _ table _ _ hv hv' => table.versionAt_unique hv hv') (fun _ _ _ => rfl)
    (fun cells phase table => table.run_version build cells phase a) run

/-! ## What metamod gets to know -/

/-- A hook of a run, and what becomes of its result: metamod's globals hold it if the plugin is attached, it
is `Supercede` exactly if a gib is frozen and never an override, and it is `Ignored` where nothing is
done about the hook. A gib that is frozen does not think any more. -/
theorem hook_reported (build : Build T) (host : Host P G T) (run : List (Turn P G T X Output))
    (order : Order (Handler P G T X Output)) (arrangement : Event P → Order Listener) (phase : Phase)
    (target : Target) (entity : P) :
    ∃ answer,
      (∀ g, Attached build run g →
        (coreAfter build host (run ++ [⟨.hook phase target entity, order, arrangement⟩])).host.metamod g =
          { (coreAfter build host run).host.metamod g with current := answer }) ∧
      (∀ g, ¬ Attached build run g →
        (coreAfter build host (run ++ [⟨.hook phase target entity, order, arrangement⟩])).host.metamod g =
          (coreAfter build host run).host.metamod g) ∧
      (answer = .supercede ↔ (coreAfter build host run).Freezes phase target entity) ∧
      (answer = .ignored ↔ (coreAfter build host run).serves phase target = false ∨
        (phase = .before ∧ target = .think ∧ entity ∉ (coreAfter build host run).butchering.gibses)) ∧
      (answer ≠ .supercede → answer ≠ .ignored → answer = .handled) ∧
      (answer = .supercede → ∃ v,
        ((coreAfter build host (run ++ [⟨.hook phase target entity, order, arrangement⟩])).host.memory entity).v = v ∧
          Butchering.Hardened ((coreAfter build host run).host.memory entity).v v ∧
          v.classname = ((coreAfter build host run).host.memory entity).v.classname ∧ v.nextthink = .infinity) := by
  have hreports := (coreAfter_wf build host run).hook_reports phase target entity
  simp only [coreAfter_snoc, Core.next_setting]
  refine ⟨((coreAfter build host run).hook phase target entity).2.1, fun g hg => ?_, fun g hg => ?_,
    hreports.supercede, hreports.ignored, hreports.handled, fun hanswer => ?_⟩
  · rw [Setting.report_metamod, if_pos (attached_iff.2 hg)]
  · rw [Setting.report_metamod, if_neg (mt attached_iff.1 hg)]
  · have hfreezes := hreports.supercede.1 hanswer
    rw [Setting.report_memory, hfreezes.hook]
    have hwritten := (coreAfter build host run).write_memory entity
      (Butchering.freeze ((coreAfter build host run).host.memory entity).v) entity
    rw [if_pos rfl] at hwritten
    exact ⟨_, congrArg Dictionary.v hwritten, Butchering.freeze_hardened _, Butchering.freeze_classname _, rfl⟩

end Refrigerator.Plugin
