/-
The lists of the plugin as the history of its run explains them: the session, the queue, the entered
entities and the gibs.

Each condition on the past has what starts it and what stops it (`Since`), in terms of the hooks that came,
of the hosts' data at the time, and of the conditions before it. That a list holds an entity is such a
condition (`lists_explained`). One thing is not explained by the hooks alone: which entities stand in the
tail of the entered list that a sweep copies out.
-/
import Refrigerator.Plugin.Hosts
import Refrigerator.Plugin.Members

namespace Refrigerator.Plugin

open Lib Metamod Bindings

variable {P G T X : Type} {Output : Target → Type} [LinearOrder P] [Zero P] [DecidableEq G] [Inhabited T]

/-! ## Conditions on the past -/

section Past

variable (build : Build T) (host : Host P G T)

/-- A hook comes while the trusted entities are loaded. -/
def Tracks (p : List (Turn P G T X Output)) (turn : Turn P G T X Output) (phase : Phase) (target : Target)
    (entity : P) : Prop := Loaded .trustedEntities p ∧ turn.action = .hook phase target entity

/-- There is a session. -/
def InSession : List (Turn P G T X Output) → Prop :=
  Since (fun p turn => ∃ x, Tracks p turn .after .init x) fun p turn => ∃ x, Tracks p turn .before .shutdown x

/-- A frame of a session. -/
def Sweeps (p : List (Turn P G T X Output)) (turn : Turn P G T X Output) : Prop :=
  InSession p ∧ ∃ x, Tracks p turn .before .frame x

/-- `e` is spawned, or a creation hook comes and metamod's globals, if attached, tell of `e`. -/
def Arrives (e : P) (p : List (Turn P G T X Output)) (turn : Turn P G T X Output) : Prop :=
  Tracks p turn .after .spawn e ∨
    ((∃ x, Tracks p turn .after .createEntity x ∨ Tracks p turn .before .createNamedEntity x) ∧
      ∃ g, Attached build p g ∧ Tracker.Tells ((owned host p).metamod g) e)

/-- `e` is removed, or the server shuts down. -/
def Leaves (e : P) (p : List (Turn P G T X Output)) (turn : Turn P G T X Output) : Prop :=
  Tracks p turn .before .removeEntity e ∨ ∃ x, Tracks p turn .before .shutdown x

/-- `e` has arrived since the last sweep. -/
def Queued (e : P) : List (Turn P G T X Output) → Prop :=
  Since (Arrives build host e) fun p turn => Leaves e p turn ∨ Sweeps p turn

/-- A sweep finds `e` queued and not free. -/
def Enters (e : P) (p : List (Turn P G T X Output)) (turn : Turn P G T X Output) : Prop :=
  Sweeps p turn ∧ Queued build host e p ∧ (owned host p).memory.isFree e = false

/-- A sweep finds `e` among the last places of the entered list, as many as there are free entities in it. -/
def Copied (e : P) (p : List (Turn P G T X Output)) (turn : Turn P G T X Output) : Prop :=
  Sweeps p turn ∧ Tracker.Trailing (owned host p).memory (coreAfter build host p).tracker e

/-- `e` has entered, and is still there: what is copied out stays. -/
def Entered (e : P) : List (Turn P G T X Output) → Prop :=
  Since (Enters build host e) fun p turn => Leaves e p turn ∨
    (Sweeps p turn ∧ (owned host p).memory.isFree e = true ∧ ¬ Copied build host e p turn)

/-- `e` has entered as a gib, with the butchering feature loaded, and was not reported since: neither gone
while it was entered, nor copied out. -/
def Gib (e : P) : List (Turn P G T X Output) → Prop :=
  Since
    (fun p turn => Loaded .butchering p ∧ Enters build host e p turn ∧
      Butchering.IsGib (coreAfter build host p).engine.toFeatures (owned host p).memory e)
    fun p turn => Loaded .butchering p ∧ ((Leaves e p turn ∧ Entered build host e p) ∨ Copied build host e p turn)

end Past

/-! ## The conditions and the core -/

variable {build : Build T} {host : Host P G T} {p run : List (Turn P G T X Output)} {turn : Turn P G T X Output}

theorem tracks_iff {phase : Phase} {target : Target} {entity : P} :
    (coreAfter build host p).Tracks turn.action phase target entity ↔ Tracks p turn phase target entity :=
  and_congr_left' loaded_iff

theorem isFree_owned (build : Build T) (host : Host P G T) (run : List (Turn P G T X Output)) :
    (coreAfter build host run).host.memory.isFree = (owned host run).memory.isFree := by
  funext e
  exact congrArg (IntegerBoolean.false != ·) (free_kept e run)

theorem tells_owned {g : G} {e : P} :
    Tracker.Tells ((coreAfter build host p).host.metamod g) e ↔ Tracker.Tells ((owned host p).metamod g) e := by
  rw [metamod_kept g p]
  exact Iff.rfl

theorem isGib_owned {engine : Engine} {e : P} :
    Butchering.IsGib engine (coreAfter build host p).host.memory e ↔
      Butchering.IsGib engine (owned host p).memory e := by
  unfold Butchering.IsGib Butchering.className
  rw [classname_kept e p]

/-- The calls of an action that add `e`. -/
theorem adds_iff {e : P} :
    (∃ call, (coreAfter build host p).called turn.action = some call ∧ Tracker.Adds e call) ↔
      Arrives build host e p turn := by
  constructor
  · rintro ⟨call, hcall, hadds⟩
    cases call with
    | spawn entity =>
      obtain rfl : entity = e := hadds
      exact Or.inl (tracks_iff.1 (Core.called_spawn_iff.1 hcall))
    | create globals =>
      obtain ⟨⟨x, htracks⟩, hglobals⟩ := Core.called_create_iff.1 hcall
      obtain ⟨g, hg, rfl⟩ := Option.map_eq_some_iff.1 hglobals
      exact Or.inr ⟨⟨x, htracks.imp tracks_iff.1 tracks_iff.1⟩, g, attached_iff.1 hg, tells_owned.1 hadds⟩
    | _ => exact hadds.elim
  · rintro (htracks | ⟨⟨x, htracks⟩, g, hattached, htells⟩)
    · exact ⟨.spawn e, Core.called_spawn_iff.2 (tracks_iff.2 htracks), rfl⟩
    · refine ⟨.create ((coreAfter build host p).host.metamod g), Core.called_create_iff.2 ⟨?_, ?_⟩,
        tells_owned.2 htells⟩
      · exact ⟨x, htracks.imp tracks_iff.2 tracks_iff.2⟩
      · exact Option.map_eq_some_iff.2 ⟨g, attached_iff.2 hattached, rfl⟩

theorem clears_iff {e : P} :
    (∃ call, (coreAfter build host p).called turn.action = some call ∧ Tracker.Clears e call) ↔ Leaves e p turn := by
  constructor
  · rintro ⟨call, hcall, rfl | rfl⟩
    · exact Or.inl (tracks_iff.1 (Core.called_remove_iff.1 hcall))
    · obtain ⟨x, htracks⟩ := Core.called_shutdown_iff.1 hcall
      exact Or.inr ⟨x, tracks_iff.1 htracks⟩
  · rintro (htracks | ⟨x, htracks⟩)
    · exact ⟨_, Core.called_remove_iff.2 (tracks_iff.2 htracks), Or.inl rfl⟩
    · exact ⟨_, Core.called_shutdown_iff.2 ⟨x, tracks_iff.2 htracks⟩, Or.inr rfl⟩

/-! ## The session -/

/-- A condition on the context of the trusted entities that some calls start and others stop, as the history
tells them. -/
theorem tracker_since {I : Tracker.Context P → Prop}
    {starts stops : List (Turn P G T X Output) → Turn P G T X Output → Prop}
    (startsOn stopsOn : Tracker.Context P → Tracker.Call P → Prop) (hnil : ¬ I {})
    (hstep : ∀ c call, I (Tracker.step c call).1 ↔ startsOn c call ∨ (I c ∧ ¬ stopsOn c call))
    (hstarts : ∀ p turn, (∃ call, (coreAfter build host p).called turn.action = some call ∧
      startsOn (coreAfter build host p).tracker call) ↔ starts p turn)
    (hstops : ∀ p turn, (∃ call, (coreAfter build host p).called turn.action = some call ∧
      stopsOn (coreAfter build host p).tracker call) ↔ stops p turn)
    (run : List (Turn P G T X Output)) : I (coreAfter build host run).tracker ↔ Since starts stops run := by
  refine iff_since (I := fun run => I (coreAfter build host run).tracker) hnil (fun run turn => ?_) run
  rw [coreAfter_snoc, Core.next_iff Output startsOn stopsOn hstep, hstarts, hstops]

theorem session_iff (build : Build T) (host : Host P G T) (run : List (Turn P G T X Output)) :
    (coreAfter build host run).tracker.state = true ↔ InSession run := by
  refine tracker_since (I := fun c => c.state = true) (fun _ call => call = .init) (fun _ call => call = .shutdown)
    Bool.false_ne_true Tracker.state_step_iff (fun p turn => ?_) (fun p turn => ?_) run
  · simp only [exists_eq_right, Core.called_init_iff, tracks_iff]
  · simp only [exists_eq_right, Core.called_shutdown_iff, tracks_iff]

/-- A sweep finds the hosts' memory. -/
theorem sweepsOn_iff {memory : Memory P} :
    (∃ call, (coreAfter build host p).called turn.action = some call ∧
        Tracker.SweepsOn (coreAfter build host p).tracker memory call) ↔
      Sweeps p turn ∧ memory = (coreAfter build host p).host.memory := by
  unfold Sweeps Tracker.SweepsOn
  rw [← session_iff build host]
  constructor
  · rintro ⟨call, hcall, hstate, rfl⟩
    obtain ⟨⟨x, htracks⟩, hmemory⟩ := Core.called_frame_iff.1 hcall
    exact ⟨⟨hstate, x, tracks_iff.1 htracks⟩, hmemory⟩
  · rintro ⟨⟨hstate, x, htracks⟩, hmemory⟩
    exact ⟨_, Core.called_frame_iff.2 ⟨⟨x, tracks_iff.2 htracks⟩, hmemory⟩, hstate, rfl⟩

theorem sweeps_iff {Q : Memory P → Prop} :
    (∃ call, (coreAfter build host p).called turn.action = some call ∧
        ∃ memory, Tracker.SweepsOn (coreAfter build host p).tracker memory call ∧ Q memory) ↔
      Sweeps p turn ∧ Q (coreAfter build host p).host.memory := by
  constructor
  · rintro ⟨call, hcall, memory, hsweeps, hmemory⟩
    obtain ⟨hturn, rfl⟩ := sweepsOn_iff.1 ⟨call, hcall, hsweeps⟩
    exact ⟨hturn, hmemory⟩
  · rintro ⟨hturn, hmemory⟩
    obtain ⟨call, hcall, hsweeps⟩ := sweepsOn_iff.2 ⟨hturn, rfl⟩
    exact ⟨call, hcall, _, hsweeps, hmemory⟩

theorem sweep_iff :
    (∃ call, (coreAfter build host p).called turn.action = some call ∧
        ∃ memory, Tracker.SweepsOn (coreAfter build host p).tracker memory call) ↔ Sweeps p turn := by
  constructor
  · rintro ⟨call, hcall, memory, hsweeps⟩
    exact (sweepsOn_iff.1 ⟨call, hcall, hsweeps⟩).1
  · intro hturn
    obtain ⟨call, hcall, hsweeps⟩ := sweepsOn_iff.2 ⟨hturn, rfl⟩
    exact ⟨call, hcall, _, hsweeps⟩

omit [LinearOrder P] [Zero P] [DecidableEq G] [Inhabited T] in
/-- A call that does one of two things. -/
theorem called_or_iff {core : Core P G T} {action : Action P G T X} {Q R : Tracker.Call P → Prop} :
    (∃ call, core.called action = some call ∧ (Q call ∨ R call)) ↔
      (∃ call, core.called action = some call ∧ Q call) ∨ ∃ call, core.called action = some call ∧ R call := by
  simp only [and_or_left, exists_or]

/-! ## The lists -/

section Members

variable {e : P} (he : e ≠ 0) (run : List (Turn P G T X Output))
include he

theorem queue_iff : e ∈ (coreAfter build host run).tracker.queue ↔ Queued build host e run := by
  refine tracker_since (I := fun c => e ∈ c.queue) (fun _ call => Tracker.Adds e call)
    (fun c call => Tracker.Clears e call ∨ ∃ memory, Tracker.SweepsOn c memory call) List.not_mem_nil
    (Tracker.queue_step_iff he) (fun p turn => adds_iff) (fun p turn => ?_) run
  rw [called_or_iff, clears_iff, sweep_iff]

/-- What a sweep enters. -/
theorem enters_iff :
    (∃ call, (coreAfter build host p).called turn.action = some call ∧
        ∃ memory, Tracker.EntersOn e (coreAfter build host p).tracker memory call) ↔
      Enters build host e p turn := by
  unfold Tracker.EntersOn Enters
  rw [← queue_iff he, ← isFree_owned build host]
  exact sweeps_iff

theorem listed_iff : e ∈ (coreAfter build host run).tracker.entered ↔ Entered build host e run := by
  refine tracker_since (I := fun c => e ∈ c.entered) (fun c call => ∃ memory, Tracker.EntersOn e c memory call)
    (fun c call => Tracker.Clears e call ∨
      ∃ memory, Tracker.SweepsOn c memory call ∧ memory.isFree e = true ∧ ¬ Tracker.Trailing memory c e)
    List.not_mem_nil (Tracker.entered_step_iff he) (fun p turn => enters_iff he) (fun p turn => ?_) run
  rw [called_or_iff, clears_iff, sweeps_iff]
  unfold Copied Tracker.Trailing
  rw [isFree_owned]
  refine or_congr_right (and_congr_right fun hsweeps => and_congr_right fun _ => ?_)
  rw [and_iff_right hsweeps]

/-- What a sweep or a departure reports as gone. -/
theorem exits_iff :
    (∃ call, (coreAfter build host p).called turn.action = some call ∧
        Butchering.ExitsOn e (coreAfter build host p).tracker (coreAfter build host p).host.memory call) ↔
      (Leaves e p turn ∧ Entered build host e p) ∨ Copied build host e p turn := by
  unfold Butchering.ExitsOn Copied Tracker.Trailing
  rw [called_or_iff, ← listed_iff he, ← isFree_owned build host]
  refine or_congr ?_ ?_
  · simp only [← and_assoc, exists_and_right]
    rw [clears_iff]
  · simp only [← and_assoc, exists_and_right]
    rw [sweepsOn_iff, and_iff_left rfl]

theorem gib_iff : e ∈ (coreAfter build host run).butchering.gibses ↔ Gib build host e run := by
  refine iff_since (I := fun run => e ∈ (coreAfter build host run).butchering.gibses) (Finset.notMem_empty e)
    (fun p turn => ?_) run
  have henters : (∃ call, (coreAfter build host p).called turn.action = some call ∧
      Tracker.EntersOn e (coreAfter build host p).tracker (coreAfter build host p).host.memory call ∧
        Butchering.IsGib (coreAfter build host p).engine.toFeatures (coreAfter build host p).host.memory e) ↔
      Enters build host e p turn ∧
        Butchering.IsGib (coreAfter build host p).engine.toFeatures (owned host p).memory e := by
    unfold Tracker.EntersOn Enters
    rw [isGib_owned, ← queue_iff he, ← isFree_owned build host]
    simp only [← and_assoc, exists_and_right]
    rw [sweepsOn_iff, and_iff_left rfl]
  rw [coreAfter_snoc, Core.gib_next Output he, exits_iff he, henters, loaded_iff]

end Members

/-- The lists of the plugin after a run, as its history explains them. No list holds a null pointer. -/
theorem lists_explained (build : Build T) (host : Host P G T) (run : List (Turn P G T X Output)) :
    ((coreAfter build host run).tracker.state = true ↔ InSession run) ∧
    ∀ e : P,
      (e ∈ (coreAfter build host run).tracker.queue ↔ e ≠ 0 ∧ Queued build host e run) ∧
      (e ∈ (coreAfter build host run).tracker.entered ↔ e ≠ 0 ∧ Entered build host e run) ∧
      (e ∈ (coreAfter build host run).butchering.gibses ↔ e ≠ 0 ∧ Gib build host e run) := by
  refine ⟨session_iff build host run, fun e => ?_⟩
  by_cases he : e = 0
  · subst he
    have hwf := coreAfter_wf build host run
    refine ⟨iff_of_false hwf.tracker.queueNonnull ?_, iff_of_false hwf.tracker.enteredNonnull ?_,
      iff_of_false hwf.gibses ?_⟩
    all_goals exact fun h => h.1 rfl
  · exact ⟨(queue_iff he run).trans (and_iff_right he).symm, (listed_iff he run).trans (and_iff_right he).symm,
      (gib_iff he run).trans (and_iff_right he).symm⟩

end Refrigerator.Plugin
