/-
The whole system around the gibs: both features, the memory, and an engine that frees, allocates and
changes entities between the handlers.

`onThink` freezes a gib by an infinite next think time, and only the thawing frame reaches it again,
as long as it is in `gibses`. A frozen gib gets lost in one way (`Spares`): a sweep reports it with the
free entities although it is live, and does not admit it as a gib again.
-/
import Refrigerator.Butchering.Basic

namespace Refrigerator.Butchering

open Lib Metamod Bindings Tracker

variable {P : Type*} [LinearOrder P] [Zero P]

/-! ## What the handlers do to the memory -/

/-- Thinking either freezes a gib and supersedes, or does neither. -/
theorem onThink_cases (engine : Engine) (memory : Memory P) (context : Context P) (e : P) :
    (∃ answer, answer ≠ .supercede ∧ onThink engine memory context e = (answer, memory)) ∨
      (e ∈ context.gibses ∧
        onThink engine memory context e = (.supercede, memory.setVariables e (freeze (memory e).v))) := by
  unfold onThink
  split_ifs with h0 hg hc
  · exact Or.inl ⟨.ignored, by decide, rfl⟩
  · exact Or.inr ⟨hg, rfl⟩
  · exact Or.inl ⟨.handled, by decide, rfl⟩
  · exact Or.inl ⟨.ignored, by decide, rfl⟩

omit [Zero P] in
theorem isFree_onFrame (engine : Engine) (memory : Memory P) (context : Context P) (e : P) :
    (onFrame engine memory context).isFree e = memory.isFree e := by
  unfold onFrame
  cases thawed engine memory context with
  | none => rfl
  | some entity => exact memory.isFree_setVariables entity e _

/-! ## The world -/

/-- `frozen` records the entities whose next think time was written by `onThink` last. -/
structure World (P : Type*) where
  engine : Engine
  memory : Memory P
  tracker : Tracker.Context P := {}
  butchering : Context P := {}
  frozen : Finset P := ∅

/-- Hooked calls and frames, each with the handlers bound to it, and what the engine does by itself. A
frame runs the handlers of the tracker before and those of the gibs after. -/
inductive Action (P : Type*)
  | init
  | spawn (entity : P)
  | create (globals : Globals P)
  | removeEntity (entity : P)
  | beforeFrame
  | afterFrame
  | think (entity : P)
  | free (entity : P)
  | allocate (entity : P) (v : Variables)
  | change (entity : P) (v : Variables)
  | schedule (entity : P) (time : Binary32)
  | configure (engine : Engine)

namespace World

variable (w : World P)

/-- A handler call of the tracker, its events delivered. -/
def track (call : Call P) : World P :=
  let (tracker, events) := Tracker.step w.tracker call
  { w with tracker, butchering := deliverAll w.engine w.memory w.butchering events }

def step : Action P → World P
  | .init => w.track .init
  | .spawn entity => w.track (.spawn entity)
  | .create globals => w.track (.create globals)
  | .removeEntity entity =>
    -- the engine function frees the entity right after the handlers
    let w := w.track (.remove entity)
    { w with memory := w.memory.setFree entity .true }
  | .beforeFrame => w.track (.frame w.memory)
  | .afterFrame =>
    { w with
      memory := onFrame w.engine w.memory w.butchering
      frozen := (thawed w.engine w.memory w.butchering).elim w.frozen w.frozen.erase }
  | .think entity =>
    match onThink w.engine w.memory w.butchering entity with
    | (.supercede, memory) => { w with memory, frozen := insert entity w.frozen }
    | (_, memory) => { w with memory }
  | .free entity => { w with memory := w.memory.setFree entity .true }
  | .allocate entity v =>
    { w with
      memory := (w.memory.setVariables entity { v with nextthink := .zero }).setFree entity .false
      frozen := w.frozen.erase entity }
  | .change entity v =>
    { w with memory := w.memory.setVariables entity { v with nextthink := (w.memory entity).v.nextthink } }
  | .schedule entity time =>
    { w with
      memory := w.memory.setVariables entity { (w.memory entity).v with nextthink := time }
      frozen := w.frozen.erase entity }
  | .configure engine => { w with engine }

end World

theorem step_think (w : World P) (entity : P) :
    w.step (.think entity) = w ∨ entity ∈ w.butchering.gibses ∧ w.step (.think entity) =
      { w with
        memory := w.memory.setVariables entity (freeze (w.memory entity).v)
        frozen := insert entity w.frozen } := by
  simp only [World.step]
  rcases onThink_cases w.engine w.memory w.butchering entity with ⟨answer, hne, heq⟩ | ⟨hg, heq⟩
  · left; rw [heq]
    cases answer with
    | supercede => exact absurd rfl hne
    | _ => rfl
  · right; rw [heq]; exact ⟨hg, rfl⟩

def worldMachine : Machine (World P) (Action P) Empty := ⟨fun w action => (w.step action, [])⟩

/-- The world after a run from the initial one. -/
def reached (engine : Engine) (memory : Memory P) (run : List (Action P)) : World P :=
  worldMachine.exec { engine, memory } run

/-- The tracker of a world is in a state that its own calls lead to. -/
theorem reached_tracker (engine : Engine) (memory : Memory P) (run : List (Action P)) :
    ∃ calls, (reached engine memory run).tracker = after calls := by
  refine worldMachine.exec_refines Tracker.machine (f := World.tracker) (fun w action => ?_) { engine, memory } run
  cases action with
  | init => exact ⟨[.init], rfl⟩
  | spawn entity => exact ⟨[.spawn entity], rfl⟩
  | create globals => exact ⟨[.create globals], rfl⟩
  | removeEntity entity => exact ⟨[.remove entity], rfl⟩
  | beforeFrame => exact ⟨[.frame w.memory], rfl⟩
  | think entity =>
    refine ⟨[], ?_⟩
    show (w.step (.think entity)).tracker = w.tracker
    rcases step_think w entity with heq | ⟨-, heq⟩ <;> rw [heq]
  | _ => exact ⟨[], rfl⟩

/-- Every live frozen entity is a gib. -/
def Thawable (w : World P) : Prop :=
  ∀ e, w.memory.isFree e = false → e ∈ w.frozen → e ∈ w.butchering.gibses

/-- What a frame in a session has to find: a live frozen entity that stands where the free entities are
taken to stand is queued again, still as a gib. -/
def Spares (w : World P) : Prop :=
  w.tracker.state = true → ∀ e, w.memory.isFree e = false → e ∈ w.frozen →
    Trailing w.memory w.tracker e → e ∈ w.tracker.queue ∧ IsGib w.engine w.memory e

/-! ## The record of frozen entities -/

theorem mem_frozen_afterFrame {w : World P} {e : P} :
    e ∈ (w.step .afterFrame).frozen ↔ e ∈ w.frozen ∧ thawed w.engine w.memory w.butchering ≠ some e := by
  show e ∈ (thawed w.engine w.memory w.butchering).elim w.frozen w.frozen.erase ↔ _
  cases thawed w.engine w.memory w.butchering with
  | none => simp
  | some entity => simp [Finset.mem_erase, and_comm, eq_comm]

/-- The next think time of a recorded entity is still the infinity written by `onThink`. -/
def Recorded (w : World P) : Prop := ∀ e ∈ w.frozen, (w.memory e).v.nextthink = .infinity

theorem recorded_step {w : World P} (h : Recorded w) (action : Action P) : Recorded (w.step action) := by
  intro e he
  cases action with
  | init => exact h e he
  | spawn entity => exact h e he
  | create globals => exact h e he
  | beforeFrame => exact h e he
  | configure engine => exact h e he
  | removeEntity entity =>
    show (w.memory.setFree entity .true e).v.nextthink = .infinity
    rw [Memory.v_setFree]; exact h e he
  | free entity =>
    show (w.memory.setFree entity .true e).v.nextthink = .infinity
    rw [Memory.v_setFree]; exact h e he
  | afterFrame =>
    obtain ⟨hfrozen, hne⟩ := mem_frozen_afterFrame.1 he
    show (onFrame w.engine w.memory w.butchering e).v.nextthink = .infinity
    unfold onFrame
    cases ht : thawed w.engine w.memory w.butchering with
    | none => exact h e hfrozen
    | some entity =>
      -- a thawed entity is taken out of the record
      rw [ht] at hne
      rw [Memory.v_setVariables, if_neg fun heq => hne (congrArg some heq.symm)]
      exact h e hfrozen
  | think entity =>
    rcases step_think w entity with heq | ⟨-, heq⟩
    · rw [heq] at he ⊢; exact h e he
    · rw [heq] at he ⊢
      show (w.memory.setVariables entity _ e).v.nextthink = .infinity
      rw [Memory.v_setVariables]
      split_ifs with hne
      · rfl
      · exact h e ((Finset.mem_insert.1 he).resolve_left hne)
  | allocate entity v =>
    obtain ⟨hne, hfrozen⟩ := Finset.mem_erase.1 he
    show ((w.memory.setVariables entity _).setFree entity .false e).v.nextthink = .infinity
    rw [Memory.v_setFree, Memory.v_setVariables, if_neg hne]; exact h e hfrozen
  | change entity v =>
    show (w.memory.setVariables entity _ e).v.nextthink = .infinity
    rw [Memory.v_setVariables]
    split_ifs with heq
    · subst heq; exact h e he
    · exact h e he
  | schedule entity time =>
    obtain ⟨hne, hfrozen⟩ := Finset.mem_erase.1 he
    show (w.memory.setVariables entity _ e).v.nextthink = .infinity
    rw [Memory.v_setVariables, if_neg hne]; exact h e hfrozen

theorem recorded_reached (engine : Engine) (memory : Memory P) (run : List (Action P)) :
    Recorded (reached engine memory run) :=
  worldMachine.exec_invariant (I := Recorded) (fun _ action h => recorded_step h action) _ run
    fun _ he => nomatch he

/-- Without capacity a frame thaws the first gib if it is frozen: members of the set are within reach. -/
theorem afterFrame_thaws {w : World P} (h : Recorded w) (hc : fadeoutFreezerCapacity w.engine = 0)
    (hne : w.butchering.gibses.Nonempty) (hfrozen : w.butchering.gibses.min' hne ∈ w.frozen) :
    w.butchering.gibses.min' hne ∉ (w.step .afterFrame).frozen ∧
      ((w.step .afterFrame).memory (w.butchering.gibses.min' hne)).v.nextthink.isFinite = true := by
  have hinf : (w.memory (w.butchering.gibses.min' hne)).v.nextthink.isFinite = false := by
    rw [h _ hfrozen]; exact Binary32.isFinite_infinity
  have hthaw := thawed_eq hc hne hinf
  refine ⟨fun he => (mem_frozen_afterFrame.1 he).2 hthaw, ?_⟩
  show (onFrame w.engine w.memory w.butchering _).v.nextthink.isFinite = true
  rw [onFrame_nextthink hthaw]; exact nearestThinkTime_isFinite w.engine

/-! ## One action -/

theorem mem_gibses_track {w : World P} {call : Call P}
    (hidle : ∀ memory, call = .frame memory → w.tracker.state = false) {e : P} : e ∈ (w.track call).butchering.gibses ↔
      e ∈ w.butchering.gibses ∧ ∀ event ∈ (Tracker.step w.tracker call).2, e ∉ event.list :=
  mem_deliverAll_exits (step_exits hidle).exit

/-- A call that dispatches nothing leaves the gibs alone. -/
theorem thawable_of_silent {w : World P} {call : Call P} (h : Thawable w)
    (hsilent : (Tracker.step w.tracker call).2 = []) : Thawable (w.track call) := by
  intro e hlive hfrozen
  show e ∈ (deliverAll w.engine w.memory w.butchering (Tracker.step w.tracker call).2).gibses
  rw [hsilent]; exact h e hlive hfrozen

/-- A removed entity leaves the gibs and is freed. -/
theorem thawable_removeEntity {w : World P} (h : Thawable w) (entity : P) :
    Thawable (w.step (.removeEntity entity)) := by
  intro e hlive hfrozen
  change (w.memory.setFree entity .true).isFree e = false at hlive
  rw [Memory.isFree_setFree] at hlive
  split_ifs at hlive with hne
  · cases hlive
  · have hidle : ∀ memory, Call.remove entity = .frame memory → w.tracker.state = false := fun _ hc => nomatch hc
    refine (mem_gibses_track hidle).2 ⟨h e hlive hfrozen, fun event hev he => ?_⟩
    change event ∈ (onRemove w.tracker entity).2 at hev
    by_cases h0 : entity = 0
    · subst h0; rw [onRemove_null] at hev; cases hev
    · rw [onRemove_eq h0] at hev
      split_ifs at hev
      · rw [List.mem_singleton.1 hev, List.mem_singleton] at he
        exact hne he
      · cases hev

/-- A frame keeps the frozen gibs exactly when its sweep spares them. -/
theorem thawable_beforeFrame_iff {w : World P} (h : Thawable w) : Thawable (w.step .beforeFrame) ↔ Spares w := by
  cases hs : w.tracker.state with
  | false =>
    have hsilent : (Tracker.step w.tracker (.frame w.memory)).2 = [] := by
      show (Tracker.onFrame w.memory w.tracker).2 = []
      rw [onFrame_idle hs]
    refine iff_of_true (thawable_of_silent h hsilent) fun hactive => ?_
    rw [hs] at hactive; cases hactive
  | true =>
    unfold Spares
    rw [imp_iff_right hs]
    refine forall_congr' fun e => forall_congr' fun hlive => forall_congr' fun hfrozen => ?_
    have hgib : e ∈ w.butchering.gibses := h e hlive hfrozen
    show e ∈ (deliverAll w.engine w.memory w.butchering (Tracker.onFrame w.memory w.tracker).2).gibses ↔ _
    rw [mem_deliverAll_frame hs, Context.mem_admitted]
    -- a reported gib comes back only by being admitted
    change w.memory.isFree e = false at hlive
    constructor
    · rintro (⟨-, hout⟩ | ⟨⟨hqueue, -⟩, hclass⟩) htrail
      · exact absurd htrail hout
      · exact ⟨hqueue, hclass⟩
    · intro hspares
      by_cases htrail : Trailing w.memory w.tracker e
      · obtain ⟨hqueue, hclass⟩ := hspares htrail
        exact Or.inr ⟨⟨hqueue, hlive⟩, hclass⟩
      · exact Or.inl ⟨hgib, htrail⟩

/-- Only gibs are frozen. -/
theorem thawable_think {w : World P} (h : Thawable w) (entity : P) : Thawable (w.step (.think entity)) := by
  rcases step_think w entity with heq | ⟨hg, heq⟩
  · rw [heq]; exact h
  · rw [heq]
    intro e hlive hfrozen
    change (w.memory.setVariables entity _).isFree e = false at hlive
    rw [Memory.isFree_setVariables] at hlive
    rcases Finset.mem_insert.1 hfrozen with rfl | hfrozen
    · exact hg
    · exact h e hlive hfrozen

omit [LinearOrder P] [Zero P] in
/-- What the engine writes leaves the gibs alone; it makes an entity live only by allocating it. -/
theorem thawable_engine {w : World P} (h : Thawable w) {memory : Memory P} {frozen : Finset P}
    (hsub : ∀ e, memory.isFree e = false → e ∈ frozen → w.memory.isFree e = false ∧ e ∈ w.frozen)
    (engine : Engine) : Thawable { w with engine, memory, frozen } := by
  intro e hlive hfrozen
  obtain ⟨hlive', hfrozen'⟩ := hsub e hlive hfrozen
  exact h e hlive' hfrozen'

/-- The guard of one action. -/
def Safe (w : World P) : Action P → Prop
  | .beforeFrame => Spares w
  | _ => True

theorem thawable_step {w : World P} (h : Thawable w) (action : Action P) :
    Thawable (w.step action) ↔ Safe w action := by
  cases action with
  | beforeFrame => exact thawable_beforeFrame_iff h
  | init => exact iff_of_true (thawable_of_silent h rfl) trivial
  | spawn entity => exact iff_of_true (thawable_of_silent h rfl) trivial
  | create globals => exact iff_of_true (thawable_of_silent h rfl) trivial
  | removeEntity entity => exact iff_of_true (thawable_removeEntity h entity) trivial
  | think entity => exact iff_of_true (thawable_think h entity) trivial
  | configure engine =>
    exact iff_of_true (thawable_engine h (fun e hlive hfrozen => ⟨hlive, hfrozen⟩) engine) trivial
  | afterFrame =>
    refine iff_of_true (thawable_engine h (fun e hlive hfrozen => ?_) w.engine) trivial
    rw [isFree_onFrame] at hlive
    exact ⟨hlive, (mem_frozen_afterFrame.1 hfrozen).1⟩
  | free entity =>
    refine iff_of_true (thawable_engine h (fun e hlive hfrozen => ?_) w.engine) trivial
    rw [Memory.isFree_setFree] at hlive
    split_ifs at hlive with hne
    · cases hlive
    · exact ⟨hlive, hfrozen⟩
  | allocate entity v =>
    refine iff_of_true (thawable_engine h (fun e hlive hfrozen => ?_) w.engine) trivial
    obtain ⟨hne, hfrozen⟩ := Finset.mem_erase.1 hfrozen
    rw [Memory.isFree_setFree, if_neg hne, Memory.isFree_setVariables] at hlive
    exact ⟨hlive, hfrozen⟩
  | change entity v =>
    refine iff_of_true (thawable_engine h (fun e hlive hfrozen => ?_) w.engine) trivial
    rw [Memory.isFree_setVariables] at hlive
    exact ⟨hlive, hfrozen⟩
  | schedule entity time =>
    refine iff_of_true (thawable_engine h (fun e hlive hfrozen => ?_) w.engine) trivial
    rw [Memory.isFree_setVariables] at hlive
    exact ⟨hlive, Finset.mem_of_mem_erase hfrozen⟩

/-! ## Runs -/

/-- Every live entity whose next think time is still the one `onThink` froze it with is a gib, at every
point of a run, exactly when the sweep of every frame of the run spares the frozen ones. -/
theorem thawable_iff (engine : Engine) (memory : Memory P) (run : List (Action P)) :
    (∀ p, p <+: run → Thawable (reached engine memory p)) ↔
      ∀ p, p ++ [.beforeFrame] <+: run → Spares (reached engine memory p) := by
  have hsteps := worldMachine.points_iff_steps (P := fun _ w => Thawable w) (C := Safe)
    (s := { engine, memory }) (fun _ _ he => nomatch he) (fun _ action h => thawable_step h action) run
  refine hsteps.trans ⟨fun h p hp => h p .beforeFrame hp, fun h p action hp => ?_⟩
  cases action with
  | beforeFrame => exact h p hp
  | _ => trivial

/-- Entities 1 and 2 enter as gibs, 2 is frozen and 1 freed: the sweep reports 2 in place of 1, and no
frame will thaw it. -/
theorem thawable_broken :
    let engine : Engine :=
      { functions := { numberOfEntities := some 10, szFromIndex := some fun _ => some "gib" }
        globals := some { maxEntities := 1000 } }
    ¬ ∀ p, p <+: [.init, .spawn 1, .spawn 2, .beforeFrame, .think 2, .free 1, .beforeFrame] →
      Thawable (reached (P := ℕ) engine (fun _ => {}) p) := by
  intro engine h
  have := h _ List.prefix_rfl 2
  revert this; decide

end Refrigerator.Butchering
