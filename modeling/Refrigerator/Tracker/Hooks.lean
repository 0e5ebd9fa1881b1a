/-
The hooks of the trusted-entities feature (`Context_::inject_`): which handler is bound to which hook,
in which phase, and what a hooked creation call does to the context.

Every dispatched hook is a run of handler calls (`dispatch_eq`), so the contexts hooks lead to are
those of `Tracker.machine`. A creation call dispatches its `Before` handlers with whatever the globals
still hold, runs the engine function, and dispatches its `After` handlers with the returned entity in
the globals.
-/
import Refrigerator.Tracker.Handlers
import Refrigerator.Bindings.Basic

namespace Refrigerator.Tracker

open Lib Metamod Bindings

variable {P : Type*} [DecidableEq P] [Zero P]

/-! ## Bindings -/

/-- What an injected action reads: the argument of a hook on an entity, `api.meta.globals`, the memory. -/
structure Input (P : Type*) where
  entity : P
  globals : Option (Globals P)
  memory : Memory P

structure Binding (P : Type*) where
  phase : Phase
  target : Target
  action : Input P → Context P → Context P × List (Event P)

/-- The action bound to both creation hooks. -/
def createAction (input : Input P) (context : Context P) : Context P × List (Event P) :=
  match input.globals with
  | none => (context, [])
  | some globals => (onCreate globals context, [])

/-- `Context_::inject_`, in its order. The second one is not kept in the context and does nothing. -/
def bindings : List (Binding P) :=
  [{ phase := .after, target := .createEntity, action := createAction },
   { phase := .before, target := .removeEntity, action := fun _ context => (context, []) },
   -- dispatched before the engine function runs, unlike the first one
   { phase := .before, target := .createNamedEntity, action := createAction },
   { phase := .before, target := .removeEntity, action := fun input context => onRemove context input.entity },
   { phase := .after, target := .init, action := fun _ context => (onInit context, []) },
   { phase := .after, target := .spawn, action := fun input context => (onSpawn context input.entity, []) },
   { phase := .before, target := .frame, action := fun input context => onFrame input.memory context },
   { phase := .before, target := .shutdown, action := fun _ context => onShutdown context }]

/-- The dispatch of a hook: the bound actions of its phase and target, one after another. -/
def dispatch (phase : Phase) (target : Target) (input : Input P) (context : Context P) :
    Context P × List (Event P) :=
  bindings.foldl (fun (context, events) binding =>
    if binding.target ≠ target then (context, events)
    else if binding.phase ≠ phase then (context, events)
    else
      let (context, dispatched) := binding.action input context
      (context, events ++ dispatched)) (context, [])

/-- The handler calls a hook amounts to. -/
def hookCalls : Phase → Target → Input P → List (Call P)
  | .after, .createEntity, input => (input.globals.map Call.create).toList
  | .before, .createNamedEntity, input => (input.globals.map Call.create).toList
  | .before, .removeEntity, input => [.remove input.entity]
  | .after, .init, _ => [.init]
  | .after, .spawn, input => [.spawn input.entity]
  | .before, .frame, input => [.frame input.memory]
  | .before, .shutdown, _ => [.shutdown]
  | _, _, _ => []

theorem dispatch_eq (phase : Phase) (target : Target) (input : Input P) (c : Context P) :
    dispatch phase target input c =
      (machine.exec c (hookCalls phase target input), machine.emitted c (hookCalls phase target input)) := by
  obtain ⟨entity, globals, memory⟩ := input
  cases phase <;> cases target <;> cases globals <;>
    simp [dispatch, bindings, hookCalls, createAction, Machine.next, Machine.emit, machine, step]

/-! ## The call of a hook -/

section Head

omit [DecidableEq P] [Zero P]

variable {phase : Phase} {target : Target} {input : Input P}

theorem head_init_iff : (hookCalls phase target input).head? = some .init ↔ phase = .after ∧ target = .init := by
  cases phase <;> cases target <;> simp [hookCalls]

theorem head_spawn_iff {e : P} :
    (hookCalls phase target input).head? = some (.spawn e) ↔ (phase = .after ∧ target = .spawn) ∧ input.entity = e := by
  cases phase <;> cases target <;> simp [hookCalls]

theorem head_create_iff {globals : Globals P} : (hookCalls phase target input).head? = some (.create globals) ↔
    ((phase = .after ∧ target = .createEntity) ∨ (phase = .before ∧ target = .createNamedEntity)) ∧
      input.globals = some globals := by
  cases phase <;> cases target <;> simp [hookCalls]

theorem head_remove_iff {e : P} : (hookCalls phase target input).head? = some (.remove e) ↔
    (phase = .before ∧ target = .removeEntity) ∧ input.entity = e := by
  cases phase <;> cases target <;> simp [hookCalls]

theorem head_frame_iff {memory : Memory P} : (hookCalls phase target input).head? = some (.frame memory) ↔
    (phase = .before ∧ target = .frame) ∧ input.memory = memory := by
  cases phase <;> cases target <;> simp [hookCalls]

theorem head_shutdown_iff :
    (hookCalls phase target input).head? = some .shutdown ↔ phase = .before ∧ target = .shutdown := by
  cases phase <;> cases target <;> simp [hookCalls]

end Head

/-! ## Creation calls -/

inductive Creation
  | createEntity
  | createNamedEntity
deriving DecidableEq, Repr

def Creation.target : Creation → Target
  | .createEntity => .createEntity
  | .createNamedEntity => .createNamedEntity

/-- A hooked creation call: what the globals still hold when it starts, the entity the engine function
returns and the one a plugin overrides it with. -/
structure CreationCall (P : Type*) where
  creation : Creation
  leftover : Globals P
  original : P
  override : Option P

namespace CreationCall

variable (call : CreationCall P)

/-- The globals of the `After` dispatch. -/
def globals : Globals P := { call.leftover with original := some call.original, override := call.override }

/-- The entity the caller gets. -/
def returned : P := call.override.getD call.original

omit [DecidableEq P] in
theorem created_globals : created call.globals = call.returned := by
  obtain ⟨creation, leftover, original, override⟩ := call
  cases override <;> rfl

end CreationCall

/-- A creation call: the `Before` handlers, the engine function, which leaves the context alone, and the
`After` handlers. -/
def hookedCreation (memory : Memory P) (context : Context P) (call : CreationCall P) :
    Context P × List (Event P) :=
  let target := call.creation.target
  let (context, before) := dispatch .before target { entity := 0, globals := some call.leftover, memory } context
  let (context, after) := dispatch .after target { entity := 0, globals := some call.globals, memory } context
  (context, before ++ after)

/-- The machine of creation calls. -/
def creations (memory : Memory P) : Machine (Context P) (CreationCall P) (Event P) := ⟨hookedCreation memory⟩

/-- `createEntity` is seen after it returned, `createNamedEntity` before it runs. -/
theorem hookedCreation_eq (memory : Memory P) (c : Context P) (call : CreationCall P) :
    hookedCreation memory c call = match call.creation with
      | .createEntity => (onSpawn c call.returned, [])
      | .createNamedEntity => (onSpawn c (created call.leftover), []) := by
  obtain ⟨creation, leftover, original, override⟩ := call
  unfold hookedCreation
  rw [← CreationCall.created_globals, ← onCreate_eq, ← onCreate_eq]
  simp only [dispatch_eq]
  cases creation <;> rfl

/-- Creation calls lead from a reachable context to reachable ones. -/
theorem creations_reachable (memory : Memory P) (run : List (Call P)) (calls : List (CreationCall P)) :
    ∃ more, (creations memory).exec (after run) calls = after (run ++ more) := by
  have hstep : ∀ (c : Context P) call, ∃ more, (creations memory).next c call = machine.exec c more := by
    intro c call
    have hnext : (creations memory).next c call = (hookedCreation memory c call).1 := rfl
    rw [hnext, hookedCreation_eq]
    cases call.creation with
    | createEntity => exact ⟨[.spawn call.returned], rfl⟩
    | createNamedEntity => exact ⟨[.spawn (created call.leftover)], rfl⟩
  obtain ⟨more, hmore⟩ := (creations memory).exec_refines machine (f := id) hstep (after run) calls
  exact ⟨more, hmore.trans (machine.exec_append {} run more).symm⟩

/-- After the call the caller's entity is in one of the lists, and the queue has got no other entity. -/
def Seen (before : Context P) (call : CreationCall P) (after : Context P) : Prop :=
  call.returned ≠ 0 →
    (call.returned ∈ after.queue ∨ call.returned ∈ after.entered) ∧
    ∀ e ∈ after.queue, e ∈ before.queue ∨ e = call.returned

/-- When a named creation call is seen: the globals left over point to the very entity it will return;
or it returns an entity of the lists while the one left over is null or queued. -/
def Foreseen (context : Context P) (call : CreationCall P) : Prop :=
  match call.creation with
  | .createEntity => True
  | .createNamedEntity => call.returned ≠ 0 → created call.leftover = call.returned ∨
      (call.returned ∈ context.queue ∨ call.returned ∈ context.entered) ∧
        (created call.leftover = 0 ∨ created call.leftover ∈ context.queue)

theorem seen_onSpawn {c : Context P} {call : CreationCall P} : Seen c call (onSpawn c call.returned) := by
  intro h0
  refine ⟨Or.inl (mem_queue_onSpawn.2 (Or.inr ⟨rfl, h0⟩)), fun e he => ?_⟩
  rcases mem_queue_onSpawn.1 he with he | ⟨rfl, -⟩
  · exact Or.inl he
  · exact Or.inr rfl

theorem seen_iff_foreseen (memory : Memory P) (c : Context P) (call : CreationCall P) :
    Seen c call (hookedCreation memory c call).1 ↔ Foreseen c call := by
  rw [hookedCreation_eq]
  unfold Foreseen
  cases call.creation with
  | createEntity => exact iff_of_true seen_onSpawn trivial
  | createNamedEntity =>
    show Seen c call (onSpawn c (created call.leftover)) ↔ _
    refine forall_congr' fun h0 => ?_
    simp only [mem_queue_onSpawn, onSpawn_entered]
    constructor
    · rintro ⟨hret, hnew⟩
      by_cases hx : created call.leftover = call.returned
      · exact Or.inl hx
      · refine Or.inr ⟨?_, ?_⟩
        · rcases hret with (hq | ⟨heq, -⟩) | he
          · exact Or.inl hq
          · exact absurd heq.symm hx
          · exact Or.inr he
        · by_cases hnull : created call.leftover = 0
          · exact Or.inl hnull
          · rcases hnew _ (Or.inr ⟨rfl, hnull⟩) with hq | heq
            · exact Or.inr hq
            · exact absurd heq hx
    · rintro (hx | ⟨hret, hx⟩)
      · rw [hx]
        exact ⟨Or.inl (Or.inr ⟨rfl, h0⟩), fun e he => he.imp_right And.left⟩
      · refine ⟨hret.imp_left Or.inl, ?_⟩
        rintro e (he | ⟨rfl, hne⟩)
        · exact Or.inl he
        · exact Or.inl (hx.resolve_left hne)

/-- From a reachable context a sequence of creation calls shows every created entity exactly when each of
its calls is foreseen. -/
theorem creations_seen_iff (memory : Memory P) (run : List (Call P)) (calls : List (CreationCall P)) :
    (∀ p call, p ++ [call] <+: calls → Seen ((creations memory).exec (after run) p) call
      ((creations memory).exec (after run) (p ++ [call]))) ↔
    ∀ p call, p ++ [call] <+: calls → Foreseen ((creations memory).exec (after run) p) call := by
  refine forall_congr' fun p => forall_congr' fun call => forall_congr' fun _ => ?_
  rw [Machine.exec_snoc]
  exact seen_iff_foreseen memory _ call

/-- A named creation with nothing left over in the globals goes unseen. -/
theorem creations_unseen :
    ¬ ∀ p call, p ++ [call] <+:
        [{ creation := .createNamedEntity, leftover := {}, original := 1, override := none }] →
      Seen ((creations (P := Nat) (.freeing [])).exec (after [.init]) p) call
        ((creations (.freeing [])).exec (after [.init]) (p ++ [call])) := by
  intro h
  have := (h [] _ List.prefix_rfl (by decide)).1
  revert this; decide

end Refrigerator.Tracker
