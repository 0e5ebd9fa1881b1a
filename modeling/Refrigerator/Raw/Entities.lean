/-
The handlers that look at the entities of their lists, on raw pointers: those of the trusted entities with
their bindings, and those of the butchering feature.

An entity that is looked at must not be null, and metamod's globals and the values they point to are
tested before they are used. Where no null is in the lists, nothing fails.
-/
import Refrigerator.Raw.Butchering
import Refrigerator.Tracker.Hooks

namespace Refrigerator.Raw

open Lib Bindings Metamod

variable {P : Type}

/-- A loop that looks at entities none of which is null. -/
theorem forM_dereference_ok {D : Type} [DecidableEq P] [Zero P] (memory : P → D) :
    ∀ {entities : List P}, 0 ∉ entities →
      (forM entities fun entity => do let _ ← dereference memory entity) = (.ok () : Checked Unit)
  | [], _ => rfl
  | entity :: entities, h => by
    have hne : entity ≠ 0 := fun heq => h (heq ▸ List.mem_cons_self)
    rw [List.forM_cons, dereference_ok hne]
    exact forM_dereference_ok memory fun hmem => h (List.mem_cons_of_mem entity hmem)

namespace TrustedEntities

variable [DecidableEq P] [Zero P]

/-! ## The handlers of the trusted entities -/

def created (globals : Metamod.Globals P) : Checked P :=
  let pointer := globals.override
  if pointer.isNone then
    let pointer := globals.original
    if pointer.isNone then pure 0 else pointee pointer
  else pointee pointer

def onCreate (globals : Metamod.Globals P) (context : Tracker.Context P) : Checked (Tracker.Context P) := do
  let pointer ← created globals
  pure (if pointer ≠ 0 then Tracker.onSpawn context pointer else context)

/-- The action bound to both creation hooks. -/
def createAction (input : Tracker.Input P) (context : Tracker.Context P) :
    Checked (Tracker.Context P × List (Event P)) :=
  if input.globals.isNone then pure (context, [])
  else do
    let globals ← pointee input.globals
    pure (← onCreate globals context, [])

/-- The test `Boolean_::False != entity->free` on all entities of a list. -/
def freeAmong (memory : Memory P) (entities : List P) : Checked (P → Bool) := do
  forM entities fun entity => do let _ ← dereference memory entity
  pure memory.isFree

def onFrame (memory : Memory P) (context : Tracker.Context P) : Checked (Tracker.Context P × List (Event P)) :=
  if ¬ context.state then pure (context, [])
  else do
    let (kept, moved) := removeIf (← freeAmong memory context.entered) context.entered
    let removed : Event P := { list := moved, state := false }
    let free ← freeAmong memory context.queue
    let entered : Event P := { list := context.queue.filter fun e => !free e, state := true }
    let context := { context with queue := [], entered := kept ++ moved ++ entered.list }
    pure (context, Tracker.dispatchUnlessEmpty removed ++ Tracker.dispatchUnlessEmpty entered)

/-- An injected action; `kept` tells whether the feature keeps the subscription. -/
structure Binding (P : Type) where
  phase : Phase
  target : Target
  kept : Bool := true
  action : Tracker.Input P → Tracker.Context P → Checked (Tracker.Context P × List (Event P))

/-- `Context_::inject_`, in its order. -/
def bindings : List (Binding P) :=
  [{ phase := .after, target := .createEntity, action := createAction },
   { phase := .before, target := .removeEntity, kept := false, action := fun _ context => pure (context, []) },
   { phase := .before, target := .createNamedEntity, action := createAction },
   { phase := .before, target := .removeEntity,
     action := fun input context => pure (Tracker.onRemove context input.entity) },
   { phase := .after, target := .init, action := fun _ context => pure (Tracker.onInit context, []) },
   { phase := .after, target := .spawn,
     action := fun input context => pure (Tracker.onSpawn context input.entity, []) },
   { phase := .before, target := .frame, action := fun input context => onFrame input.memory context },
   { phase := .before, target := .shutdown, action := fun _ context => pure (Tracker.onShutdown context) }]

/-! ## What they do -/

omit [DecidableEq P] in
theorem created_ok (globals : Metamod.Globals P) : created globals = .ok (Tracker.created globals) := by
  unfold created Tracker.created
  cases globals.override with
  | some pointer => rfl
  | none =>
    cases globals.original with
    | some pointer => rfl
    | none => rfl

theorem createAction_ok (input : Tracker.Input P) (context : Tracker.Context P) :
    createAction input context = .ok (Tracker.createAction input context) := by
  unfold createAction Tracker.createAction onCreate Tracker.onCreate
  cases input.globals with
  | none => rfl
  | some globals =>
    rw [ite_isNone_some, pointee_some, ok_bind, created_ok, ok_bind]
    rfl

theorem freeAmong_ok (memory : Memory P) {entities : List P} (h : 0 ∉ entities) :
    freeAmong memory entities = .ok memory.isFree := by
  unfold freeAmong
  rw [forM_dereference_ok memory h]
  rfl

theorem onFrame_ok (memory : Memory P) {context : Tracker.Context P} (h : Tracker.WF context) :
    onFrame memory context = .ok (Tracker.onFrame memory context) := by
  unfold onFrame Tracker.onFrame
  rw [freeAmong_ok memory h.enteredNonnull, freeAmong_ok memory h.queueNonnull]
  split_ifs
  · rfl
  · rfl

end TrustedEntities

namespace Gibs

variable [LinearOrder P] [Zero P] (engine : Engine P) (memory : Memory P) (context : Butchering.Context P)

/-! ## The handlers of the butchering feature -/

def enterEntity (context : Butchering.Context P) (entity : P) : Checked (Butchering.Context P) := do
  let _ ← dereference memory entity
  Raw.enterEntity engine memory context entity

def onEnter (entities : List P) : Checked (Butchering.Context P) :=
  if engine.functions.szFromIndex.isNone then pure context
  else entities.foldlM (enterEntity engine memory) context

def onFrame : Checked (Memory P) := do
  if 0 < (← fadeoutFreezerCapacity engine) then pure memory
  else if h : context.gibses.Nonempty then
    let entity := context.gibses.min' h
    let dictionary ← dereference memory entity
    if dictionary.v.nextthink.isFinite then pure memory
    else do
      let nextthink ← nearestThinkTime engine
      pure (memory.setVariables entity { dictionary.v with nextthink })
  else pure memory

variable {context}

theorem onEnter_ok {entities : List P} (h : 0 ∉ entities) :
    onEnter engine memory context entities = .ok (Butchering.onEnter engine.toFeatures memory context entities) := by
  unfold onEnter Butchering.onEnter
  rw [Engine.toFeatures_functions]
  cases hfunction : engine.functions.szFromIndex with
  | none => rfl
  | some szFromIndex =>
    refine foldlM_ok entities context fun entity hentity context => ?_
    have hne : entity ≠ 0 := fun heq => h (heq ▸ hentity)
    unfold enterEntity
    rw [dereference_ok hne, ok_bind]
    exact enterEntity_ok hfunction context entity

theorem onFrame_ok (h : 0 ∉ context.gibses) :
    onFrame engine memory context = .ok (Butchering.onFrame engine.toFeatures memory context) := by
  rw [← Raw.onFrame_ok]
  unfold onFrame Raw.onFrame
  rw [fadeoutFreezerCapacity_ok, ok_bind, ok_bind]
  split_ifs with hcapacity hgibses
  · rfl
  · have hne : context.gibses.min' hgibses ≠ 0 := fun heq => h (heq ▸ context.gibses.min'_mem hgibses)
    dsimp only
    rw [dereference_ok hne]
    rfl
  · rfl

end Gibs

end Refrigerator.Raw
