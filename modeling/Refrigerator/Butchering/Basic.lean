/-
The butchering feature (`features/butchering.cxx`): the set of gibs it keeps from the events of the
trusted-entities feature, and its handlers for thinking and for frames.

`std::set` orders pointers, so `P` is linearly ordered and the first member of the set is its least.
Integers are unbounded; a service that is missing is `none` in the engine's table.
-/
import Refrigerator.Tracker.Handlers
import Refrigerator.Bindings.Basic
import Mathlib.Data.Finset.Max

namespace Refrigerator.Butchering

open Lib Bindings

/-! ## The context -/

/-- `Type::Context_`, less its bindings. -/
structure Context (P : Type*) where
  gibses : Finset P := ∅

/-! ## The engine's services -/

def nearestThinkTime (engine : Engine) : Binary32 :=
  let value := match engine.functions.time with
    | none => Binary32.zero
    | some value => if !(Binary32.zero.lt value && value.isFinite) then Binary32.zero else value
  value.nextafter ((Binary32.ofNat 1).add value)

def fadeoutFreezerCapacity (engine : Engine) : Nat :=
  match engine.globals, engine.functions.numberOfEntities with
  | none, _ => 0
  | some _, none => 0
  | some globals, some total =>
    let maximum := globals.maxEntities
    if ¬ 0 < maximum then 0
    else
      let reserved := max 128 (maximum.tdiv 4)
      if ¬ reserved < maximum then 0
      else
        let limit := maximum - reserved
        if limit > total then (limit - total).toNat else 0

/-- There is room for more entities, with a quarter of the maximum kept for others, but 128 at least. -/
def HasCapacity (engine : Engine) : Prop :=
  ∃ globals total, engine.globals = some globals ∧ engine.functions.numberOfEntities = some total ∧
    max 128 (globals.maxEntities / 4) < globals.maxEntities ∧
    total < globals.maxEntities - max 128 (globals.maxEntities / 4)

theorem fadeoutFreezerCapacity_pos_iff {engine : Engine} : 0 < fadeoutFreezerCapacity engine ↔ HasCapacity engine := by
  unfold fadeoutFreezerCapacity HasCapacity
  cases engine.globals with
  | none => simp
  | some globals =>
    cases engine.functions.numberOfEntities with
    | none => simp
    | some total =>
      simp only [Option.some.injEq, exists_and_left, exists_eq_left']
      by_cases hm : 0 < globals.maxEntities
      · rw [Int.tdiv_eq_ediv_of_nonneg hm.le]
        split_ifs <;> omega
      · rw [if_pos hm]
        omega

/-- The time is the next one after that of the engine, which counts as zero unless it is positive and
finite. -/
def NextThink (engine : Engine) (time : Binary32) : Prop :=
  ∃ value : Binary32, time = value.nextafter ((Binary32.ofNat 1).add value) ∧
    ((engine.functions.time = some value ∧ Binary32.zero.lt value = true ∧ value.isFinite = true) ∨
      (value = .zero ∧ ∀ value', engine.functions.time = some value' →
        ¬ (Binary32.zero.lt value' = true ∧ value'.isFinite = true)))

theorem nextThink_iff {engine : Engine} {time : Binary32} :
    NextThink engine time ↔ time = nearestThinkTime engine := by
  unfold NextThink nearestThinkTime
  cases engine.functions.time with
  | none => simp
  | some value =>
    simp only [Option.some.injEq, Bool.not_eq_true', Bool.and_eq_false_iff]
    by_cases hvalid : Binary32.zero.lt value = true ∧ value.isFinite = true
    · have hnot : ¬ (Binary32.zero.lt value = false ∨ value.isFinite = false) := by simp [hvalid]
      rw [if_neg hnot]
      constructor
      · rintro ⟨_, rfl, ⟨rfl, -⟩ | ⟨-, hno⟩⟩
        · rfl
        · exact absurd hvalid (hno value rfl)
      · rintro rfl
        exact ⟨value, rfl, Or.inl ⟨rfl, hvalid⟩⟩
    · have hinvalid : Binary32.zero.lt value = false ∨ value.isFinite = false := by
        rw [← Bool.not_eq_true, ← Bool.not_eq_true]
        exact not_and_or.1 hvalid
      rw [if_pos hinvalid]
      constructor
      · rintro ⟨_, rfl, ⟨rfl, hvalid'⟩ | ⟨rfl, -⟩⟩
        · exact absurd hvalid' hvalid
        · rfl
      · rintro rfl
        refine ⟨.zero, rfl, Or.inr ⟨rfl, ?_⟩⟩
        rintro _ rfl
        exact hvalid

theorem nearestThinkTime_isFinite (engine : Engine) : (nearestThinkTime engine).isFinite = true := by
  refine Binary32.nextafter_one_add_isFinite ?_
  cases engine.functions.time with
  | none => decide
  | some value =>
    -- a time that is not positive or not finite counts as zero
    by_cases h : Binary32.zero.lt value && value.isFinite
    · simp only [h, Bool.not_true, Bool.false_eq_true, if_false]
      exact (Bool.and_eq_true_iff.1 h).2
    · simp only [h, Bool.not_false, if_true]; decide

variable {P : Type*}

/-- The class name of an entity; a null string is an empty one. -/
def className (szFromIndex : Int → Option String) (memory : Memory P) (entity : P) : String :=
  (szFromIndex (memory entity).v.classname).getD ""

/-! ## The handlers -/

section Handlers

variable [LinearOrder P]

def onExit (context : Context P) (entities : List P) : Context P :=
  entities.foldl (fun context entity => { context with gibses := context.gibses.erase entity }) context

/-- The body of the loop in `on_enter`. -/
def enterEntity (szFromIndex : Int → Option String) (memory : Memory P) (context : Context P) (entity : P) :
    Context P :=
  let name := className szFromIndex memory entity
  if name = "" then context
  else if "gib" = name then { context with gibses := insert entity context.gibses }
  else context

def onEnter (engine : Engine) (memory : Memory P) (context : Context P) (entities : List P) : Context P :=
  match engine.functions.szFromIndex with
  | none => context
  | some szFromIndex => entities.foldl (enterEntity szFromIndex memory) context

/-- What `on_think` makes of the variables of a gib. -/
def freeze (v : Variables) : Variables :=
  let v := if Solid.bBox.rank > v.solid.rank then { v with solid := .bBox } else v
  let v := if v.renderamt.lt (.ofNat 255) then { v with renderamt := .ofNat 255 } else v
  { v with nextthink := .infinity }

theorem freeze_classname (v : Variables) : (freeze v).classname = v.classname := by
  unfold freeze
  dsimp only
  split_ifs <;> rfl

/-- What freezing makes of what is seen of an entity: it stops others, and it is not transparent. -/
structure Hardened (before after : Variables) : Prop where
  solid : after.solid = if Solid.bBox.rank > before.solid.rank then .bBox else before.solid
  renderamt : after.renderamt = if before.renderamt.lt (.ofNat 255) then .ofNat 255 else before.renderamt

theorem freeze_hardened (v : Variables) : Hardened v (freeze v) := by
  unfold freeze
  dsimp only
  constructor
  · split_ifs <;> rfl
  · split_ifs <;> rfl

/-- Freezing once more makes no difference to what is seen of an entity. -/
theorem freeze_again {v v' : Variables} (h : (v'.solid = v.solid ∧ v'.renderamt = v.renderamt) ∨ Hardened v v') :
    Hardened v (freeze v') := by
  obtain ⟨hsolid', hrender'⟩ := freeze_hardened v'
  rcases h with ⟨hsolid, hrender⟩ | ⟨hsolid, hrender⟩
  · rw [hsolid] at hsolid'
    rw [hrender] at hrender'
    exact ⟨hsolid', hrender'⟩
  · constructor
    · rw [hsolid', hsolid]
      split_ifs <;> rfl
    · rw [hrender', hrender]
      split_ifs <;> rfl

/-- The `Meta` of `on_think`, and the memory after it. -/
def onThink [Zero P] (engine : Engine) (memory : Memory P) (context : Context P) (entity : P) :
    MetaBefore × Memory P :=
  if entity = 0 then (.ignored, memory)
  else if entity ∈ context.gibses then
    if ¬ 0 < fadeoutFreezerCapacity engine then (.handled, memory)
    else (.supercede, memory.setVariables entity (freeze (memory entity).v))
  else (.ignored, memory)

/-- The gib whose next think time a frame writes. -/
def thawed (engine : Engine) (memory : Memory P) (context : Context P) : Option P :=
  if 0 < fadeoutFreezerCapacity engine then none
  else if h : context.gibses.Nonempty then
    let entity := context.gibses.min' h
    if (memory entity).v.nextthink.isFinite then none else some entity
  else none

def onFrame (engine : Engine) (memory : Memory P) (context : Context P) : Memory P :=
  match thawed engine memory context with
  | none => memory
  | some entity =>
    memory.setVariables entity { (memory entity).v with nextthink := nearestThinkTime engine }

/-- Without capacity a frame thaws the first gib unless it thinks again already. -/
theorem thawed_eq {engine : Engine} {memory : Memory P} {context : Context P}
    (hc : fadeoutFreezerCapacity engine = 0) (hne : context.gibses.Nonempty)
    (hinf : (memory (context.gibses.min' hne)).v.nextthink.isFinite = false) :
    thawed engine memory context = some (context.gibses.min' hne) := by
  simp [thawed, hc, hne, hinf]

theorem onFrame_nextthink {engine : Engine} {memory : Memory P} {context : Context P} {e : P}
    (h : thawed engine memory context = some e) :
    (onFrame engine memory context e).v.nextthink = nearestThinkTime engine := by
  unfold onFrame
  rw [h, Memory.v_setVariables, if_pos rfl]

/-! ## Events of the tracker -/

/-- The handlers subscribed to the trusted-entities feature, on one of its events. -/
def deliver (engine : Engine) (memory : Memory P) (context : Context P) (event : Event P) : Context P :=
  if event.state then onEnter engine memory context event.list else onExit context event.list

def deliverAll (engine : Engine) (memory : Memory P) (context : Context P) (events : List (Event P)) :
    Context P := events.foldl (deliver engine memory) context

theorem mem_onExit {context : Context P} {entities : List P} {e : P} :
    e ∈ (onExit context entities).gibses ↔ e ∈ context.gibses ∧ e ∉ entities := by
  unfold onExit
  induction entities generalizing context with
  | nil => simp
  | cons entity entities ih =>
    rw [List.foldl_cons, ih, List.mem_cons, Finset.mem_erase]
    tauto

theorem mem_enterEntity {szFromIndex : Int → Option String} {memory : Memory P} {context : Context P}
    {entity e : P} : e ∈ (enterEntity szFromIndex memory context entity).gibses ↔
      e ∈ context.gibses ∨ (e = entity ∧ className szFromIndex memory e = "gib") := by
  simp only [enterEntity]
  split_ifs with hempty hgib
  · refine ⟨Or.inl, ?_⟩
    rintro (he | ⟨rfl, hname⟩)
    · exact he
    · rw [hempty] at hname; exact absurd hname (by decide)
  · rw [Finset.mem_insert, or_comm]
    refine or_congr_right (and_iff_left_of_imp ?_).symm
    rintro rfl; exact hgib.symm
  · refine ⟨Or.inl, ?_⟩
    rintro (he | ⟨rfl, hname⟩)
    · exact he
    · exact absurd hname.symm hgib

/-- The class name the engine gives is "gib"; without its strings there is none. -/
def IsGib (engine : Engine) (memory : Memory P) (e : P) : Prop :=
  ∃ szFromIndex, engine.functions.szFromIndex = some szFromIndex ∧ className szFromIndex memory e = "gib"

theorem mem_onEnter {engine : Engine} {memory : Memory P} {context : Context P} {entities : List P} {e : P} :
    e ∈ (onEnter engine memory context entities).gibses ↔
      e ∈ context.gibses ∨ (e ∈ entities ∧ IsGib engine memory e) := by
  unfold onEnter IsGib
  cases engine.functions.szFromIndex with
  | none => simp
  | some szFromIndex =>
    simp only [Option.some.injEq, exists_eq_left']
    induction entities generalizing context with
    | nil => simp
    | cons entity entities ih =>
      rw [List.foldl_cons, ih, mem_enterEntity, List.mem_cons]
      tauto

theorem mem_deliver {engine : Engine} {memory : Memory P} {context : Context P} {event : Event P} {e : P} :
    e ∈ (deliver engine memory context event).gibses ↔
      if event.state then e ∈ context.gibses ∨ (e ∈ event.list ∧ IsGib engine memory e)
      else e ∈ context.gibses ∧ e ∉ event.list := by
  unfold deliver
  split
  · exact mem_onEnter
  · exact mem_onExit

theorem mem_deliverAll_exits {engine : Engine} {memory : Memory P} {context : Context P} {events : List (Event P)}
    (h : ∀ event ∈ events, event.state = false) {e : P} :
    e ∈ (deliverAll engine memory context events).gibses ↔
      e ∈ context.gibses ∧ ∀ event ∈ events, e ∉ event.list := by
  unfold deliverAll
  induction events generalizing context with
  | nil => simp
  | cons event events ih =>
    obtain ⟨hexit, hexits⟩ := List.forall_mem_cons.1 h
    rw [List.foldl_cons, ih hexits, mem_deliver, if_neg (by simp [hexit]), List.forall_mem_cons, and_assoc]

theorem deliverAll_append (engine : Engine) (memory : Memory P) (context : Context P)
    (events more : List (Event P)) : deliverAll engine memory context (events ++ more) =
      deliverAll engine memory (deliverAll engine memory context events) more := List.foldl_append

theorem mem_deliverAll_unlessEmpty {engine : Engine} {memory : Memory P} {context : Context P} {event : Event P}
    {e : P} : e ∈ (deliverAll engine memory context (Tracker.dispatchUnlessEmpty event)).gibses ↔
      e ∈ (deliver engine memory context event).gibses := by
  unfold Tracker.dispatchUnlessEmpty
  split_ifs with h
  · rw [List.isEmpty_iff] at h
    rw [mem_deliver, h]; simp [deliverAll]
  · rfl

/-- What the events of a sweep make of the gibs. -/
theorem mem_deliverAll_frame {engine : Engine} {memory : Memory P} {context : Context P} {c : Tracker.Context P}
    (hs : c.state = true) {e : P} :
    e ∈ (deliverAll engine memory context (Tracker.onFrame memory c).2).gibses ↔
      (e ∈ context.gibses ∧ ¬ Tracker.Trailing memory c e) ∨ (e ∈ c.admitted memory ∧ IsGib engine memory e) := by
  rw [Tracker.onFrame_eq hs, deliverAll_append, mem_deliverAll_unlessEmpty, mem_deliver, if_pos rfl,
    mem_deliverAll_unlessEmpty, mem_deliver, if_neg (by simp), Tracker.mem_swept_iff]

end Handlers

end Refrigerator.Butchering
