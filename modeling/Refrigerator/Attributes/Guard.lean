/-
The recursion guard of the getter: what a call does to the guard, which factories run at the same time,
and that calls come to an end when the names mentioned are finitely many.

A completed call leaves the guard as it found it, at any depth and with any outcome, so while a factory
runs its name is in the guard and the guard is the set of the names whose factories run (`Tracked`). For
the end of calls the measure is the number of mentioned names outside the guard: a call that starts a
factory takes its name into the guard until the factory is done.
-/
import Mathlib.Data.Finset.Card
import Mathlib.Data.Set.Finite.Basic
import Refrigerator.Attributes.Basic

namespace Refrigerator.Attributes

open Lib

/-! ## Running factories -/

def Event.apply (running : Finset String) : Event → Finset String
  | started name => insert name running
  | finished name => running.erase name
  | rejected _ => running

/-- The names whose factories run after the events. -/
def running (trace : List Event) : Finset String := trace.foldl Event.apply ∅

theorem running_snoc (trace : List Event) (event : Event) :
    running (trace ++ [event]) = event.apply (running trace) := by
  unfold running; rw [List.foldl_append]; rfl

/-- A factory starts only where none of the name runs, and only requests for running names are rejected. -/
def Event.Allowed (running : Finset String) : Event → Prop
  | started name => name ∉ running
  | finished name => name ∈ running
  | rejected name => name ∈ running

def Guarded (trace : List Event) : Prop :=
  ∀ before event after, trace = before ++ event :: after → event.Allowed (running before)

theorem guarded_nil : Guarded [] := by
  intro before event after h
  cases before <;> cases h

theorem Guarded.snoc {trace : List Event} {event : Event} (h : Guarded trace) (hevent : event.Allowed (running trace)) :
    Guarded (trace ++ [event]) := by
  intro before other after heq
  rcases List.eq_nil_or_concat after with rfl | ⟨after, last, rfl⟩
  · obtain ⟨rfl, hlast⟩ := List.append_inj' heq rfl
    cases hlast; exact hevent
  · have hsplit : trace = before ++ other :: after := by
      have hlast : trace ++ [event] = (before ++ other :: after) ++ [last] := by
        rw [heq, List.concat_eq_append, List.append_assoc, List.cons_append]
      exact (List.append_inj' hlast rfl).1
    exact h before other after hsplit

/-- The guard holds the names whose factories run. -/
structure Tracked (w : World) : Prop where
  guard : w.guard = running w.trace
  guarded : Guarded w.trace

theorem tracked_empty : Tracked {} := ⟨rfl, guarded_nil⟩

theorem Tracked.reject {w : World} {name : String} (h : Tracked w) (hname : name ∈ w.guard) :
    Tracked (w.log (.rejected name)) := by
  constructor
  · show w.guard = running (w.trace ++ [.rejected name])
    rw [running_snoc]; exact h.guard
  · exact h.guarded.snoc (h.guard ▸ hname)

/-- The world a factory is started in. -/
def World.enter (name : String) (w : World) : World :=
  { guard := insert name w.guard, trace := w.trace ++ [.started name] }

/-- The world after a factory that was started in `w` and left `w'`. -/
def World.leave (name : String) (w w' : World) : World :=
  { guard := w.guard, trace := w'.trace ++ [.finished name] }

theorem Tracked.enter {w : World} {name : String} (h : Tracked w) (hname : name ∉ w.guard) :
    Tracked (w.enter name) := by
  constructor
  · show insert name w.guard = running (w.trace ++ [.started name])
    rw [running_snoc, h.guard]; rfl
  · exact h.guarded.snoc (h.guard ▸ hname)

theorem Tracked.leave {w w' : World} {name : String} (h : Tracked w') (hname : name ∉ w.guard)
    (hguard : w'.guard = insert name w.guard) : Tracked (w.leave name w') := by
  have hrunning : running w'.trace = insert name w.guard := by rw [← h.guard, hguard]
  constructor
  · show w.guard = running (w'.trace ++ [.finished name])
    rw [running_snoc, hrunning]
    exact (Finset.erase_insert hname).symm
  · refine h.guarded.snoc ?_
    show name ∈ running w'.trace
    rw [hrunning]; exact Finset.mem_insert_self _ _

/-! ## One call -/

variable {M V X : Type*}

namespace Class

variable (c : Class M V X)

/-- What a call ends with, over a getter that leaves the guard as it found it. -/
inductive Served (request : String → World → Option (Outcome V X) × World) (name : String) (w : World) :
    Option (Outcome V X) × World → Prop
  | invalid (hname : isValid name = false) : Served request name w (some (.error .assertion), w)
  | rejected (hname : isValid name = true) (hguard : name ∈ w.guard) :
      Served request name w (some (.error (.attribute name)), w.log (.rejected name))
  | missing (hname : isValid name = true) (hguard : name ∉ w.guard) (hbody : c.bodyOf name = none) :
      Served request name w (some (.error (.attribute name)), w)
  | cut {body : Body V X} {w' : World} (hname : isValid name = true) (hguard : name ∉ w.guard)
      (hbody : c.bodyOf name = some body) (hrun : body.run request (w.enter name) = (none, w')) :
      Served request name w (none, w')
  | completed {body : Body V X} {outcome : Outcome V X} {w' : World} (hname : isValid name = true)
      (hguard : name ∉ w.guard) (hbody : c.bodyOf name = some body)
      (hrun : body.run request (w.enter name) = (some outcome, w')) (hleft : w'.guard = insert name w.guard) :
      Served request name w (some outcome, w.leave name w')

/-- A completed call leaves the guard as it found it. -/
def Restores (request : String → World → Option (Outcome V X) × World) : Prop :=
  ∀ name w outcome w', request name w = (some outcome, w') → w'.guard = w.guard

theorem release_insert {name : String} {w w' : World} (outcome : Outcome V X) (hname : name ∉ w.guard)
    (hguard : w'.guard = insert name w.guard) :
    release name outcome w' = (some outcome, { w' with guard := w.guard }) := by
  unfold release
  rw [hguard, if_pos (Finset.mem_insert_self _ _), Finset.erase_insert hname]

variable {c} {request : String → World → Option (Outcome V X) × World}

theorem serve_served (h : Restores request) (name : String) (w : World) :
    c.Served request name w (c.serve request name w) := by
  unfold serve
  cases hname : isValid name with
  | false => exact .invalid hname
  | true =>
    rw [if_neg (by decide)]
    by_cases hguard : name ∈ w.guard
    · rw [if_pos hguard]
      exact .rejected hname hguard
    rw [if_neg hguard]
    dsimp only
    cases hbody : c.bodyOf name with
    | none =>
      dsimp only
      rw [release_insert _ hguard rfl]
      exact .missing hname hguard hbody
    | some body =>
      dsimp only
      rw [show World.log { w with guard := insert name w.guard } (.started name) = w.enter name from rfl]
      rcases hrun : body.run request (w.enter name) with ⟨_ | outcome, w'⟩
      · exact .cut hname hguard hbody hrun
      · -- every request of the factory has left the guard as it found it, and so has the factory
        have hleft : w'.guard = insert name w.guard :=
          Program.run_completed (I := fun t => t.guard = insert name w.guard)
            (fun other s a s' hs hans => (h other s a s' hans).trans hs) body rfl hrun
        have hlogged : (w'.log (.finished name)).guard = insert name w.guard := hleft
        dsimp only
        rw [release_insert outcome hguard hlogged]
        exact .completed hname hguard hbody hrun hleft

theorem Served.restores {name : String} {w w' : World} {outcome : Outcome V X}
    (h : c.Served request name w (some outcome, w')) : w'.guard = w.guard := by
  cases h with
  | invalid => rfl
  | rejected => rfl
  | missing => rfl
  | completed => rfl

/-! ## Calls at any depth -/

variable (c)

theorem getter_restores : ∀ depth : Nat, Restores (c.getter depth)
  | 0 => by
    intro name w outcome w' h
    cases h
  | depth + 1 => by
    intro name w outcome w' h
    have hserved := serve_served (c := c) (getter_restores depth) name w
    rw [show c.serve (c.getter depth) name w = (some outcome, w') from h] at hserved
    exact hserved.restores

theorem getter_served (depth : Nat) (name : String) (w : World) :
    c.Served (c.getter depth) name w (c.getter (depth + 1) name w) :=
  serve_served (c.getter_restores depth) name w

theorem getter_tracked : ∀ (depth : Nat) (name : String) (w : World), Tracked w → Tracked (c.getter depth name w).2
  | 0, _, _, h => h
  | depth + 1, name, w, h => by
    have hserved := c.getter_served depth name w
    generalize c.getter (depth + 1) name w = ended at hserved ⊢
    cases hserved with
    | invalid => exact h
    | rejected hname hguard => exact h.reject hguard
    | missing => exact h
    | cut hname hguard hbody hcut => exact Program.run_preserves (getter_tracked depth) hcut (h.enter hguard)
    | completed hname hguard hbody hdone hleft =>
      have htracked := Program.run_preserves (getter_tracked depth) hdone (h.enter hguard)
      exact htracked.leave hguard hleft

theorem getter_extends : ∀ (depth : Nat) (name : String) (w : World), w.trace <+: (c.getter depth name w).2.trace
  | 0, _, _ => List.prefix_rfl
  | depth + 1, name, w => by
    have hrequest (other : String) (s : World) (hs : w.trace <+: s.trace) :
        w.trace <+: (c.getter depth other s).2.trace := hs.trans (getter_extends depth other s)
    have hserved := c.getter_served depth name w
    generalize c.getter (depth + 1) name w = ended at hserved ⊢
    cases hserved with
    | invalid => exact List.prefix_rfl
    | rejected => exact List.prefix_append _ _
    | missing => exact List.prefix_rfl
    | cut hname hguard hbody hcut =>
      exact Program.run_preserves (I := fun s => w.trace <+: s.trace) hrequest hcut (List.prefix_append _ _)
    | completed hname hguard hbody hdone hleft =>
      have hprefix := Program.run_preserves (I := fun s => w.trace <+: s.trace) hrequest hdone (List.prefix_append _ _)
      exact hprefix.trans (List.prefix_append _ _)

/-! ## Completion -/

theorem serve_mono {request request' : String → World → Option (Outcome V X) × World}
    (h : ∀ name w outcome w', request name w = (some outcome, w') → request' name w = (some outcome, w'))
    {name : String} {w w' : World} {outcome : Outcome V X} (hserve : c.serve request name w = (some outcome, w')) :
    c.serve request' name w = (some outcome, w') := by
  unfold serve at hserve ⊢
  split_ifs at hserve ⊢ with hname hguard
  · exact hserve
  · exact hserve
  · cases hbody : c.bodyOf name with
    | none => rw [hbody] at hserve; exact hserve
    | some body =>
      rw [hbody] at hserve
      dsimp only at hserve ⊢
      rcases hrun : body.run request (World.log { w with guard := insert name w.guard } (.started name)) with
        ⟨_ | result, t⟩ <;> rw [hrun] at hserve
      · cases hserve
      · rw [Program.run_mono h body hrun]
        exact hserve

/-- A call that completes does so in the same way at every larger depth. -/
theorem getter_mono {name : String} {w w' : World} {outcome : Outcome V X} {depth : Nat}
    (h : c.getter depth name w = (some outcome, w')) (more : Nat) :
    c.getter (depth + more) name w = (some outcome, w') := by
  have hsucc : ∀ (depth : Nat) (name : String) (w : World) (outcome : Outcome V X) (w' : World),
      c.getter depth name w = (some outcome, w') → c.getter (depth + 1) name w = (some outcome, w') := by
    intro depth
    induction depth with
    | zero => intro name w outcome w' hnone; cases hnone
    | succ depth ih => intro name w outcome w' hserve; exact c.serve_mono ih hserve
  induction more with
  | zero => exact h
  | succ more ih => exact hsucc _ _ _ _ _ ih

/-- The names that the factory of a name, the factories of those names and so on may request. -/
inductive Mentions (name : String) : String → Prop
  | self : Mentions name name
  | request {other : String} {body : Body V X} {mentioned : String} (h : Mentions name other)
      (hbody : c.bodyOf other = some body) (hasks : body.Asks mentioned) : Mentions name mentioned

/-- With the names closed under requests, a call needs no more depth than there are names outside the guard. -/
theorem getter_completes {names : Finset String}
    (hclosed : ∀ name ∈ names, ∀ body, c.bodyOf name = some body → ∀ other, body.Asks other → other ∈ names) :
    ∀ (depth : Nat), ∀ name ∈ names, ∀ w : World, (names \ w.guard).card < depth →
      ∃ outcome w', c.getter depth name w = (some outcome, w')
  | 0, _, _, _, hdepth => absurd hdepth (Nat.not_lt_zero _)
  | depth + 1, name, hname, w, hdepth => by
    have hserved := c.getter_served depth name w
    generalize c.getter (depth + 1) name w = ended at hserved ⊢
    cases hserved with
    | invalid => exact ⟨_, _, rfl⟩
    | rejected => exact ⟨_, _, rfl⟩
    | missing => exact ⟨_, _, rfl⟩
    | completed => exact ⟨_, _, rfl⟩
    | @cut body w' hvalid hguard hbody hcut =>
      -- the factory has one name less outside the guard for its requests
      have hcard : (names \ insert name w.guard).card < depth := by
        have hmem : name ∈ names \ w.guard := Finset.mem_sdiff.2 ⟨hname, hguard⟩
        have hlt := Finset.card_erase_lt_of_mem hmem
        rw [Finset.sdiff_insert]; omega
      obtain ⟨outcome, t, hdone, -⟩ := Program.run_total (I := fun t => t.guard = insert name w.guard) body
        (fun other s hasks hs => by
          have hother : other ∈ names := hclosed name hname body hbody other hasks
          obtain ⟨a, s', hans⟩ := getter_completes hclosed depth other hother s (by rw [hs]; exact hcard)
          exact ⟨a, s', hans, (c.getter_restores depth other s a s' hans).trans hs⟩)
        (w.enter name) rfl
      rw [hdone] at hcut; cases hcut

theorem getter_terminates {name : String} (h : {other | c.Mentions name other}.Finite) (w : World) :
    ∃ bound outcome w', ∀ depth, bound ≤ depth → c.getter depth name w = (some outcome, w') := by
  have hclosed : ∀ other ∈ h.toFinset, ∀ body, c.bodyOf other = some body → ∀ mentioned, body.Asks mentioned →
      mentioned ∈ h.toFinset := by
    intro other hother body hbody mentioned hasks
    rw [Set.Finite.mem_toFinset] at hother ⊢
    exact .request hother hbody hasks
  obtain ⟨outcome, w', hget⟩ := c.getter_completes hclosed ((h.toFinset \ w.guard).card + 1) name
    (h.mem_toFinset.2 .self) w (Nat.lt_succ_self _)
  refine ⟨(h.toFinset \ w.guard).card + 1, outcome, w', fun depth hdepth => ?_⟩
  obtain ⟨more, rfl⟩ := Nat.exists_eq_add_of_le hdepth
  exact c.getter_mono hget more

/-! ## The guard -/

theorem getter_rejected {name : String} {w : World} (hname : isValid name = true) (hguard : name ∈ w.guard)
    (depth : Nat) :
    c.getter (depth + 1) name w = (some (.error (.attribute name)), w.log (.rejected name)) := by
  unfold getter serve
  rw [hname, if_neg (by decide), if_pos hguard]

/-- A request outside the guard starts the factory. -/
theorem getter_started {name : String} {w : World} {body : Body V X} (hname : isValid name = true)
    (hguard : name ∉ w.guard) (hbody : c.bodyOf name = some body) (depth : Nat) :
    w.trace ++ [.started name] <+: (c.getter (depth + 1) name w).2.trace := by
  have hrequest (other : String) (s : World) (hs : w.trace ++ [.started name] <+: s.trace) :
      w.trace ++ [.started name] <+: (c.getter depth other s).2.trace := hs.trans (c.getter_extends depth other s)
  have hserved := c.getter_served depth name w
  generalize c.getter (depth + 1) name w = ended at hserved ⊢
  cases hserved with
  | invalid hinvalid => rw [hname] at hinvalid; cases hinvalid
  | rejected _ hrejected => exact absurd hrejected hguard
  | missing _ _ hmissing => rw [hbody] at hmissing; cases hmissing
  | cut _ _ _ hcut =>
    exact Program.run_preserves (I := fun s => w.trace ++ [.started name] <+: s.trace) hrequest hcut List.prefix_rfl
  | completed _ _ _ hdone _ =>
    have hprefix :=
      Program.run_preserves (I := fun s => w.trace ++ [.started name] <+: s.trace) hrequest hdone List.prefix_rfl
    exact hprefix.trans (List.prefix_append _ _)

/-- The guard is sound. For outermost calls, in any number and order, `client` stands for what makes them. -/
theorem getter_guard :
    -- every completed call leaves the guard as it was
    (∀ depth name w outcome w', c.getter depth name w = (some outcome, w') → w'.guard = w.guard) ∧
    -- every call completes, always in the same way, if the names mentioned are finitely many
    (∀ name, {other | c.Mentions name other}.Finite → ∀ w,
      ∃ bound outcome w', ∀ depth, bound ≤ depth → c.getter depth name w = (some outcome, w')) ∧
    -- the guard is the set of the names whose factories run, and none of these is started again
    (∀ (R : Type) (client : Program String (Outcome V X) R) depth w, (client.run (c.getter depth) {}).2 = w →
      w.guard = running w.trace ∧ Guarded w.trace) ∧
    -- but requested, it raises
    (∀ depth name w, isValid name = true → name ∈ w.guard →
      c.getter (depth + 1) name w = (some (.error (.attribute name)), w.log (.rejected name))) ∧
    -- after outermost calls the guard is empty, and the factory of any name is started again
    (∀ (R : Type) (client : Program String (Outcome V X) R) depth result w,
      client.run (c.getter depth) {} = (some result, w) → w.guard = ∅ ∧
        ∀ depth name body, isValid name = true → c.bodyOf name = some body →
          w.trace ++ [.started name] <+: (c.getter (depth + 1) name w).2.trace) := by
  refine ⟨c.getter_restores, fun name h => c.getter_terminates h, ?_, ?_, ?_⟩
  · rintro R client depth w rfl
    have htracked : Tracked (client.run (c.getter depth) {}).2 :=
      Program.run_invariant (c.getter_tracked depth) client {} tracked_empty
    exact ⟨htracked.guard, htracked.guarded⟩
  · intro depth name w hname hguard
    exact c.getter_rejected hname hguard depth
  · intro R client depth result w hrun
    have hguard : w.guard = ∅ := Program.run_completed (I := fun s => s.guard = ∅)
      (fun name s a s' hs hans => (c.getter_restores depth name s a s' hans).trans hs) client rfl hrun
    refine ⟨hguard, fun depth name body hname hbody => c.getter_started hname ?_ hbody depth⟩
    rw [hguard]; exact Finset.notMem_empty _

end Class

/-- Two factories that request each other's name and pass on what they get. -/
def mutualClass : Class Unit Unit Empty where
  module := ()
  dictionary := ⟨[(some "a", some fun _ _ => .ask "b" .done), (some "b", some fun _ _ => .ask "a" .done)], by decide⟩
  defaultFactory := none

/-- Each of the two comes to its end, and is requested while it runs; afterwards they are started again. -/
theorem getter_guard_mutual :
    (mutualClass.getter 3 "a" {}).2.trace =
        [.started "a", .started "b", .rejected "a", .finished "b", .finished "a"] ∧
      (mutualClass.getter 3 "a" {}).2.guard = ∅ ∧
      ∀ depth, (mutualClass.getter 3 "a" {}).2.trace ++ [.started "a"] <+:
        (mutualClass.getter (depth + 1) "a" (mutualClass.getter 3 "a" {}).2).2.trace := by
  let client : Program String (Outcome Unit Empty) (Outcome Unit Empty) := .ask "a" .done
  obtain ⟨outcome, hrun⟩ : ∃ outcome, client.run (mutualClass.getter 3) {} =
      (some outcome, (mutualClass.getter 3 "a" {}).2) := ⟨_, rfl⟩
  obtain ⟨hguard, hstarted⟩ := mutualClass.getter_guard.2.2.2.2 _ client 3 outcome _ hrun
  exact ⟨by decide, hguard, fun depth => hstarted depth "a" _ (by decide) rfl⟩

end Refrigerator.Attributes
