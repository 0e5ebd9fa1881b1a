/-
The gibs beside the entities that have entered: the trusted-entities feature and the butchering
feature as one machine, whose calls deliver every dispatched event at once.

The gibs are meant to be the entered entities whose class was "gib" when they entered last. A call
other than a frame keeps them so. A frame does exactly if every gib is live, is not reported with
the free entities unless it is queued again, and is still a gib if it is queued (`Kept`).
-/
import Refrigerator.Butchering.Basic

namespace Refrigerator.Butchering

open Lib Tracker

variable {P : Type*} [LinearOrder P] [Zero P]

/-! ## The two features together -/

structure Pair (P : Type*) where
  tracker : Tracker.Context P := {}
  butchering : Context P := {}

/-- A call of a handler of the tracker, and the strings the engine has at that time. -/
structure Delivered (P : Type*) where
  call : Call P
  szFromIndex : Int → Option String

/-- An event together with the class names of that time. -/
structure Notice (P : Type*) where
  event : Event P
  className : P → String

namespace Delivered

variable (input : Delivered P)

def engine : Engine := { functions := { szFromIndex := some input.szFromIndex } }

/-- What `on_enter` reads; only frames dispatch events that it handles. -/
def memory : Memory P :=
  match input.call with
  | .frame memory => memory
  | _ => fun _ => {}

end Delivered

def Pair.step (pair : Pair P) (input : Delivered P) : Pair P × List (Notice P) :=
  let (tracker, events) := Tracker.step pair.tracker input.call
  ({ tracker, butchering := deliverAll input.engine input.memory pair.butchering events },
    events.map fun event => { event, className := className input.szFromIndex input.memory })

def pairMachine : Machine (Pair P) (Delivered P) (Notice P) := ⟨Pair.step⟩

/-- The pair after a run from the initial one. -/
def paired (run : List (Delivered P)) : Pair P := pairMachine.exec {} run

/-- The notices of a run from the initial pair. -/
def notices (run : List (Delivered P)) : List (Notice P) := pairMachine.emitted {} run

/-- The tracker of a pair is in a state that its own calls lead to. -/
theorem paired_tracker (run : List (Delivered P)) : ∃ calls, (paired run).tracker = after calls :=
  pairMachine.exec_refines Tracker.machine (f := Pair.tracker) (fun _ input => ⟨[input.call], rfl⟩) {} run

/-- The class name of `e` at its most recent enter event. -/
def enteredClass (e : P) (feed : List (Notice P)) : Option String :=
  ((feed.filter fun notice => notice.event.state && e ∈ notice.event.list).getLast?).map (·.className e)

/-- The gibs are the entered entities that entered as such. -/
def Exact (feed : List (Notice P)) (pair : Pair P) : Prop :=
  ∀ e, e ∈ pair.butchering.gibses ↔ e ∈ pair.tracker.entered ∧ enteredClass e feed = some "gib"

/-! ## Notices -/

omit [Zero P] in
theorem enteredClass_snoc (e : P) (feed : List (Notice P)) (notice : Notice P) :
    enteredClass e (feed ++ [notice]) =
      if notice.event.state = true ∧ e ∈ notice.event.list then some (notice.className e)
      else enteredClass e feed := by
  unfold enteredClass
  by_cases h : notice.event.state = true ∧ e ∈ notice.event.list
  · simp [List.filter_append, h]
  · rw [if_neg h, List.filter_append]
    simp [h]

omit [Zero P] in
/-- Exits say nothing about classes. -/
theorem enteredClass_exits {e : P} {feed more : List (Notice P)} (h : ∀ notice ∈ more, notice.event.state = false) :
    enteredClass e (feed ++ more) = enteredClass e feed := by
  induction more using List.reverseRecOn with
  | nil => rw [List.append_nil]
  | append_singleton more notice ih =>
    rw [← List.append_assoc, enteredClass_snoc, if_neg (by simp [h notice (by simp)])]
    exact ih fun n hn => h n (List.mem_append_left _ hn)

omit [Zero P] in
theorem enteredClass_unlessEmpty (e : P) (feed : List (Notice P)) (event : Event P) (names : P → String) :
    enteredClass e (feed ++ (dispatchUnlessEmpty event).map fun event => { event, className := names }) =
      if event.state = true ∧ e ∈ event.list then some (names e) else enteredClass e feed := by
  unfold dispatchUnlessEmpty
  cases hl : event.list with
  | nil => simp
  | cons x l =>
    have hsnoc := enteredClass_snoc e feed { event, className := names }
    rw [hl] at hsnoc
    exact hsnoc

/-! ## One call -/

/-- What a frame in a session has to find: every gib is live; it does not stand where the free entities
are taken to stand, unless it is queued; and if it is queued it is still a gib, unless it does. -/
def Kept (szFromIndex : Int → Option String) (memory : Memory P) (pair : Pair P) : Prop :=
  ∀ e ∈ pair.butchering.gibses, memory.isFree e = false ∧
    (e ∈ pair.tracker.queue → Trailing memory pair.tracker e ∨ className szFromIndex memory e = "gib") ∧
    (e ∉ pair.tracker.queue → ¬ Trailing memory pair.tracker e)

/-- The guard of one call. -/
def Keeps (pair : Pair P) (input : Delivered P) : Prop :=
  ∀ memory, input.call = .frame memory → pair.tracker.state = true → Kept input.szFromIndex memory pair

theorem exact_of_exits {feed : List (Notice P)} {pair : Pair P} (h : Exact feed pair) {input : Delivered P}
    (hidle : ∀ memory, input.call = .frame memory → pair.tracker.state = false) :
    Exact (feed ++ (pair.step input).2) (pair.step input).1 := by
  obtain ⟨hexits, -, hentered⟩ := step_exits hidle
  intro e
  have hclass : enteredClass e (feed ++ (pair.step input).2) = enteredClass e feed := by
    refine enteredClass_exits fun notice hn => ?_
    obtain ⟨event, hev, rfl⟩ := List.mem_map.1 hn
    exact hexits event hev
  have hgibses : e ∈ (pair.step input).1.butchering.gibses ↔
      e ∈ pair.butchering.gibses ∧ ∀ event ∈ (Tracker.step pair.tracker input.call).2, e ∉ event.list :=
    mem_deliverAll_exits hexits
  have htracker : e ∈ (pair.step input).1.tracker.entered ↔
      e ∈ pair.tracker.entered ∧ ∀ event ∈ (Tracker.step pair.tracker input.call).2, e ∉ event.list := hentered e
  rw [hclass, hgibses, htracker, h e]
  tauto

section Frame

variable {pair : Pair P} {szFromIndex : Int → Option String} {memory : Memory P} {e : P}

theorem mem_gibses_frame (hs : pair.tracker.state = true) :
    e ∈ (pair.step ⟨.frame memory, szFromIndex⟩).1.butchering.gibses ↔
      (e ∈ pair.butchering.gibses ∧ ¬ Trailing memory pair.tracker e) ∨
        (e ∈ pair.tracker.admitted memory ∧ className szFromIndex memory e = "gib") := by
  have hgib : IsGib (Delivered.engine ⟨.frame memory, szFromIndex⟩) memory e ↔
      className szFromIndex memory e = "gib" := by
    simp [IsGib, Delivered.engine]
  rw [← hgib]; exact mem_deliverAll_frame hs

theorem mem_entered_frame (hs : pair.tracker.state = true) :
    e ∈ (pair.step ⟨.frame memory, szFromIndex⟩).1.tracker.entered ↔
      ((e ∈ pair.tracker.entered ∧ memory.isFree e = false) ∨ Trailing memory pair.tracker e) ∨
        e ∈ pair.tracker.admitted memory := by
  show e ∈ (Tracker.onFrame memory pair.tracker).1.entered ↔ _
  rw [Tracker.onFrame_eq hs, List.mem_append, Context.mem_compacted, mem_swept_iff]

theorem enteredClass_frame (hs : pair.tracker.state = true) (feed : List (Notice P)) :
    enteredClass e (feed ++ (pair.step ⟨.frame memory, szFromIndex⟩).2) =
      if e ∈ pair.tracker.admitted memory then some (className szFromIndex memory e) else enteredClass e feed := by
  show enteredClass e (feed ++ (Tracker.onFrame memory pair.tracker).2.map _) = _
  rw [Tracker.onFrame_eq hs, List.map_append, ← List.append_assoc, enteredClass_unlessEmpty,
    enteredClass_unlessEmpty]
  simp only [true_and, Bool.false_eq_true, false_and, if_false]
  rfl

theorem exact_frame_iff {feed : List (Notice P)} (h : Exact feed pair) (hs : pair.tracker.state = true) :
    Exact (feed ++ (pair.step ⟨.frame memory, szFromIndex⟩).2) (pair.step ⟨.frame memory, szFromIndex⟩).1 ↔
      Kept szFromIndex memory pair := by
  refine forall_congr' fun e => ?_
  rw [mem_gibses_frame hs, mem_entered_frame hs, enteredClass_frame hs]
  have htrail : Trailing memory pair.tracker e → e ∈ pair.tracker.entered := List.mem_of_mem_drop
  by_cases hadm : e ∈ pair.tracker.admitted memory
  · -- it has entered now, and is a gib by its class or because it was one and is not reported
    obtain ⟨hqueue, hlive⟩ := Context.mem_admitted.1 hadm
    simp only [hadm, if_true, Option.some.injEq, hlive, hqueue, true_and, or_true, not_true_eq_false,
      false_implies, and_true, true_implies]
    constructor
    · intro heq hg
      by_cases ht : Trailing memory pair.tracker e
      · exact Or.inl ht
      · exact Or.inr (heq.1 (Or.inl ⟨hg, ht⟩))
    · refine fun hk => ⟨?_, Or.inr⟩
      rintro (⟨hg, ht⟩ | hname)
      · exact (hk hg).resolve_left ht
      · exact hname
  · -- it is free or not queued, so it has to be live and not reported to stay
    have hout : memory.isFree e = false → e ∉ pair.tracker.queue := fun hlive hqueue =>
      hadm (Context.mem_admitted.2 ⟨hqueue, hlive⟩)
    simp only [hadm, if_false, false_and, or_false]
    constructor
    · intro heq hg
      obtain ⟨-, hclass⟩ := (h e).1 hg
      have ht : ¬ Trailing memory pair.tracker e := fun ht => (heq.2 ⟨Or.inr ht, hclass⟩).2 ht
      have hlive : memory.isFree e = false := ((heq.1 ⟨hg, ht⟩).1.resolve_right ht).2
      exact ⟨hlive, fun hqueue => absurd hqueue (hout hlive), fun _ => ht⟩
    · intro hk
      constructor
      · rintro ⟨hg, -⟩
        obtain ⟨hentered, hclass⟩ := (h e).1 hg
        exact ⟨Or.inl ⟨hentered, (hk hg).1⟩, hclass⟩
      · rintro ⟨hstay, hclass⟩
        have hg : e ∈ pair.butchering.gibses := (h e).2 ⟨hstay.elim And.left htrail, hclass⟩
        obtain ⟨hlive, -, hkept⟩ := hk hg
        exact ⟨hg, hkept (hout hlive)⟩

end Frame

theorem exact_step {feed : List (Notice P)} {pair : Pair P} (h : Exact feed pair) (input : Delivered P) :
    Exact (feed ++ (pair.step input).2) (pair.step input).1 ↔ Keeps pair input := by
  by_cases hidle : ∀ memory, input.call = .frame memory → pair.tracker.state = false
  · refine iff_of_true (exact_of_exits h hidle) fun memory hcall hs => ?_
    rw [hidle memory hcall] at hs; cases hs
  · obtain ⟨call, szFromIndex⟩ := input
    obtain ⟨memory, rfl, hs⟩ : ∃ memory, call = .frame memory ∧ pair.tracker.state = true := by simpa using hidle
    rw [exact_frame_iff h hs]
    constructor
    · intro hk memory' hcall _
      cases hcall; exact hk
    · exact fun hk => hk memory rfl hs

/-! ## Runs -/

/-- The gibs are the entered entities that entered as such at every point of a run exactly when every
frame of the run keeps them; after a shutdown there are then none. -/
theorem gibses_iff (run : List (Delivered P)) :
    ((∀ p, p <+: run → Exact (notices p) (paired p)) ↔
      ∀ p input, p ++ [input] <+: run → Keeps (paired p) input) ∧
    ((∀ p input, p ++ [input] <+: run → Keeps (paired p) input) →
      ∀ p szFromIndex, p ++ [⟨.shutdown, szFromIndex⟩] <+: run →
        (paired (p ++ [⟨.shutdown, szFromIndex⟩])).butchering.gibses = ∅) := by
  have hpoints : (∀ p, p <+: run → Exact (notices p) (paired p)) ↔
      ∀ p input, p ++ [input] <+: run → Keeps (paired p) input :=
    pairMachine.points_iff_steps (P := Exact) (by simp [Exact]) (fun _ input h => exact_step h input) run
  refine ⟨hpoints, fun hkeeps p szFromIndex hp => Finset.eq_empty_of_forall_notMem fun e he => ?_⟩
  have hentered := ((hpoints.2 hkeeps _ hp e).1 he).1
  unfold paired at hentered
  rw [Machine.exec_snoc] at hentered
  revert hentered
  show e ∉ (onShutdown _).1.entered
  rw [onShutdown_eq]; exact List.not_mem_nil

/-- Two gibs enter and the first one is freed: the second one is reported in its place, and the first
one stays a gib even after the shutdown. -/
theorem gibses_broken :
    let strings : Int → Option String := fun _ => some "gib"
    ¬ ∀ p, p <+: [⟨.init, strings⟩, ⟨.spawn 1, strings⟩, ⟨.spawn 2, strings⟩, ⟨.frame (.freeing []), strings⟩,
        ⟨.frame (.freeing [1]), strings⟩, ⟨.shutdown, strings⟩] →
      Exact (P := ℕ) (notices p) (paired p) := by
  intro strings h
  have := (h _ List.prefix_rfl 1).1
  revert this; decide

end Refrigerator.Butchering
