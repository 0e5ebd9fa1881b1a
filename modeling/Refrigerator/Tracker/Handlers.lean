/-
What each handler of the trusted-entities feature does, in closed form, and the invariant `WF` of
the reachable contexts.

A sweep is described by three lists: `swept` (what the exit event of `onFrame` names), `compacted`
(what the entered list holds before the append) and `admitted` (what the enter event names).
-/
import Refrigerator.Tracker.Basic
import Mathlib.Data.Finset.Dedup

namespace Refrigerator.Tracker

open Lib Metamod

variable {P : Type*}

/-! ## Creation -/

section Creation

variable [DecidableEq P] [Zero P]

@[simp] theorem onSpawn_state (c : Context P) (e : P) : (onSpawn c e).state = c.state := by
  unfold onSpawn; split_ifs <;> rfl

@[simp] theorem onSpawn_entered (c : Context P) (e : P) : (onSpawn c e).entered = c.entered := by
  unfold onSpawn; split_ifs <;> rfl

theorem mem_queue_onSpawn {c : Context P} {e x : P} :
    x ∈ (onSpawn c e).queue ↔ x ∈ c.queue ∨ (x = e ∧ e ≠ 0) := by
  unfold onSpawn
  split_ifs with h0 hq
  · simp [h0]
  · constructor
    · exact Or.inl
    · rintro (h | ⟨rfl, -⟩)
      · exact h
      · exact hq
  · simp [h0]

theorem nodup_queue_onSpawn {c : Context P} (h : c.queue.Nodup) (e : P) : (onSpawn c e).queue.Nodup := by
  unfold onSpawn
  split_ifs with h0 hq
  · exact h
  · exact h
  · exact List.nodup_append.2 ⟨h, List.nodup_singleton e, fun a ha b hb => by
      rw [List.mem_singleton] at hb; subst hb; rintro rfl; exact hq ha⟩

theorem onCreate_eq (globals : Globals P) (c : Context P) : onCreate globals c = onSpawn c (created globals) := by
  unfold onCreate
  split_ifs with h
  · rfl
  · rw [not_not.1 h]; simp [onSpawn]

end Creation

/-! ## Removal and shutdown -/

section Removal

variable [DecidableEq P] [Zero P]

/-- A removal takes every occurrence of the entity out of both lists and reports it once if it had
entered. -/
theorem onRemove_eq {c : Context P} {e : P} (he : e ≠ 0) :
    onRemove c e =
      ({ c with queue := c.queue.filter (· ≠ e), entered := c.entered.filter (· ≠ e) },
        if e ∈ c.entered then [{ list := [e], state := false }] else []) := by
  unfold onRemove listRemove
  by_cases h : e ∈ c.entered
  · simp [he, h, List.count_pos_iff]
  · simp [he, h, List.count_eq_zero_of_not_mem h]

theorem onRemove_null (c : Context P) : onRemove c 0 = (c, []) := by simp [onRemove]

omit [DecidableEq P] [Zero P] in
/-- A shutdown leaves the initial context. -/
theorem onShutdown_eq (c : Context P) :
    onShutdown c = ({}, if c.entered = [] then [] else [{ list := c.entered, state := false }]) := by
  unfold onShutdown
  cases h : c.entered <;> simp

end Removal

/-! ## Sweeping -/

namespace Context

/-- What the exit event of a sweep names: the entered list from the position on that `remove_if`
returned. -/
def swept (c : Context P) (memory : Memory P) : List P := (removeIf memory.isFree c.entered).2

/-- The entered list after `remove_if`. -/
def compacted (c : Context P) (memory : Memory P) : List P :=
  (removeIf memory.isFree c.entered).1 ++ (removeIf memory.isFree c.entered).2

/-- What the enter event of a sweep names. -/
def admitted (c : Context P) (memory : Memory P) : List P := c.queue.filter fun e => !memory.isFree e

theorem mem_admitted {c : Context P} {memory : Memory P} {e : P} :
    e ∈ c.admitted memory ↔ e ∈ c.queue ∧ memory.isFree e = false := by simp [admitted]

theorem mem_entered_of_mem_swept {c : Context P} {memory : Memory P} {e : P} (h : e ∈ c.swept memory) :
    e ∈ c.entered := mem_of_mem_moved h

theorem mem_compacted {c : Context P} {memory : Memory P} {e : P} :
    e ∈ c.compacted memory ↔ (e ∈ c.entered ∧ memory.isFree e = false) ∨ e ∈ c.swept memory := by
  rw [compacted, List.mem_append, mem_kept]; rfl

theorem mem_entered_of_mem_compacted {c : Context P} {memory : Memory P} {e : P}
    (h : e ∈ c.compacted memory) : e ∈ c.entered := by
  rcases mem_compacted.1 h with h | h
  · exact h.1
  · exact mem_entered_of_mem_swept h

end Context

theorem onFrame_idle {memory : Memory P} {c : Context P} (h : c.state = false) : onFrame memory c = (c, []) := by
  simp [onFrame, h]

theorem onFrame_eq {memory : Memory P} {c : Context P} (h : c.state = true) :
    onFrame memory c =
      ({ c with queue := [], entered := c.compacted memory ++ c.admitted memory },
        dispatchUnlessEmpty { list := c.swept memory, state := false } ++
          dispatchUnlessEmpty { list := c.admitted memory, state := true }) := by
  simp [onFrame, h, Context.swept, Context.compacted, Context.admitted]

/-! ## The conditions on a sweep -/

/-- No entered entity is free. -/
def NoneFree (memory : Memory P) (c : Context P) : Prop := ∀ e ∈ c.entered, memory.isFree e = false

/-- In the entered list the free entities stand behind all the others. -/
def FreeLast (memory : Memory P) (c : Context P) : Prop :=
  c.entered.Pairwise fun a b => memory.isFree a = true → memory.isFree b = true

/-- No queued entity that is not free has entered already. -/
def FreshQueue (memory : Memory P) (c : Context P) : Prop :=
  ∀ e ∈ c.queue, memory.isFree e = false → e ∉ c.entered

/-- The entity stands among the last places of the entered list, as many as there are free entities
in it. -/
def Trailing (memory : Memory P) (c : Context P) (e : P) : Prop :=
  e ∈ c.entered.drop (keptCount memory.isFree c.entered)

theorem mem_swept_iff {memory : Memory P} {c : Context P} {e : P} : e ∈ c.swept memory ↔ Trailing memory c e := by
  rw [Context.swept, removeIf_eq]; rfl

theorem swept_eq_nil_iff {memory : Memory P} {c : Context P} : c.swept memory = [] ↔ NoneFree memory c :=
  moved_eq_nil_iff

theorem compacted_of_freeLast {memory : Memory P} {c : Context P} (h : FreeLast memory c) :
    c.compacted memory = c.entered := compact_eq_self h

theorem NoneFree.freeLast {memory : Memory P} {c : Context P} (h : NoneFree memory c) : FreeLast memory c :=
  List.pairwise_of_forall_mem_list fun a ha _ _ hfree => absurd hfree (by simp [h a ha])

theorem not_mem_entered_of_admitted {memory : Memory P} {c : Context P} (h : FreshQueue memory c) {e : P}
    (he : e ∈ c.admitted memory) : e ∉ c.entered :=
  h e (Context.mem_admitted.1 he).1 (Context.mem_admitted.1 he).2

/-- A sweep leaves a list without repetitions exactly when the free entities stand last and no queued
one has entered already. -/
theorem nodup_sweep_iff {memory : Memory P} {c : Context P} (he : c.entered.Nodup) (hq : c.queue.Nodup) :
    (c.compacted memory ++ c.admitted memory).Nodup ↔ FreeLast memory c ∧ FreshQueue memory c := by
  have hadm : (c.admitted memory).Nodup := hq.filter _
  constructor
  · intro h
    obtain ⟨hcomp, -, hdis⟩ := List.nodup_append.1 h
    have hfl : FreeLast memory c := pairwise_of_compact_nodup hcomp
    refine ⟨hfl, fun e heq hfree hent => ?_⟩
    rw [compacted_of_freeLast hfl] at hdis
    exact hdis e hent e (Context.mem_admitted.2 ⟨heq, hfree⟩) rfl
  · rintro ⟨hfl, hfresh⟩
    rw [compacted_of_freeLast hfl]
    exact List.nodup_append.2 ⟨he, hadm, fun a ha b hb hab => not_mem_entered_of_admitted hfresh hb (hab ▸ ha)⟩

/-! ## The invariant of reachable contexts -/

variable [DecidableEq P] [Zero P]

structure WF (c : Context P) : Prop where
  queueNodup : c.queue.Nodup
  queueNonnull : 0 ∉ c.queue
  enteredNonnull : 0 ∉ c.entered
  idle : c.state = false → c.entered = []

omit [DecidableEq P] in
theorem initial_wf : WF ({} : Context P) := ⟨List.nodup_nil, by simp, by simp, fun _ => rfl⟩

theorem onSpawn_wf {c : Context P} (h : WF c) (e : P) : WF (onSpawn c e) := by
  refine ⟨nodup_queue_onSpawn h.queueNodup e, fun h0 => ?_, by simpa using h.enteredNonnull, by simpa using h.idle⟩
  rcases mem_queue_onSpawn.1 h0 with h0 | ⟨rfl, hne⟩
  · exact h.queueNonnull h0
  · exact hne rfl

theorem onRemove_wf {c : Context P} (h : WF c) (e : P) : WF (onRemove c e).1 := by
  by_cases he : e = 0
  · subst he; rw [onRemove_null]; exact h
  · rw [onRemove_eq he]
    refine ⟨h.queueNodup.filter _, fun h0 => h.queueNonnull (List.mem_of_mem_filter h0),
      fun h0 => h.enteredNonnull (List.mem_of_mem_filter h0), fun hs => ?_⟩
    show c.entered.filter _ = []
    rw [h.idle hs]; rfl

omit [DecidableEq P] in
theorem onFrame_wf {c : Context P} (h : WF c) (memory : Memory P) : WF (onFrame memory c).1 := by
  cases hs : c.state with
  | false => rw [onFrame_idle hs]; exact h
  | true =>
    rw [onFrame_eq hs]
    refine ⟨List.nodup_nil, by simp, fun h0 => ?_, fun hf => ?_⟩
    · rcases List.mem_append.1 h0 with h0 | h0
      · exact h.enteredNonnull (Context.mem_entered_of_mem_compacted h0)
      · exact h.queueNonnull (Context.mem_admitted.1 h0).1
    · rw [hs] at hf; cases hf

theorem step_wf {c : Context P} (h : WF c) (call : Call P) : WF (step c call).1 := by
  cases call with
  | init => exact ⟨h.queueNodup, h.queueNonnull, h.enteredNonnull, by simp [step, onInit]⟩
  | spawn e => exact onSpawn_wf h e
  | create globals =>
    show WF (onCreate globals c)
    rw [onCreate_eq]; exact onSpawn_wf h _
  | remove e => exact onRemove_wf h e
  | frame memory => exact onFrame_wf h memory
  | shutdown =>
    show WF (onShutdown c).1
    rw [onShutdown_eq]; exact initial_wf

theorem after_wf (run : List (Call P)) : WF (after run) :=
  machine.exec_invariant (I := WF) (fun _ call h => step_wf h call) {} run initial_wf

/-! ## Calls that only take entities away -/

/-- Any call but a frame in a session dispatches exits of entered entities only, and takes exactly the
entities they name out of the entered list. -/
structure Exits (c : Context P) (events : List (Event P)) (c' : Context P) : Prop where
  exit : ∀ event ∈ events, event.state = false
  named : ∀ event ∈ events, ∀ e ∈ event.list, e ∈ c.entered
  entered : ∀ e, e ∈ c'.entered ↔ e ∈ c.entered ∧ ∀ event ∈ events, e ∉ event.list

omit [DecidableEq P] [Zero P] in
theorem exits_nil {c c' : Context P} (h : c'.entered = c.entered) : Exits c [] c' :=
  ⟨by simp, by simp, by simp [h]⟩

theorem onRemove_exits (c : Context P) (e : P) : Exits c (onRemove c e).2 (onRemove c e).1 := by
  by_cases h0 : e = 0
  · subst h0; rw [onRemove_null]; exact exits_nil rfl
  · rw [onRemove_eq h0]
    by_cases hm : e ∈ c.entered
    · rw [if_pos hm]
      exact ⟨by simp, by simpa using hm, by simp⟩
    · rw [if_neg hm]
      exact exits_nil (List.filter_eq_self.2 fun x hx => decide_eq_true fun heq => hm (heq ▸ hx))

omit [DecidableEq P] [Zero P] in
theorem onShutdown_exits (c : Context P) : Exits c (onShutdown c).2 (onShutdown c).1 := by
  rw [onShutdown_eq]
  by_cases he : c.entered = []
  · rw [if_pos he]; exact exits_nil he.symm
  · rw [if_neg he]
    exact ⟨by simp, by simp, by simp⟩

theorem step_exits {c : Context P} {call : Call P} (h : ∀ memory, call = .frame memory → c.state = false) :
    Exits c (step c call).2 (step c call).1 := by
  cases call with
  | init => exact exits_nil rfl
  | spawn entity => exact exits_nil (onSpawn_entered c entity)
  | create globals => exact exits_nil (by simp [step, onCreate_eq])
  | remove entity => exact onRemove_exits c entity
  | frame memory =>
    show Exits c (onFrame memory c).2 (onFrame memory c).1
    rw [onFrame_idle (h memory rfl)]; exact exits_nil rfl
  | shutdown => exact onShutdown_exits c

/-! ## Runs from the initial context -/

@[simp] theorem after_nil : after ([] : List (Call P)) = {} := rfl
@[simp] theorem dispatched_nil : dispatched ([] : List (Call P)) = [] := rfl

theorem after_snoc (run : List (Call P)) (call : Call P) : after (run ++ [call]) = (step (after run) call).1 :=
  machine.exec_snoc {} run call

theorem dispatched_snoc (run : List (Call P)) (call : Call P) :
    dispatched (run ++ [call]) = dispatched run ++ (step (after run) call).2 :=
  machine.emitted_snoc {} run call

/-- Every frame of the run that is called while `state` is true meets `G` in its own context. -/
def FramesMeet (G : Memory P → Context P → Prop) (run : List (Call P)) : Prop :=
  ∀ p memory, p ++ [.frame memory] <+: run → (after p).state = true → G memory (after p)

/-- The guard of `FramesMeet` on one call. -/
def OnFrames (G : Memory P → Context P → Prop) (c : Context P) : Call P → Prop
  | .frame memory => c.state = true → G memory c
  | _ => True

theorem framesMeet_iff {G : Memory P → Context P → Prop} {run : List (Call P)} :
    FramesMeet G run ↔ ∀ p call, p ++ [call] <+: run → OnFrames G (after p) call := by
  constructor
  · intro h p call hp
    cases call with
    | frame memory => exact h p memory hp
    | _ => trivial
  · exact fun h p memory hp => h p (.frame memory) hp

/-- If calls keep `Q` except for the frames that do not meet `G`, a run has `Q` at every point exactly
when all its frames meet `G`. -/
theorem points_iff_framesMeet {Q : List (Event P) → Context P → Prop} {G : Memory P → Context P → Prop}
    (h0 : Q [] {})
    (hstep : ∀ run call, Q (dispatched run) (after run) →
      (Q (dispatched run ++ (step (after run) call).2) (step (after run) call).1 ↔ OnFrames G (after run) call))
    (run : List (Call P)) :
    (∀ p, p <+: run → Q (dispatched p) (after p)) ↔ FramesMeet G run := by
  rw [framesMeet_iff]
  exact machine.points_iff_steps h0 hstep run

end Refrigerator.Tracker
