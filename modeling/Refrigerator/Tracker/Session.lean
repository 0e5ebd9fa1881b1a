/-
What does not carry over in a run of the trusted-entities feature: a removed entity is not heard of
again until a creation adds it, and nothing of a session outlives its shutdown.

Pointers come into the lists through `onSpawn` only: every other handler selects from what the lists
hold, also when a sweep leaves repetitions in the entered list.
-/
import Refrigerator.Tracker.Handlers

namespace Refrigerator.Tracker

open Lib Metamod

variable {P : Type*} [DecidableEq P] [Zero P]

/-! ## Absent entities -/

/-- A creation hook is told of `e`: by the pointer of the overriding plugin, or by that of the engine
function when no plugin overrides. -/
def Tells (globals : Globals P) (e : P) : Prop :=
  globals.override = some e ∨ globals.override = none ∧ globals.original = some e

/-- The call adds `e` to the queue if it is not there. -/
def Adds (e : P) : Call P → Prop
  | .spawn entity => entity = e
  | .create globals => Tells globals e
  | _ => False

omit [DecidableEq P] in
theorem created_eq_iff {globals : Globals P} {e : P} (he : e ≠ 0) : created globals = e ↔ Tells globals e := by
  unfold created Tells
  cases globals.override with
  | some pointer => simp
  | none =>
    cases globals.original with
    | some pointer => simp
    | none => simp [Ne.symm he]

/-- `e` is in neither list. -/
structure Absent (e : P) (c : Context P) : Prop where
  queue : e ∉ c.queue
  entered : e ∉ c.entered

omit [DecidableEq P] [Zero P] in
theorem mem_unlessEmpty {event event' : Event P} (h : event' ∈ dispatchUnlessEmpty event) : event' = event := by
  unfold dispatchUnlessEmpty at h
  split_ifs at h
  · cases h
  · exact List.mem_singleton.1 h

theorem mem_queue_step {c : Context P} {call : Call P} {e : P} (h : e ∈ (step c call).1.queue) :
    e ∈ c.queue ∨ Adds e call := by
  cases call with
  | init => exact Or.inl h
  | spawn entity =>
    rcases mem_queue_onSpawn.1 h with h | ⟨rfl, -⟩
    · exact Or.inl h
    · exact Or.inr rfl
  | create globals =>
    change e ∈ (onCreate globals c).queue at h
    rw [onCreate_eq] at h
    rcases mem_queue_onSpawn.1 h with h | ⟨rfl, hne⟩
    · exact Or.inl h
    · exact Or.inr ((created_eq_iff hne).1 rfl)
  | remove entity =>
    change e ∈ (onRemove c entity).1.queue at h
    by_cases h0 : entity = 0
    · subst h0; rw [onRemove_null] at h; exact Or.inl h
    · rw [onRemove_eq h0] at h; exact Or.inl (List.mem_of_mem_filter h)
  | frame memory =>
    change e ∈ (onFrame memory c).1.queue at h
    cases hs : c.state with
    | false => rw [onFrame_idle hs] at h; exact Or.inl h
    | true => rw [onFrame_eq hs] at h; cases h -- the sweep has emptied the queue
  | shutdown =>
    change e ∈ (onShutdown c).1.queue at h
    rw [onShutdown_eq] at h; cases h

omit [DecidableEq P] [Zero P] in
/-- A sweep keeps and reports only what the lists hold, also where it leaves repetitions. -/
theorem listed_onFrame {c : Context P} {memory : Memory P} {e : P}
    (h : e ∈ (onFrame memory c).1.entered ∨ ∃ event ∈ (onFrame memory c).2, e ∈ event.list) :
    e ∈ c.entered ∨ e ∈ c.queue := by
  cases hs : c.state with
  | false =>
    rw [onFrame_idle hs] at h
    exact Or.inl (h.resolve_right (by simp))
  | true =>
    have hadm : e ∈ c.admitted memory → e ∈ c.queue := fun ha => (Context.mem_admitted.1 ha).1
    rw [onFrame_eq hs] at h
    rcases h with h | ⟨event, hev, he⟩
    · exact (List.mem_append.1 h).imp Context.mem_entered_of_mem_compacted hadm
    · rcases List.mem_append.1 hev with hev | hev
      · rw [mem_unlessEmpty hev] at he; exact Or.inl (Context.mem_entered_of_mem_swept he)
      · rw [mem_unlessEmpty hev] at he; exact Or.inr (hadm he)

/-- No call keeps or reports an entity that is in neither list. -/
theorem listed_step {c : Context P} {call : Call P} {e : P}
    (h : e ∈ (step c call).1.entered ∨ ∃ event ∈ (step c call).2, e ∈ event.list) :
    e ∈ c.entered ∨ e ∈ c.queue := by
  by_cases hidle : ∀ memory, call = .frame memory → c.state = false
  · obtain ⟨-, hnamed, hentered⟩ := step_exits hidle
    rcases h with h | ⟨event, hev, he⟩
    · exact Or.inl ((hentered e).1 h).1
    · exact Or.inl (hnamed event hev e he)
  · obtain ⟨memory, rfl, -⟩ : ∃ memory, call = .frame memory ∧ c.state = true := by simpa using hidle
    exact listed_onFrame h

theorem absent_step {e : P} {c : Context P} (h : Absent e c) {call : Call P} (hadd : ¬ Adds e call) :
    Absent e (step c call).1 ∧ ∀ event ∈ (step c call).2, e ∉ event.list := by
  have hout : ¬ (e ∈ c.entered ∨ e ∈ c.queue) := not_or.2 ⟨h.entered, h.queue⟩
  refine ⟨⟨fun hq => ?_, fun he => hout (listed_step (Or.inl he))⟩, fun event hev he =>
    hout (listed_step (Or.inr ⟨event, hev, he⟩))⟩
  rcases mem_queue_step hq with hq | ha
  · exact h.queue hq
  · exact hadd ha

/-- A removal of a reachable context leaves the entity in neither list. -/
theorem absent_of_remove {c : Context P} (hw : WF c) (e : P) : Absent e (onRemove c e).1 := by
  by_cases he : e = 0
  · subst he; rw [onRemove_null]; exact ⟨hw.queueNonnull, hw.enteredNonnull⟩
  · rw [onRemove_eq he]; exact ⟨by simp, by simp⟩

/-- After `onRemove e` and until a creation adds `e`, no list holds `e` and no event names it; the
removal itself dispatches one exit of `e` alone if `e` had entered, and nothing otherwise. -/
theorem removed_silent (run : List (Call P)) (e : P) (more : List (Call P)) (hmore : ∀ call ∈ more, ¬ Adds e call) :
    (∀ p, p <+: more →
      e ∉ (after (run ++ [.remove e] ++ p)).queue ∧ e ∉ (after (run ++ [.remove e] ++ p)).entered) ∧
    (∀ event ∈ machine.emitted (after (run ++ [.remove e])) more, e ∉ event.list) ∧
    (step (after run) (.remove e)).2 =
      if e ∈ (after run).entered then [{ list := [e], state := false }] else [] := by
  have hw := after_wf run
  have h0 : Absent e (after (run ++ [.remove e])) := by rw [after_snoc]; exact absent_of_remove hw e
  have hnext : ∀ (c : Context P) (call : Call P), Absent e c → ¬ Adds e call → Absent e (machine.next c call) :=
    fun _ _ h hadd => (absent_step h hadd).1
  refine ⟨fun p hp => ?_, ?_, ?_⟩
  · have h : Absent e (after (run ++ [.remove e] ++ p)) := by
      unfold after; rw [machine.exec_append]
      exact machine.exec_invariant_of_steps h0 hnext p fun q call hq =>
        hmore call (hp.subset (hq.subset (by simp)))
    exact ⟨h.queue, h.entered⟩
  · exact machine.forall_emitted_of_steps h0 hnext (fun _ _ h hadd => (absent_step h hadd).2) more
      fun q call hq => hmore call (hq.subset (by simp))
  · show (onRemove (after run) e).2 = _
    by_cases he : e = 0
    · subst he; rw [onRemove_null, if_neg hw.enteredNonnull]
    · rw [onRemove_eq he]

/-- Entity 1 enters together with 2, the free 1 is swept and 2 is removed. -/
theorem removed_silent_swept :
    (∀ call ∈ [Call.frame (.freeing [1]), .shutdown], ¬ Adds 2 call) ∧
    ∀ event ∈ machine.emitted (after [Call.init, .spawn 1, .spawn 2, .frame (.freeing []),
      .frame (.freeing [1]), .remove 2]) [.frame (.freeing [1]), .shutdown], 2 ∉ event.list :=
  ⟨by simp [Adds],
    (removed_silent [Call.init, .spawn 1, .spawn 2, .frame (.freeing []), .frame (.freeing [1])] 2
      [.frame (.freeing [1]), .shutdown] (by simp [Adds])).2.1⟩

/-! ## Sessions -/

/-- The run has an `onInit` that no `onShutdown` follows. -/
def InSession (run : List (Call P)) : Prop := ∃ before since, run = before ++ .init :: since ∧ .shutdown ∉ since

theorem step_state (c : Context P) (call : Call P) :
    (step c call).1.state = match call with
      | .init => true
      | .shutdown => false
      | _ => c.state := by
  cases call with
  | init => rfl
  | spawn e => simp [step]
  | create globals => simp [step, onCreate_eq]
  | remove e =>
    by_cases he : e = 0
    · subst he; simp [step, onRemove_null]
    · simp [step, onRemove_eq he]
  | frame memory => cases hs : c.state <;> simp [step, onFrame_idle, onFrame_eq, hs]
  | shutdown => simp [step, onShutdown_eq]

theorem inSession_of_state {run : List (Call P)} (h : (after run).state = true) : InSession run := by
  induction run using List.reverseRecOn with
  | nil => cases h
  | append_singleton run call ih =>
    have keep : call ≠ .shutdown → (after run).state = true → InSession (run ++ [call]) := by
      intro hne hs
      obtain ⟨before, since, hrun, hsince⟩ := ih hs
      refine ⟨before, since ++ [call], by simp [hrun], fun hm => ?_⟩
      rcases List.mem_append.1 hm with hm | hm
      · exact hsince hm
      · exact hne (List.mem_singleton.1 hm).symm
    rw [after_snoc, step_state] at h
    cases call with
    | init => exact ⟨run, [], rfl, by simp⟩
    | shutdown => cases h
    | _ => exact keep (by simp) h

theorem after_shutdown (run more : List (Call P)) :
    after (run ++ .shutdown :: more) = machine.exec {} more := by
  unfold after
  rw [machine.exec_append, machine.exec_cons]
  show machine.exec (onShutdown (machine.exec {} run)).1 more = _
  rw [onShutdown_eq]

/-- Outside a session nothing has entered and a frame dispatches nothing; a shutdown reports exactly
the entered list and leaves the initial context, so what follows it does not depend on what came
before. -/
theorem sessions_isolated :
    (∀ run : List (Call P), (after run).state = false → (after run).entered = []) ∧
    (∀ (run : List (Call P)) memory, (step (after run) (.frame memory)).2 ≠ [] → InSession run) ∧
    (∀ run : List (Call P), step (after run) .shutdown =
      ({ state := false, queue := [], entered := [] },
        if (after run).entered = [] then [] else [{ list := (after run).entered, state := false }])) ∧
    (∀ run₁ run₂ more : List (Call P),
      after (run₁ ++ .shutdown :: more) = after (run₂ ++ .shutdown :: more) ∧
      machine.emitted (after (run₁ ++ [.shutdown])) more = machine.emitted (after (run₂ ++ [.shutdown])) more) := by
  refine ⟨fun run => (after_wf run).idle, fun run memory hev => ?_, fun run => onShutdown_eq _, ?_⟩
  · cases hs : (after run).state with
    | true => exact inSession_of_state hs
    | false => exact absurd (by simp [step, onFrame_idle hs]) hev
  · intro run₁ run₂ more
    rw [after_shutdown, after_shutdown, after_shutdown, after_shutdown]
    exact ⟨rfl, rfl⟩

end Refrigerator.Tracker
