/-
What the subscribers of the trusted-entities feature can rely on: the entered list is a set of
entities, the dispatched events replay to it, and every entity enters and exits in turn.

`onFrame` compacts the entered list without erasing the positions `remove_if` leaves behind, and
`onSpawn` looks for the entity in the queue only. Each law therefore holds of exactly the runs whose
frames avoid what breaks it: a free entity in the entered list (`NoneFree`), one that stands
before a live entity (`FreeLast`), a live queued entity that has entered already (`FreshQueue`).
-/
import Refrigerator.Tracker.Handlers

namespace Refrigerator.Tracker

open Lib Metamod

variable {P : Type*} [DecidableEq P]

/-! ## Events that may be left out -/

theorem replay_unlessEmpty (feed : List (Event P)) (event : Event P) :
    replay (feed ++ dispatchUnlessEmpty event) = event.apply (replay feed) := by
  unfold dispatchUnlessEmpty
  split_ifs with h
  · rw [List.isEmpty_iff] at h
    ext e; simp [mem_apply, h]
  · exact replay_snoc feed event

theorem alternating_unlessEmpty {feed : List (Event P)} {event : Event P} :
    Alternating (feed ++ dispatchUnlessEmpty event) ↔
      Alternating feed ∧ event.list.Nodup ∧ ∀ e ∈ event.list, (event.state = true ↔ e ∉ replay feed) := by
  unfold dispatchUnlessEmpty
  split_ifs with h
  · rw [List.isEmpty_iff] at h; simp [h]
  · exact alternating_snoc

variable [Zero P]

omit [DecidableEq P] [Zero P] in
theorem onShutdown_dispatch (c : Context P) :
    (onShutdown c).2 = dispatchUnlessEmpty { list := c.entered, state := false } := by
  rw [onShutdown_eq]; unfold dispatchUnlessEmpty
  cases h : c.entered <;> simp

/-! ## The mirror -/

theorem mirror_of_exits {feed : List (Event P)} {c : Context P} (h : replay feed = c.entered.toFinset)
    {call : Call P} (hidle : ∀ memory, call = .frame memory → c.state = false) :
    replay (feed ++ (step c call).2) = (step c call).1.entered.toFinset := by
  obtain ⟨hexits, -, hentered⟩ := step_exits hidle
  ext e
  rw [replay_exits hexits, h, List.mem_toFinset, List.mem_toFinset, hentered]

omit [Zero P] in
/-- A sweep keeps the mirror exactly when no entered entity is free: a free one is dropped from the
list if it is not reported, and reported if it stays in the list. -/
theorem mirror_frame_iff {feed : List (Event P)} {c : Context P} {memory : Memory P}
    (h : replay feed = c.entered.toFinset) (hs : c.state = true) :
    replay (feed ++ (onFrame memory c).2) = (onFrame memory c).1.entered.toFinset ↔ NoneFree memory c := by
  rw [onFrame_eq hs]
  simp only [← List.append_assoc, replay_unlessEmpty]
  constructor
  · intro heq e he
    by_contra hfree
    have hadm : e ∉ c.admitted memory := fun ha => hfree (Context.mem_admitted.1 ha).2
    -- a free entity is either reported and kept, or dropped and not reported
    have := Finset.ext_iff.1 heq e
    simp [mem_apply, h, Context.mem_compacted, hadm, he, hfree] at this
  · intro hnone
    have hswept := swept_eq_nil_iff.2 hnone
    ext e
    simp only [mem_apply, h, hswept, List.mem_toFinset, List.mem_append, Context.mem_compacted,
      List.not_mem_nil, false_and, not_false_eq_true, true_and, or_false, false_or, and_true]
    have := hnone e
    tauto

theorem mirror_step {feed : List (Event P)} {c : Context P} (h : replay feed = c.entered.toFinset)
    (call : Call P) :
    replay (feed ++ (step c call).2) = (step c call).1.entered.toFinset ↔ OnFrames NoneFree c call := by
  by_cases hidle : ∀ memory, call = .frame memory → c.state = false
  · refine iff_of_true (mirror_of_exits h hidle) ?_
    cases call with
    | frame memory => intro hs; rw [hidle memory rfl] at hs; cases hs
    | _ => trivial
  · obtain ⟨memory, rfl, hs⟩ : ∃ memory, call = .frame memory ∧ c.state = true := by simpa using hidle
    rw [OnFrames, imp_iff_right hs]
    exact mirror_frame_iff h hs

/-- Subscribers mirror the tracker at every point of a run exactly when no frame of the run finds a
free entity in the entered list. -/
theorem mirror_iff (run : List (Call P)) :
    (∀ p, p <+: run → replay (dispatched p) = (after p).entered.toFinset) ↔ FramesMeet NoneFree run :=
  points_iff_framesMeet (Q := fun feed c => replay feed = c.entered.toFinset) rfl
    (fun _ call h => mirror_step h call) run

/-- Entity 1 enters, is freed and swept: it is reported and stays in the list. -/
theorem mirror_broken : ¬ ∀ p, p <+: [Call.init, .spawn 1, .frame (.freeing []), .frame (.freeing [1])] →
    replay (dispatched p) = (after p : Context Nat).entered.toFinset := by
  intro h
  have := h _ List.prefix_rfl
  revert this; decide

/-! ## The entered list -/

theorem entered_step {c : Context P} (hw : WF c) (h : c.entered.Nodup ∧ 0 ∉ c.entered) (call : Call P) :
    ((step c call).1.entered.Nodup ∧ 0 ∉ (step c call).1.entered) ↔
      OnFrames (fun memory c => FreeLast memory c ∧ FreshQueue memory c) c call := by
  have hnull : 0 ∉ (step c call).1.entered := (step_wf hw call).enteredNonnull
  rw [and_iff_left hnull]
  cases call with
  | init => exact iff_of_true h.1 trivial
  | spawn e => exact iff_of_true (by simpa [step] using h.1) trivial
  | create globals => exact iff_of_true (by simpa [step, onCreate_eq] using h.1) trivial
  | remove e =>
    refine iff_of_true ?_ trivial
    show (onRemove c e).1.entered.Nodup
    by_cases he : e = 0
    · subst he; rw [onRemove_null]; exact h.1
    · rw [onRemove_eq he]; exact h.1.filter _
  | frame memory =>
    show (onFrame memory c).1.entered.Nodup ↔ _
    cases hs : c.state with
    | false => simp [OnFrames, onFrame_idle hs, h.1, hs]
    | true => simpa [OnFrames, onFrame_eq hs, hs] using nodup_sweep_iff h.1 hw.queueNodup
  | shutdown =>
    refine iff_of_true ?_ trivial
    show (onShutdown c).1.entered.Nodup
    rw [onShutdown_eq]; exact List.nodup_nil

/-- The entered list has no null pointer and no entity twice at every point of a run exactly when in
every frame of the run the free entities stand last and no queued one has entered already. -/
theorem entered_iff (run : List (Call P)) :
    (∀ p, p <+: run → (after p).entered.Nodup ∧ 0 ∉ (after p).entered) ↔
      FramesMeet (fun memory c => FreeLast memory c ∧ FreshQueue memory c) run :=
  points_iff_framesMeet (Q := fun _ c => c.entered.Nodup ∧ 0 ∉ c.entered) (by simp)
    (fun run call h => entered_step (after_wf run) h call) run

/-- Entities 1 and 2 enter and entity 1 is freed: its place is taken by a second 2. -/
theorem entered_broken :
    ¬ ∀ p, p <+: [Call.init, .spawn 1, .spawn 2, .frame (.freeing []), .frame (.freeing [1])] →
      (after p : Context Nat).entered.Nodup ∧ 0 ∉ (after p : Context Nat).entered := by
  intro h
  have := h _ List.prefix_rfl
  revert this; decide

/-! ## Alternation -/

/-- What breaks alternation: a free entity in the entered list, or a live queued one. -/
def Clean (memory : Memory P) (c : Context P) : Prop := NoneFree memory c ∧ FreshQueue memory c

/-- The point of a run is in order: the feed alternates and replays to an entered list without
repetitions. -/
structure InOrder (feed : List (Event P)) (c : Context P) : Prop where
  alternating : Alternating feed
  mirror : replay feed = c.entered.toFinset
  nodup : c.entered.Nodup

omit [Zero P] in
theorem InOrder.mem_replay {feed : List (Event P)} {c : Context P} (h : InOrder feed c) {e : P} :
    e ∈ replay feed ↔ e ∈ c.entered := by rw [h.mirror, List.mem_toFinset]

theorem alternating_remove {feed : List (Event P)} {c : Context P} (h : InOrder feed c) (e : P) :
    Alternating (feed ++ (onRemove c e).2) := by
  by_cases he : e = 0
  · subst he; rw [onRemove_null]; simpa using h.alternating
  · rw [onRemove_eq he]
    by_cases hm : e ∈ c.entered
    · simp only [hm, if_true, alternating_snoc]
      exact ⟨h.alternating, List.nodup_singleton e, by simpa [h.mem_replay] using hm⟩
    · simpa [hm] using h.alternating

omit [Zero P] in
theorem alternating_shutdown {feed : List (Event P)} {c : Context P} (h : InOrder feed c) :
    Alternating (feed ++ (onShutdown c).2) := by
  rw [onShutdown_dispatch, alternating_unlessEmpty]
  exact ⟨h.alternating, h.nodup, fun e he => by simpa [h.mem_replay] using he⟩

omit [Zero P] in
theorem alternating_frame {feed : List (Event P)} {c : Context P} {memory : Memory P} (h : InOrder feed c)
    (hq : c.queue.Nodup) (hc : c.state = true → Clean memory c) : Alternating (feed ++ (onFrame memory c).2) := by
  cases hs : c.state with
  | false => rw [onFrame_idle hs]; simpa using h.alternating
  | true =>
    obtain ⟨hnone, hfresh⟩ := hc hs
    -- nothing is swept, and the admitted entities are new
    rw [onFrame_eq hs, swept_eq_nil_iff.2 hnone]
    show Alternating (feed ++ ([] ++ _))
    rw [List.nil_append, alternating_unlessEmpty]
    refine ⟨h.alternating, hq.filter _, fun e he => ?_⟩
    simpa [h.mem_replay] using not_mem_entered_of_admitted hfresh he

theorem inOrder_step {feed : List (Event P)} {c : Context P} (hw : WF c) (h : InOrder feed c) (call : Call P) :
    InOrder (feed ++ (step c call).2) (step c call).1 ↔ OnFrames Clean c call := by
  have hmirror := mirror_step h.mirror call
  have hnodup := entered_step hw ⟨h.nodup, hw.enteredNonnull⟩ call
  constructor
  · intro h'
    have hnone := hmirror.1 h'.mirror
    have hfresh := hnodup.1 ⟨h'.nodup, (step_wf hw call).enteredNonnull⟩
    cases call with
    | frame memory => exact fun hs => ⟨hnone hs, (hfresh hs).2⟩
    | _ => trivial
  · intro hc
    have hm : OnFrames NoneFree c call := by
      cases call with
      | frame memory => exact fun hs => (hc hs).1
      | _ => trivial
    have hn : OnFrames (fun memory c => FreeLast memory c ∧ FreshQueue memory c) c call := by
      cases call with
      | frame memory => exact fun hs => ⟨(hc hs).1.freeLast, (hc hs).2⟩
      | _ => trivial
    refine ⟨?_, hmirror.2 hm, (hnodup.2 hn).1⟩
    cases call with
    | init => simpa [step] using h.alternating
    | spawn e => simpa [step] using h.alternating
    | create globals => simpa [step] using h.alternating
    | remove e => exact alternating_remove h e
    | frame memory => exact alternating_frame h hw.queueNodup hc
    | shutdown => exact alternating_shutdown h

theorem inOrder_iff (run : List (Call P)) :
    (∀ p, p <+: run → InOrder (dispatched p) (after p)) ↔ FramesMeet Clean run :=
  points_iff_framesMeet (Q := InOrder) ⟨alternating_nil, rfl, List.nodup_nil⟩
    (fun run call h => inOrder_step (after_wf run) h call) run

/-- A frame followed by a shutdown shows whether the frame was clean: the shutdown reports the whole
list, so what the frame reported and kept, or admitted twice, is mentioned once too often. -/
theorem clean_of_shutdown {feed : List (Event P)} {c : Context P} {memory : Memory P} (hw : WF c)
    (h : InOrder feed c) (hs : c.state = true)
    (halt : Alternating (feed ++ (onFrame memory c).2 ++ (onShutdown (onFrame memory c).1).2)) :
    Clean memory c := by
  rw [onFrame_eq hs, onShutdown_dispatch] at halt
  simp only [← List.append_assoc] at halt
  obtain ⟨-, hnd, hexit⟩ := alternating_unlessEmpty.1 halt
  obtain ⟨hlast, hfresh⟩ := (nodup_sweep_iff h.nodup hw.queueNodup).1 hnd
  refine ⟨swept_eq_nil_iff.1 (List.eq_nil_iff_forall_not_mem.2 fun e he => ?_), hfresh⟩
  have hadm : e ∉ c.admitted memory := fun ha =>
    not_mem_entered_of_admitted hfresh ha (Context.mem_entered_of_mem_swept he)
  have hin := hexit e (List.mem_append_left _ (Context.mem_compacted.2 (Or.inr he)))
  rw [replay_unlessEmpty, replay_unlessEmpty, mem_apply, mem_apply] at hin
  simp [he, hadm] at hin

/-- On a run of clean frames every entity enters first and then exits and enters in turn, and no event
lists an entity twice. The condition is exact: all frames of a run are clean just when the feed
alternates wherever the run is cut off by a shutdown. -/
theorem mentions_alternate (run : List (Call P)) :
    (FramesMeet Clean run →
      (∀ e, Alternates (mentions e (dispatched run))) ∧ ∀ event ∈ dispatched run, event.list.Nodup) ∧
    (FramesMeet Clean run ↔
      ∀ p, p <+: run → ∀ e, Alternates (mentions e (dispatched (p ++ [.shutdown])))) := by
  refine ⟨fun hc => ?_, fun hc p hp => ?_, fun halt => ?_⟩
  · have h := (inOrder_iff run).2 hc run List.prefix_rfl
    exact ⟨h.alternating, h.alternating.nodup⟩
  · have h := (inOrder_iff run).2 hc p hp
    rw [dispatched_snoc]; exact alternating_shutdown h
  · -- the first frame that is not clean would be shown by a shutdown right after it
    induction run using List.reverseRecOn with
    | nil => exact framesMeet_iff.2 (by simp)
    | append_singleton run call ih =>
      obtain ⟨hall, hend⟩ := Machine.forall_prefix_snoc.1 halt
      have hc := ih hall
      have h := (inOrder_iff run).2 hc run List.prefix_rfl
      rw [framesMeet_iff] at hc ⊢
      refine Machine.forall_step_snoc.2 ⟨hc, ?_⟩
      cases call with
      | frame memory =>
        intro hs
        rw [dispatched_snoc, dispatched_snoc, after_snoc] at hend
        exact clean_of_shutdown (after_wf run) h hs hend
      | _ => trivial

/-- Entity 1 enters, is freed and swept in two frames: it exits twice. -/
theorem mentions_broken :
    ¬ ∀ e, Alternates (mentions e (dispatched
      [Call.init, .spawn 1, .frame (.freeing []), .frame (.freeing [1]), .frame (.freeing [1])])) := by
  intro h
  have := (h 1).chain
  revert this; decide

end Refrigerator.Tracker
