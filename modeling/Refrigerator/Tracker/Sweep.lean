/-
What a frame of the trusted-entities feature is for, as a function of the lists and the free flags,
and when `onFrame` computes it.

The enter event and the queue are always as specified; the exit event is when the free entities stand
last in the entered list; the entered list only when there are none.
-/
import Refrigerator.Tracker.Handlers

namespace Refrigerator.Tracker

open Lib

variable {P : Type*} (memory : Memory P) (c : Context P)

/-! ## The specified sweep -/

/-- The entered entities that are free, in order. -/
def Context.gone : List P := c.entered.filter memory.isFree

/-- The entered entities that are not free, in order. -/
def Context.staying : List P := c.entered.filter fun e => !memory.isFree e

/-- A sweep takes the free entities out of the entered list, appends the queued ones that are not
free, and reports both. -/
def sweep : Context P × List (Event P) :=
  ({ c with queue := [], entered := c.staying memory ++ c.admitted memory },
    (if ∃ e ∈ c.entered, memory.isFree e = true then [{ list := c.gone memory, state := false }] else []) ++
      if ∃ e ∈ c.queue, memory.isFree e = false then [{ list := c.admitted memory, state := true }] else [])

variable {memory c}

theorem dispatchUnlessEmpty_filter {l : List P} {p : P → Bool} {state : Bool} :
    dispatchUnlessEmpty { list := l.filter p, state } =
      if ∃ e ∈ l, p e = true then [({ list := l.filter p, state } : Event P)] else [] := by
  unfold dispatchUnlessEmpty
  by_cases h : ∃ e ∈ l, p e = true
  · have hne : ¬ ∀ e ∈ l, p e = false := by
      obtain ⟨e, he, hp⟩ := h
      exact fun hall => by simp [hall e he] at hp
    simp [h, hne]
  · simp [h]

theorem sweep_eq : sweep memory c =
    ({ c with queue := [], entered := c.staying memory ++ c.admitted memory },
      dispatchUnlessEmpty { list := c.gone memory, state := false } ++
        dispatchUnlessEmpty { list := c.admitted memory, state := true }) := by
  unfold sweep Context.gone Context.admitted
  rw [dispatchUnlessEmpty_filter, dispatchUnlessEmpty_filter]
  simp

/-! ## When the handler computes it -/

/-- The exit event names the free entities exactly when they stand behind all the others. -/
theorem swept_eq_gone_iff : c.swept memory = c.gone memory ↔ FreeLast memory c := moved_eq_removed_iff

/-- What `remove_if` leaves behind the returned position stays in the entered list, so nothing may be
left there. -/
theorem compacted_eq_staying_iff : c.compacted memory = c.staying memory ↔ NoneFree memory c := by
  rw [← swept_eq_nil_iff, Context.compacted, Context.swept, Context.staying, removeIf_eq]
  exact List.append_right_eq_self

/-- A frame computes the specified sweep exactly when no entered entity is free. -/
theorem onFrame_eq_sweep_iff (hs : c.state = true) : onFrame memory c = sweep memory c ↔ NoneFree memory c := by
  rw [onFrame_eq hs, sweep_eq]
  constructor
  · intro h
    have hentered : c.compacted memory ++ c.admitted memory = c.staying memory ++ c.admitted memory :=
      congrArg (fun r : Context P × List (Event P) => r.1.entered) h
    exact compacted_eq_staying_iff.1 (List.append_cancel_right hentered)
  · intro h
    rw [compacted_eq_staying_iff.2 h, swept_eq_gone_iff.2 h.freeLast]

theorem onFrame_eq_sweep_queued :
    onFrame (Memory.freeing [3]) { state := true, queue := [3, 4], entered := [1, 2] } =
      sweep (Memory.freeing [3]) ({ state := true, queue := [3, 4], entered := [1, 2] } : Context Nat) :=
  (onFrame_eq_sweep_iff rfl).2 (by unfold NoneFree; decide)

/-- An entered entity that is free is reported, but the entered list still holds it. -/
theorem onFrame_ne_sweep : ¬ ∀ (memory : Memory Nat) (c : Context Nat), c.state = true → c.entered.Nodup →
    onFrame memory c = sweep memory c := by
  intro h
  have hfail := h (Memory.freeing [1]) { state := true, queue := [], entered := [1] } rfl (by decide)
  exact absurd hfail (by decide)

end Refrigerator.Tracker
