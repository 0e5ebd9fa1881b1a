/-
Finite programs that ask questions and go on with the answers, run against an answering function that
may change a state and may be cut off before it answers. A run cut off in an answer is cut off itself,
in the state the answer left, so what holds of runs cut off anywhere holds at every point of a run.

`Asks` collects the questions a program may ask, whatever it is answered.
-/
import Mathlib.Order.Basic

namespace Refrigerator.Lib

/-- A program over questions `Q`, answers `A` and results `R`. -/
inductive Program (Q A R : Type*)
  | done (result : R)
  | ask (question : Q) (next : A → Program Q A R)

namespace Program

variable {Q A R S : Type*}

/-- Some run of the program asks the question. -/
inductive Asks : Program Q A R → Q → Prop
  | here (question : Q) (next : A → Program Q A R) : Asks (ask question next) question
  | later {question : Q} {next : A → Program Q A R} {other : Q} (answer : A) (h : Asks (next answer) other) :
      Asks (ask question next) other

/-- Runs a program; no result stands for a run that was cut off. -/
def run (answer : Q → S → Option A × S) : Program Q A R → S → Option R × S
  | done result, s => (some result, s)
  | ask question next, s =>
    match answer question s with
    | (none, s) => (none, s)
    | (some a, s) => run answer (next a) s

variable {answer : Q → S → Option A × S}

@[simp] theorem run_done (result : R) (s : S) : (done result).run answer s = (some result, s) := rfl

theorem run_ask_none {question : Q} {next : A → Program Q A R} {s s' : S} (h : answer question s = (none, s')) :
    (ask question next).run answer s = (none, s') := by
  rw [run, h]

theorem run_ask_some {question : Q} {next : A → Program Q A R} {s s' : S} {a : A}
    (h : answer question s = (some a, s')) :
    (ask question next).run answer s = (next a).run answer s' := by
  rw [run, h]

/-! ## Rules -/

/-- What every answer preserves, cut off or not, a run preserves. -/
theorem run_invariant {I : S → Prop} (h : ∀ question s, I s → I (answer question s).2) :
    ∀ (p : Program Q A R) (s : S), I s → I (p.run answer s).2
  | done _, _, hs => hs
  | ask question next, s, hs => by
    have hstep : I (answer question s).2 := h question s hs
    rcases hans : answer question s with ⟨_ | a, s'⟩
    · rw [run_ask_none hans]; rw [hans] at hstep; exact hstep
    · rw [run_ask_some hans]
      rw [hans] at hstep
      exact run_invariant h (next a) s' hstep

theorem run_preserves {I : S → Prop} (h : ∀ question s, I s → I (answer question s).2) {p : Program Q A R} {s s' : S}
    {ended : Option R} (hrun : p.run answer s = (ended, s')) (hs : I s) : I s' := by
  have hend : I (p.run answer s).2 := run_invariant h p s hs
  rw [hrun] at hend; exact hend

/-- What every complete answer preserves, a complete run preserves. -/
theorem run_completed {I : S → Prop}
    (h : ∀ question s a s', I s → answer question s = (some a, s') → I s') :
    ∀ (p : Program Q A R) {s s' : S} {result : R}, I s → p.run answer s = (some result, s') → I s'
  | done _, s, s', result, hs, hrun => by
    rw [run_done] at hrun
    cases hrun; exact hs
  | ask question next, s, s', result, hs, hrun => by
    rcases hans : answer question s with ⟨_ | a, t⟩
    · rw [run_ask_none hans] at hrun; cases hrun
    · rw [run_ask_some hans] at hrun
      exact run_completed h (next a) (h question s a t hs hans) hrun

/-- A program is not cut off when no answer to a question it may ask is. -/
theorem run_total {I : S → Prop} : ∀ (p : Program Q A R)
    (_ : ∀ question s, p.Asks question → I s → ∃ a s', answer question s = (some a, s') ∧ I s') (s : S),
    I s → ∃ result s', p.run answer s = (some result, s') ∧ I s'
  | done result, _, s, hs => ⟨result, s, rfl, hs⟩
  | ask question next, h, s, hs => by
    obtain ⟨a, s', hans, hs'⟩ := h question s (.here question next) hs
    rw [run_ask_some hans]
    exact run_total (next a) (fun other t hother ht => h other t (.later a hother) ht) s' hs'

/-- Answers that complete more often leave the complete runs as they are. -/
theorem run_mono {answer' : Q → S → Option A × S}
    (h : ∀ question s a s', answer question s = (some a, s') → answer' question s = (some a, s')) :
    ∀ (p : Program Q A R) {s s' : S} {result : R},
      p.run answer s = (some result, s') → p.run answer' s = (some result, s')
  | done _, _, _, _, hrun => hrun
  | ask question next, s, s', result, hrun => by
    rcases hans : answer question s with ⟨_ | a, t⟩
    · rw [run_ask_none hans] at hrun; cases hrun
    · rw [run_ask_some hans] at hrun
      rw [run_ask_some (h question s a t hans)]
      exact run_mono h (next a) hrun

end Program

end Refrigerator.Lib
