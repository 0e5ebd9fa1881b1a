/-
Deterministic machines that emit outputs: the state a list of inputs leads to and the outputs
emitted on the way, both of them compatible with concatenation.

Two rules carry the properties of runs. `exec_invariant`: what every step preserves holds in every
state reached. `points_iff_steps`: when a step keeps a property of the point reached (the outputs
so far and the state) exactly if a guard on its own state and input holds, a run has the property
at every point exactly if every step of it is guarded.
-/
import Mathlib.Data.List.Induction

namespace Refrigerator.Lib

/-- A deterministic machine over states `S`, inputs `A` and outputs `E`. -/
structure Machine (S A E : Type*) where
  step : S → A → S × List E

namespace Machine

variable {S A E : Type*} (m : Machine S A E)

/-! ## Runs -/

/-- The state after one input. -/
def next (s : S) (a : A) : S := (m.step s a).1

/-- The outputs of one input. -/
def emit (s : S) (a : A) : List E := (m.step s a).2

/-- The state after a list of inputs. -/
def exec : S → List A → S
  | s, [] => s
  | s, a :: as => exec (m.next s a) as

/-- The outputs of a list of inputs, in order. -/
def emitted : S → List A → List E
  | _, [] => []
  | s, a :: as => m.emit s a ++ emitted (m.next s a) as

@[simp] theorem exec_nil (s : S) : m.exec s [] = s := rfl
@[simp] theorem exec_cons (s : S) (a : A) (as : List A) : m.exec s (a :: as) = m.exec (m.next s a) as := rfl
@[simp] theorem emitted_nil (s : S) : m.emitted s [] = [] := rfl
@[simp] theorem emitted_cons (s : S) (a : A) (as : List A) :
    m.emitted s (a :: as) = m.emit s a ++ m.emitted (m.next s a) as := rfl

theorem exec_eq_foldl : ∀ (s : S) (as : List A), m.exec s as = as.foldl m.next s
  | _, [] => rfl
  | s, a :: as => exec_eq_foldl (m.next s a) as

theorem exec_append : ∀ (s : S) (as bs : List A), m.exec s (as ++ bs) = m.exec (m.exec s as) bs
  | _, [], _ => rfl
  | s, a :: as, bs => exec_append (m.next s a) as bs

theorem emitted_append : ∀ (s : S) (as bs : List A),
    m.emitted s (as ++ bs) = m.emitted s as ++ m.emitted (m.exec s as) bs
  | _, [], _ => rfl
  | s, a :: as, bs => by
    rw [List.cons_append, emitted_cons, emitted_append (m.next s a) as bs, ← List.append_assoc]; rfl

theorem exec_snoc (s : S) (as : List A) (a : A) : m.exec s (as ++ [a]) = m.next (m.exec s as) a := by
  rw [exec_append]; rfl

theorem emitted_snoc (s : S) (as : List A) (a : A) :
    m.emitted s (as ++ [a]) = m.emitted s as ++ m.emit (m.exec s as) a := by
  rw [emitted_append]; simp

/-- If every step of `m` is matched by inputs of `m'` under a projection, so is every run. -/
theorem exec_refines {S' A' E' : Type*} (m' : Machine S' A' E') {f : S → S'}
    (h : ∀ s a, ∃ bs, f (m.next s a) = m'.exec (f s) bs) : ∀ (s : S) (as : List A),
    ∃ bs, f (m.exec s as) = m'.exec (f s) bs
  | _, [] => ⟨[], rfl⟩
  | s, a :: as => by
    obtain ⟨bs, hstep⟩ := h s a
    obtain ⟨cs, hrun⟩ := exec_refines m' h (m.next s a) as
    exact ⟨bs ++ cs, by rw [exec_cons, hrun, hstep, m'.exec_append]⟩

/-- If under an invariant every step of `m` is one of `m'` under projections, with the same outputs, so is
every run. -/
theorem exec_simulates {S' A' : Type*} (m' : Machine S' A' E) {I : S → Prop} {f : S → S'} {g : A → A'}
    (h : ∀ s a, I s → I (m.next s a) ∧ f (m.next s a) = m'.next (f s) (g a) ∧ m.emit s a = m'.emit (f s) (g a)) :
    ∀ (s : S) (as : List A), I s →
      f (m.exec s as) = m'.exec (f s) (as.map g) ∧ m.emitted s as = m'.emitted (f s) (as.map g)
  | _, [], _ => ⟨rfl, rfl⟩
  | s, a :: as, hs => by
    obtain ⟨hnext, hf, hemit⟩ := h s a hs
    obtain ⟨hexec, hemitted⟩ := exec_simulates m' h (m.next s a) as hnext
    rw [List.map_cons, exec_cons, exec_cons, emitted_cons, emitted_cons, hexec, hemitted, hf, hemit]
    exact ⟨rfl, rfl⟩

/-! ## Prefixes -/

/-- The points of a run extended by one input: those of the run, and its end. -/
theorem prefix_snoc_iff {p as : List A} {a : A} : p <+: as ++ [a] ↔ p <+: as ∨ p = as ++ [a] := by
  rw [List.prefix_concat_iff]; exact or_comm

theorem forall_prefix_snoc {Q : List A → Prop} {as : List A} {a : A} :
    (∀ p, p <+: as ++ [a] → Q p) ↔ (∀ p, p <+: as → Q p) ∧ Q (as ++ [a]) := by
  simp only [prefix_snoc_iff, or_imp, forall_and, forall_eq]

/-- The steps of a run extended by one input: those of the run, and the last one. -/
theorem forall_step_snoc {Q : List A → A → Prop} {as : List A} {a : A} :
    (∀ p b, p ++ [b] <+: as ++ [a] → Q p b) ↔ (∀ p b, p ++ [b] <+: as → Q p b) ∧ Q as a := by
  constructor
  · exact fun h => ⟨fun p b hp => h p b (prefix_snoc_iff.2 (Or.inl hp)), h as a List.prefix_rfl⟩
  · rintro ⟨h, ha⟩ p b hp
    rcases prefix_snoc_iff.1 hp with hp | hp
    · exact h p b hp
    · obtain ⟨rfl, hb⟩ := List.append_inj' hp rfl
      cases hb; exact ha

/-- The elements of a list with those before and after them: the first one, and those of the rest. -/
theorem forall_split_cons {Q : List A → A → List A → Prop} {x : A} {xs : List A} :
    (∀ p y q, x :: xs = p ++ y :: q → Q p y q) ↔ Q [] x xs ∧ ∀ p y q, xs = p ++ y :: q → Q (x :: p) y q := by
  constructor
  · exact fun h => ⟨h [] x xs rfl, fun p y q hxs => h (x :: p) y q (by rw [hxs]; rfl)⟩
  · rintro ⟨hx, hxs⟩ (_ | ⟨z, p⟩) y q h
    · obtain ⟨rfl, rfl⟩ := List.cons.inj h; exact hx
    · obtain ⟨rfl, htail⟩ := List.cons.inj h; exact hxs p y q htail

/-- The steps of a run from its first input on. -/
theorem forall_step_cons {C : S → A → Prop} {s : S} {a : A} {as : List A} :
    (∀ p b, p ++ [b] <+: a :: as → C (m.exec s p) b) ↔
      C s a ∧ ∀ p b, p ++ [b] <+: as → C (m.exec (m.next s a) p) b := by
  constructor
  · exact fun h => ⟨h [] a (by simp), fun p b hp => h (a :: p) b (by simpa using hp)⟩
  · rintro ⟨ha, h⟩ (_ | ⟨c, p⟩) b hp
    · obtain ⟨rfl, -⟩ := List.cons_prefix_cons.1 hp; exact ha
    · obtain ⟨rfl, htail⟩ := List.cons_prefix_cons.1 hp; exact h p b htail

theorem forall_step_nil {C : S → A → Prop} {s : S} : ∀ p b, p ++ [b] <+: [] → C (m.exec s p) b := by
  intro p b hp
  simp at hp

/-- What a run emits is emitted by a step of it. -/
theorem mem_emitted_iff {e : E} : ∀ {s : S} {as : List A},
    e ∈ m.emitted s as ↔ ∃ p a q, as = p ++ a :: q ∧ e ∈ m.emit (m.exec s p) a
  | s, [] => by simp
  | s, a :: as => by
    rw [emitted_cons, List.mem_append, mem_emitted_iff]
    constructor
    · rintro (h | ⟨p, b, q, rfl, h⟩)
      · exact ⟨[], a, as, rfl, h⟩
      · exact ⟨a :: p, b, q, rfl, h⟩
    · rintro ⟨_ | ⟨c, p⟩, b, q, heq, h⟩
      · cases heq; exact Or.inl h
      · obtain ⟨rfl, rfl⟩ := List.cons.inj heq
        exact Or.inr ⟨p, b, q, rfl, h⟩

/-! ## Invariants -/

/-- What every step preserves holds in every state reached. -/
theorem exec_invariant {I : S → Prop} (hI : ∀ s a, I s → I (m.next s a)) :
    ∀ (s : S) (as : List A), I s → I (m.exec s as)
  | _, [], h => h
  | s, a :: as, h => exec_invariant hI (m.next s a) as (hI s a h)

/-- What every guarded step preserves holds in every state a guarded run reaches. -/
theorem exec_invariant_of_steps {I : S → Prop} {C : S → A → Prop} {s : S} (h0 : I s)
    (hI : ∀ t a, I t → C t a → I (m.next t a)) (as : List A)
    (hC : ∀ p a, p ++ [a] <+: as → C (m.exec s p) a) : I (m.exec s as) := by
  induction as using List.reverseRecOn with
  | nil => exact h0
  | append_singleton as a ih =>
    obtain ⟨hp, ha⟩ := forall_step_snoc.1 hC
    rw [exec_snoc]; exact hI _ a (ih hp) ha

/-- What every guarded step emits under an invariant, a guarded run emits. -/
theorem forall_emitted_of_steps {I : S → Prop} {C : S → A → Prop} {R : E → Prop} {s : S} (h0 : I s)
    (hI : ∀ t a, I t → C t a → I (m.next t a)) (hR : ∀ t a, I t → C t a → ∀ e ∈ m.emit t a, R e)
    (as : List A) (hC : ∀ p a, p ++ [a] <+: as → C (m.exec s p) a) : ∀ e ∈ m.emitted s as, R e := by
  induction as using List.reverseRecOn with
  | nil => simp
  | append_singleton as a ih =>
    obtain ⟨hp, ha⟩ := forall_step_snoc.1 hC
    intro e he
    rw [emitted_snoc, List.mem_append] at he
    rcases he with he | he
    · exact ih hp e he
    · exact hR _ a (m.exec_invariant_of_steps h0 hI as hp) ha e he

/-- If every guarded input lowers a measure by one, as many inputs as it amounts to lower it to zero. -/
theorem exec_drains {C : A → Prop} {f : S → Nat} (hstep : ∀ s a, C a → f (m.next s a) ≤ f s - 1) :
    ∀ (s : S) (as : List A), (∀ a ∈ as, C a) → f (m.exec s as) ≤ f s - as.length
  | _, [], _ => Nat.le_refl _
  | s, a :: as, h => by
    obtain ⟨ha, has⟩ := List.forall_mem_cons.1 h
    have hnext := hstep s a ha
    have ih := exec_drains hstep (m.next s a) as has
    rw [exec_cons, List.length_cons]
    omega

/-- If a step keeps `P` exactly when its guard `C` holds, a run has `P` at every point exactly
when every step of it is guarded. -/
theorem points_iff_steps {P : List E → S → Prop} {C : S → A → Prop} {s : S} (h0 : P [] s)
    (hstep : ∀ p a, P (m.emitted s p) (m.exec s p) →
      (P (m.emitted s p ++ m.emit (m.exec s p) a) (m.next (m.exec s p) a) ↔ C (m.exec s p) a))
    (as : List A) :
    (∀ p, p <+: as → P (m.emitted s p) (m.exec s p)) ↔ ∀ p a, p ++ [a] <+: as → C (m.exec s p) a := by
  induction as using List.reverseRecOn with
  | nil => simp [h0]
  | append_singleton as a ih =>
    rw [forall_prefix_snoc, forall_step_snoc, ih, emitted_snoc, exec_snoc]
    refine and_congr_right fun hC => hstep as a ?_
    exact ih.2 hC as List.prefix_rfl

end Machine

end Refrigerator.Lib
