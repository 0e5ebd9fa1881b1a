/-
Values that are computed on demand and cached, and caches that are cleared in part when the computations
change.

`evaluate` looks into the cache first. A cache is `Valid` if what it holds is what is computed afresh, and
what that was computed from is in the cache as well. The evaluation keeps it so and gives the same values.
The rule of invalidation is `Valid.restrict`: whatever has read something that is cleared has to be cleared,
and what stays must be computed as before.
-/
import Refrigerator.Lib.Fresh
import Mathlib.Logic.Function.Basic

namespace Refrigerator.Lib

variable {N : Type} {A : N → Type} {R : Type}

/-! ## Evaluation -/

/-- The values that are known. -/
abbrev Cache (A : N → Type) := ∀ node, Option (A node)

/-- A computation whose reads may fill the cache. -/
def Reading.visit (answer : ∀ node, Cache A → Option (A node × Cache A)) :
    Reading A R → Cache A → Option (R × Cache A)
  | .done result, cache => some (result, cache)
  | .read node next, cache =>
    match answer node cache with
    | none => none
    | some (a, cache) => (next a).visit answer cache

variable [DecidableEq N]

/-- The value of a node, from the cache if it is there, and the cache that holds it. -/
def evaluate (compute : ∀ node, Reading A (A node)) : Nat → ∀ node, Cache A → Option (A node × Cache A)
  | 0, _, _ => none
  | depth + 1, node, cache =>
    match cache node with
    | some a => some (a, cache)
    | none =>
      match (compute node).visit (evaluate compute depth) cache with
      | none => none
      | some (a, cache) => some (a, Function.update cache node (some a))

variable {compute compute' : ∀ node, Reading A (A node)}

/-! ## Valid caches -/

structure Valid (compute : ∀ node, Reading A (A node)) (cache : Cache A) : Prop where
  fresh : ∀ {node a}, cache node = some a → ∃ depth, fresh compute depth node = some a
  answered : ∀ {node a}, cache node = some a → (compute node).answered cache = some a

omit [DecidableEq N] in
theorem valid_empty : Valid compute (fun _ => none) := ⟨nofun, nofun⟩

omit [DecidableEq N] in
/-- One depth suffices for what has been read on the way to a result. -/
theorem Valid.exists_depth {cache : Cache A} (h : Valid compute cache) {p : Reading A R} {result : R}
    (hresult : p.answered cache = some result) : ∃ depth, ∀ m ∈ p.reads cache, Lib.fresh compute depth m = cache m := by
  refine Lib.exists_depth fun m hm => ?_
  obtain ⟨a, ha⟩ := p.answer_of_reads hresult m hm
  obtain ⟨depth, hdepth⟩ := h.fresh ha
  exact ⟨depth, a, ha, hdepth⟩

/-- The second cache holds what the first one holds. -/
def Cache.Grows (cache cache' : Cache A) : Prop := ∀ node a, cache node = some a → cache' node = some a

omit [DecidableEq N] in
theorem Cache.Grows.trans {cache cache' cache'' : Cache A} (h : cache.Grows cache') (h' : cache'.Grows cache'') :
    cache.Grows cache'' := fun node a ha => h' node a (h node a ha)

/-- What an answer from the cache leaves. -/
structure Answers (compute : ∀ node, Reading A (A node)) (node : N) (cache cache' : Cache A) (a : A node) : Prop where
  valid : Valid compute cache'
  grows : cache.Grows cache'
  holds : cache' node = some a

omit [DecidableEq N] in
theorem visit_valid {answer : ∀ node, Cache A → Option (A node × Cache A)}
    (hanswer : ∀ node cache a cache', Valid compute cache → answer node cache = some (a, cache') →
      Answers compute node cache cache' a) {result : R} {cache' : Cache A} :
    ∀ (p : Reading A R) {cache : Cache A}, Valid compute cache → p.visit answer cache = some (result, cache') →
      Valid compute cache' ∧ cache.Grows cache' ∧ p.answered cache' = some result
  | .done _, cache, hvalid, h => by
    cases h
    exact ⟨hvalid, fun _ _ => id, rfl⟩
  | .read node next, cache, hvalid, h => by
    rw [Reading.visit] at h
    cases hnode : answer node cache with
    | none => rw [hnode] at h; cases h
    | some pair =>
      obtain ⟨a, cache₁⟩ := pair
      rw [hnode] at h
      have hstep := hanswer node cache a cache₁ hvalid hnode
      obtain ⟨hvalid', hgrows, hnext⟩ := visit_valid hanswer (next a) hstep.valid h
      refine ⟨hvalid', hstep.grows.trans hgrows, ?_⟩
      rw [Reading.answered_read_some (hgrows node a hstep.holds)]
      exact hnext

/-- A value that has been computed from a valid cache may be put in it. -/
theorem Valid.update {cache : Cache A} (h : Valid compute cache) {node : N} {a : A node}
    (ha : (compute node).answered cache = some a) :
    Answers compute node cache (Function.update cache node (some a)) a := by
  have hgrows : cache.Grows (Function.update cache node (some a)) := by
    intro other b hb
    by_cases heq : other = node
    · subst heq
      rw [Function.update_self, ← ha]
      exact h.answered hb
    · rw [Function.update_of_ne heq]; exact hb
  refine ⟨⟨?_, ?_⟩, hgrows, Function.update_self node (some a) cache⟩
  · intro other b hb
    by_cases heq : other = node
    · subst heq
      rw [Function.update_self] at hb
      cases hb
      obtain ⟨depth, hdepth⟩ := h.exists_depth ha
      exact ⟨depth + 1, ((compute other).answered_congr ha hdepth).1⟩
    · rw [Function.update_of_ne heq] at hb
      exact h.fresh hb
  · intro other b hb
    by_cases heq : other = node
    · subst heq
      rw [Function.update_self] at hb
      cases hb
      exact (compute other).answered_mono ha hgrows
    · rw [Function.update_of_ne heq] at hb
      exact (compute other).answered_mono (h.answered hb) hgrows

theorem evaluate_valid (depth : Nat) {node : N} {cache cache' : Cache A} {a : A node} (hvalid : Valid compute cache)
    (h : evaluate compute depth node cache = some (a, cache')) : Answers compute node cache cache' a := by
  induction depth generalizing node cache cache' with
  | zero => cases h
  | succ depth ih =>
    rw [evaluate] at h
    cases hcached : cache node with
    | some b =>
      rw [hcached] at h
      cases h
      exact ⟨hvalid, fun _ _ => id, hcached⟩
    | none =>
      rw [hcached] at h
      cases hvisit : (compute node).visit (evaluate compute depth) cache with
      | none => rw [hvisit] at h; cases h
      | some pair =>
        obtain ⟨b, cache₁⟩ := pair
        rw [hvisit] at h
        cases h
        obtain ⟨hvalid', hgrows, hanswered⟩ :=
          visit_valid (fun m c b c' hc hm => ih hc hm) (compute node) hvalid hvisit
        have hput := hvalid'.update hanswered
        exact ⟨hput.valid, hgrows.trans hput.grows, hput.holds⟩

omit [DecidableEq N] in
theorem visit_complete {answer : ∀ node, Cache A → Option (A node × Cache A)}
    {known : ∀ node, Option (A node)}
    (hanswer : ∀ node cache a, Valid compute cache → known node = some a →
      ∃ cache', answer node cache = some (a, cache') ∧ Valid compute cache') {result : R} :
    ∀ (p : Reading A R) {cache : Cache A}, Valid compute cache → p.answered known = some result →
      ∃ cache', p.visit answer cache = some (result, cache')
  | .done _, cache, _, h => by
    cases h
    exact ⟨cache, rfl⟩
  | .read node next, cache, hvalid, h => by
    obtain ⟨a, ha, hnext⟩ := Reading.answered_read h
    obtain ⟨cache₁, hnode, hvalid₁⟩ := hanswer node cache a hvalid ha
    rw [Reading.visit, hnode]
    exact visit_complete hanswer (next a) hvalid₁ hnext

/-- The evaluation from a valid cache does not go deeper than the one afresh. -/
theorem evaluate_complete (depth : Nat) {node : N} {cache : Cache A} {a : A node} (hvalid : Valid compute cache)
    (h : fresh compute depth node = some a) :
    ∃ cache', evaluate compute depth node cache = some (a, cache') ∧ Valid compute cache' := by
  suffices hsome : ∃ cache', evaluate compute depth node cache = some (a, cache') by
    obtain ⟨cache', hcache'⟩ := hsome
    exact ⟨cache', hcache', (evaluate_valid depth hvalid hcache').valid⟩
  induction depth generalizing node cache with
  | zero => cases h
  | succ depth ih =>
    rw [evaluate]
    cases hcached : cache node with
    | some b =>
      obtain ⟨depth', hfresh⟩ := hvalid.fresh hcached
      obtain rfl := fresh_unique h hfresh
      exact ⟨cache, rfl⟩
    | none =>
      have hanswer : ∀ m cache b, Valid compute cache → fresh compute depth m = some b →
          ∃ cache', evaluate compute depth m cache = some (b, cache') ∧ Valid compute cache' := by
        intro m cache b hcache hb
        obtain ⟨cache', hcache'⟩ := ih hcache hb
        exact ⟨cache', hcache', (evaluate_valid depth hcache hcache').valid⟩
      obtain ⟨cache₁, hcache₁⟩ := visit_complete hanswer (compute node) hvalid h
      rw [hcache₁]
      exact ⟨_, rfl⟩

/-- From a valid cache, a computation has the results that it has from values computed afresh. -/
theorem visit_iff_yields {p : Reading A R} {cache : Cache A} (hvalid : Valid compute cache) {result : R} :
    (∃ depth cache', p.visit (evaluate compute depth) cache = some (result, cache')) ↔ Yields compute p result := by
  constructor
  · rintro ⟨depth, cache', h⟩
    obtain ⟨hvalid', -, hanswered⟩ :=
      visit_valid (fun m c b c' hc hm => evaluate_valid depth hc hm) p hvalid h
    obtain ⟨depth', hdepth'⟩ := hvalid'.exists_depth hanswered
    exact ⟨depth', (p.answered_congr hanswered hdepth').1⟩
  · rintro ⟨depth, h⟩
    obtain ⟨cache', h'⟩ := visit_complete (fun m c b hc hb => evaluate_complete depth hc hb) p hvalid h
    exact ⟨depth, cache', h'⟩

/-! ## Invalidation -/

/-- The cache less the nodes in `D`. -/
def Cache.clear (cache : Cache A) (D : N → Prop) [DecidablePred D] : Cache A :=
  fun node => if D node then none else cache node

omit [DecidableEq N]

theorem Cache.clear_eq_some {cache : Cache A} {D : N → Prop} [DecidablePred D] {node : N} {a : A node} :
    cache.clear D node = some a ↔ ¬ D node ∧ cache node = some a := by
  unfold clear
  split_ifs with h <;> simp [h]

/-- Two sets of answers that do not contradict each other lead along the same path. -/
theorem Reading.reads_eq {answer answer' : ∀ node, Option (A node)}
    (hagree : ∀ node a b, answer node = some a → answer' node = some b → a = b) {result result' : R} :
    ∀ (p : Reading A R), p.answered answer = some result → p.answered answer' = some result' →
      p.reads answer = p.reads answer'
  | .done _, _, _ => rfl
  | .read node next, h, h' => by
    obtain ⟨a, ha, hnext⟩ := answered_read h
    obtain ⟨b, hb, hnext'⟩ := answered_read h'
    obtain rfl := hagree node a b ha hb
    rw [reads_read_some ha, reads_read_some hb, reads_eq hagree (next a) hnext hnext']

/-- The rule of invalidation. What stays in the cache has read only what stays, and the computations that
stay have not changed, as long as the values are in `V`. -/
theorem Valid.restrict {cache cache' : Cache A} (h : Valid compute cache) (hpart : cache'.Grows cache)
    {V : ∀ node, A node → Prop} (hV : ∀ node a, cache node = some a → V node a) {S : N → N → Prop}
    (hagree : ∀ node a, cache' node = some a → (compute node).Agree V (S node) (compute' node))
    (hS : ∀ node a, cache' node = some a → ∀ m ∈ (compute node).reads cache, S node m → cache' m = cache m) :
    Valid compute' cache' := by
  have hsame : ∀ node a, cache' node = some a → ∀ answer : ∀ node, Option (A node),
      (∀ m ∈ (compute node).reads cache, answer m = cache m) → (compute' node).answered answer = some a := by
    intro node a ha answer hanswer
    obtain ⟨hresult, hpath⟩ := (compute node).answered_congr (h.answered (hpart node a ha)) hanswer
    refine ((hagree node a ha).answered hresult fun m hm b hb => ?_).1
    rw [hpath] at hm
    exact hV m b ((hanswer m hm).symm.trans hb)
  have hreads : ∀ node a, cache' node = some a → ∀ m ∈ (compute node).reads cache, cache' m = cache m := by
    intro node a ha m hm
    refine hS node a ha m hm (((hagree node a ha).answered (h.answered (hpart node a ha)) fun m hm b hb => ?_).2 m hm)
    exact hV m b hb
  have hfresh : ∀ depth node a, cache' node = some a → Lib.fresh compute depth node = some a →
      ∃ depth', Lib.fresh compute' depth' node = some a := by
    intro depth
    induction depth with
    | zero => exact fun _ _ _ hnone => nomatch hnone
    | succ depth ih =>
      intro node a ha hdepth
      have hanswered := h.answered (hpart node a ha)
      have hpath : (compute node).reads cache = (compute node).reads (Lib.fresh compute depth) :=
        (compute node).reads_eq (fun m b c hb hc => by
          obtain ⟨depth', hm⟩ := h.fresh hb
          exact fresh_unique hm hc) hanswered hdepth
      have hread : ∃ depth', ∀ m ∈ (compute node).reads cache, Lib.fresh compute' depth' m = cache m := by
        refine Lib.exists_depth fun m hm => ?_
        obtain ⟨b, hb⟩ := (compute node).answer_of_reads hanswered m hm
        obtain ⟨c, hc⟩ := (compute node).answer_of_reads hdepth m (hpath ▸ hm)
        obtain ⟨_, hbfresh⟩ := h.fresh hb
        obtain rfl := fresh_unique hbfresh hc
        obtain ⟨depth', hm'⟩ := ih m b ((hreads node a ha m hm).trans hb) hc
        exact ⟨depth', b, hb, hm'⟩
      obtain ⟨depth', hdepth'⟩ := hread
      exact ⟨depth' + 1, hsame node a ha _ hdepth'⟩
  refine ⟨fun {node a} ha => ?_, fun {node a} ha => ?_⟩
  · obtain ⟨depth, hdepth⟩ := h.fresh (hpart node a ha)
    exact hfresh depth node a ha hdepth
  · exact hsame node a ha _ (hreads node a ha)

end Refrigerator.Lib
