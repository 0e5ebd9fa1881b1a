/-
Feeds of membership events: each event lists elements that enter a set or that exit it.

`replay` is the set a subscriber ends up with, `mentions e` what the feed says about one element,
in order. An element is in the replayed set exactly when it was mentioned last by an enter
(`mem_replay_iff`). A feed is alternating when every element enters first and then exits and
enters in turn; one more event keeps it so exactly when it lists no element twice, enters only
elements that are out and exits only elements that are in (`alternating_snoc`).
-/
import Mathlib.Data.Finset.Basic
import Mathlib.Data.Finset.Dedup
import Mathlib.Data.List.Chain

namespace Refrigerator.Lib

/-- A membership event: the elements of `list` enter when `state` holds and exit otherwise. -/
structure Event (α : Type*) where
  list : List α
  state : Bool
deriving DecidableEq, Repr

variable {α : Type*} [DecidableEq α]

/-! ## Replay -/

/-- The set after one event. -/
def Event.apply (members : Finset α) (event : Event α) : Finset α :=
  if event.state then members ∪ event.list.toFinset else members \ event.list.toFinset

/-- The set obtained from the empty one by all events of a feed. -/
def replay (feed : List (Event α)) : Finset α := feed.foldl Event.apply ∅

@[simp] theorem replay_nil : replay ([] : List (Event α)) = ∅ := rfl

theorem replay_append (feed more : List (Event α)) :
    replay (feed ++ more) = more.foldl Event.apply (replay feed) := List.foldl_append

theorem replay_snoc (feed : List (Event α)) (event : Event α) :
    replay (feed ++ [event]) = event.apply (replay feed) := replay_append feed [event]

theorem mem_apply {members : Finset α} {event : Event α} {e : α} :
    e ∈ event.apply members ↔ (e ∈ event.list ∧ event.state = true) ∨ (e ∉ event.list ∧ e ∈ members) := by
  unfold Event.apply
  split
  · rename_i h; simp only [Finset.mem_union, List.mem_toFinset, h, and_true]; tauto
  · rename_i h; simp only [Finset.mem_sdiff, List.mem_toFinset, h]; tauto

/-- Exits only take elements out. -/
theorem replay_exits {feed events : List (Event α)} (h : ∀ event ∈ events, event.state = false) {e : α} :
    e ∈ replay (feed ++ events) ↔ e ∈ replay feed ∧ ∀ event ∈ events, e ∉ event.list := by
  induction events using List.reverseRecOn with
  | nil => simp
  | append_singleton events event ih =>
    rw [← List.append_assoc, replay_snoc, mem_apply, ih fun ev hev => h ev (List.mem_append_left _ hev),
      List.forall_mem_append, List.forall_mem_singleton, h event (by simp)]
    tauto

/-! ## Mentions -/

/-- What a feed says about `e`, in order: `true` for an enter, `false` for an exit, once for each
time an event lists it. -/
def mentions (e : α) (feed : List (Event α)) : List Bool :=
  feed.flatMap fun event => List.replicate (event.list.count e) event.state

theorem mentions_append (e : α) (feed more : List (Event α)) :
    mentions e (feed ++ more) = mentions e feed ++ mentions e more := List.flatMap_append

theorem mentions_snoc (e : α) (feed : List (Event α)) (event : Event α) :
    mentions e (feed ++ [event]) = mentions e feed ++ List.replicate (event.list.count e) event.state := by
  rw [mentions_append]; simp [mentions]

/-- An element is in the replayed set exactly when its last mention is an enter. -/
theorem mem_replay_iff (e : α) (feed : List (Event α)) :
    e ∈ replay feed ↔ (mentions e feed).getLast? = some true := by
  induction feed using List.reverseRecOn with
  | nil => simp [mentions]
  | append_singleton feed event ih =>
    rw [replay_snoc, mem_apply, mentions_snoc, ih]
    by_cases he : e ∈ event.list
    · obtain ⟨n, hn⟩ := Nat.exists_eq_succ_of_ne_zero (List.count_pos_iff.2 he).ne'
      rw [hn, List.replicate_succ', ← List.append_assoc, List.getLast?_append]
      simp [he]
    · simp [he, List.count_eq_zero_of_not_mem he]

/-! ## Alternation -/

/-- A list of mentions starts with an enter and never repeats one or an exit. -/
structure Alternates (l : List Bool) : Prop where
  starts : l.head? ≠ some false
  chain : l.IsChain (· ≠ ·)

theorem alternates_nil : Alternates [] := ⟨by simp, .nil⟩

theorem Alternates.left {l m : List Bool} (h : Alternates (l ++ m)) : Alternates l := by
  refine ⟨fun hl => h.starts ?_, (List.isChain_append.1 h.chain).1⟩
  rw [List.head?_append, hl]; rfl

theorem alternates_snoc {l : List Bool} {b : Bool} :
    Alternates (l ++ [b]) ↔ Alternates l ∧ (b = true ↔ l.getLast? ≠ some true) := by
  cases hl : l.getLast? with
  | none =>
    obtain rfl := List.getLast?_eq_none_iff.1 hl
    simp only [List.nil_append, alternates_nil, true_and]
    constructor
    · intro h; simpa using h.starts
    · intro h; exact ⟨by simpa using h, List.isChain_singleton b⟩
  | some x =>
    have hne : l ≠ [] := by rintro rfl; cases hl
    have hhead : (l ++ [b]).head? = l.head? := by cases l with | nil => exact absurd rfl hne | cons => rfl
    have hb : x ≠ b ↔ (b = true ↔ some x ≠ some true) := by cases x <;> cases b <;> simp
    constructor
    · intro h
      have hc := (List.isChain_append.1 h.chain).2.2 x (by simp [hl]) b (by simp)
      exact ⟨h.left, hb.1 hc⟩
    · rintro ⟨h, hx⟩
      refine ⟨hhead ▸ h.starts, List.isChain_append.2 ⟨h.chain, List.isChain_singleton b, ?_⟩⟩
      intro y hy z hz
      rw [hl] at hy; cases hy; cases hz
      exact hb.2 hx

theorem not_alternates_twice {l : List Bool} {b : Bool} {n : Nat} (hn : 2 ≤ n) :
    ¬ Alternates (l ++ List.replicate n b) := by
  obtain ⟨k, rfl⟩ : ∃ k, n = k + 2 := ⟨n - 2, by omega⟩
  intro h
  have hc := (List.isChain_append.1 h.chain).2.1
  rw [List.replicate_succ, List.replicate_succ, List.isChain_cons_cons] at hc
  exact hc.1 rfl

/-- Every element enters first, and then exits and enters in turn. -/
def Alternating (feed : List (Event α)) : Prop := ∀ e, Alternates (mentions e feed)

theorem alternating_nil : Alternating ([] : List (Event α)) := fun _ => alternates_nil

theorem Alternating.left {feed more : List (Event α)} (h : Alternating (feed ++ more)) : Alternating feed :=
  fun e => (mentions_append e feed more ▸ h e).left

/-- One more event keeps a feed alternating exactly when it lists no element twice, enters only
elements that are out and exits only elements that are in. -/
theorem alternating_snoc {feed : List (Event α)} {event : Event α} :
    Alternating (feed ++ [event]) ↔
      Alternating feed ∧ event.list.Nodup ∧ ∀ e ∈ event.list, (event.state = true ↔ e ∉ replay feed) := by
  constructor
  · intro h
    have hcount : ∀ e, event.list.count e ≤ 1 := by
      intro e
      by_contra hc
      exact not_alternates_twice (by omega) (mentions_snoc e feed event ▸ h e)
    refine ⟨h.left, List.nodup_iff_count_le_one.2 hcount, fun e he => ?_⟩
    have h1 : event.list.count e = 1 := by
      have := List.count_pos_iff.2 he; have := hcount e; omega
    have := h e
    rw [mentions_snoc, h1, List.replicate_one, alternates_snoc] at this
    rw [mem_replay_iff]; exact this.2
  · rintro ⟨h, hnd, hev⟩ e
    rw [mentions_snoc]
    by_cases he : e ∈ event.list
    · rw [List.count_eq_one_of_mem hnd he, List.replicate_one, alternates_snoc]
      exact ⟨h e, by rw [hev e he, mem_replay_iff]⟩
    · rw [List.count_eq_zero_of_not_mem he]; simpa using h e

/-- No event of an alternating feed lists an element twice. -/
theorem Alternating.nodup {feed : List (Event α)} (h : Alternating feed) : ∀ event ∈ feed, event.list.Nodup := by
  intro event he
  obtain ⟨before, after, rfl⟩ := List.append_of_mem he
  have h' : Alternating ((before ++ [event]) ++ after) := by simpa using h
  exact (alternating_snoc.1 h'.left).2.1

end Refrigerator.Lib
