/-
What `target_handler` makes of the answers of its subscribers.

Filtering and injection reduce an event to the list of its replies, a hook result with an optional
value each; thrown exceptions only add error records (`foldl_actionHandler`). The reported result is
the greatest reply. The returned value is the last one supplied up to the first greatest reply, or
else the first one after it (`result_of_split`): a value that lost stays in the temporary cell and
is taken over by the next reply that raises the result.
-/
import Refrigerator.Bindings.Basic
import Refrigerator.Lib.FirstMax

namespace Refrigerator.Bindings

open Lib Metamod

variable {P X V : Type} {Output : Target → Type}

/-! ## Replies -/

/-- The `Meta` an action answers with; a `void` or bare-value action counts as handled. -/
def Answer.given {phase : Phase} : Answer X phase V → Option (Meta phase)
  | .throws _ => none
  | .void => some .handled
  | .value _ => some .handled
  | .alone answered => some answered
  | .result answered _ => some answered

/-- The value an action supplies. -/
def Answer.supplied {phase : Phase} : Answer X phase V → Option V
  | .value output => some output
  | .result _ output => some output
  | _ => none

def Answer.thrown {phase : Phase} : Answer X phase V → Option X
  | .throws exception => some exception
  | _ => none

/-- The reply of an action that did not throw. -/
def Answer.reply {phase : Phase} (answer : Answer X phase V) : Option (HookResult × Option V) :=
  answer.given.map fun result => (transform result, answer.supplied)

/-- The hook result of the same name. -/
def Meta.hookResult : {phase : Phase} → Meta phase → HookResult
  | .before, (MetaBefore.ignored : MetaBefore) => .ignored
  | .before, (MetaBefore.handled : MetaBefore) => .handled
  | .before, (MetaBefore.override : MetaBefore) => .override
  | .before, (MetaBefore.supercede : MetaBefore) => .supercede
  | .after, (MetaAfter.ignored : MetaAfter) => .ignored
  | .after, (MetaAfter.handled : MetaAfter) => .handled
  | .after, (MetaAfter.override : MetaAfter) => .override

theorem transform_eq {phase : Phase} (result : Meta phase) : transform result = result.hookResult := by
  cases phase <;> cases result <;> rfl

/-- The hook result a subscriber answers an event with, unless it is filtered out or throws. -/
def Subscriber.answered (subscriber : Subscriber X Output) (key : Target) (phase : Phase) : Option HookResult :=
  (subscriber.matching key phase).bind fun action => action.given.map Meta.hookResult

def replies (subscribers : List (Subscriber X Output)) (key : Target) (phase : Phase) :
    List (HookResult × Option (Output key)) :=
  subscribers.filterMap fun subscriber => (subscriber.matching key phase).bind Answer.reply

def exceptions (subscribers : List (Subscriber X Output)) (key : Target) (phase : Phase) : List X :=
  subscribers.filterMap fun subscriber => (subscriber.matching key phase).bind Answer.thrown

theorem unset_lt_transform {phase : Phase} (result : Meta phase) : .unset < transform result := by
  cases phase <;> cases result <;> decide

theorem hookResult_after_ne_supercede (result : Meta .after) : result.hookResult ≠ .supercede := by
  cases result <;> decide

/-! ## Absorbing replies -/

/-- The response to one reply, its value put into the temporary cell before. -/
def absorb (state : State X V) (reply : HookResult × Option V) : State X V :=
  response { state with temporary := reply.2.or state.temporary } (.inr reply.1)

theorem absorb_le {state : State X V} {reply : HookResult × Option V} (h : reply.1 ≤ state.merged) :
    absorb state reply = if (reply.2.or state.temporary).isSome && !state.result.isSome then
        { state with result := reply.2.or state.temporary, temporary := none }
      else { state with temporary := reply.2.or state.temporary } := by
  exact if_pos h

theorem absorb_lt {state : State X V} {reply : HookResult × Option V} (h : state.merged < reply.1) :
    absorb state reply =
      { state with
        merged := reply.1
        result := (reply.2.or state.temporary).or state.result
        temporary := none } := by
  have hresp : absorb state reply = if (reply.2.or state.temporary).isSome then
      { state with merged := reply.1, result := reply.2.or state.temporary, temporary := none }
    else { state with merged := reply.1, temporary := reply.2.or state.temporary } := if_neg (not_le.2 h)
  rw [hresp]
  cases reply.2.or state.temporary <;> rfl

theorem absorb_merged (state : State X V) (reply : HookResult × Option V) :
    (absorb state reply).merged = max state.merged reply.1 := by
  rcases le_or_gt reply.1 state.merged with h | h
  · rw [absorb_le h, max_eq_left h]; split <;> rfl
  · rw [absorb_lt h, max_eq_right h.le]

theorem absorb_log (state : State X V) (reply : HookResult × Option V) : (absorb state reply).log = state.log := by
  rcases le_or_gt reply.1 state.merged with h | h
  · rw [absorb_le h]; split <;> rfl
  · rw [absorb_lt h]

theorem absorb_set_log (state : State X V) (log : List X) (reply : HookResult × Option V) :
    absorb { state with log := log } reply = { absorb state reply with log := log } := by
  rcases le_or_gt reply.1 state.merged with h | h
  · rw [absorb_le h, absorb_le (show reply.1 ≤ ({ state with log := log } : State X V).merged from h)]
    split <;> rfl
  · rw [absorb_lt h, absorb_lt (show ({ state with log := log } : State X V).merged < reply.1 from h)]

theorem respond_throws {phase : Phase} (exception : X) (state : State X V) :
    respond (.throws exception : Answer X phase V) state = { state with log := state.log ++ [exception] } := rfl

/-- An action that does not throw has its reply absorbed: no `Meta` transforms to unset. -/
theorem respond_reply {phase : Phase} {answer : Answer X phase V} {reply : HookResult × Option V}
    (h : answer.reply = some reply) (state : State X V) : respond answer state = absorb state reply := by
  cases answer with
  | throws exception => cases h
  | void => obtain rfl := Option.some.inj h; exact if_pos (unset_lt_transform _)
  | value output => obtain rfl := Option.some.inj h; exact if_pos (unset_lt_transform _)
  | alone answered => obtain rfl := Option.some.inj h; exact if_pos (unset_lt_transform _)
  | result answered output => obtain rfl := Option.some.inj h; exact if_pos (unset_lt_transform _)

theorem foldl_absorb_set_log (l : List (HookResult × Option V)) (state : State X V) (log : List X) :
    l.foldl absorb { state with log := log } = { l.foldl absorb state with log := log } := by
  induction l generalizing state with
  | nil => rfl
  | cons reply l ih => rw [List.foldl_cons, absorb_set_log, ih, List.foldl_cons]

theorem Answer.throws_or_reply {phase : Phase} (answer : Answer X phase V) :
    (∃ exception, answer = .throws exception) ∨ ∃ reply, answer.reply = some reply ∧ answer.thrown = none := by
  cases answer with
  | throws exception => exact Or.inl ⟨exception, rfl⟩
  | void => exact Or.inr ⟨_, rfl, rfl⟩
  | value output => exact Or.inr ⟨_, rfl, rfl⟩
  | alone answered => exact Or.inr ⟨_, rfl, rfl⟩
  | result answered output => exact Or.inr ⟨_, rfl, rfl⟩

/-- The subscribers of an event: its replies are absorbed in order, exceptions add error records. -/
theorem foldl_actionHandler (key : Target) (phase : Phase) (subscribers : List (Subscriber X Output))
    (state : State X (Output key)) :
    subscribers.foldl (actionHandler key phase) state =
      { (replies subscribers key phase).foldl absorb state with
        log := state.log ++ exceptions subscribers key phase } := by
  induction subscribers generalizing state with
  | nil => simp [replies, exceptions]
  | cons subscriber subscribers ih =>
    rw [List.foldl_cons, ih]
    cases hm : subscriber.matching key phase with
    | none => simp [actionHandler, replies, exceptions, hm]
    | some action =>
      rcases action.throws_or_reply with ⟨exception, rfl⟩ | ⟨reply, hr, ht⟩
      · have hhandler : actionHandler key phase state subscriber =
            { state with log := state.log ++ [exception] } := by
          simp only [actionHandler, hm, respond_throws]
        have hnone : (Answer.throws exception : Answer X phase (Output key)).reply = none := rfl
        have hthrown : (Answer.throws exception : Answer X phase (Output key)).thrown = some exception := rfl
        rw [hhandler, foldl_absorb_set_log]
        simp [replies, exceptions, hm, hnone, hthrown]
      · simp [actionHandler, replies, exceptions, hm, hr, ht, respond_reply hr, absorb_log]

/-! ## The reported result -/

theorem foldl_absorb_merged (l : List (HookResult × Option V)) (state : State X V) :
    (l.foldl absorb state).merged = (l.map Prod.fst).foldl max state.merged := by
  induction l generalizing state with
  | nil => rfl
  | cons reply l ih => rw [List.foldl_cons, ih, absorb_merged]; rfl

theorem mem_replies_iff {subscribers : List (Subscriber X Output)} {key : Target} {phase : Phase} {r : HookResult} :
    r ∈ (replies subscribers key phase).map Prod.fst ↔
      ∃ subscriber ∈ subscribers, subscriber.answered key phase = some r := by
  simp only [replies, List.mem_map, List.mem_filterMap, Option.bind_eq_some_iff, Subscriber.answered,
    Answer.reply, Option.map_eq_some_iff]
  constructor
  · rintro ⟨reply, ⟨subscriber, hs, action, hm, answer, hg, rfl⟩, rfl⟩
    exact ⟨subscriber, hs, action, hm, answer, hg, (transform_eq answer).symm⟩
  · rintro ⟨subscriber, hs, action, hm, answer, hg, rfl⟩
    exact ⟨_, ⟨subscriber, hs, action, hm, answer, hg, rfl⟩, transform_eq answer⟩

/-- The reported result of an event. -/
def reported (subscribers : List (Subscriber X Output)) (key : Target) (phase : Phase) : HookResult :=
  ((replies subscribers key phase).map Prod.fst).foldl max .ignored

theorem targetHandler_globals (subscribers : List (Subscriber X Output)) (key : Target) (phase : Phase)
    (globals : Option (Globals P)) : (targetHandler subscribers key phase globals).globals =
      globals.map fun globals => { globals with current := reported subscribers key phase } := by
  unfold targetHandler
  rw [foldl_actionHandler]
  show globals.map _ = _
  rw [foldl_absorb_merged]; rfl

theorem isGreatest_reported (subscribers : List (Subscriber X Output)) (key : Target) (phase : Phase) :
    IsGreatest {r | r = .ignored ∨ ∃ subscriber ∈ subscribers, subscriber.answered key phase = some r}
      (reported subscribers key phase) := by
  have h := isGreatest_foldl_max HookResult.ignored ((replies subscribers key phase).map Prod.fst)
  simp only [mem_replies_iff] at h
  exact h

theorem reported_perm {subscribers subscribers' : List (Subscriber X Output)} (h : subscribers'.Perm subscribers)
    (key : Target) (phase : Phase) : reported subscribers' key phase = reported subscribers key phase := by
  have hgreatest := isGreatest_reported subscribers' key phase
  simp only [h.mem_iff] at hgreatest
  exact hgreatest.unique (isGreatest_reported subscribers key phase)

theorem reported_after_ne (subscribers : List (Subscriber X Output)) (key : Target) :
    reported subscribers key .after ≠ .supercede := by
  rcases (isGreatest_reported subscribers key .after).1 with h | ⟨subscriber, -, h⟩
  · rw [h]; decide
  · obtain ⟨action, -, h⟩ := Option.bind_eq_some_iff.1 h
    obtain ⟨answer, -, h⟩ := Option.map_eq_some_iff.1 h
    rw [← h]; exact hookResult_after_ne_supercede answer

/-- The reported result is the greatest of `Ignored` and the answers of the matching actions that
did not throw; the order of the subscribers is irrelevant, and an `After` event never supersedes. -/
theorem current_greatest (subscribers : List (Subscriber X Output)) (key : Target) (phase : Phase)
    (globals : Globals P) :
    ∃ left, (targetHandler subscribers key phase (some globals)).globals = some left ∧
      IsGreatest {r | r = .ignored ∨ ∃ subscriber ∈ subscribers, subscriber.answered key phase = some r}
        left.current ∧
      (∀ subscribers' : List (Subscriber X Output), subscribers'.Perm subscribers →
        (targetHandler subscribers' key phase (some globals)).globals = some left) ∧
      (phase = .after → left.current ≠ .supercede) := by
  refine ⟨{ globals with current := reported subscribers key phase }, targetHandler_globals .., ?_, ?_, ?_⟩
  · exact isGreatest_reported subscribers key phase
  · intro subscribers' hperm
    rw [targetHandler_globals, reported_perm hperm]; rfl
  · rintro rfl; exact reported_after_ne subscribers key

/-! ## The returned value -/

/-- The values of the replies that carry one, each with its hook result. -/
def supplied (l : List (HookResult × Option V)) : List (HookResult × V) :=
  l.filterMap fun reply => reply.2.map (reply.1, ·)

/-- The value of the earliest among the greatest replies that carry one. -/
def strongest (l : List (HookResult × Option V)) : Option V := ((supplied l).argmax Prod.fst).map Prod.snd

def lastSupplied (l : List (HookResult × Option V)) : Option V := (supplied l).getLast?.map Prod.snd

def firstSupplied (l : List (HookResult × Option V)) : Option V := (supplied l).head?.map Prod.snd

theorem supplied_append (l l' : List (HookResult × Option V)) : supplied (l ++ l') = supplied l ++ supplied l' :=
  List.filterMap_append

theorem mem_supplied {l : List (HookResult × Option V)} {r : HookResult} {v : V} :
    (r, v) ∈ supplied l ↔ (r, some v) ∈ l := by
  simp [supplied]

theorem lastSupplied_snoc (l : List (HookResult × Option V)) (reply : HookResult × Option V) :
    lastSupplied (l ++ [reply]) = reply.2.or (lastSupplied l) := by
  obtain ⟨r, o⟩ := reply
  cases o <;> simp [lastSupplied, supplied]

theorem firstSupplied_cons (l : List (HookResult × Option V)) (reply : HookResult × Option V) :
    firstSupplied (reply :: l) = reply.2.or (firstSupplied l) := by
  obtain ⟨r, o⟩ := reply
  cases o <;> simp [firstSupplied, supplied]

/-- The two value cells hold the last value supplied, and the result cell is filled first. -/
theorem foldl_absorb_cells (l : List (HookResult × Option V)) :
    (l.foldl absorb ({} : State X V)).temporary.or (l.foldl absorb ({} : State X V)).result = lastSupplied l ∧
      ((l.foldl absorb ({} : State X V)).result = none → (l.foldl absorb ({} : State X V)).temporary = none) := by
  induction l using List.reverseRecOn with
  | nil => exact ⟨rfl, fun _ => rfl⟩
  | append_singleton l reply ih =>
    rw [List.foldl_concat, lastSupplied_snoc, ← ih.1, ← Option.or_assoc]
    generalize l.foldl absorb ({} : State X V) = state
    rcases le_or_gt reply.1 state.merged with h | h
    · rw [absorb_le h]
      cases hr : state.result <;> cases reply.2.or state.temporary <;> simp
    · rw [absorb_lt h]
      exact ⟨rfl, fun _ => rfl⟩

/-- Once no greater reply follows, only an empty result cell is still filled. -/
theorem foldl_absorb_settled {l : List (HookResult × Option V)} {state : State X V}
    (hle : ∀ reply ∈ l, reply.1 ≤ state.merged) (hcells : state.result = none → state.temporary = none) :
    (l.foldl absorb state).result = state.result.or (firstSupplied l) := by
  induction l generalizing state with
  | nil => simp [firstSupplied, supplied]
  | cons reply l ih =>
    obtain ⟨hreply, hl⟩ := List.forall_mem_cons.1 hle
    rw [List.foldl_cons, firstSupplied_cons]
    have hmerged : (absorb state reply).merged = state.merged := by rw [absorb_merged, max_eq_left hreply]
    cases hr : state.result with
    | some v =>
      have hv : (absorb state reply).result = some v := by rw [absorb_le hreply]; simp [hr]
      rw [ih (hmerged ▸ hl) (by simp [hv]), hv]; rfl
    | none =>
      -- both cells are empty, so the first value supplied from here on is taken
      have ht : state.temporary = none := hcells hr
      have ho : (absorb state reply).result = reply.2 ∧ (absorb state reply).temporary = none := by
        rw [absorb_le hreply, ht]
        cases reply.2 <;> simp [hr]
      rw [ih (hmerged ▸ hl) fun _ => ho.2, ho.1]; rfl

/-- Replies smaller than the next one leave a smaller result, unless there were none. -/
theorem foldl_absorb_lt {before after : List (HookResult × Option V)} {m : HookResult} {o : Option V}
    (hmax : IsFirstMax Prod.fst before (m, o) after) (hmin : ∀ reply ∈ before, .ignored ≤ reply.1)
    (hm : .ignored ≤ m) :
    (before.foldl absorb ({} : State X V)).merged < m ∨ before = [] ∧ m = .ignored := by
  have hmem := (isGreatest_foldl_max HookResult.ignored (before.map Prod.fst)).1
  rw [foldl_absorb_merged]
  rcases hmem with hmem | hmem
  · -- still at the initial result
    rcases hm.lt_or_eq with hlt | rfl
    · left; exact hmem.symm ▸ hlt
    · right
      refine ⟨List.eq_nil_iff_forall_not_mem.2 fun reply hr => ?_, rfl⟩
      exact absurd (hmax.before_lt reply hr) (not_lt.2 (hmin reply hr))
  · left
    obtain ⟨reply, hr, heq⟩ := List.mem_map.1 hmem
    exact heq ▸ hmax.before_lt reply hr

/-- At the first greatest reply both cells are emptied into the result. -/
theorem absorb_first {before after : List (HookResult × Option V)} {m : HookResult} {o : Option V}
    (hmax : IsFirstMax Prod.fst before (m, o) after) (hmin : ∀ reply ∈ before, .ignored ≤ reply.1)
    (hm : .ignored ≤ m) :
    absorb (before.foldl absorb ({} : State X V)) (m, o) =
      { merged := m
        result := o.or (lastSupplied before)
        temporary := none
        log := (before.foldl absorb ({} : State X V)).log } := by
  rcases foldl_absorb_lt (X := X) hmax hmin hm with hlt | ⟨rfl, rfl⟩
  · rw [absorb_lt hlt, ← (foldl_absorb_cells (X := X) before).1, Option.or_assoc]
  · rw [absorb_le le_rfl]
    cases o <;> rfl

/-- The returned value: the one of the first greatest reply, or else the last value supplied before
it, or else the first one after it. -/
theorem result_of_split {before after : List (HookResult × Option V)} {m : HookResult} {o : Option V}
    (hmax : IsFirstMax Prod.fst before (m, o) after)
    (hmin : ∀ reply ∈ before ++ (m, o) :: after, .ignored ≤ reply.1) :
    ((before ++ (m, o) :: after).foldl absorb ({} : State X V)).result =
      (o.or (lastSupplied before)).or (firstSupplied after) := by
  have hbefore : ∀ reply ∈ before, .ignored ≤ reply.1 := fun reply hr => hmin reply (List.mem_append_left _ hr)
  have hm : .ignored ≤ m := hmin (m, o) (by simp)
  rw [List.foldl_append, List.foldl_cons, absorb_first hmax hbefore hm,
    foldl_absorb_settled (fun reply hr => hmax.after_le reply hr) fun _ => rfl]

/-- A first greatest reply with a value supplies the strongest value. -/
theorem strongest_of_split {before after : List (HookResult × Option V)} {m : HookResult} {v : V}
    (hmax : IsFirstMax Prod.fst before (m, some v) after) :
    strongest (before ++ (m, some v) :: after) = some v := by
  have hsplit : supplied (before ++ (m, some v) :: after) = supplied before ++ (m, v) :: supplied after := by
    rw [supplied_append]; rfl
  have hsupplied : IsFirstMax Prod.fst (supplied before) (m, v) (supplied after) :=
    ⟨fun s hs => hmax.before_lt _ (mem_supplied.1 hs), fun s hs => hmax.after_le _ (mem_supplied.1 hs)⟩
  rw [strongest, hsplit, hsupplied.argmax_eq]; rfl

theorem ignored_le_of_mem_replies {subscribers : List (Subscriber X Output)} {key : Target} {phase : Phase} :
    ∀ reply ∈ replies subscribers key phase, .ignored ≤ reply.1 := by
  intro reply hr
  obtain ⟨subscriber, -, h⟩ := List.mem_filterMap.1 hr
  obtain ⟨action, -, h⟩ := Option.bind_eq_some_iff.1 h
  obtain ⟨answer, -, rfl⟩ := Option.map_eq_some_iff.1 h
  exact HookResult.ignored_le_iff.2 (unset_lt_transform answer)

theorem targetHandler_result (subscribers : List (Subscriber X Output)) (key : Target) (phase : Phase)
    (globals : Option (Globals P)) : (targetHandler subscribers key phase globals).result =
      ((replies subscribers key phase).foldl absorb ({} : State X (Output key))).result := by
  unfold targetHandler
  rw [foldl_actionHandler]

theorem strongest_eq_none_iff {l : List (HookResult × Option V)} : strongest l = none ↔ supplied l = [] := by
  rw [strongest, Option.map_eq_none_iff, List.argmax_eq_none]

theorem strongest_split_eq_none_iff {before after : List (HookResult × Option V)} {m : HookResult} :
    strongest (before ++ (m, none) :: after) = none ↔ (lastSupplied before).or (firstSupplied after) = none := by
  have hskip : supplied ((m, none) :: after) = supplied after := rfl
  rw [strongest_eq_none_iff, supplied_append, hskip, List.append_eq_nil_iff, Option.or_eq_none_iff,
    lastSupplied, firstSupplied, Option.map_eq_none_iff, Option.map_eq_none_iff, List.getLast?_eq_none_iff,
    List.head?_eq_none_iff]

/-- When the first greatest reply has no value, the last value supplied before it (or, without any,
the first one after it) is that of the strongest supplier. -/
def Decisive (l : List (HookResult × Option V)) : Prop :=
  ∀ before m after, l = before ++ (m, none) :: after → IsFirstMax Prod.fst before (m, none) after →
    ∀ v, (lastSupplied before).or (firstSupplied after) = some v → strongest l = some v

theorem result_eq_strongest {l : List (HookResult × Option V)} (hmin : ∀ reply ∈ l, .ignored ≤ reply.1)
    (h : Decisive l) : (l.foldl absorb ({} : State X V)).result = strongest l := by
  cases hmax : l.argmax Prod.fst with
  | none => rw [List.argmax_eq_none.1 hmax]; rfl
  | some reply =>
    obtain ⟨m, o⟩ := reply
    obtain ⟨before, after, rfl, hfirst⟩ := exists_isFirstMax hmax
    rw [result_of_split hfirst hmin]
    cases o with
    | some v => rw [strongest_of_split hfirst]; rfl
    | none =>
      rw [Option.none_or]
      cases hv : (lastSupplied before).or (firstSupplied after) with
      | some v => exact (h before m after rfl hfirst v hv).symm
      | none => exact (strongest_split_eq_none_iff.2 hv).symm

/-- The returned value is the one of the strongest supplier exactly for decisive replies. -/
theorem value_iff (subscribers : List (Subscriber X Output)) (key : Target) [Inhabited (Output key)]
    (phase : Phase) (globals : Option (Globals P)) :
    (targetHandler subscribers key phase globals).value =
        (strongest (replies subscribers key phase)).getD default ↔
      Decisive (replies subscribers key phase) := by
  have hmin : ∀ reply ∈ replies subscribers key phase, .ignored ≤ reply.1 := ignored_le_of_mem_replies
  unfold Dispatched.value
  rw [targetHandler_result]
  generalize replies subscribers key phase = l at hmin ⊢
  constructor
  · rintro h before m after rfl hfirst v hv
    rw [result_of_split hfirst hmin, Option.none_or, hv] at h
    cases hs : strongest (before ++ (m, none) :: after) with
    | none => rw [strongest_split_eq_none_iff.1 hs] at hv; cases hv
    | some w => rw [hs] at h; exact congrArg some h.symm
  · exact fun h => by rw [result_eq_strongest hmin h]

/-- A value that lost to an earlier one is returned when a stronger action supplies none. -/
theorem value_broken :
    let subscribers : List (Subscriber Empty fun _ => ℤ) :=
      [⟨.spawn, .before, .result MetaBefore.override 1⟩, ⟨.spawn, .before, .value 2⟩,
        ⟨.spawn, .before, .alone MetaBefore.supercede⟩]
    (targetHandler (P := ℕ) subscribers .spawn .before none).value = (2 : ℤ) ∧
      (strongest (replies subscribers .spawn .before)).getD default = (1 : ℤ) := by
  decide

end Refrigerator.Bindings
