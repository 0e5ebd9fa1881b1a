/-
The report of an exception (`exception.hxx`): `generate_details` makes a generator that goes through a
chain of nested exceptions and yields their details line by line, a chunk of text for each call.

`X` are the exceptions behind `std::exception_ptr`, of which `none` is the null one, and `Y` is what the
functions of the library may throw; the generator catches it and ends. How a text is trimmed is left open.

A state between two calls either is about to read an exception, with no value in the cell, or has
yielded one already and owes the newline before the next (`resume_newline`). The pointer stands at the
next exception in both, so the newline is only yielded when there is one.
-/
import Mathlib.Data.List.DropRight
import Refrigerator.Lib.Machine

namespace Refrigerator.Exception

open Lib

/-! ## The generator -/

/-- `utils::exception`: the details of an exception, and the one nested in it; and
`boost::algorithm::trim`. -/
structure Library (X Y : Type*) where
  details : X → Except Y String
  next : X → Except Y (Option X)
  trim : String → String

/-- `State_`. -/
structure State (X : Type*) where
  value : Option String := none
  buffer : String := ""
  pointer : Option X

variable {X Y : Type*} (library : Library X Y)

def generateDetails (pointer : Option X) : State X := { pointer }

/-- The chunk for some details. -/
def Library.normalise (details : String) : String :=
  if library.trim details = "" then "Unknown exception." else library.trim details

/-- A call of the generator: the chunk it yields, or `none` for a null pointer. -/
def resume (state : State X) : State X × Option String :=
  match state.pointer with
  | none => (state, none)
  | some pointer =>
    match state.value with
    | some _ => ({ state with value := none }, some "\n")
    | none =>
      match library.details pointer with
      | .error _ => ({ state with pointer := none }, none)
      | .ok buffer =>
        match library.next pointer with
        | .error _ => ({ state with buffer, pointer := none }, none)
        | .ok next =>
          let buffer := library.trim buffer
          let value := if buffer = "" then "Unknown exception." else buffer
          ({ value := some value, buffer, pointer := next }, some value)

def generator : Machine (State X) Unit (Option String) :=
  ⟨fun state _ => ((resume library state).1, [(resume library state).2])⟩

/-- What a number of calls yields. -/
def yields (state : State X) (calls : Nat) : List (Option String) :=
  (generator library).emitted state (List.replicate calls ())

theorem yields_succ (state : State X) (calls : Nat) : yields library state (calls + 1) =
    (resume library state).2 :: yields library (resume library state).1 calls := rfl

/-! ## Chains -/

/-- The exceptions nested in one another from a pointer on, by their details. -/
inductive Chain : Option X → List String → Prop
  | nil : Chain none []
  | cons {exception : X} {details : String} {next : Option X} {rest : List String}
      (hdetails : library.details exception = .ok details) (hnext : library.next exception = .ok next)
      (hrest : Chain next rest) : Chain (some exception) (details :: rest)

variable {library}

theorem resume_newline {state : State X} {exception : X} {value : String} (hp : state.pointer = some exception)
    (hv : state.value = some value) : resume library state = ({ state with value := none }, some "\n") := by
  unfold resume
  rw [hp, hv]

theorem resume_details {state : State X} {exception : X} {details : String} {next : Option X}
    (hp : state.pointer = some exception) (hv : state.value = none)
    (hdetails : library.details exception = .ok details) (hnext : library.next exception = .ok next) :
    resume library state =
      ({ value := some (library.normalise details), buffer := library.trim details, pointer := next },
        some (library.normalise details)) := by
  unfold resume
  rw [hp, hv]
  dsimp only
  rw [hdetails]
  dsimp only
  rw [hnext]
  rfl

/-- At the end of the chain every further call yields a null pointer. -/
theorem yields_end {state : State X} (hp : state.pointer = none) (calls : Nat) :
    yields library state calls = List.replicate calls none := by
  have hresume : resume library state = (state, none) := by
    unfold resume; rw [hp]
  induction calls with
  | zero => rfl
  | succ calls ih => rw [yields_succ, hresume, ih, List.replicate_succ]

/-- The chunks of a chain: a line for each exception, newlines between them. -/
def Library.chunks (library : Library X Y) (chain : List String) : List String :=
  (chain.map library.normalise).intersperse "\n"

theorem chunks_cons (details : String) (rest : List String) :
    library.chunks (details :: rest) =
      library.normalise details :: rest.flatMap fun other => ["\n", library.normalise other] := by
  unfold Library.chunks
  induction rest generalizing details with
  | nil => rfl
  | cons other rest ih =>
    rw [List.map_cons, List.map_cons, List.intersperse_cons_cons, ← List.map_cons, ih other]
    rfl

/-- A state that has yielded an exception owes the rest of the chain, each part after a newline. -/
theorem yields_owing {pointer : Option X} {rest : List String} (h : Chain library pointer rest) {state : State X}
    {value : String} (hp : state.pointer = pointer) (hv : state.value = some value) (calls : Nat) :
    yields library state (2 * rest.length + calls) =
      (rest.flatMap fun other => ["\n", library.normalise other]).map some ++ List.replicate calls none := by
  induction h generalizing state value with
  | nil => simpa using yields_end hp calls
  | @cons exception details next rest hdetails hnext hrest ih =>
    have hcalls : 2 * (details :: rest).length + calls = (2 * rest.length + calls) + 1 + 1 := by
      rw [List.length_cons]; omega
    have hline : resume library { state with value := none } = _ := resume_details hp rfl hdetails hnext
    rw [hcalls, yields_succ, yields_succ, resume_newline hp hv]
    dsimp only
    rw [hline, ih rfl rfl]
    rfl

/-- From its start the generator yields the chunks of the chain and then null pointers. -/
theorem yields_chain {pointer : Option X} {chain : List String} (h : Chain library pointer chain) (calls : Nat) :
    yields library (generateDetails pointer) (2 * chain.length - 1 + calls) =
      (library.chunks chain).map some ++ List.replicate calls none := by
  cases h with
  | nil =>
    rw [List.length_nil, Nat.mul_zero, Nat.zero_sub, Nat.zero_add]
    exact yields_end rfl calls
  | @cons exception details next rest hdetails hnext hrest =>
    have hcalls : 2 * (details :: rest).length - 1 + calls = (2 * rest.length + calls) + 1 := by
      rw [List.length_cons]; omega
    rw [hcalls, yields_succ, resume_details rfl rfl hdetails hnext, yields_owing hrest rfl rfl, chunks_cons]
    rfl

/-! ## The text -/

theorem chunks_cons_cons (details other : String) (rest : List String) :
    library.chunks (details :: other :: rest) =
      library.normalise details :: "\n" :: library.chunks (other :: rest) := rfl

theorem length_chunks : ∀ chain : List String, (library.chunks chain).length = 2 * chain.length - 1
  | [] => rfl
  | [_] => rfl
  | details :: other :: rest => by
    have ih := length_chunks (other :: rest)
    rw [chunks_cons_cons]
    simp only [List.length_cons] at ih ⊢
    omega

/-- The chunks at the even places are the lines. -/
theorem getElem?_chunks_even : ∀ (chain : List String) (i : Nat),
    (library.chunks chain)[2 * i]? = chain[i]?.map library.normalise
  | [], _ => rfl
  | [_], 0 => rfl
  | [_], _ + 1 => rfl
  | _ :: _ :: _, 0 => rfl
  | _ :: other :: rest, i + 1 => by
    have ih := getElem?_chunks_even (other :: rest) i
    rw [chunks_cons_cons, Nat.mul_succ, List.getElem?_cons_succ, List.getElem?_cons_succ, ih,
      List.getElem?_cons_succ]

/-- The chunks at the odd places are newlines. -/
theorem getElem?_chunks_odd : ∀ (chain : List String) (i : Nat), i + 1 < chain.length →
    (library.chunks chain)[2 * i + 1]? = some "\n"
  | [], _, h => absurd h (by simp)
  | [_], _, h => absurd h (by simp)
  | _ :: _ :: _, 0, _ => rfl
  | _ :: other :: rest, i + 1, h => by
    have ih := getElem?_chunks_odd (other :: rest) i (Nat.lt_of_succ_lt_succ h)
    rw [chunks_cons_cons, Nat.mul_succ, List.getElem?_cons_succ, List.getElem?_cons_succ, ih]

theorem join_chunks : ∀ chain : List String,
    String.join (library.chunks chain) = "\n".intercalate (chain.map library.normalise)
  | [] => rfl
  | [details] => by simp [Library.chunks]
  | details :: other :: rest => by
    have ih := join_chunks (other :: rest)
    rw [chunks_cons_cons, String.join_cons, String.join_cons, ih]
    simp only [List.map_cons]
    rw [String.intercalate_cons_cons, String.append_assoc]

/-! ## The report -/

/-- The generator of a chain of `n` exceptions yields `2 * n - 1` chunks, the lines with newlines between
them, and then null pointers; together they are the lines joined, and nothing for a null pointer. -/
theorem generateDetails_chain {pointer : Option X} {chain : List String} (h : Chain library pointer chain) :
    (library.chunks chain).length = 2 * chain.length - 1 ∧
    (∀ calls, yields library (generateDetails pointer) ((library.chunks chain).length + calls) =
      (library.chunks chain).map some ++ List.replicate calls none) ∧
    (∀ i, (library.chunks chain)[2 * i]? = chain[i]?.map library.normalise) ∧
    (∀ i, i + 1 < chain.length → (library.chunks chain)[2 * i + 1]? = some "\n") ∧
    String.join (library.chunks chain) = "\n".intercalate (chain.map library.normalise) := by
  refine ⟨length_chunks chain, fun calls => ?_, getElem?_chunks_even chain, getElem?_chunks_odd chain,
    join_chunks chain⟩
  rw [length_chunks]
  exact yields_chain h calls

/-- White space in the classic locale. -/
def isSpace (c : Char) : Bool := c = ' ' || (9 ≤ c.toNat && c.toNat ≤ 13)

/-- An exception with another one nested in it that has no details, trimmed in the classic locale. -/
def nestedLibrary : Library Nat Empty where
  details exception := .ok (if exception = 0 then " out of range\n" else "")
  next exception := .ok (if exception = 0 then some 1 else none)
  trim text := String.ofList ((text.toList.dropWhile isSpace).rdropWhile isSpace)

theorem generateDetails_chain_nested : yields nestedLibrary (generateDetails (some 0)) 5 =
    [some "out of range", some "\n", some "Unknown exception.", none, none] := by
  have hchain : Chain nestedLibrary (some 0) [" out of range\n", ""] := .cons rfl rfl (.cons rfl rfl .nil)
  have hyields := (generateDetails_chain hchain).2.1 2
  have hchunks : nestedLibrary.chunks [" out of range\n", ""] = ["out of range", "\n", "Unknown exception."] := by
    decide
  rw [hchunks] at hyields
  exact hyields

end Refrigerator.Exception
