/-
The configuration of the build (`kconfiglib.py`): symbols and choices with their properties, as they are
after the files have been read, and the values that follow from what the user has set.

`S` are the symbols and `C` the choices. A value is computed from other values on demand, so each
property of the library is a computation that reads nodes, one node for each value that is cached. A
tristate value is a number from 0 to 2. The warnings are left out, and with them what is evaluated for
their texts only.
-/
import Refrigerator.Lib.Memo

namespace Refrigerator.Kconfiglib

open Lib

/-! ## Numbers of the language -/

/-- The value of a digit; letters go on from ten. -/
def digitValue (c : Char) : Option Nat :=
  if '0' ≤ c ∧ c ≤ '9' then some (c.toNat - '0'.toNat)
  else if 'a' ≤ c ∧ c ≤ 'z' then some (c.toNat - 'a'.toNat + 10)
  else if 'A' ≤ c ∧ c ≤ 'Z' then some (c.toNat - 'A'.toNat + 10)
  else none

/-- Digits with single underscores between them; `ready` tells whether the last character was a digit. -/
def readDigits (base : Nat) : Nat → Bool → List Char → Option Nat
  | value, ready, [] => if ready then some value else none
  | value, ready, c :: cs =>
    if c = '_' then if ready then readDigits base value false cs else none
    else
      match digitValue c with
      | none => none
      | some digit => if digit < base then readDigits base (value * base + digit) true cs else none

/-- The digits behind a prefix, where an underscore may stand first. -/
def readPrefixed (base : Nat) : List Char → Option Nat
  | '_' :: cs => readDigits base 0 false cs
  | cs => readDigits base 0 false cs

/-- A number without a sign. With base 0 its prefix gives the base, and a decimal one has no leading zeros. -/
def readNumber (base : Nat) (cs : List Char) : Option Nat :=
  match base, cs with
  | 16, '0' :: 'x' :: cs => readPrefixed 16 cs
  | 16, '0' :: 'X' :: cs => readPrefixed 16 cs
  | 0, '0' :: 'x' :: cs => readPrefixed 16 cs
  | 0, '0' :: 'X' :: cs => readPrefixed 16 cs
  | 0, '0' :: 'o' :: cs => readPrefixed 8 cs
  | 0, '0' :: 'O' :: cs => readPrefixed 8 cs
  | 0, '0' :: 'b' :: cs => readPrefixed 2 cs
  | 0, '0' :: 'B' :: cs => readPrefixed 2 cs
  | 0, '0' :: cs => (readDigits 10 0 true cs).filter (· = 0)
  | 0, cs => readDigits 10 0 false cs
  | base, cs => readDigits base 0 false cs

/-- The zeros of the decimal digits in Unicode outside ASCII; the other nine digits follow each of them. -/
def unicodeZeros : List Nat :=
  [0x660, 0x6f0, 0x7c0, 0x966, 0x9e6, 0xa66, 0xae6, 0xb66, 0xbe6, 0xc66, 0xce6, 0xd66, 0xde6, 0xe50, 0xed0, 0xf20,
   0x1040, 0x1090, 0x17e0, 0x1810, 0x1946, 0x19d0, 0x1a80, 0x1a90, 0x1b50, 0x1bb0, 0x1c40, 0x1c50, 0xa620, 0xa8d0,
   0xa900, 0xa9d0, 0xa9f0, 0xaa50, 0xabf0, 0xff10, 0x104a0, 0x10d30, 0x11066, 0x110f0, 0x11136, 0x111d0, 0x112f0,
   0x11450, 0x114d0, 0x11650, 0x116c0, 0x11730, 0x118e0, 0x11950, 0x11c50, 0x11d50, 0x11da0, 0x16a60, 0x16ac0,
   0x16b50, 0x1d7ce, 0x1d7d8, 0x1d7e2, 0x1d7ec, 0x1d7f6, 0x1e140, 0x1e2f0, 0x1e950, 0x1fbf0]

/-- The spaces in Unicode outside ASCII. -/
def unicodeSpace (n : Nat) : Bool :=
  n ∈ [0x85, 0xa0, 0x1680, 0x2028, 0x2029, 0x202f, 0x205f, 0x3000] || (0x2000 ≤ n && n ≤ 0x200a)

/-- What `int` reads a character as. -/
def toAscii (c : Char) : Char :=
  if c.toNat < 128 then c
  else if unicodeSpace c.toNat then ' '
  else
    match unicodeZeros.find? fun first => first ≤ c.toNat && c.toNat < first + 10 with
    | some first => Char.ofNat ('0'.toNat + (c.toNat - first))
    | none => c

/-- The spaces in ASCII, less those that separate information. -/
def isSpace (c : Char) : Bool := (9 ≤ c.toNat && c.toNat ≤ 13) || c = ' '

/-- `int(s, base)`; `none` for a `ValueError`. -/
def int (base : Nat) (s : String) : Option Int :=
  match (((s.toList.map toAscii).dropWhile isSpace).reverse.dropWhile isSpace).reverse with
  | '-' :: cs => (readNumber base cs).map fun n => -(n : Int)
  | '+' :: cs => (readNumber base cs).map Int.ofNat
  | cs => (readNumber base cs).map Int.ofNat

example : (int 16 " -0x1_f", int 10 "0x1", int 0 "010", int 0 "0b11") = (some (-31), none, none, some 3) := by decide

example : (int 10 "\u00a0\u0661\u0662", int 10 "\x1f1") = (some 12, none) := by decide

def hex (n : Int) : String := (if n < 0 then "-0x" else "0x") ++ String.ofList (Nat.toDigits 16 n.natAbs)

def isBaseN (s : String) (base : Nat) : Bool := (int base s).isSome

/-- `_strcmp`. -/
def strcmp (s1 s2 : String) : Int := if s1 > s2 then 1 else if s1 < s2 then -1 else 0

/-! ## Expressions -/

/-- `orig_type`. -/
inductive Kind
  | unknown
  | bool
  | tristate
  | string
  | int
  | hex
deriving DecidableEq, Repr

/-- The type is one of `_BOOL_TRISTATE`. -/
def Kind.logical (kind : Kind) : Bool := kind == .bool || kind == .tristate

/-- `_TYPE_TO_BASE`. -/
def Kind.base : Kind → Nat
  | .hex => 16
  | .int => 10
  | _ => 0

inductive Item (S C : Type)
  | sym (s : S)
  | choice (c : C)
deriving DecidableEq, Repr

inductive Relation
  | equal
  | unequal
  | less
  | lessEqual
  | greater
  | greaterEqual
deriving DecidableEq, Repr

/-- The relation holds for operands that compare so. -/
def Relation.holds (comp : Int) : Relation → Bool
  | .equal => comp = 0
  | .unequal => comp ≠ 0
  | .less => comp < 0
  | .lessEqual => comp ≤ 0
  | .greater => comp > 0
  | .greaterEqual => comp ≥ 0

inductive Expr (S C : Type)
  | item (item : Item S C)
  | and (left right : Expr S C)
  | or (left right : Expr S C)
  | not (operand : Expr S C)
  | relation (relation : Relation) (left right : S)
deriving DecidableEq, Repr

/-! ## The configuration -/

/-- A symbol; `prompts` are the conditions of its prompts, `preset` is the value of the constants n, m and
y, and `automatic` tells that it is never written (`env_var`, `defconfig_list`). -/
structure Symbol (S C : Type) where
  name : String
  origType : Kind := .unknown
  preset : Option Nat := none
  isConstant : Bool := false
  prompts : List (Expr S C) := []
  defaults : List (Expr S C × Expr S C) := []
  ranges : List (S × S × Expr S C) := []
  directDep : Expr S C
  revDep : Expr S C
  weakRevDep : Expr S C
  choice : Option C := none
  automatic : Bool := false

structure Choice (S C : Type) where
  origType : Kind
  prompts : List (Expr S C)
  syms : List S
  defaults : List (S × Expr S C) := []
  isOptional : Bool := false

structure Properties (S C : Type) where
  symbol : S → Symbol S C
  choice : C → Choice S C
  modules : S

/-- A user value: a tristate value for the logical types, a text for the others. -/
inductive Assigned
  | tri (value : Nat)
  | text (value : String)
deriving DecidableEq, Repr

def Assigned.tri? : Assigned → Option Nat
  | .tri value => some value
  | .text _ => none

def Assigned.text? : Assigned → Option String
  | .tri _ => none
  | .text value => some value

/-- What the user has set: values of symbols, modes of choices, and selections in choices. -/
structure Users (S C : Type) where
  value : S → Option Assigned := fun _ => none
  mode : C → Option Nat := fun _ => none
  selection : C → Option S := fun _ => none

/-! ## Nodes -/

/-- The values that are cached. -/
inductive Node (S C : Type)
  | visibility (item : Item S C)
  | triValue (s : S)
  | strValue (s : S)
  | selection (c : C)
  | assignable (item : Item S C)
deriving DecidableEq, Repr

/-- A value, and `_write_to_conf`, which is found with it. -/
structure Written (A : Type) where
  value : A
  writeToConf : Bool
deriving DecidableEq, Repr

abbrev Node.Value {S C : Type} : Node S C → Type
  | .visibility _ => Nat
  | .triValue _ => Written Nat
  | .strValue _ => Written String
  | .selection _ => Option S
  | .assignable _ => List Nat

abbrev Eval (S C : Type) (R : Type) := Reading (Node.Value (S := S) (C := C)) R

variable {S C : Type}

/-- `TRI_TO_STR`. -/
def triToStr : Nat → String
  | 0 => "n"
  | 1 => "m"
  | _ => "y"

/-- `Symbol.tri_value`, from the cache. -/
def tri (s : S) : Eval S C Nat := do pure (← Reading.value (Node.triValue s)).value

/-- `Symbol.str_value`, from the cache. -/
def str (s : S) : Eval S C String := do pure (← Reading.value (Node.strValue s)).value

def visible (item : Item S C) : Eval S C Nat := Reading.value (Node.visibility item)

namespace Properties

variable (kconfig : Properties S C) (users : Users S C)

/-! ## Types and modes -/

/-- `Choice.type`. -/
def choiceType (c : C) : Eval S C Kind :=
  if (kconfig.choice c).origType = .tristate then do
    pure (if (← tri kconfig.modules) = 0 then .bool else .tristate)
  else pure (kconfig.choice c).origType

/-- The mode of a choice as far as it is not limited by the visibility. -/
def requestedMode (c : C) : Nat :=
  let val := if (kconfig.choice c).isOptional then 0 else 1
  match users.mode c with
  | none => val
  | some value => max val value

/-- `Choice.tri_value`, which is not cached. -/
def mode (c : C) : Eval S C Nat := do
  let val := min (kconfig.requestedMode users c) (← visible (.choice c))
  if val = 1 then do
    pure (if (← kconfig.choiceType c) = .bool then 2 else val)
  else pure val

/-- Whether a symbol is in a choice in y mode. -/
def inYMode (choice : Option C) : Eval S C Bool :=
  match choice with
  | none => pure false
  | some c => do pure ((← kconfig.mode users c) = 2)

/-- `Symbol.type`. -/
def symbolType (s : S) : Eval S C Kind :=
  if (kconfig.symbol s).origType = .tristate then do
    if ← kconfig.inYMode users (kconfig.symbol s).choice then pure .bool
    else pure (if (← tri kconfig.modules) = 0 then .bool else .tristate)
  else pure (kconfig.symbol s).origType

/-! ## Values of expressions -/

/-- `_sym_to_num`; `none` for a `ValueError`. -/
def symToNum (s : S) : Eval S C (Option Int) :=
  if (kconfig.symbol s).origType.logical then do pure (some ((← tri s : Nat) : Int))
  else do pure (int (kconfig.symbol s).origType.base (← str s))

def compareStrings (left right : S) : Eval S C Int := do
  let s1 ← str left
  pure (strcmp s1 (← str right))

/-- The operands as numbers, if they are, and else as strings. -/
def compare (left right : S) : Eval S C Int :=
  if (kconfig.symbol left).origType = .string ∧ (kconfig.symbol right).origType = .string then
    compareStrings left right
  else do
    match ← kconfig.symToNum left with
    | none => compareStrings left right
    | some n1 =>
      match ← kconfig.symToNum right with
      | none => compareStrings left right
      | some n2 => pure (n1 - n2)

def itemValue : Item S C → Eval S C Nat
  | .sym s => tri s
  | .choice c => kconfig.mode users c

/-- `expr_value`. -/
def exprValue : Expr S C → Eval S C Nat
  | .item item => kconfig.itemValue users item
  | .and left right => do
    let v1 ← exprValue left
    if v1 = 0 then pure 0 else pure (min v1 (← exprValue right))
  | .or left right => do
    let v1 ← exprValue left
    if v1 = 2 then pure 2 else pure (max v1 (← exprValue right))
  | .not operand => do pure (2 - (← exprValue operand))
  | .relation relation left right => do
    let comp ← kconfig.compare left right
    pure (if relation.holds comp then 2 else 0)

/-! ## Visibility -/

def promptVisibility : List (Expr S C) → Nat → Eval S C Nat
  | [], vis => pure vis
  | cond :: prompts, vis => do promptVisibility prompts (max vis (← kconfig.exprValue users cond))

/-- An item that is not of type tristate is visible as y or not at all. -/
def promote (vis : Nat) (type : Eval S C Kind) : Eval S C Nat :=
  if vis = 1 then do pure (if (← type) = .tristate then vis else 2) else pure vis

/-- `_visibility`. -/
def visibility : Item S C → Eval S C Nat
  | .choice c => do
    promote (← kconfig.promptVisibility users (kconfig.choice c).prompts 0) (kconfig.choiceType c)
  | .sym s => do
    let vis ← kconfig.promptVisibility users (kconfig.symbol s).prompts 0
    match (kconfig.symbol s).choice with
    | none => promote vis (kconfig.symbolType users s)
    | some c =>
      if (kconfig.choice c).origType = .tristate ∧ (kconfig.symbol s).origType ≠ .tristate then do
        -- other symbols in a tristate choice are visible in y mode only
        if (← kconfig.mode users c) ≠ 2 then pure 0 else promote vis (kconfig.symbolType users s)
      else if (kconfig.symbol s).origType = .tristate ∧ vis = 1 then do
        -- m visibility does not count in y mode
        if (← kconfig.mode users c) = 2 then pure 0 else promote vis (kconfig.symbolType users s)
      else promote vis (kconfig.symbolType users s)

/-! ## Tristate values -/

/-- The first default whose condition is met. -/
def defaultValue : List (Expr S C × Expr S C) → Eval S C Nat
  | [] => pure 0
  | (default, cond) :: defaults => do
    let depVal ← kconfig.exprValue users cond
    if depVal ≠ 0 then pure (min (← kconfig.exprValue users default) depVal) else defaultValue defaults

/-- The value of a symbol from its defaults and the symbols that imply it. -/
def impliedValue (symbol : Symbol S C) (write : Bool) : Eval S C (Written Nat) := do
  let val ← kconfig.defaultValue users symbol.defaults
  let write := write || val != 0
  let depVal ← kconfig.exprValue users symbol.weakRevDep
  if depVal = 0 then pure ⟨val, write⟩
  else if (← kconfig.exprValue users symbol.directDep) = 0 then pure ⟨val, write⟩
  else pure ⟨max depVal val, true⟩

/-- What the symbols that select a symbol make of its value. -/
def selectedValue (symbol : Symbol S C) (current : Written Nat) : Eval S C (Written Nat) := do
  let depVal ← kconfig.exprValue users symbol.revDep
  if depVal = 0 then pure current
  else do
    -- compared for a warning
    let _ ← kconfig.exprValue users symbol.directDep
    pure ⟨max depVal current.value, true⟩

/-- A value m becomes y for a bool symbol and for one that is implied with y. -/
def promotedValue (s : S) (current : Written Nat) : Eval S C (Written Nat) :=
  if current.value = 1 then do
    if (← kconfig.symbolType users s) = .bool then pure { current with value := 2 }
    else if (← kconfig.exprValue users (kconfig.symbol s).weakRevDep) = 2 then pure { current with value := 2 }
    else pure current
  else pure current

/-- The value of a symbol from the user, if it is visible, or from its defaults. -/
def startValue (s : S) (vis : Nat) : Eval S C (Written Nat) :=
  match (users.value s).bind Assigned.tri? with
  | none => kconfig.impliedValue users (kconfig.symbol s) (vis != 0)
  | some value =>
    if vis = 0 then kconfig.impliedValue users (kconfig.symbol s) false else pure ⟨min value vis, true⟩

/-- `Symbol.tri_value` of a symbol that is in no choice. -/
def plainValue (s : S) (vis : Nat) : Eval S C (Written Nat) := do
  let start ← kconfig.startValue users s vis
  let current ← kconfig.selectedValue users (kconfig.symbol s) start
  kconfig.promotedValue users s current

/-- `Symbol.tri_value` of a symbol in a choice. -/
def chosenValue [DecidableEq S] (s : S) (c : C) (vis : Nat) : Eval S C (Written Nat) :=
  if vis = 2 then do
    pure ⟨if (← Reading.value (Node.selection c)) = some s then 2 else 0, true⟩
  else
    let picked := ((users.value s).bind Assigned.tri?).any (· != 0)
    pure ⟨if vis ≠ 0 ∧ picked = true then 1 else 0, vis != 0⟩

/-- `Symbol.tri_value`. -/
def triValue [DecidableEq S] (s : S) : Eval S C (Written Nat) :=
  match (kconfig.symbol s).preset with
  | some value => pure ⟨value, false⟩
  | none =>
    if !(kconfig.symbol s).origType.logical then pure ⟨0, false⟩
    else do
      let vis ← visible (.sym s)
      match (kconfig.symbol s).choice with
      | none => kconfig.plainValue users s vis
      | some c => chosenValue users s c vis

/-! ## String values -/

/-- The first range whose condition is met; a bound that is no number counts as zero. -/
def activeRange (base : Nat) : List (S × S × Expr S C) → Eval S C (Option (Int × Int))
  | [] => pure none
  | (low, high, cond) :: ranges => do
    if (← kconfig.exprValue users cond) ≠ 0 then do
      let low := (int base (← str low)).getD 0
      let high := (int base (← str high)).getD 0
      pure (some (low, high))
    else activeRange base ranges

/-- The string of a default, which is a symbol: others are refused when the files are read. -/
def defaultString : Expr S C → Eval S C String
  | .item (.sym s) => str s
  | _ => pure ""

/-- The string of the first default whose condition is met. -/
def stringDefault : List (Expr S C × Expr S C) → Eval S C (Option String)
  | [] => pure none
  | (default, cond) :: defaults => do
    if (← kconfig.exprValue users cond) ≠ 0 then do pure (some (← defaultString default))
    else stringDefault defaults

/-- The nearest number in the range, if `n` is not in it. -/
def clamp (range : Option (Int × Int)) (n : Int) : Option Int :=
  match range with
  | none => none
  | some (low, high) => if n < low then some low else if n > high then some high else none

/-- The user value of a number, if it is used: it is visible, not empty and in the range. -/
def usedNumber (base : Nat) (vis : Nat) (range : Option (Int × Int)) (user : Option String) : Option String :=
  match user with
  | none => none
  | some text =>
    if vis = 0 ∨ text = "" then none
    else
      match range, int base text with
      | some (low, high), some n => if low ≤ n ∧ n ≤ high then some text else none
      | _, _ => some text

/-- A default of a number, moved into the range; without one there is an empty string. -/
def clampedString (kind : Kind) (range : Option (Int × Int)) (write : Bool) (default : Option String) :
    Written String :=
  match clamp range ((int kind.base (default.getD "")).getD 0) with
  | none => ⟨default.getD "", write || default.isSome⟩
  | some n => ⟨if kind = .int then toString n else hex n, write || default.isSome⟩

/-- `Symbol.str_value` of the types int and hex. -/
def numberString (s : S) (kind : Kind) (vis : Nat) : Eval S C (Written String) := do
  let range ← kconfig.activeRange users kind.base (kconfig.symbol s).ranges
  match usedNumber kind.base vis range ((users.value s).bind Assigned.text?) with
  | some text => pure ⟨text, vis != 0⟩
  | none => do
    let default ← kconfig.stringDefault users (kconfig.symbol s).defaults
    pure (clampedString kind range (vis != 0) default)

def defaultedString (symbol : Symbol S C) (vis : Nat) : Eval S C (Written String) := do
  let default ← kconfig.stringDefault users symbol.defaults
  pure ⟨default.getD "", vis != 0 || default.isSome⟩

/-- `Symbol.str_value` of the type string. -/
def textString (s : S) (vis : Nat) : Eval S C (Written String) :=
  match (users.value s).bind Assigned.text? with
  | none => kconfig.defaultedString users (kconfig.symbol s) vis
  | some text => if vis = 0 then kconfig.defaultedString users (kconfig.symbol s) vis else pure ⟨text, true⟩

/-- An automatic symbol is not written. -/
def unlessAutomatic (symbol : Symbol S C) (current : Written String) : Written String :=
  if symbol.automatic then { current with writeToConf := false } else current

/-- `Symbol.str_value`. -/
def strValue (s : S) : Eval S C (Written String) :=
  match (kconfig.symbol s).origType with
  | .unknown => pure ⟨(kconfig.symbol s).name, false⟩
  | .string => do
    let vis ← visible (.sym s)
    pure (unlessAutomatic (kconfig.symbol s) (← kconfig.textString users s vis))
  | .int => do
    let vis ← visible (.sym s)
    pure (unlessAutomatic (kconfig.symbol s) (← kconfig.numberString users s .int vis))
  | .hex => do
    let vis ← visible (.sym s)
    pure (unlessAutomatic (kconfig.symbol s) (← kconfig.numberString users s .hex vis))
  | _ => do
    let val ← Reading.value (Node.triValue s)
    pure ⟨triToStr val.value, val.writeToConf⟩

/-! ## Selections -/

def firstVisible : List S → Eval S C (Option S)
  | [] => pure none
  | s :: syms => do
    if (← visible (.sym s)) ≠ 0 then pure (some s) else firstVisible syms

/-- `_selection_from_defaults`. -/
def selectionFromDefaults (syms : List S) : List (S × Expr S C) → Eval S C (Option S)
  | [] => firstVisible syms
  | (s, cond) :: defaults => do
    if (← kconfig.exprValue users cond) = 0 then selectionFromDefaults syms defaults
    else if (← visible (.sym s)) = 0 then selectionFromDefaults syms defaults
    else pure (some s)

/-- `Choice.selection`. -/
def selection (c : C) : Eval S C (Option S) := do
  let defaulted := kconfig.selectionFromDefaults users (kconfig.choice c).syms (kconfig.choice c).defaults
  if (← kconfig.mode users c) ≠ 2 then pure none
  else
    match users.selection c with
    | none => defaulted
    | some s => do
      if (← visible (.sym s)) ≠ 0 then pure (some s) else defaulted

/-! ## Assignable values -/

/-- The type of the symbol is bool, or it is implied with y. -/
def onlyYes (s : S) : Eval S C Bool := do
  if (← kconfig.symbolType users s) = .bool then pure true
  else pure ((← kconfig.exprValue users (kconfig.symbol s).weakRevDep) = 2)

/-- `Choice._assignable`. -/
def assignableModes (c : C) : Eval S C (List Nat) := do
  let vis ← visible (.choice c)
  if vis = 0 then pure []
  else if vis = 2 then do
    let type ← kconfig.choiceType c
    pure (if (kconfig.choice c).isOptional then if type = .bool then [0, 2] else [0, 1, 2]
      else if type = .bool then [2] else [1, 2])
  else pure (if (kconfig.choice c).isOptional then [0, 1] else [1])

/-- `Symbol._assignable`. -/
def assignableValues (s : S) : Eval S C (List Nat) :=
  if !(kconfig.symbol s).origType.logical then pure []
  else do
    let vis ← visible (.sym s)
    if vis = 0 then pure []
    else do
      let revDepVal ← kconfig.exprValue users (kconfig.symbol s).revDep
      if vis = 2 then
        if (kconfig.symbol s).choice.isSome then pure [2]
        else if revDepVal = 0 then do pure (if ← kconfig.onlyYes users s then [0, 2] else [0, 1, 2])
        else if revDepVal = 2 then pure [2]
        else do pure (if ← kconfig.onlyYes users s then [2] else [1, 2])
      else if revDepVal = 0 then do
        pure (if (← kconfig.exprValue users (kconfig.symbol s).weakRevDep) ≠ 2 then [0, 1] else [0, 2])
      else if revDepVal = 2 then pure [2]
      else pure [1]

/-! ## All values -/

variable [DecidableEq S]

/-- How a value is computed from others. -/
def compute : ∀ node : Node S C, Eval S C node.Value
  | .visibility item => kconfig.visibility users item
  | .triValue s => kconfig.triValue users s
  | .strValue s => kconfig.strValue users s
  | .selection c => kconfig.selection users c
  | .assignable (.sym s) => kconfig.assignableValues users s
  | .assignable (.choice c) => kconfig.assignableModes c

end Properties

end Refrigerator.Kconfiglib
