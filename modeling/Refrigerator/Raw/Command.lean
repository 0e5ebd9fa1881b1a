/-
The command "refrigerator report" of a client (`handle_client_command_` of `features/report.cxx`) on raw
pointers, and when the handlers of the features come to their end.

Two pointers are used without a test: the second argument of the command and `clientPrintf`. All other
uses are guarded, in the handlers of this feature and of the butchering one.
-/
import Refrigerator.Lib.Decimal
import Refrigerator.Raw.Butchering
import Refrigerator.Raw.Report

namespace Refrigerator.Raw

open Lib Report Bindings

/-! ## The report -/

def formatVector (vector : Vector Binary32) : String :=
  vector.x.print ++ " " ++ vector.y.print ++ " " ++ vector.z.print

/-- A line for the console of a client. -/
structure Print (P : Type) where
  client : P
  text : String
deriving DecidableEq, Repr

variable {P : Type} (engine : Engine P)

def time : Checked (Option Binary32) :=
  if !engine.functions.time.isNone then do
    let value ← call engine.functions.time
    pure (some value)
  else if !engine.globals.isNone then do
    let globals ← engine.dereference
    pure (some globals.time)
  else pure none

/-- `class_`, empty where the engine has no name. -/
def className (classname : Int) : Checked String :=
  if engine.functions.szFromIndex.isNone then pure ""
  else do
    let szFromIndex ← call engine.functions.szFromIndex
    viewOrEmpty (szFromIndex classname)

variable [DecidableEq P] [Zero P] (memory : Report.Memory P Binary32) (client : P)

def reportText : Checked String := do
  let heading := match ← time engine with
    | none => ""
    | some time => "time: " ++ time.print ++ "\n"
  let text := heading ++ "position: " ++ formatVector (memory client).origin ++ "\n"
  match ← traceTarget engine memory client with
  | none => pure text
  | some target =>
    let v ← dereference memory target.entity
    let name ← className engine v.classname
    let title := if name = "" then "<unknown> at " else name ++ " @ "
    pure (text ++ "target: " ++ title ++ formatVector target.position ++ "\n")

/-- What is printed, if anything. -/
def handleClientCommand : Checked (Option (Print P)) :=
  if engine.functions.cmdArgc.isNone then pure none
  else if engine.functions.cmdArgv.isNone then pure none
  else do
    let argc ← call engine.functions.cmdArgc
    if 2 < argc then pure none
    else do
      let cmdArgv ← call engine.functions.cmdArgv
      let pointer := cmdArgv 0
      if pointer.isNone then pure none
      else do
        let name ← view pointer
        if "refrigerator" ≠ name then pure none
        else do
          -- this argument is not tested
          let name ← view (cmdArgv 1)
          if "report" ≠ name then pure none
          else do
            -- the arguments of `clientPrintf` are made before it is called, without a test either
            let text ← reportText engine memory client
            let _ ← call engine.functions.clientPrintf
            pure (some { client, text })

/-! ## Faults -/

omit [DecidableEq P] [Zero P] in
theorem time_safe : Safe (time engine) := by
  unfold time Engine.dereference
  cases engine.functions.time with
  | some value => exact safe_ok _
  | none =>
    cases engine.globals with
    | none => exact safe_ok _
    | some globals => exact safe_ok _

omit [DecidableEq P] [Zero P] in
theorem className_safe (classname : Int) : Safe (className engine classname) := by
  unfold className
  cases engine.functions.szFromIndex with
  | none => exact safe_ok _
  | some szFromIndex => exact ⟨_, viewOrEmpty_ok _⟩

theorem reportText_safe : Safe (reportText engine memory client) := by
  obtain ⟨value, hvalue⟩ := time_safe engine
  unfold reportText
  rw [hvalue, ok_bind, traceTarget_ok, ok_bind]
  cases htarget : Report.traceTarget engine.toReport memory client with
  | none => exact safe_ok _
  | some target =>
    obtain ⟨name, hname⟩ := className_safe engine (memory target.entity).classname
    dsimp only
    rw [dereference_ok (traceTarget_nonnull engine memory client htarget), ok_bind, hname, ok_bind]
    exact safe_ok _

/-- The command has at most two arguments behind it and names the plugin. -/
def Addressed (cmdArgv : Int → Option String) : Prop :=
  ∃ argc, engine.functions.cmdArgc = some argc ∧ engine.functions.cmdArgv = some cmdArgv ∧ argc ≤ 2 ∧
    cmdArgv 0 = some "refrigerator"

/-- The command comes to a pointer that is used without a test, and it is null. -/
def CommandFaults : Prop :=
  ∃ cmdArgv, Addressed engine cmdArgv ∧
    (cmdArgv 1 = none ∨ (cmdArgv 1 = some "report" ∧ engine.functions.clientPrintf = none))

variable {engine memory client}

theorem handleClientCommand_addressed {cmdArgv : Int → Option String} (h : Addressed engine cmdArgv) :
    handleClientCommand engine memory client = (do
      let name ← view (cmdArgv 1)
      if "report" ≠ name then pure none
      else do
        let text ← reportText engine memory client
        let _ ← call engine.functions.clientPrintf
        pure (some { client, text })) := by
  obtain ⟨argc, hargc, hargv, hle, hname⟩ := h
  unfold handleClientCommand
  rw [hargc, hargv, ite_isNone_some, ite_isNone_some, call_some, ok_bind, if_neg (by omega), call_some, ok_bind, hname]
  rfl

theorem handleClientCommand_ignored (h : ∀ cmdArgv, ¬ Addressed engine cmdArgv) :
    handleClientCommand engine memory client = .ok none := by
  unfold handleClientCommand
  cases hargc : engine.functions.cmdArgc with
  | none => rfl
  | some argc =>
    cases hargv : engine.functions.cmdArgv with
    | none => rfl
    | some cmdArgv =>
      rw [ite_isNone_some, ite_isNone_some, call_some, ok_bind]
      split_ifs with hlt
      · rfl
      · rw [call_some, ok_bind]
        cases hname : cmdArgv 0 with
        | none => rfl
        | some name =>
          have hne : "refrigerator" ≠ name := by
            rintro rfl
            exact h cmdArgv ⟨argc, hargc, hargv, by omega, hname⟩
          dsimp only
          rw [ite_isNone_some, view_some, ok_bind, if_pos hne]
          rfl

variable (engine memory client)

theorem handleClientCommand_safe_iff :
    Safe (handleClientCommand engine memory client) ↔ ¬ CommandFaults engine := by
  by_cases h : ∃ cmdArgv, Addressed engine cmdArgv
  · obtain ⟨cmdArgv, haddressed⟩ := h
    -- the table holds one `cmd_Argv`
    have hunique {other : Int → Option String} (hother : Addressed engine other) : other = cmdArgv := by
      obtain ⟨-, -, hargv, -⟩ := haddressed
      obtain ⟨-, -, hargv', -⟩ := hother
      rw [hargv] at hargv'; exact (Option.some.inj hargv').symm
    rw [handleClientCommand_addressed haddressed]
    cases hname : cmdArgv 1 with
    | none =>
      refine iff_of_false (not_safe_error _) (not_not.2 ⟨cmdArgv, haddressed, Or.inl hname⟩)
    | some name =>
      rw [view_some, ok_bind]
      by_cases hreport : "report" = name
      · obtain ⟨text, htext⟩ := reportText_safe engine memory client
        rw [if_neg (not_not.2 hreport), htext, ok_bind]
        cases hprint : engine.functions.clientPrintf with
        | none =>
          exact iff_of_false (not_safe_error _)
            (not_not.2 ⟨cmdArgv, haddressed, Or.inr ⟨by rw [hname, hreport], hprint⟩⟩)
        | some print =>
          refine iff_of_true (safe_ok _) ?_
          rintro ⟨other, hother, hnull | ⟨-, hnull⟩⟩
          · rw [hunique hother, hname] at hnull; cases hnull
          · rw [hprint] at hnull; cases hnull
      · rw [if_pos hreport]
        refine iff_of_true (safe_ok _) ?_
        rintro ⟨other, hother, hnull | ⟨hother', -⟩⟩
        · rw [hunique hother, hname] at hnull; cases hnull
        · rw [hunique hother, hname] at hother'
          exact hreport (Option.some.inj hother').symm
  · rw [handleClientCommand_ignored fun cmdArgv haddressed => h ⟨cmdArgv, haddressed⟩]
    refine iff_of_true (safe_ok _) ?_
    rintro ⟨cmdArgv, haddressed, -⟩
    exact h ⟨cmdArgv, haddressed⟩

/-- The handlers come to their end with every table, globals and results but for the two pointers that
the command does not test. -/
theorem handlers_safe_iff {P : Type} [LinearOrder P] [Zero P] (engine : Engine P)
    (world : Report.Memory P Binary32) (client : P) (memory : Refrigerator.Memory P)
    (context : Butchering.Context P) (entities : List P) (entity : P) :
    (Safe (handleClientCommand engine world client) ∧ Safe (traceTarget engine world client) ∧
      Safe (onEnter engine memory context entities) ∧ Safe (onThink engine memory context entity) ∧
      Safe (onFrame engine memory context)) ↔ ¬ CommandFaults engine := by
  rw [← handleClientCommand_safe_iff engine world client]
  constructor
  · rintro ⟨hcommand, -⟩; exact hcommand
  · intro hcommand
    exact ⟨hcommand, ⟨_, traceTarget_ok engine world client⟩, ⟨_, onEnter_ok engine memory context entities⟩,
      ⟨_, onThink_ok engine memory context entity⟩, ⟨_, onFrame_ok engine memory context⟩⟩

/-- The command "refrigerator" alone, from an engine that has no second argument for it. -/
def bareCommand : Engine Nat where
  functions := { cmdArgc := some 1, cmdArgv := some fun i => if i = 0 then some "refrigerator" else none,
                 clientPrintf := some () }

theorem bareCommand_faults (world : Report.Memory Nat Binary32) (client : Nat) :
    handleClientCommand bareCommand world client = .error .string := by
  have haddressed : Addressed bareCommand fun i => if i = 0 then some "refrigerator" else none :=
    ⟨1, rfl, rfl, by decide, rfl⟩
  rw [handleClientCommand_addressed haddressed]
  rfl

theorem handlers_not_safe : ¬ ∀ (engine : Engine Nat) (world : Report.Memory Nat Binary32) (client : Nat),
    Safe (handleClientCommand engine world client) := by
  intro h
  let vector : Vector Binary32 := ⟨.zero, .zero, .zero⟩
  have hsafe := h bareCommand
    (fun _ => { origin := vector, viewOfs := vector, vAngle := vector, model := 0, modelindex := 0 }) 1
  rw [bareCommand_faults] at hsafe
  exact not_safe_error _ hsafe

end Refrigerator.Raw
