/-
The position that `trace_target_` returns belongs to the call of `traceModel` that made its entity the
answer, and the segment ends where that call ended it, unless a rejected hit has moved the end point.

The two are compared with a scan that differs from the loop in one place: a rejected hit leaves the cells
alone. Both scans trace the same candidates and go the same way up to the first rejected hit that does
not end at the end of its segment; from there on the loop has a wrong end point.
-/
import Mathlib.Tactic.MkIffOfInductiveProp
import Refrigerator.Report.Scan

namespace Refrigerator.Report

open Lib

variable {P F : Type*} [DecidableEq P] [Zero P] [Scalar F]

/-! ## The answer so far -/

/-- The last call that made a candidate the answer. -/
def lastAccepted (probes : List (Probe P F)) : Option (Probe P F) :=
  probes.reverse.find? fun probe => probe.verdict = .accepted

/-- Where the segment ends after the calls, if it ended at `stop` before them. -/
def segmentEnd (stop : Vector F) (probes : List (Probe P F)) : Vector F :=
  ((lastAccepted probes).map fun probe => probe.trace.vecEndPos).getD stop

/-- The payload of the trace that made its entity the answer: the last accepted one of the models, or
the one of the line. -/
def answer (sight : Sight P F) (probes : List (Probe P F)) : Option (Payload P F) :=
  match lastAccepted probes with
  | some probe => some { entity := probe.entity, position := probe.trace.vecEndPos }
  | none => sight.result

omit [DecidableEq P] [Zero P] [Scalar F] in
theorem lastAccepted_cons (probe : Probe P F) (probes : List (Probe P F)) :
    lastAccepted (probe :: probes) =
      (lastAccepted probes).or (if probe.verdict = .accepted then some probe else none) := by
  unfold lastAccepted
  rw [List.reverse_cons, List.find?_append]
  by_cases h : probe.verdict = .accepted
  · rw [List.find?_cons_of_pos (by simpa using h), if_pos h]
  · rw [List.find?_cons_of_neg (by simpa using h), if_neg h]; rfl

omit [DecidableEq P] [Zero P] [Scalar F] in
theorem segmentEnd_cons_accepted {probe : Probe P F} (h : probe.verdict = .accepted) (stop : Vector F)
    (probes : List (Probe P F)) : segmentEnd stop (probe :: probes) = segmentEnd probe.trace.vecEndPos probes := by
  unfold segmentEnd
  rw [lastAccepted_cons, if_pos h]
  cases lastAccepted probes <;> rfl

omit [DecidableEq P] [Zero P] [Scalar F] in
theorem segmentEnd_cons_of_ne {probe : Probe P F} (h : probe.verdict ≠ .accepted) (stop : Vector F)
    (probes : List (Probe P F)) : segmentEnd stop (probe :: probes) = segmentEnd stop probes := by
  unfold segmentEnd
  rw [lastAccepted_cons, if_neg h, Option.or_none]

/-! ## Two scans -/

namespace Scene

variable (scene : Scene P F)

/-- The cells after a traced candidate when only an accepted one may change them. -/
def intend (scan : Scan P F) (probe : Probe P F) : Scan P F :=
  match probe.verdict with
  | .accepted => scene.accept probe
  | _ => scan

/-- Every call traces the segment to the last accepted hit, and the loop ends with that hit. -/
@[mk_iff]
structure Kept (scan : Scan P F) (indices : List Nat) : Prop where
  segment : ∀ before probe after, (scene.scanBy scene.advance).emitted scan indices = before ++ probe :: after →
    probe.stop = segmentEnd scan.stop before
  position : ((scene.scanBy scene.advance).exec scan indices).better ≠ 0 →
    ((scene.scanBy scene.advance).exec scan indices).stop =
      segmentEnd scan.stop ((scene.scanBy scene.advance).emitted scan indices)

/-- Every rejected hit of the intended scan ends at the end of its segment, or else it comes last and
nothing is accepted before it. -/
def Placed (scan : Scan P F) (indices : List Nat) : Prop :=
  ∀ before probe after, (scene.scanBy scene.intend).emitted scan indices = before ++ probe :: after →
    probe.verdict = .rejected → probe.trace.vecEndPos = probe.stop ∨
      (after = [] ∧ scan.better = 0 ∧ lastAccepted before = none)

/-! ## One candidate -/

variable {scene} {scan : Scan P F} {index : Nat} {indices : List Nat}

theorem kept_skip (h : ¬ scene.Eligible (scene.pEntityOfEntityIndex index)) :
    scene.Kept scan (index :: indices) ↔ scene.Kept scan indices := by
  rw [kept_iff, kept_iff, emitted_skip h, exec_skip h]

theorem placed_skip (h : ¬ scene.Eligible (scene.pEntityOfEntityIndex index)) :
    scene.Placed scan (index :: indices) ↔ scene.Placed scan indices := by
  unfold Placed
  rw [emitted_skip h]

theorem kept_trace (h : scene.Eligible (scene.pEntityOfEntityIndex index)) :
    scene.Kept scan (index :: indices) ↔
      let next := scene.advance scan (scene.probe scan index)
      (∀ before probe after, (scene.scanBy scene.advance).emitted next indices = before ++ probe :: after →
        probe.stop = segmentEnd scan.stop (scene.probe scan index :: before)) ∧
      (((scene.scanBy scene.advance).exec next indices).better ≠ 0 →
        ((scene.scanBy scene.advance).exec next indices).stop = segmentEnd scan.stop
          (scene.probe scan index :: (scene.scanBy scene.advance).emitted next indices)) := by
  have hfirst : (scene.probe scan index).stop = segmentEnd scan.stop ([] : List (Probe P F)) := rfl
  rw [kept_iff, emitted_trace h, exec_trace h, Machine.forall_split_cons, and_iff_right hfirst]

/-- A candidate that is not accepted and leaves the cells alone. -/
theorem kept_same (h : scene.Eligible (scene.pEntityOfEntityIndex index))
    (hne : (scene.probe scan index).verdict ≠ .accepted)
    (hsame : scene.advance scan (scene.probe scan index) = scan) :
    scene.Kept scan (index :: indices) ↔ scene.Kept scan indices := by
  rw [kept_trace h, hsame, kept_iff]
  simp only [segmentEnd_cons_of_ne hne]

theorem kept_accept (h : scene.Eligible (scene.pEntityOfEntityIndex index))
    (haccepted : (scene.probe scan index).verdict = .accepted) :
    scene.Kept scan (index :: indices) ↔ scene.Kept (scene.accept (scene.probe scan index)) indices := by
  have hnext : scene.advance scan (scene.probe scan index) = scene.accept (scene.probe scan index) := by
    unfold advance; rw [haccepted]
  rw [kept_trace h, hnext, kept_iff]
  simp only [segmentEnd_cons_accepted haccepted]
  rfl

theorem placed_trace (h : scene.Eligible (scene.pEntityOfEntityIndex index)) :
    scene.Placed scan (index :: indices) ↔
      let next := scene.intend scan (scene.probe scan index)
      ((scene.probe scan index).verdict = .rejected →
        (scene.probe scan index).trace.vecEndPos = (scene.probe scan index).stop ∨
          ((scene.scanBy scene.intend).emitted next indices = [] ∧ scan.better = 0)) ∧
      ∀ before probe after, (scene.scanBy scene.intend).emitted next indices = before ++ probe :: after →
        probe.verdict = .rejected → probe.trace.vecEndPos = probe.stop ∨
          (after = [] ∧ scan.better = 0 ∧ lastAccepted (scene.probe scan index :: before) = none) := by
  unfold Placed
  rw [emitted_trace h, Machine.forall_split_cons]
  exact and_congr_left' (imp_congr_right fun _ => or_congr_right (and_congr_right fun _ => and_iff_left rfl))

theorem placed_same (h : scene.Eligible (scene.pEntityOfEntityIndex index))
    (hne : (scene.probe scan index).verdict ≠ .accepted)
    (hend : (scene.probe scan index).verdict = .rejected →
      (scene.probe scan index).trace.vecEndPos = (scene.probe scan index).stop) :
    scene.Placed scan (index :: indices) ↔ scene.Placed scan indices := by
  have hnext : scene.intend scan (scene.probe scan index) = scan := by
    unfold intend
    split
    · contradiction
    · rfl
  have hlast (before : List (Probe P F)) :
      lastAccepted (scene.probe scan index :: before) = lastAccepted before := by
    rw [lastAccepted_cons, if_neg hne, Option.or_none]
  rw [placed_trace h, hnext]
  simp only [hlast]
  exact and_iff_right fun hrejected => Or.inl (hend hrejected)

theorem placed_accept (h : scene.Eligible (scene.pEntityOfEntityIndex index))
    (haccepted : (scene.probe scan index).verdict = .accepted) :
    scene.Placed scan (index :: indices) ↔ scene.Placed (scene.accept (scene.probe scan index)) indices := by
  have hnext : scene.intend scan (scene.probe scan index) = scene.accept (scene.probe scan index) := by
    unfold intend; rw [haccepted]
  -- once a candidate is accepted, neither side allows a misplaced end
  have hlast (before : List (Probe P F)) : lastAccepted (scene.probe scan index :: before) ≠ none := by
    rw [lastAccepted_cons, if_pos haccepted]
    cases lastAccepted before <;> simp
  have hbetter : (scene.accept (scene.probe scan index)).better ≠ 0 := h.nonnull
  rw [placed_trace h, hnext, and_iff_right (fun hrejected => by rw [haccepted] at hrejected; cases hrejected)]
  unfold Placed
  simp only [hlast, hbetter, and_false, false_and]

/-! ## Candidates not traced -/

theorem emitted_eq_nil_iff {go : Scan P F → Probe P F → Scan P F} : (scene.scanBy go).emitted scan indices = [] ↔
    ∀ index ∈ indices, ¬ scene.Eligible (scene.pEntityOfEntityIndex index) := by
  induction indices generalizing scan with
  | nil => simp
  | cons index indices ih =>
    rw [List.forall_mem_cons]
    by_cases h : scene.Eligible (scene.pEntityOfEntityIndex index)
    · rw [emitted_trace h]
      exact iff_of_false (List.cons_ne_nil _ _) fun hnone => hnone.1 h
    · rw [emitted_skip h, ih, and_iff_right h]

theorem exec_of_none {go : Scan P F → Probe P F → Scan P F}
    (h : ∀ index ∈ indices, ¬ scene.Eligible (scene.pEntityOfEntityIndex index)) :
    (scene.scanBy go).exec scan indices = scan := by
  induction indices with
  | nil => rfl
  | cons index indices ih =>
    rw [List.forall_mem_cons] at h
    rw [exec_skip h.1, ih h.2]

/-- The first call traces the segment as it is. -/
theorem stop_of_emitted {go : Scan P F → Probe P F → Scan P F} {probe : Probe P F} {probes : List (Probe P F)}
    (h : (scene.scanBy go).emitted scan indices = probe :: probes) : probe.stop = scan.stop := by
  induction indices with
  | nil => simp at h
  | cons index indices ih =>
    by_cases heligible : scene.Eligible (scene.pEntityOfEntityIndex index)
    · rw [emitted_trace heligible] at h
      obtain ⟨rfl, -⟩ := List.cons.inj h
      rfl
    · rw [emitted_skip heligible] at h
      exact ih h

/-! ## A rejected hit elsewhere -/

section Misplaced

variable (h : scene.Eligible (scene.pEntityOfEntityIndex index))
  (hrejected : (scene.probe scan index).verdict = .rejected)
  (hend : (scene.probe scan index).trace.vecEndPos ≠ (scene.probe scan index).stop)
include h hrejected hend

theorem kept_misplaced : scene.Kept scan (index :: indices) ↔
    (∀ index ∈ indices, ¬ scene.Eligible (scene.pEntityOfEntityIndex index)) ∧ scan.better = 0 := by
  have hne : (scene.probe scan index).verdict ≠ .accepted := by rw [hrejected]; simp
  have hnext : scene.advance scan (scene.probe scan index) =
      { scan with stop := (scene.probe scan index).trace.vecEndPos } := by
    unfold advance; rw [hrejected]
  rw [kept_trace h, hnext]
  constructor
  · rintro ⟨hsegment, hposition⟩
    have hnil : (scene.scanBy scene.advance).emitted { scan with stop := (scene.probe scan index).trace.vecEndPos }
        indices = [] := by
      cases hemitted : (scene.scanBy scene.advance).emitted
          { scan with stop := (scene.probe scan index).trace.vecEndPos } indices with
      | nil => rfl
      | cons probe probes =>
        -- the next call gets the wrong end point
        have hstop := hsegment [] probe probes hemitted
        rw [stop_of_emitted hemitted] at hstop
        exact absurd (hstop.trans (segmentEnd_cons_of_ne hne scan.stop [])) hend
    have hnone := emitted_eq_nil_iff.1 hnil
    refine ⟨hnone, ?_⟩
    by_contra hbetter
    rw [exec_of_none hnone, hnil] at hposition
    exact hend ((hposition hbetter).trans (segmentEnd_cons_of_ne hne scan.stop []))
  · rintro ⟨hnone, hbetter⟩
    refine ⟨?_, ?_⟩
    · intro before probe after hsplit
      rw [emitted_eq_nil_iff.2 hnone] at hsplit
      simp at hsplit
    · intro hfound
      rw [exec_of_none hnone] at hfound
      exact absurd hbetter hfound

theorem placed_misplaced : scene.Placed scan (index :: indices) ↔
    (∀ index ∈ indices, ¬ scene.Eligible (scene.pEntityOfEntityIndex index)) ∧ scan.better = 0 := by
  rw [placed_trace h]
  constructor
  · rintro ⟨hfirst, -⟩
    obtain hstop | ⟨hnil, hbetter⟩ := hfirst hrejected
    · exact absurd hstop hend
    · exact ⟨emitted_eq_nil_iff.1 hnil, hbetter⟩
  · rintro ⟨hnone, hbetter⟩
    refine ⟨fun _ => Or.inr ⟨emitted_eq_nil_iff.2 hnone, hbetter⟩, ?_⟩
    intro before probe after hsplit
    rw [emitted_eq_nil_iff.2 hnone] at hsplit
    simp at hsplit

end Misplaced

/-! ## All candidates -/

theorem kept_iff_placed (scan : Scan P F) (indices : List Nat) :
    scene.Kept scan indices ↔ scene.Placed scan indices := by
  -- both scans go through the same cells until a hit is misplaced, and that settles both sides
  induction indices generalizing scan with
  | nil =>
    refine iff_of_true ⟨?_, fun _ => rfl⟩ ?_
    · intro before probe after h
      simp at h
    · intro before probe after h
      simp at h
  | cons index indices ih =>
    by_cases h : scene.Eligible (scene.pEntityOfEntityIndex index)
    swap
    · rw [kept_skip h, placed_skip h, ih]
    cases hverdict : (scene.probe scan index).verdict with
    | missed =>
      have hne : (scene.probe scan index).verdict ≠ .accepted := by rw [hverdict]; simp
      have hsame : scene.advance scan (scene.probe scan index) = scan := by unfold advance; rw [hverdict]
      have hnot : (scene.probe scan index).verdict ≠ .rejected := by rw [hverdict]; simp
      rw [kept_same h hne hsame, placed_same h hne (fun hrejected => absurd hrejected hnot), ih]
    | accepted => rw [kept_accept h hverdict, placed_accept h hverdict, ih]
    | rejected =>
      by_cases hend : (scene.probe scan index).trace.vecEndPos = (scene.probe scan index).stop
      · have hne : (scene.probe scan index).verdict ≠ .accepted := by rw [hverdict]; simp
        have hsame : scene.advance scan (scene.probe scan index) = scan := by
          unfold advance; rw [hverdict, hend]; rfl
        rw [kept_same h hne hsame, placed_same h hne (fun _ => hend), ih]
      · rw [kept_misplaced h hverdict hend, placed_misplaced h hverdict hend]

/-! ## The answer of a run -/

theorem better_exec (scan : Scan P F) (indices : List Nat) :
    ((scene.scanBy scene.advance).exec scan indices).better =
      ((lastAccepted ((scene.scanBy scene.advance).emitted scan indices)).map Probe.entity).getD scan.better := by
  induction indices generalizing scan with
  | nil => rfl
  | cons index indices ih =>
    by_cases h : scene.Eligible (scene.pEntityOfEntityIndex index)
    · rw [exec_trace h, emitted_trace h, ih, lastAccepted_cons]
      cases lastAccepted ((scene.scanBy scene.advance).emitted (scene.advance scan (scene.probe scan index))
          indices) with
      | some probe => rfl
      | none =>
        unfold advance
        cases hverdict : (scene.probe scan index).verdict <;> simp [accept]
    · rw [exec_skip h, emitted_skip h, ih]

theorem nonnull_of_lastAccepted {go : Scan P F → Probe P F → Scan P F} {probe : Probe P F}
    (h : lastAccepted ((scene.scanBy go).emitted scan indices) = some probe) : probe.entity ≠ 0 := by
  have hmem := List.mem_reverse.1 (List.mem_of_find?_eq_some h)
  exact (mem_emitted_iff.1 ⟨probe, hmem, rfl⟩).1.nonnull

theorem answer_emitted (sight : Sight P F) (stop : Vector F) (indices : List Nat) :
    answer sight ((scene.scanBy scene.advance).emitted (scene.initial stop) indices) =
      let scan := (scene.scanBy scene.advance).exec (scene.initial stop) indices
      let probes := (scene.scanBy scene.advance).emitted (scene.initial stop) indices
      if scan.better ≠ 0 then some { entity := scan.better, position := segmentEnd stop probes } else sight.result := by
  have hbetter : ((scene.scanBy scene.advance).exec (scene.initial stop) indices).better = _ := better_exec _ indices
  dsimp only
  unfold answer segmentEnd
  cases hlast : lastAccepted ((scene.scanBy scene.advance).emitted (scene.initial stop) indices) with
  | none =>
    rw [hlast] at hbetter
    have hnone : ((scene.scanBy scene.advance).exec (scene.initial stop) indices).better = 0 := hbetter
    rw [if_neg (not_not.2 hnone)]
  | some probe =>
    rw [hlast] at hbetter
    have hentity : ((scene.scanBy scene.advance).exec (scene.initial stop) indices).better = probe.entity := hbetter
    rw [hentity, if_pos (nonnull_of_lastAccepted hlast)]
    rfl

end Scene

/-! ## The whole function -/

section Target

variable (engine : Engine P F) (memory : Memory P F) (client : P)

/-- The calls of `traceModel` if only an accepted candidate changed the cells of the loop. -/
def intendedProbes : List (Probe P F) :=
  match look engine memory client with
  | none => []
  | some sight =>
    match enumerate engine memory client sight with
    | none => []
    | some (scene, indices) => (scene.scanBy scene.intend).emitted (scene.initial sight.reach) indices

/-- The payload returned is the one of the call that made its entity the answer, and every candidate is
traced along the segment to the last such call before it. -/
structure Belongs : Prop where
  position : ∀ sight ∈ look engine memory client, ∀ payload ∈ traceTarget engine memory client,
    answer sight (probes engine memory client) = some payload
  segment : ∀ sight ∈ look engine memory client, ∀ before probe after,
    probes engine memory client = before ++ probe :: after → probe.stop = segmentEnd sight.reach before

variable {engine memory client}

theorem belongs_iff_kept {sight : Sight P F} {scene : Scene P F} {indices : List Nat}
    (hlook : look engine memory client = some sight)
    (henumerate : enumerate engine memory client sight = some (scene, indices)) :
    Belongs engine memory client ↔ scene.Kept (scene.initial sight.reach) indices := by
  have hprobes := probes_of_some hlook henumerate
  have htarget := traceTarget_of_some hlook henumerate
  have hanswer := scene.answer_emitted sight sight.reach indices
  rw [← hprobes] at hanswer
  have hsight {other : Sight P F} : other ∈ look engine memory client ↔ sight = other := by
    rw [hlook, Option.mem_some_iff]
  constructor
  · rintro ⟨hposition, hsegment⟩
    refine ⟨?_, ?_⟩
    · rw [← hprobes]; exact hsegment sight (hsight.2 rfl)
    · intro hfound
      have hpayload := hposition sight (hsight.2 rfl) _ (by rw [htarget]; exact if_pos hfound)
      rw [hanswer, if_pos hfound] at hpayload
      rw [← hprobes]
      exact (congrArg Payload.position (Option.some.inj hpayload)).symm
  · rintro ⟨hsegment, hposition⟩
    rw [← hprobes] at hsegment hposition
    refine ⟨?_, ?_⟩
    · rintro other hother payload hpayload
      obtain rfl := hsight.1 hother
      rw [htarget] at hpayload
      rw [hanswer]
      by_cases hfound : ((scene.scanBy scene.advance).exec (scene.initial sight.reach) indices).better ≠ 0
      · have hstop : _ = segmentEnd sight.reach (probes engine memory client) := hposition hfound
        rw [if_pos hfound, ← hstop]
        exact (if_pos hfound).symm.trans hpayload
      · rw [if_neg hfound]
        exact (if_neg hfound).symm.trans hpayload
    · rintro other hother
      obtain rfl := hsight.1 hother
      exact hsegment

/-- The returned position belongs to the returned entity, and rejected candidates do not touch the
segment, exactly if in the intended scan every rejected hit ends at the end of its segment, apart from
a last candidate that nothing accepted comes before. -/
theorem belongs_iff : Belongs engine memory client ↔
    ∀ before probe after, intendedProbes engine memory client = before ++ probe :: after →
      probe.verdict = .rejected →
        probe.trace.vecEndPos = probe.stop ∨ (after = [] ∧ lastAccepted before = none) := by
  cases hlook : look engine memory client with
  | none =>
    refine iff_of_true ⟨?_, ?_⟩ ?_
    · rw [hlook]; simp
    · rw [hlook]; simp
    · unfold intendedProbes; rw [hlook]; simp
  | some sight =>
    cases henumerate : enumerate engine memory client sight with
    | none =>
      have hprobes := probes_of_none hlook henumerate
      have htarget := traceTarget_of_none hlook henumerate
      refine iff_of_true ⟨?_, ?_⟩ ?_
      · rintro other hother payload hpayload
        rw [hlook, Option.mem_some_iff] at hother
        rw [hprobes, ← hother]
        exact htarget.symm.trans hpayload
      · intro other hother before probe after hsplit
        rw [hprobes] at hsplit
        simp at hsplit
      · unfold intendedProbes; rw [hlook]; dsimp only; rw [henumerate]; simp
    | some loop =>
      obtain ⟨scene, indices⟩ := loop
      rw [belongs_iff_kept hlook henumerate, Scene.kept_iff_placed]
      unfold Scene.Placed intendedProbes
      rw [hlook]; dsimp only; rw [henumerate]
      have hbetter : (scene.initial sight.reach).better = 0 := rfl
      simp only [hbetter, true_and]

end Target

/-! ## Two models at one distance -/

/-- Two entities are hit at 100 units; the end point of the second one is rounded aside by `2^-20`. -/
def tieServices : Services Nat Binary32 where
  globals.maxEntities := 3
  makeVectors _ := ⟨.ofNat 1, .zero, .zero⟩
  traceLine _ stop _ _ := { pHit := 0, flFraction := .ofNat 1, vecEndPos := stop }
  traceModel _ _ _ _ entity :=
    { pHit := entity, flFraction := .zero
      vecEndPos := ⟨.ofNat 100, if entity = 1 then .zero else ⟨0x35800000⟩, .zero⟩ }
  numberOfEntities := 3
  pEntityOfEntityIndex := Int.toNat

/-- The entity returned is the first one, the position the one of the second. -/
theorem position_strays : ¬ Belongs tieServices.engine flatMemory 3 := by
  rintro ⟨hposition, -⟩
  have htarget : traceTarget tieServices.engine flatMemory 3 =
      some { entity := 1, position := ⟨.ofNat 100, ⟨0x35800000⟩, .zero⟩ } := by decide +kernel
  exact absurd (hposition _ (tieServices.look_engine flatMemory 3) _ htarget) (by decide +kernel)

end Refrigerator.Report
