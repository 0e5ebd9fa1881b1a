/-
`trace_target_` over exact numbers and an engine whose traces agree: every entity is hit at one distance
along the view at most. Then the loop, which shortens the segment as it goes, finds the nearest model.
-/
import Refrigerator.Report.Scan
import Refrigerator.Lib.Nearest
import Mathlib.Analysis.Real.Sqrt

namespace Refrigerator.Report

open Lib

/-! ## Exact numbers -/

noncomputable instance : Scalar ℝ where
  ofNat n := n
  add x y := x + y
  neg x := -x
  mul x y := x * y
  sqrt := Real.sqrt
  less x y := decide (x < y)

theorem less_iff {x y : ℝ} : Scalar.less x y = true ↔ x < y := decide_eq_true_iff

/-- The distance of two points. -/
noncomputable def gap (a b : Vector ℝ) : ℝ := √((b.x - a.x) ^ 2 + (b.y - a.y) ^ 2 + (b.z - a.z) ^ 2)

/-- The point of the ray from `a` through `b` at a distance from `a`. -/
noncomputable def rayPoint (a b : Vector ℝ) (distance : ℝ) : Vector ℝ where
  x := a.x + distance / gap a b * (b.x - a.x)
  y := a.y + distance / gap a b * (b.y - a.y)
  z := a.z + distance / gap a b * (b.z - a.z)

/-- What the code computes for the distance of two points. -/
theorem vectorLength_eq_gap (a b : Vector ℝ) : vectorLength (accumulateVectors b (reverseVector a)) = gap a b := by
  have hsquare (x y : ℝ) : (x + -y) * (x + -y) = (x - y) ^ 2 := by ring
  show √((b.x + -a.x) * (b.x + -a.x) + (b.y + -a.y) * (b.y + -a.y) + (b.z + -a.z) * (b.z + -a.z)) = gap a b
  rw [hsquare, hsquare, hsquare, gap]

theorem gap_nonneg (a b : Vector ℝ) : 0 ≤ gap a b := Real.sqrt_nonneg _

theorem eq_of_gap_eq_zero {a b : Vector ℝ} (h : gap a b = 0) : a = b := by
  rw [gap, Real.sqrt_eq_zero'] at h
  have hx := sq_nonneg (b.x - a.x)
  have hy := sq_nonneg (b.y - a.y)
  have hz := sq_nonneg (b.z - a.z)
  have hx0 : b.x - a.x = 0 := pow_eq_zero_iff two_ne_zero |>.1 (by linarith)
  have hy0 : b.y - a.y = 0 := pow_eq_zero_iff two_ne_zero |>.1 (by linarith)
  have hz0 : b.z - a.z = 0 := pow_eq_zero_iff two_ne_zero |>.1 (by linarith)
  cases a; cases b
  simp only [Vector.mk.injEq]
  exact ⟨(sub_eq_zero.1 hx0).symm, (sub_eq_zero.1 hy0).symm, (sub_eq_zero.1 hz0).symm⟩

theorem rayPoint_gap (a b : Vector ℝ) : rayPoint a b (gap a b) = b := by
  by_cases h : gap a b = 0
  · obtain rfl := eq_of_gap_eq_zero h
    cases a
    simp [rayPoint]
  · unfold rayPoint
    rw [div_self h]
    cases b
    simp

/-- The ray point at a distance is at this distance. -/
theorem gap_rayPoint {a b : Vector ℝ} {t : ℝ} (h0 : 0 ≤ t) (hle : t ≤ gap a b) : gap a (rayPoint a b t) = t := by
  by_cases h : gap a b = 0
  · have ht : t = 0 := le_antisymm (hle.trans h.le) h0
    rw [gap, ht]
    simp [rayPoint]
  · have hsum : gap a (rayPoint a b t) = √((t / gap a b) ^ 2 *
        ((b.x - a.x) ^ 2 + (b.y - a.y) ^ 2 + (b.z - a.z) ^ 2)) := by
      rw [gap]
      congr 1
      unfold rayPoint
      ring
    rw [hsum, Real.sqrt_mul (sq_nonneg _), ← gap, Real.sqrt_sq (div_nonneg h0 (gap_nonneg a b)), div_mul_cancel₀ t h]

/-! ## The view -/

variable {P : Type*}

/-- The client's eye. -/
noncomputable def eye (memory : Memory P ℝ) (client : P) : Vector ℝ where
  x := (memory client).origin.x + (memory client).viewOfs.x
  y := (memory client).origin.y + (memory client).viewOfs.y
  z := (memory client).origin.z + (memory client).viewOfs.z

namespace Services

variable (services : Services P ℝ) (memory : Memory P ℝ) (client : P)

/-- The far end of the view: 8192 times the forward vector from the eye. -/
noncomputable def far : Vector ℝ where
  x := (eye memory client).x + (services.makeVectors (memory client).vAngle).x * 8192
  y := (eye memory client).y + (services.makeVectors (memory client).vAngle).y * 8192
  z := (eye memory client).z + (services.makeVectors (memory client).vAngle).z * 8192

/-- The length of the view. -/
noncomputable def viewLength : ℝ := gap (eye memory client) (services.far memory client)

/-- The point of the view at a distance from the eye. -/
noncomputable def viewPoint (t : ℝ) : Vector ℝ := rayPoint (eye memory client) (services.far memory client) t

/-- The answer of `traceLine` for the whole view. -/
noncomputable def viewLine : Trace P ℝ := services.traceLine (eye memory client) (services.far memory client) 0 client

variable {services memory client}

theorem gap_viewPoint {t : ℝ} (h0 : 0 ≤ t) (hle : t ≤ services.viewLength memory client) :
    gap (eye memory client) (services.viewPoint memory client t) = t := gap_rayPoint h0 hle

theorem viewLength_nonneg : 0 ≤ services.viewLength memory client := gap_nonneg _ _

theorem stop_eq_far : services.stop memory client = services.far memory client := by
  have hcast : ((8192 : Nat) : ℝ) = 8192 := by norm_num
  unfold far
  rw [← hcast]
  rfl

theorem line_eq_viewLine : services.line memory client = services.viewLine memory client := by
  unfold line
  rw [stop_eq_far]
  rfl

end Services

/-! ## Traces that agree -/

variable [DecidableEq P] [Zero P]

/-- The trace reports a hit of the entity. -/
def Hits (trace : Trace P ℝ) (entity : P) : Prop := trace.pHit = entity ∧ trace.flFraction < 1

omit [DecidableEq P] [Zero P] in
theorem less_one_iff {trace : Trace P ℝ} :
    Scalar.less trace.flFraction (Scalar.ofNat 1 : ℝ) = true ↔ trace.flFraction < 1 := by
  rw [less_iff]
  show trace.flFraction < ((1 : Nat) : ℝ) ↔ _
  rw [Nat.cast_one]

omit [Zero P] in
theorem judge_eq_missed {scene : Scene P ℝ} {entity : P} {trace : Trace P ℝ} (h : ¬ Hits trace entity) (limit : ℝ) :
    scene.judge entity limit trace = .missed := by
  unfold Scene.judge
  by_cases hhit : entity ≠ trace.pHit
  · rw [if_pos hhit]
  · have hfraction : ¬ Scalar.less trace.flFraction (Scalar.ofNat 1 : ℝ) = true :=
      fun hless => h ⟨(not_not.1 hhit).symm, less_one_iff.1 hless⟩
    rw [if_neg hhit, if_pos (by rw [Bool.not_eq_true'] ; exact eq_false_of_ne_true hfraction)]

omit [Zero P] in
theorem judge_eq_accepted {scene : Scene P ℝ} {entity : P} {trace : Trace P ℝ} {limit : ℝ} (h : Hits trace entity)
    (hlt : gap scene.start trace.vecEndPos < limit) : scene.judge entity limit trace = .accepted := by
  have hfraction := less_one_iff.2 h.2
  have hless : Scalar.less (vectorLength (accumulateVectors trace.vecEndPos (reverseVector scene.start))) limit =
      true := less_iff.2 (by rw [vectorLength_eq_gap]; exact hlt)
  unfold Scene.judge
  rw [if_neg (not_not.2 h.1.symm), hfraction, hless]
  rfl

namespace Services

variable (services : Services P ℝ) (memory : Memory P ℝ) (client : P) (distance : P → Option ℝ)

/-- The traces follow the distances at which the view hits the entities. -/
structure Agrees : Prop where
  nonneg : ∀ entity x, distance entity = some x → 0 ≤ x
  line : (services.viewLine memory client).flFraction = 1 ∨ ∃ entity x, entity ≠ 0 ∧ distance entity = some x ∧
    x ≤ services.viewLength memory client ∧ Hits (services.viewLine memory client) entity ∧
    (services.viewLine memory client).vecEndPos = services.viewPoint memory client x
  hit : ∀ index entity t x, 0 ≤ t → t ≤ services.viewLength memory client →
    let stop := services.viewPoint memory client t
    let trace := services.traceModel index (eye memory client) stop 0 entity
    distance entity = some x → x < gap (eye memory client) stop →
      Hits trace entity ∧ trace.vecEndPos = services.viewPoint memory client x
  miss : ∀ index entity t, 0 ≤ t → t ≤ services.viewLength memory client →
    let stop := services.viewPoint memory client t
    let trace := services.traceModel index (eye memory client) stop 0 entity
    (∀ x, distance entity = some x → ¬ x < gap (eye memory client) stop) → ¬ Hits trace entity

/-! ## The nearest model -/

/-- What `traceLine` reports: the entity that the view hits, with the hit point. -/
noncomputable def struck : Option (Payload P ℝ) :=
  if (services.viewLine memory client).pHit ≠ 0 ∧ (services.viewLine memory client).flFraction < 1 then
    some { entity := (services.viewLine memory client).pHit, position := (services.viewLine memory client).vecEndPos }
  else none

/-- The entities among which the nearest is looked for: those with a model, but neither the client nor the
one that `traceLine` reports. -/
structure Candidate (entity : P) : Prop where
  nonnull : entity ≠ 0
  model : (memory entity).model ≠ 0
  modelindex : 0 < (memory entity).modelindex
  other : entity ≠ client
  unstruck : ∀ payload, services.struck memory client = some payload → payload.entity ≠ entity

open Classical in
/-- The distance of the candidate at an index. -/
noncomputable def candidateDistance (index : Nat) : Option ℝ :=
  if services.Candidate memory client (services.pEntityOfEntityIndex index)
  then distance (services.pEntityOfEntityIndex index) else none

/-- The distance of the entity that `traceLine` reports, or the length of the view. -/
noncomputable def viewBound : ℝ :=
  ((services.struck memory client).bind fun payload => distance payload.entity).getD
    (services.viewLength memory client)

/-- The nearest candidate within the bound, of the smallest index among equals, with its hit point; else
what `traceLine` reports. -/
noncomputable def nearestTarget : Option (Payload P ℝ) :=
  match nearest (services.candidateDistance memory client distance) (services.viewBound memory client distance)
      services.indices with
  | some index => (services.candidateDistance memory client distance index).map fun x =>
      { entity := services.pEntityOfEntityIndex index, position := services.viewPoint memory client x }
  | none => services.struck memory client

variable {services memory client distance}

theorem lineHit_iff {trace : Trace P ℝ} : Sight.lineHit trace = true ↔ trace.pHit ≠ 0 ∧ trace.flFraction < 1 := by
  unfold Sight.lineHit
  rw [Bool.and_eq_true, decide_eq_true_iff, less_one_iff]

theorem result_eq_struck : (services.sight memory client).result = services.struck memory client := by
  have hresult : (services.sight memory client).result = if Sight.lineHit (services.line memory client) = true then
      some { entity := (services.line memory client).pHit, position := (services.line memory client).vecEndPos }
      else none := rfl
  rw [hresult, line_eq_viewLine]
  exact if_congr lineHit_iff rfl rfl

theorem eligible_iff {entity : P} :
    (services.scene memory client).Eligible entity ↔ services.Candidate memory client entity := by
  have hresult : (services.scene memory client).result = services.struck memory client := result_eq_struck
  have hunstruck : (services.struck memory client).map Payload.entity ≠ some entity ↔
      ∀ payload, services.struck memory client = some payload → payload.entity ≠ entity := by
    rw [ne_eq, Option.map_eq_some_iff]
    exact ⟨fun h payload hpayload heq => h ⟨payload, hpayload, heq⟩, fun h ⟨payload, hpayload, heq⟩ =>
      h payload hpayload heq⟩
  constructor
  · intro h
    exact ⟨h.nonnull, h.model, h.modelindex, h.other, hunstruck.1 (hresult ▸ h.unhit)⟩
  · intro h
    exact ⟨h.nonnull, h.model, h.modelindex, h.other, by rw [hresult]; exact hunstruck.2 h.unstruck⟩

theorem struck_eq_none (h : (services.viewLine memory client).flFraction = 1) :
    services.struck memory client = none := by
  unfold struck
  rw [h]
  exact if_neg fun hhit => lt_irrefl _ hhit.2

theorem struck_eq_some {entity : P} (hentity : entity ≠ 0) (h : Hits (services.viewLine memory client) entity) :
    services.struck memory client =
      some { entity, position := (services.viewLine memory client).vecEndPos } := by
  obtain ⟨rfl, hfraction⟩ := h
  exact if_pos ⟨hentity, hfraction⟩

/-- Before the loop the segment ends at the bound. -/
theorem initial_eq (h : Agrees services memory client distance) :
    let bound := services.viewBound memory client distance
    0 ≤ bound ∧ bound ≤ services.viewLength memory client ∧ services.initial memory client =
      { better := 0, limit := bound, stop := services.viewPoint memory client bound } := by
  have hreach : (services.sight memory client).reach =
      ((services.struck memory client).map Payload.position).getD (services.far memory client) := by
    unfold Sight.reach
    rw [result_eq_struck]
    cases services.struck memory client with
    | none => exact stop_eq_far
    | some payload => rfl
  have hinitial : services.initial memory client =
      { better := 0
        limit := gap (eye memory client) (services.sight memory client).reach
        stop := (services.sight memory client).reach } := by
    show (⟨0, vectorLength _, _⟩ : Scan P ℝ) = _
    rw [vectorLength_eq_gap]
    rfl
  rw [hinitial, hreach]
  unfold viewBound
  obtain hmiss | ⟨entity, x, hentity, hx, hle, hhit, hposition⟩ := h.line
  · rw [struck_eq_none hmiss]
    refine ⟨viewLength_nonneg, le_rfl, ?_⟩
    show (⟨0, services.viewLength memory client, services.far memory client⟩ : Scan P ℝ) =
      ⟨0, _, rayPoint _ _ (gap (eye memory client) (services.far memory client))⟩
    rw [rayPoint_gap]; rfl
  · rw [struck_eq_some hentity hhit, Option.bind_some, hx, Option.getD_some]
    refine ⟨h.nonneg entity x hx, hle, ?_⟩
    dsimp only [Option.map_some, Option.getD_some]
    rw [hposition, gap_viewPoint (h.nonneg entity x hx) hle]

/-- The cells after a part of the loop, by the nearest of the candidates in it. -/
noncomputable def cells (services : Services P ℝ) (memory : Memory P ℝ) (client : P) (distance : P → Option ℝ)
    (indices : List Nat) : Scan P ℝ :=
  { better := ((nearest (services.candidateDistance memory client distance) (services.viewBound memory client distance)
      indices).map fun (index : Nat) => services.pEntityOfEntityIndex index).getD 0
    limit := leastDistance (services.candidateDistance memory client distance)
      (services.viewBound memory client distance) indices
    stop := services.viewPoint memory client (leastDistance (services.candidateDistance memory client distance)
      (services.viewBound memory client distance) indices) }

theorem distance_of_candidate {index : Nat} {x : ℝ}
    (h : services.candidateDistance memory client distance index = some x) :
    services.Candidate memory client (services.pEntityOfEntityIndex index) ∧
      distance (services.pEntityOfEntityIndex index) = some x := by
  unfold candidateDistance at h
  split_ifs at h with hcandidate
  exact ⟨hcandidate, h⟩

theorem candidateDistance_of_candidate {index : Nat}
    (h : services.Candidate memory client (services.pEntityOfEntityIndex index)) :
    services.candidateDistance memory client distance index = distance (services.pEntityOfEntityIndex index) := if_pos h

theorem leastDistance_nonneg (h : Agrees services memory client distance) (indices : List Nat) :
    0 ≤ leastDistance (services.candidateDistance memory client distance) (services.viewBound memory client distance)
      indices := by
  cases hnearest : nearest (services.candidateDistance memory client distance)
      (services.viewBound memory client distance) indices with
  | none => rw [leastDistance_of_none hnearest]; exact (initial_eq h).1
  | some index =>
    obtain ⟨-, x, hx, -⟩ := exists_distance_of_nearest hnearest
    rw [leastDistance_of_nearest hnearest hx]
    exact h.nonneg _ x (distance_of_candidate hx).2

theorem leastDistance_le_viewLength (h : Agrees services memory client distance) (indices : List Nat) :
    leastDistance (services.candidateDistance memory client distance) (services.viewBound memory client distance)
      indices ≤ services.viewLength memory client := leastDistance_le.trans (initial_eq h).2.1

/-- A candidate nearer than all before is accepted with its own hit point. -/
theorem advance_of_nearer (h : Agrees services memory client distance) {indices : List Nat} {index : Nat} {x : ℝ}
    (hx : distance (services.pEntityOfEntityIndex index) = some x)
    (hlt : x < (cells services memory client distance indices).limit) :
    let scene := services.scene memory client
    let scan := cells services memory client distance indices
    scene.advance scan (scene.probe scan index) =
      { better := services.pEntityOfEntityIndex index, limit := x, stop := services.viewPoint memory client x } := by
  intro scene scan
  have h0 := leastDistance_nonneg h indices
  have hle := leastDistance_le_viewLength h indices
  obtain ⟨hhit, hposition⟩ := h.hit index _ _ x h0 hle hx (by rw [gap_viewPoint h0 hle]; exact hlt)
  have hgap : gap (eye memory client) (services.viewPoint memory client x) = x :=
    gap_viewPoint (h.nonneg _ x hx) (hlt.le.trans hle)
  have hend : (scene.probe scan index).trace.vecEndPos = services.viewPoint memory client x := hposition
  have hverdict : (scene.probe scan index).verdict = .accepted :=
    judge_eq_accepted hhit ((congrArg (gap _) hposition).trans hgap |>.trans_lt hlt)
  have hnext : scene.advance scan (scene.probe scan index) = scene.accept (scene.probe scan index) := by
    unfold Scene.advance; rw [hverdict]
  rw [hnext]
  unfold Scene.accept
  rw [hend]
  show (⟨_, vectorLength (accumulateVectors (services.viewPoint memory client x) (reverseVector (eye memory client))),
    _⟩ : Scan P ℝ) = _
  rw [vectorLength_eq_gap, hgap]; rfl

/-- A candidate that is not nearer is missed. -/
theorem advance_of_not_nearer (h : Agrees services memory client distance) {indices : List Nat} {index : Nat}
    (hnot : ∀ x, distance (services.pEntityOfEntityIndex index) = some x →
      ¬ x < (cells services memory client distance indices).limit) :
    let scene := services.scene memory client
    let scan := cells services memory client distance indices
    scene.advance scan (scene.probe scan index) = scan := by
  intro scene scan
  have h0 := leastDistance_nonneg h indices
  have hle := leastDistance_le_viewLength h indices
  have hmiss := h.miss index (services.pEntityOfEntityIndex index) _ h0 hle (by rw [gap_viewPoint h0 hle]; exact hnot)
  have hverdict : (scene.probe scan index).verdict = .missed := judge_eq_missed hmiss _
  unfold Scene.advance
  rw [hverdict]

/-- One candidate takes the cells of the part before it to those of the part with it. -/
theorem next_cells (h : Agrees services memory client distance) (indices : List Nat) (index : Nat) :
    ((services.scene memory client).scanBy (services.scene memory client).advance).next
      (cells services memory client distance indices) index =
        cells services memory client distance (indices ++ [index]) := by
  -- a candidate that does not count leaves the nearest one as it is
  have hsame (hnot : ∀ x, services.candidateDistance memory client distance index = some x →
      ¬ x < (cells services memory client distance indices).limit) :
      cells services memory client distance (indices ++ [index]) = cells services memory client distance indices := by
    unfold cells
    rw [nearest_snoc_of_not_lt hnot, leastDistance_snoc_of_not_lt hnot]
  by_cases heligible : (services.scene memory client).Eligible (services.pEntityOfEntityIndex index)
  · have hcandidate : services.candidateDistance memory client distance index =
        distance (services.pEntityOfEntityIndex index) := candidateDistance_of_candidate (eligible_iff.1 heligible)
    rw [Machine.next, Scene.step_trace heligible]
    by_cases hnear : ∃ x, distance (services.pEntityOfEntityIndex index) = some x ∧
        x < (cells services memory client distance indices).limit
    · obtain ⟨x, hx, hlt⟩ := hnear
      rw [advance_of_nearer h hx hlt]
      rw [← hcandidate] at hx
      unfold cells
      rw [nearest_snoc_of_lt hx hlt, leastDistance_snoc_of_lt hx hlt]
      rfl
    · have hnot : ∀ x, distance (services.pEntityOfEntityIndex index) = some x →
          ¬ x < (cells services memory client distance indices).limit := fun x hx hlt => hnear ⟨x, hx, hlt⟩
      rw [advance_of_not_nearer h hnot, hsame (by rw [hcandidate]; exact hnot)]
  · have hcandidate : services.candidateDistance memory client distance index = none :=
      if_neg fun hcandidate => heligible (eligible_iff.2 hcandidate)
    rw [Machine.next, Scene.step_skip heligible, hsame (by rw [hcandidate]; intro x hx; cases hx)]

theorem exec_eq_cells (h : Agrees services memory client distance) (indices : List Nat) :
    ((services.scene memory client).scanBy (services.scene memory client).advance).exec
      (services.initial memory client) indices = cells services memory client distance indices := by
  induction indices using List.reverseRecOn with
  | nil => exact (initial_eq h).2.2
  | append_singleton indices index ih => rw [Machine.exec_snoc, ih, next_cells h]

end Services

open Services in
/-- With exact numbers and traces that agree, the loop returns what a search through all models with the
whole view returns: the nearest one, the first among equals, or else what `traceLine` reports. -/
theorem traceTarget_eq_nearestTarget (services : Services P ℝ) (memory : Memory P ℝ) (client : P)
    (distance : P → Option ℝ) (h : Agrees services memory client distance) :
    traceTarget services.engine memory client = services.nearestTarget memory client distance := by
  rw [traceTarget_engine]
  dsimp only
  rw [exec_eq_cells h]
  unfold nearestTarget
  cases hnearest : nearest (services.candidateDistance memory client distance)
      (services.viewBound memory client distance) services.indices with
  | none =>
    have hbetter : (cells services memory client distance services.indices).better = 0 := by
      unfold cells; rw [hnearest]; rfl
    exact (if_neg (not_not.2 hbetter)).trans result_eq_struck
  | some index =>
    obtain ⟨-, x, hx, -⟩ := exists_distance_of_nearest hnearest
    have hcells : cells services memory client distance services.indices =
        { better := services.pEntityOfEntityIndex index, limit := x, stop := services.viewPoint memory client x } := by
      unfold cells
      rw [hnearest, leastDistance_of_nearest hnearest hx]
      rfl
    rw [hcells, if_pos (distance_of_candidate hx).1.nonnull]
    dsimp only
    rw [hx, Option.map_some]

/-! ## Two models and a wall -/

/-- The entities 1 and 2 are models at 100 and 50 units, entity 7 is a wall. -/
noncomputable def walledDistances (wall : ℝ) (entity : Nat) : Option ℝ :=
  if entity = 1 then some 100 else if entity = 2 then some 50 else if entity = 7 then some wall else none

/-- The view goes along `x`, and its line hits the wall. -/
noncomputable def walledServices (wall : ℝ) : Services Nat ℝ where
  globals.maxEntities := 3
  makeVectors _ := ⟨1, 0, 0⟩
  traceLine _ _ _ _ := { pHit := 7, flFraction := wall / 8192, vecEndPos := ⟨wall, 0, 0⟩ }
  traceModel _ start stop _ entity :=
    match walledDistances wall entity with
    | none => { pHit := 0, flFraction := 1, vecEndPos := stop }
    | some x =>
      if x < gap start stop then { pHit := entity, flFraction := x / gap start stop, vecEndPos := ⟨x, 0, 0⟩ }
      else { pHit := 0, flFraction := 1, vecEndPos := stop }
  numberOfEntities := 3
  pEntityOfEntityIndex := Int.toNat

section Walled

variable {wall : ℝ} {client : Nat}

theorem walled_eye : eye (flatMemory : Memory Nat ℝ) client = ⟨0, 0, 0⟩ := by
  show (⟨((0 : Nat) : ℝ) + ((0 : Nat) : ℝ), ((0 : Nat) : ℝ) + ((0 : Nat) : ℝ), ((0 : Nat) : ℝ) + ((0 : Nat) : ℝ)⟩ :
    Vector ℝ) = _
  simp

theorem walled_far : (walledServices wall).far flatMemory client = ⟨8192, 0, 0⟩ := by
  unfold Services.far
  rw [walled_eye]
  show (⟨(0 : ℝ) + 1 * 8192, (0 : ℝ) + 0 * 8192, (0 : ℝ) + 0 * 8192⟩ : Vector ℝ) = _
  norm_num

theorem walled_viewLength : (walledServices wall).viewLength flatMemory client = 8192 := by
  unfold Services.viewLength
  rw [walled_eye, walled_far, gap]
  have hsquare : ((8192 : ℝ) - 0) ^ 2 + (0 - 0) ^ 2 + (0 - 0) ^ 2 = 8192 ^ 2 := by norm_num
  rw [hsquare, Real.sqrt_sq (by norm_num)]

theorem walled_viewPoint (t : ℝ) : (walledServices wall).viewPoint flatMemory client t = ⟨t, 0, 0⟩ := by
  have hlength : (walledServices wall).viewLength flatMemory client = 8192 := walled_viewLength
  unfold Services.viewLength at hlength
  rw [walled_eye, walled_far] at hlength
  unfold Services.viewPoint rayPoint
  rw [walled_eye, walled_far, hlength]
  norm_num

theorem walledDistances_nonneg (h0 : 0 ≤ wall) {entity : Nat} {x : ℝ} (hx : walledDistances wall entity = some x) :
    0 ≤ x := by
  unfold walledDistances at hx
  split_ifs at hx <;> cases hx
  · norm_num
  · norm_num
  · exact h0

theorem walled_hits (hlt : wall < 8192) : Hits ((walledServices wall).viewLine flatMemory client) 7 :=
  ⟨rfl, (div_lt_one (by norm_num)).2 hlt⟩

theorem walled_agrees (h0 : 0 ≤ wall) (hlt : wall < 8192) :
    (walledServices wall).Agrees flatMemory client (walledDistances wall) where
  nonneg entity x h := walledDistances_nonneg h0 h
  line := Or.inr ⟨7, wall, by decide, rfl, by rw [walled_viewLength]; exact hlt.le, walled_hits hlt,
    (walled_viewPoint wall).symm⟩
  hit index entity t x ht hle := by
    intro stop trace hx hlt
    have hnonneg := walledDistances_nonneg h0 hx
    have htrace : trace = { pHit := entity, flFraction := x / gap (eye flatMemory client) stop
                            vecEndPos := ⟨x, 0, 0⟩ } := by
      show (match walledDistances wall entity with | none => _ | some _ => _) = _
      rw [hx]
      exact if_pos hlt
    rw [htrace, walled_viewPoint]
    exact ⟨⟨rfl, (div_lt_one (hnonneg.trans_lt hlt)).2 hlt⟩, rfl⟩
  miss index entity t ht hle := by
    intro stop trace hnot
    have htrace : trace = { pHit := 0, flFraction := 1, vecEndPos := stop } := by
      show (match walledDistances wall entity with | none => _ | some _ => _) = _
      cases hx : walledDistances wall entity with
      | none => rfl
      | some x => exact if_neg (hnot x hx)
    rw [htrace]
    exact fun hhit => lt_irrefl _ hhit.2

theorem walled_struck (hlt : wall < 8192) :
    (walledServices wall).struck flatMemory client = some { entity := 7, position := ⟨wall, 0, 0⟩ } :=
  Services.struck_eq_some (by decide) (walled_hits hlt)

theorem walled_viewBound (hlt : wall < 8192) :
    (walledServices wall).viewBound flatMemory client (walledDistances wall) = wall := by
  unfold Services.viewBound
  rw [walled_struck hlt]
  rfl

theorem walled_distance (hlt : wall < 8192) {index : Nat} (h0 : index ≠ 0) (h3 : index ≠ 3) (h7 : index ≠ 7) :
    (walledServices wall).candidateDistance flatMemory 3 (walledDistances wall) index = walledDistances wall index := by
  refine Services.candidateDistance_of_candidate ⟨h0, Int.one_ne_zero, Int.one_pos, h3, fun payload hpayload => ?_⟩
  rw [walled_struck hlt] at hpayload
  cases hpayload
  exact fun heq => h7 heq.symm

end Walled

/-- Of the models at 100 and 50 units the second one stands before a wall at 80 units and is returned with its
own hit point; of a wall at 30 units both stand behind, and the wall is returned. -/
theorem traceTarget_eq_nearestTarget_walled :
    traceTarget (walledServices 80).engine flatMemory 3 = some { entity := 2, position := ⟨50, 0, 0⟩ } ∧
      traceTarget (walledServices 30).engine flatMemory 3 = some { entity := 7, position := ⟨30, 0, 0⟩ } := by
  constructor
  · rw [traceTarget_eq_nearestTarget (walledServices 80) flatMemory 3 (walledDistances 80)
      (walled_agrees (by norm_num) (by norm_num))]
    have hbound : (walledServices 80).viewBound flatMemory 3 (walledDistances 80) = 80 := walled_viewBound (by norm_num)
    have h1 : (walledServices 80).candidateDistance flatMemory 3 (walledDistances 80) 1 = some 100 :=
      walled_distance (by norm_num) (by decide) (by decide) (by decide)
    have h2 : (walledServices 80).candidateDistance flatMemory 3 (walledDistances 80) 2 = some 50 :=
      walled_distance (by norm_num) (by decide) (by decide) (by decide)
    have hfirst : leastDistance ((walledServices 80).candidateDistance flatMemory 3 (walledDistances 80))
        ((walledServices 80).viewBound flatMemory 3 (walledDistances 80)) ([] ++ [1]) = 80 := by
      rw [leastDistance_snoc_of_not_lt, leastDistance_nil, hbound]
      intro x hx
      rw [h1, Option.some.injEq] at hx
      rw [leastDistance_nil, hbound, ← hx]
      norm_num
    have hnearest : nearest ((walledServices 80).candidateDistance flatMemory 3 (walledDistances 80))
        ((walledServices 80).viewBound flatMemory 3 (walledDistances 80)) (walledServices 80).indices = some 2 :=
      nearest_snoc_of_lt (l := [] ++ [1]) h2 (by rw [hfirst]; norm_num)
    unfold Services.nearestTarget
    rw [hnearest]
    dsimp only
    rw [h2, Option.map_some, walled_viewPoint]
    rfl
  · rw [traceTarget_eq_nearestTarget (walledServices 30) flatMemory 3 (walledDistances 30)
      (walled_agrees (by norm_num) (by norm_num))]
    have hbound : (walledServices 30).viewBound flatMemory 3 (walledDistances 30) = 30 := walled_viewBound (by norm_num)
    have hbehind : ∀ index ∈ (walledServices 30).indices, ∀ x,
        (walledServices 30).candidateDistance flatMemory 3 (walledDistances 30) index = some x → ¬ x < 30 := by
      intro index hindex x hx hlt
      have hdistance := (Services.distance_of_candidate hx).2
      have hcases : index = 1 ∨ index = 2 := by
        simpa [Services.indices, walledServices, List.range'] using hindex
      rcases hcases with rfl | rfl
      · obtain rfl := Option.some.inj (hdistance : some (100 : ℝ) = some x)
        norm_num at hlt
      · obtain rfl := Option.some.inj (hdistance : some (50 : ℝ) = some x)
        norm_num at hlt
    have hnearest : nearest ((walledServices 30).candidateDistance flatMemory 3 (walledDistances 30))
        ((walledServices 30).viewBound flatMemory 3 (walledDistances 30)) (walledServices 30).indices = none := by
      rw [Option.eq_none_iff_forall_ne_some]
      intro index hnearest
      obtain ⟨hmem, x, hx, hlt⟩ := exists_distance_of_nearest hnearest
      exact hbehind index hmem x hx (hbound ▸ hlt)
    unfold Services.nearestTarget
    rw [hnearest]
    exact walled_struck (by norm_num)

end Refrigerator.Report
