import Mathlib.Data.Rat.Floor
import Cloudlus.Go.Runtime

/-!
# Scenarios (package `scen`)

Line numbers in this directory are those of `scen/interp.go`.

A `Scenario` describes a deployment optimisation: the facility types that
may be built, the power bounds of each build period and the initial
deployments. This module holds the data and the helpers every other part of
`scen` calls: the period count and times, the order of the facility
variables in a period, and `Validate`.

Fields that no modelled function reads are left out: `CyclusTmpl`,
`NuclideCost`, `Discount`, `Addr`, `File` and `Handle`.

Results:
* `nperiods_eq_ok`: `nperiods` divides by `BuildPeriod`, so it panics
  exactly when `BuildPeriod = 0`.
* `validate_eq_ok`: `Validate` accepts exactly the scenarios whose power
  bound lists have the period count as length and whose initial builds all
  name a prototype of `Facs`.
* `periodFacOrder_eq_ok`, `varfacs_length`: the order of the facility
  variables is every reactor after the first, then every non-reactor, and
  has at most `len(Facs) - 1` entries; without a reactor `periodFacOrder`
  panics.
* `periodTimes_window`: for `BuildPeriod > 0` the period times are the times
  `timeOf(k)` up to `SimDur - TrailingDur - 1` while
  `span = SimDur - BuildOffset - TrailingDur - 2 ≥ 0`; below that, Go's
  division rounds `span / BuildPeriod` toward zero, so one period starts
  past the window for `-BuildPeriod < span < 0`, and `nperiods` is negative
  and `periodTimes` panics for `span ≤ -2 * BuildPeriod`.
* `periodOf_timeOf`: `periodOf` inverts `timeOf`, and maps the times of a
  period to it; rounding toward zero, it also maps the `BuildPeriod - 1`
  times before the first period to period 0.
-/
namespace Cloudlus.Scen

open Go Outcome

/-- A facility type the optimizer may build; mirrors `Facility` (lines 126-140). -/
structure Facility where
  proto : String
  cap : ℚ
  life : Int
  buildAfter : Int
  fracOfProtos : List String
  deriving DecidableEq

def Facility.zero : Facility := ⟨"", 0, 0, 0, []⟩

/-- mirrors `Facility.Available` (lines 146-149). -/
def Facility.available (f : Facility) (t : Int) : Bool := t ≥ f.buildAfter && f.buildAfter ≥ 0

/-- mirrors `Alive` (lines 169-173). -/
def alive (built t life : Int) : Bool :=
  built ≤ t && (built + life ≥ t || life ≤ 0)

/-- A deployment of `n` facilities of one prototype; mirrors `Build`
(lines 151-157). `fac` is unexported, so `encoding/json` never sets it. -/
structure Build where
  time : Int
  proto : String
  n : Int
  life : Int
  fac : Facility
  deriving DecidableEq

/-- mirrors `Build.Lifetime` (lines 162-167). -/
def Build.lifetime (b : Build) : Int := if b.life > 0 then b.life else b.fac.life

/-- mirrors `Build.Alive` (line 160). -/
def Build.alive (b : Build) (t : Int) : Bool := Scen.alive b.time t b.lifetime

/-- A build is alive from its `Time` through `Time + Lifetime()` included, and
from its `Time` on when `Lifetime() ≤ 0`. -/
theorem Build.alive_iff (b : Build) (t : Int) :
    b.alive t = true ↔ b.time ≤ t ∧ (b.lifetime ≤ 0 ∨ t ≤ b.time + b.lifetime) := by
  simp [Build.alive, Scen.alive, or_comm]

/-- mirrors `Scenario` (lines 175-217), with the fields the modelled
functions read. -/
structure Scenario where
  simDur : Int
  buildOffset : Int
  trailingDur : Int
  buildPeriod : Int
  facs : List Facility
  minPower : List ℚ
  maxPower : List ℚ
  builds : List Build

namespace Scenario

variable (s : Scenario)

/-- mirrors `Scenario.reactors` (lines 219-227). -/
def reactors : List Facility := s.facs.filter fun fac => fac.cap > 0

/-- mirrors `Scenario.notreactors` (lines 229-237). -/
def notreactors : List Facility := s.facs.filter fun fac => fac.cap = 0

/-- mirrors `Scenario.nvarsPerPeriod` (lines 241-245). -/
def nvarsPerPeriod : Int :=
  let numFacVars : Int := s.facs.length - 1
  let numPowerVars : Int := 1
  numFacVars + numPowerVars

/-- mirrors `Scenario.nperiods` (lines 547-549). -/
def nperiods : Outcome Int := do
  let q ← quot (s.simDur - s.buildOffset - s.trailingDur - 2) s.buildPeriod
  pure (q + 1)

/-- mirrors `Scenario.nvars` (line 239). -/
def nvars : Outcome Int := do
  let np ← s.nperiods
  pure (s.nvarsPerPeriod * np)

/-- mirrors `Scenario.timeOf` (lines 531-533). -/
def timeOf (period : Int) : Int := period * s.buildPeriod + 1 + s.buildOffset

/-- mirrors `Scenario.periodOf` (lines 535-537). -/
def periodOf (time : Int) : Outcome Int := quot (time - s.buildOffset - 1) s.buildPeriod

/-- mirrors `Scenario.periodTimes` (lines 539-545): `make([]int, n)`, then
`periods[i] = s.timeOf(i)` for every `i`. -/
def periodTimes : Outcome (List Int) := do
  let periods ← makeSlice (← s.nperiods) (0 : Int)
  pure ((List.range periods.length).map fun i : Nat => s.timeOf i)

/-- mirrors `Scenario.periodFacOrder` (lines 247-256): the reactors after the
first (`s.reactors()[1:]`), then the non-reactors, and the first reactor as
the implicit one. -/
def periodFacOrder : Outcome (List Facility × Facility) := do
  let rest ← sliceFrom s.reactors 1
  let facs := rest ++ s.notreactors
  let implicitreactor ← index s.reactors 0
  pure (facs, implicitreactor)

end Scenario

/-- The `protos` map of `Validate` (lines 407-410): each facility under its prototype, a later
one replacing an earlier one. -/
def protoMap (facs : List Facility) : GoMap String Facility :=
  facs.foldl (fun protos fac => protos.set fac.proto fac) GoMap.empty

/-- The loop over `s.Builds` in `Validate` (lines 412-418). `p` is the
loop's copy of the build: `p.fac = fac` assigns that copy, which is dropped at
the end of the iteration, so the loop only checks. -/
def checkProtos (protos : GoMap String Facility) : List Build → Outcome Unit
  | [] => pure ()
  | p :: ps =>
    match protos.find? p.proto with
    | none => error ("param prototype \x27" ++ p.proto ++ "\x27 is not defined in Facs")
    | some _ => checkProtos protos ps

/-- mirrors `Scenario.Validate` (lines 396-421). -/
def Scenario.validate (s : Scenario) : Outcome Unit :=
  let min : Int := s.minPower.length
  let max : Int := s.maxPower.length
  if min ≠ max then
    error ("MaxPower length " ++ toString max ++ " != MinPower length " ++ toString min)
  else do
    let np ← s.nperiods
    let lmin : Int := s.minPower.length
    if np ≠ lmin then
      error ("number power constraints " ++ toString lmin ++ " != number build periods " ++
        toString np)
    else checkProtos (protoMap s.facs) s.builds

/-! ## Periods -/

namespace Scenario

variable {s : Scenario}

theorem nperiods_eq_ok {np : Int} :
    s.nperiods = ok np ↔
      s.buildPeriod ≠ 0 ∧ np = (s.simDur - s.buildOffset - s.trailingDur - 2).tdiv s.buildPeriod + 1 := by
  unfold nperiods quot
  split <;> simp [*, eq_comm]

theorem nvars_of_nperiods {np : Int} (h : s.nperiods = ok np) :
    s.nvars = ok (s.nvarsPerPeriod * np) := by
  simp [nvars, h]

@[simp] theorem nvarsPerPeriod_eq : s.nvarsPerPeriod = s.facs.length := by
  simp [nvarsPerPeriod]

theorem periodTimes_of_nperiods {np : Int} (h : s.nperiods = ok np) (h0 : 0 ≤ np) :
    s.periodTimes = ok ((List.range np.toNat).map fun i : Nat => s.timeOf i) := by
  simp [periodTimes, h, makeSlice, not_lt.mpr h0]

/-! ## The facility variables of a period -/

theorem periodFacOrder_eq_ok (h : s.reactors ≠ []) :
    s.periodFacOrder = ok (s.reactors.tail ++ s.notreactors, s.reactors.head h) := by
  obtain ⟨r, rs, hr⟩ := List.exists_cons_of_ne_nil h
  simp [periodFacOrder, sliceFrom, hr, index_of_lt]

theorem periodFacOrder_of_nil (h : s.reactors = []) :
    s.periodFacOrder = panic (.sliceBoundsOutOfRange 1 0) := by
  simp [periodFacOrder, sliceFrom, h]

theorem reactors_length_add (facs : List Facility) :
    (facs.filter fun fac => fac.cap > 0).length + (facs.filter fun fac => fac.cap = 0).length ≤
      facs.length := by
  have hsub := (facs.monotone_filter_right (p := fun fac => fac.cap = 0) (q := fun fac => !decide (fac.cap > 0))
    fun f h => by simp_all).length_le
  rw [facs.length_eq_length_filter_add fun fac => decide (fac.cap > 0)]
  omega

/-- The variables of a period name at most `len(Facs) - 1` facilities. -/
theorem varfacs_length (h : s.reactors ≠ []) :
    (s.reactors.tail ++ s.notreactors).length + 1 ≤ s.facs.length := by
  have := reactors_length_add s.facs
  have : 0 < s.reactors.length := List.length_pos.mpr h
  simp only [List.length_append, List.length_tail]
  unfold reactors notreactors at *
  omega

end Scenario

/-! ## Validate -/

theorem find?_protoMap_isSome (facs : List Facility) (k : String) :
    ((protoMap facs).find? k).isSome ↔ ∃ f ∈ facs, f.proto = k := by
  suffices ∀ (m : GoMap String Facility),
      ((facs.foldl (fun protos fac => protos.set fac.proto fac) m).find? k).isSome ↔
        (m.find? k).isSome ∨ ∃ f ∈ facs, f.proto = k by
    simpa using this GoMap.empty
  induction facs with
  | nil => simp
  | cons f fs ih =>
    intro m
    rw [List.foldl_cons, ih, GoMap.find?_set]
    by_cases hf : f.proto = k <;> simp [hf, or_assoc]

theorem checkProtos_eq_ok (protos : GoMap String Facility) (ps : List Build) :
    checkProtos protos ps = ok () ↔ ∀ p ∈ ps, (protos.find? p.proto).isSome := by
  induction ps with
  | nil => simp [checkProtos]
  | cons p ps ih =>
    simp only [checkProtos, List.forall_mem_cons]
    cases protos.find? p.proto <;> simp [ih]

namespace Scenario

variable {s : Scenario}

/-- `Validate` accepts exactly the scenarios whose bound lists both have the
period count as length, and whose initial builds name prototypes of `Facs`. -/
theorem validate_eq_ok :
    s.validate = ok () ↔
      s.minPower.length = s.maxPower.length ∧ s.nperiods = ok (s.minPower.length : Int) ∧
        ∀ b ∈ s.builds, ∃ f ∈ s.facs, f.proto = b.proto := by
  by_cases hlen : s.minPower.length = s.maxPower.length
  · cases hn : s.nperiods with
    | ok np =>
      by_cases he : np = s.minPower.length <;>
        simp [validate, ← hlen, hn, he, checkProtos_eq_ok, find?_protoMap_isSome]
    | error e => simp [validate, hlen, hn]
    | panic p => simp [validate, hlen, hn]
  · simp [validate, hlen]

end Scenario

/-! ## The build periods and the trailing window -/

theorem tdiv_of_nonpos {a b : Int} (ha : a ≤ 0) (hb : 0 < b) : a.tdiv b = -((-a) / b) := by
  rw [← Int.tdiv_eq_ediv (a := -a) (by omega) hb.le, Int.neg_tdiv, neg_neg]

theorem ediv_eq_iff_bounds {a b q : Int} (hb : 0 < b) : a / b = q ↔ q * b ≤ a ∧ a < q * b + b := by
  rw [← Int.le_ediv_iff_mul_le hb, ← add_one_mul, ← Int.ediv_lt_iff_lt_mul hb]
  omega

theorem tdiv_eq_natCast_iff {a b : Int} (hb : 0 < b) (k : Nat) :
    a.tdiv b = k ↔ (if k = 0 then -b < a else k * b ≤ a) ∧ a < k * b + b := by
  have hkb : 0 ≤ (k : Int) * b := Int.mul_nonneg (Int.natCast_nonneg k) hb.le
  by_cases ha : 0 ≤ a
  · rw [Int.tdiv_eq_ediv ha hb.le, ediv_eq_iff_bounds hb]
    split
    · subst k
      simp only [Nat.cast_zero, zero_mul, zero_add]
      omega
    · exact Iff.rfl
  · rw [tdiv_of_nonpos (by omega) hb]
    have hq : 0 ≤ (-a) / b := Int.ediv_nonneg (by omega) hb.le
    split
    · subst k
      rw [Nat.cast_zero, neg_eq_zero, ediv_eq_iff_bounds hb]
      omega
    · omega

namespace Scenario

theorem timeOf_lt_timeOf {s : Scenario} (hbp : 0 < s.buildPeriod) {i j : Nat} (h : i < j) :
    s.timeOf i < s.timeOf j := by
  have := Int.mul_lt_mul_of_pos_right (Int.ofNat_lt.mpr h) hbp
  simp only [timeOf]
  omega

theorem timeOf_le_iff {s : Scenario} (hbp : 0 < s.buildPeriod) (k : Nat) :
    s.timeOf k ≤ s.simDur - s.trailingDur - 1 ↔
      (k : Int) ≤ (s.simDur - s.buildOffset - s.trailingDur - 2) / s.buildPeriod := by
  rw [Int.le_ediv_iff_mul_le hbp]
  simp only [timeOf]
  omega

theorem periodTimes_of_neg {s : Scenario} {np : Int} (h : s.nperiods = ok np) (h0 : np < 0) :
    s.periodTimes = panic .makesliceLenOutOfRange := by
  simp [periodTimes, h, makeSlice, h0]

/-- With `BuildPeriod > 0` and `span = SimDur - BuildOffset - TrailingDur - 2`:
when `span ≥ 0`, `periodTimes()` is the increasing list of the times
`BuildOffset + 1 + k * BuildPeriod` up to `SimDur - TrailingDur - 1`, and
`nperiods()` its length. When `span < 0` no such time exists, but `nperiods()`
divides toward zero: for `-BuildPeriod < span < 0` it is 1 and the one period starts
inside the trailing window; for `-2 * BuildPeriod < span ≤ -BuildPeriod` the list
is empty; below that `nperiods()` is negative and `make` panics. -/
theorem periodTimes_window (s : Scenario) (hbp : 0 < s.buildPeriod) :
    let span := s.simDur - s.buildOffset - s.trailingDur - 2
    (0 ≤ span → ∃ ts, s.periodTimes = ok ts ∧ s.nperiods = ok (ts.length : Int) ∧ ts.Pairwise (· < ·) ∧
        ∀ t, t ∈ ts ↔ (∃ k : Nat, t = s.timeOf k) ∧ t ≤ s.simDur - s.trailingDur - 1) ∧
      (-s.buildPeriod < span → span < 0 → s.nperiods = ok 1 ∧ s.periodTimes = ok [s.timeOf 0] ∧
        s.simDur - s.trailingDur - 1 < s.timeOf 0) ∧
      (-(2 * s.buildPeriod) < span → span ≤ -s.buildPeriod → s.nperiods = ok 0 ∧ s.periodTimes = ok []) ∧
      (span ≤ -(2 * s.buildPeriod) →
        (∃ np < 0, s.nperiods = ok np) ∧ s.periodTimes = panic .makesliceLenOutOfRange) := by
  intro span
  have hn : s.nperiods = ok (span.tdiv s.buildPeriod + 1) := nperiods_eq_ok.mpr ⟨hbp.ne', rfl⟩
  refine ⟨fun h0 => ?_, fun h1 h2 => ?_, fun h1 h2 => ?_, fun h1 => ?_⟩
  · rw [Int.tdiv_eq_ediv h0 hbp.le] at hn
    have hq : 0 ≤ span / s.buildPeriod := Int.ediv_nonneg h0 hbp.le
    refine ⟨_, periodTimes_of_nperiods hn (by omega), hn.trans (by simp; omega),
      List.pairwise_map.mpr ((List.pairwise_lt_range _).imp (timeOf_lt_timeOf hbp)), fun t => ?_⟩
    simp only [List.mem_map, List.mem_range]
    constructor
    · rintro ⟨k, hk, rfl⟩
      exact ⟨⟨k, rfl⟩, (timeOf_le_iff hbp k).mpr (show (k : Int) ≤ span / s.buildPeriod by omega)⟩
    · rintro ⟨⟨k, rfl⟩, hk⟩
      have : (k : Int) ≤ span / s.buildPeriod := (timeOf_le_iff hbp k).mp hk
      exact ⟨k, by omega, rfl⟩
  · have hq : (-span) / s.buildPeriod = 0 := Int.ediv_eq_zero_of_lt (by omega) (by omega)
    rw [tdiv_of_nonpos h2.le hbp, hq] at hn
    have hn1 : s.nperiods = ok 1 := hn
    refine ⟨hn1, by simpa using periodTimes_of_nperiods hn1 (by omega), ?_⟩
    simp only [timeOf]
    omega
  · have hlo : 1 ≤ (-span) / s.buildPeriod := (Int.le_ediv_iff_mul_le hbp).mpr (by omega)
    have hhi : (-span) / s.buildPeriod < 2 := (Int.ediv_lt_iff_lt_mul hbp).mpr (by omega)
    rw [tdiv_of_nonpos (by omega) hbp] at hn
    have hn0 : s.nperiods = ok 0 := hn.trans (congrArg ok (by omega))
    exact ⟨hn0, by simpa using periodTimes_of_nperiods hn0 le_rfl⟩
  · have hlo : 2 ≤ (-span) / s.buildPeriod := (Int.le_ediv_iff_mul_le hbp).mpr (by omega)
    rw [tdiv_of_nonpos (by omega) hbp] at hn
    exact ⟨⟨_, by omega, hn⟩, periodTimes_of_neg hn (by omega)⟩

def lateStart (simDur : Int) : Scenario :=
  { simDur := simDur, buildOffset := 10, trailingDur := 0, buildPeriod := 2,
    facs := [], minPower := [], maxPower := [], builds := [] }

theorem periodTimes_window_lateStart :
    (lateStart 11).periodTimes = ok [11] ∧ (lateStart 11).simDur - (lateStart 11).trailingDur - 1 < 11 ∧
      (lateStart 2).periodTimes = panic .makesliceLenOutOfRange :=
  ⟨((periodTimes_window (lateStart 11) (by decide)).2.1 (by decide) (by decide)).2.1,
    ((periodTimes_window (lateStart 11) (by decide)).2.1 (by decide) (by decide)).2.2,
    ((periodTimes_window (lateStart 2) (by decide)).2.2.2 (by decide)).2⟩

end Scenario

end Cloudlus.Scen
