import Cloudlus.Scen.Capacity

/-!
# From optimizer variables to deployments (`TransformVars`)

`TransformVars` validates the scenario, checks the number of variables, and
then walks the build periods. In period `i` at time `t` it reads the power
variable, works out the capacity to build from the power bounds, the power
alive and the rounding errors so far, and then reads one variable per slot
`j = 1, 2, …` of the period's facility order `varfacs`:

* while `varfacs[j]` is a reactor, its variable is that reactor's share of
  what is left of the capacity to build (the reactor loop);
* then the implicit reactor (the first one) takes the rest;
* from the first non-reactor on, the variable is the facility's count as a
  fraction of the alive facilities of its `FracOfProtos`.

Every deployment is appended to the build map, the rounding error of its
prototype carried to the next one.

`fmt.Println(shouldhavepower)` only prints, and is not modelled.

Results:
* `transformVars_ok_iff`: once `Validate` accepts the scenario and the number
  of variables is right, `TransformVars` never returns an error, and it
  returns a build map exactly when there is a reactor and either a single
  facility type or no build period. In every other case it panics: without
  a reactor `periodFacOrder` slices `reactors()[1:]` of an empty slice, and
  with two or more facility types the slots of a period run to
  `len(Facs) - 1`, one past the end of `varfacs`, which has at most
  `len(Facs) - 1` entries.
-/
namespace Cloudlus.Scen

open Go Outcome

/-- What the period loop carries from one deployment to the next: the build
map and the rounding error of each prototype (`caperror`). -/
structure Deploy where
  builds : BuildMap
  caperror : GoMap String ℚ

/-- `int(math.Max(0, math.Floor(x+0.5)))`: `x` rounded half up, at least 0. -/
def nbuildOf (x : ℚ) : Int := max 0 ⌊x + 1 / 2⌋

/-- One reactor deployment (lines 313-323, and 334-344 for the implicit
reactor): as many units of `fac` as bring `facfrac` of `captobuild`, with the
rounding error of the prototype carried over. -/
def Deploy.reactor (d : Deploy) (t : Int) (fac : Facility) (facfrac captobuild : ℚ) : Deploy :=
  let caperr := d.caperror.get fac.proto 0
  let wantcap := facfrac * captobuild + caperr
  let nbuild := nbuildOf (wantcap / fac.cap)
  { caperror := d.caperror.set fac.proto (wantcap - nbuild * fac.cap),
    builds := appendBuild d.builds fac.proto ⟨t, fac.proto, nbuild, 0, fac⟩ }

/-- One deployment of a non-reactor (lines 351-363): as many units of `fac`
as make it `facfrac` of the alive facilities of its `FracOfProtos`, counting
the alive ones of its own prototype. -/
def Deploy.other (d : Deploy) (t : Int) (fac : Facility) (facfrac : ℚ) : Deploy :=
  let caperr := d.caperror.get fac.proto 0
  let haven : ℚ := naliveproto d.builds t [fac.proto]
  let needn := facfrac * naliveproto d.builds t fac.fracOfProtos + caperr
  let wantn := max 0 (needn - haven)
  let nbuild := nbuildOf wantn
  { caperror := d.caperror.set fac.proto (wantn - nbuild),
    builds := appendBuild d.builds fac.proto ⟨t, fac.proto, nbuild, 0, fac⟩ }

namespace Scenario

variable (s : Scenario)

/-- Where period `i` reads its power variable (line 290). -/
def powerVarIndex (i : Int) : Int := i * s.nvarsPerPeriod

/-- Where period `i` reads the variable of slot `j` (lines 307 and 348). -/
def facVarIndex (i j : Int) : Int := s.buildPeriod * i + j

end Scenario

section Loops

variable (s : Scenario) (vars : List ℚ) (varfacs : List Facility) (i t : Int)

/-- The reactor loop of period `i` (lines 304-328) from slot `j`, with `fuel`
iterations left before `j < s.nvarsPerPeriod()` fails. It stops at the first
slot that is not a reactor (`break`), and returns that slot and the reactor
fraction so far. -/
def reactorLoop (captobuild : ℚ) : Nat → Int → ℚ → Deploy → Outcome (Int × ℚ × Deploy)
  | 0, j, reactorfrac, d => ok (j, reactorfrac, d)
  | fuel + 1, j, reactorfrac, d => do
    let val ← index vars (s.facVarIndex i j)
    let fac ← index varfacs j
    if fac.cap > 0 then
      let facfrac := (1 - reactorfrac) * val
      reactorLoop captobuild fuel (j + 1) (reactorfrac + facfrac) (d.reactor t fac facfrac captobuild)
    else ok (j, reactorfrac, d)

/-- The loop over the remaining slots (lines 346-364), from slot `j`, with
`fuel` iterations left. -/
def otherLoop : Nat → Int → Deploy → Outcome Deploy
  | 0, _, d => ok d
  | fuel + 1, j, d => do
    let facfrac ← index vars (s.facVarIndex i j)
    let fac ← index varfacs j
    otherLoop fuel (j + 1) (d.other t fac facfrac)

end Loops

/-- One build period of `TransformVars` (lines 287-364): period `i`, at time
`t`. -/
def period (s : Scenario) (vars : List ℚ) (varfacs : List Facility) (implicitreactor : Facility)
    (d : Deploy) (i : Nat) (t : Int) : Outcome Deploy := do
  let minpow ← index s.minPower i
  let maxpow ← index s.maxPower i
  let currpower := powercap d.builds t
  let powervar ← index vars (s.powerVarIndex i)
  let toterr := d.caperror.values.sum
  let shouldhavepower := currpower + toterr
  let captobuild := max (minpow - shouldhavepower) 0
  let powerrange := maxpow - (shouldhavepower + captobuild)
  let captobuild := captobuild + powervar * powerrange
  let (j, reactorfrac, d) ←
    reactorLoop s vars varfacs i t captobuild (s.nvarsPerPeriod - 1).toNat 1 0 d
  let d := d.reactor t implicitreactor (1 - reactorfrac) captobuild
  otherLoop s vars varfacs i t (s.nvarsPerPeriod - j).toNat j d

/-- The period loop, `for i, t := range s.periodTimes()` (line 286), from period `i`
on. -/
def periods (s : Scenario) (vars : List ℚ) (varfacs : List Facility) (implicitreactor : Facility) :
    Nat → List Int → Deploy → Outcome Deploy
  | _, [], d => ok d
  | i, t :: ts, d => do
    let d ← period s vars varfacs implicitreactor d i t
    periods s vars varfacs implicitreactor (i + 1) ts d

/-- mirrors `Scenario.TransformVars` (lines 271-368). -/
def Scenario.transformVars (s : Scenario) (vars : List ℚ) : Outcome BuildMap := do
  s.validate
  let nvars ← s.nvars
  if (vars.length : Int) ≠ nvars then
    error ("wrong number of vars: want " ++ toString nvars ++ ", got " ++ toString vars.length)
  else do
    let (varfacs, implicitreactor) ← s.periodFacOrder
    let times ← s.periodTimes
    let d ← periods s vars varfacs implicitreactor 0 times ⟨initialBuilds s.builds, GoMap.empty⟩
    pure d.builds

/-! ## No errors after the checks -/

theorem index_noError {α : Type} (xs : List α) (i : Int) : (index xs i).NoError := by
  unfold index; split <;> intro e <;> simp

section Loops

variable {s : Scenario} {vars : List ℚ} {varfacs : List Facility} {i t : Int}

theorem reactorLoop_noError (captobuild : ℚ) :
    ∀ fuel j rf d, (reactorLoop s vars varfacs i t captobuild fuel j rf d).NoError
  | 0, _, _, _ => by intro e; simp [reactorLoop]
  | fuel + 1, j, rf, d => by
    refine (index_noError _ _).bind fun _ _ => (index_noError _ _).bind fun fac _ => ?_
    split
    · exact reactorLoop_noError captobuild fuel _ _ _
    · intro e; simp

theorem otherLoop_noError : ∀ fuel j d, (otherLoop s vars varfacs i t fuel j d).NoError
  | 0, _, _ => by intro e; simp [otherLoop]
  | fuel + 1, j, d =>
    (index_noError _ _).bind fun _ _ => (index_noError _ _).bind fun _ _ => otherLoop_noError fuel _ _

end Loops

theorem period_noError (s : Scenario) (vars : List ℚ) (varfacs : List Facility) (ir : Facility)
    (d : Deploy) (i : Nat) (t : Int) : (period s vars varfacs ir d i t).NoError :=
  (index_noError _ _).bind fun _ _ => (index_noError _ _).bind fun _ _ =>
    (index_noError _ _).bind fun _ _ => (reactorLoop_noError _ _ _ _ _).bind fun _ _ =>
      otherLoop_noError _ _ _

theorem periods_noError (s : Scenario) (vars : List ℚ) (varfacs : List Facility) (ir : Facility) :
    ∀ i ts d, (periods s vars varfacs ir i ts d).NoError
  | _, [], _ => by intro e; simp [periods]
  | i, t :: ts, d => (period_noError _ _ _ _ _ _ _).bind fun _ _ => periods_noError s vars varfacs ir _ ts _

/-! ## Where the slots run past `varfacs` -/

section Loops

variable {s : Scenario} {vars : List ℚ} {varfacs : List Facility} {i t : Int}

/-- The other-facilities loop panics as soon as its slots reach past the end
of `varfacs`. -/
theorem otherLoop_panics : ∀ {fuel : Nat} {j : Int} (d : Deploy), 0 ≤ j → 0 < fuel →
    varfacs.length < j + fuel → ∃ p, otherLoop s vars varfacs i t fuel j d = panic p
  | 0, _, _, _, h0, _ => absurd h0 (Nat.lt_irrefl 0)
  | fuel + 1, j, d, hj, _, hlen => by
    unfold otherLoop
    by_cases hv : 0 ≤ s.facVarIndex i j ∧ s.facVarIndex i j < vars.length
    · simp only [index, dif_pos hv, ok_bind]
      by_cases hf : j < varfacs.length
      · rw [dif_pos ⟨hj, hf⟩, ok_bind]
        exact otherLoop_panics _ (by omega) (by omega) (by omega)
      · exact ⟨_, by rw [dif_neg (by omega), panic_bind]⟩
    · exact ⟨_, by rw [index, dif_neg hv, panic_bind]⟩

/-- The reactor loop either panics or stops at slot `j'`: at the first slot
that is not a reactor, within `varfacs`, or after its last iteration, all of
whose slots were within `varfacs`. -/
theorem reactorLoop_cases (captobuild : ℚ) : ∀ (fuel : Nat) (j : Int) (rf : ℚ) (d : Deploy), 0 ≤ j →
    (∃ p, reactorLoop s vars varfacs i t captobuild fuel j rf d = panic p) ∨
      ∃ j' rf' d', reactorLoop s vars varfacs i t captobuild fuel j rf d = ok (j', rf', d') ∧
        j ≤ j' ∧ (j' < j + fuel ∧ j' < varfacs.length ∨ j' = j + fuel ∧ (fuel = 0 ∨ j + fuel ≤ varfacs.length))
  | 0, j, rf, d, _ => .inr ⟨j, rf, d, rfl, le_refl j, .inr ⟨by simp, .inl rfl⟩⟩
  | fuel + 1, j, rf, d, hj => by
    unfold reactorLoop
    by_cases hv : 0 ≤ s.facVarIndex i j ∧ s.facVarIndex i j < vars.length
    · simp only [index, dif_pos hv, ok_bind]
      by_cases hf : j < varfacs.length
      · rw [dif_pos ⟨hj, hf⟩, ok_bind]
        split
        · rcases reactorLoop_cases captobuild fuel (j + 1) _ _ (by omega) with h | ⟨j', rf', d', h, hle, hj'⟩
          · exact .inl h
          · refine .inr ⟨j', rf', d', h, by omega, ?_⟩
            push_cast at hj' ⊢
            omega
        · exact .inr ⟨j, rf, d, rfl, le_refl j, .inl ⟨by omega, hf⟩⟩
      · exact .inl ⟨_, by rw [dif_neg (by omega), panic_bind]⟩
    · exact .inl ⟨_, by rw [index, dif_neg hv, panic_bind]⟩

end Loops

/-- A period with two or more facility slots panics when `varfacs` is
shorter than the slots. -/
theorem period_panics (s : Scenario) (vars : List ℚ) (varfacs : List Facility) (ir : Facility)
    (d : Deploy) (i : Nat) (t : Int) (h2 : 2 ≤ s.nvarsPerPeriod)
    (hlen : varfacs.length < s.nvarsPerPeriod) :
    ∃ p, period s vars varfacs ir d i t = panic p := by
  unfold period
  refine (index_noError _ _).bind_panic fun _ _ => (index_noError _ _).bind_panic fun _ _ =>
    (index_noError _ _).bind_panic fun _ _ => ?_
  dsimp only
  rcases reactorLoop_cases _ (s.nvarsPerPeriod - 1).toNat 1 0 d (by omega) with
    ⟨p, hp⟩ | ⟨j', rf', d', h, hle, hj'⟩
  · exact ⟨p, by rw [hp, panic_bind]⟩
  · rw [h, ok_bind]
    exact otherLoop_panics _ (by omega) (by omega) (by omega)

/-- With a single facility type every period reads only its bounds and its
power variable, and returns. -/
theorem period_ok_of_single {s : Scenario} {vars : List ℚ} {varfacs : List Facility} (ir : Facility)
    (d : Deploy) {i : Nat} (t : Int) (h1 : s.facs.length = 1) (hmin : i < s.minPower.length)
    (hmax : i < s.maxPower.length) (hvars : i < vars.length) :
    ∃ d', period s vars varfacs ir d i t = ok d' := by
  have hpow : s.powerVarIndex i = (i : Nat) := by simp [Scenario.powerVarIndex, h1]
  simp [period, index_of_lt _ hmin, index_of_lt _ hmax, hpow, index_of_lt _ hvars, h1,
    reactorLoop, otherLoop]

theorem periods_ok {s : Scenario} {vars : List ℚ} {varfacs : List Facility} {ir : Facility} {n : Nat}
    (h : ∀ d (k : Nat) t, k < n → ∃ d', period s vars varfacs ir d k t = ok d') :
    ∀ (i : Nat) (ts : List Int) (d : Deploy), i + ts.length ≤ n →
      ∃ d', periods s vars varfacs ir i ts d = ok d'
  | _, [], d, _ => ⟨d, rfl⟩
  | i, t :: ts, d, hn => by
    obtain ⟨d', hd'⟩ := h d i t (by simp at hn; omega)
    simp only [periods, hd', ok_bind]
    exact periods_ok h (i + 1) ts d' (by simp at hn; omega)

/-! ## The outcome -/

/-- Once `Validate` accepts, `nvars()` variables are `len(Facs)` for each of
the `len(MinPower)` periods. -/
theorem vars_length_of_nvars {s : Scenario} {vars : List ℚ} (hv : s.validate = ok ())
    (hl : s.nvars = ok (vars.length : Int)) : vars.length = s.facs.length * s.minPower.length := by
  obtain ⟨-, hn, -⟩ := Scenario.validate_eq_ok.mp hv
  rw [Scenario.nvars_of_nperiods hn, Scenario.nvarsPerPeriod_eq] at hl
  exact_mod_cast (Outcome.ok.inj hl).symm

/-- After the checks, `TransformVars` is its period loop over `periodFacOrder`. -/
theorem transformVars_eq {s : Scenario} {vars : List ℚ} (hv : s.validate = ok ())
    (hl : s.nvars = ok (vars.length : Int)) :
    s.transformVars vars = s.periodFacOrder >>= fun fo =>
      periods s vars fo.1 fo.2 0 ((List.range s.minPower.length).map fun i : Nat => s.timeOf i)
        ⟨initialBuilds s.builds, GoMap.empty⟩ >>= fun d => ok d.builds := by
  obtain ⟨-, hn, -⟩ := Scenario.validate_eq_ok.mp hv
  rw [Scenario.transformVars, hv, hl, Scenario.periodTimes_of_nperiods hn (by positivity)]
  cases s.periodFacOrder <;> simp

/-- Once `Validate` accepts the scenario and the number of variables is
`nvars()`, `TransformVars` never returns an error, and it returns a build
map exactly when the scenario has a reactor and either a single facility
type or no build period; otherwise it panics. -/
theorem transformVars_ok_iff (s : Scenario) (vars : List ℚ) (hv : s.validate = ok ())
    (hl : s.nvars = ok (vars.length : Int)) :
    (∀ e, s.transformVars vars ≠ error e) ∧
      ((∃ m, s.transformVars vars = ok m) ↔ s.reactors ≠ [] ∧ (s.facs.length = 1 ∨ s.minPower = [])) := by
  obtain ⟨hlen, -, -⟩ := Scenario.validate_eq_ok.mp hv
  have hvars := vars_length_of_nvars hv hl
  rw [transformVars_eq hv hl]
  by_cases hr : s.reactors = []
  · simp [Scenario.periodFacOrder_of_nil hr, hr]
  rw [Scenario.periodFacOrder_eq_ok hr, ok_bind]
  have hvf := Scenario.varfacs_length hr
  refine ⟨(periods_noError _ _ _ _ _ _ _).bind fun _ _ e => by simp, ?_⟩
  simp only [ne_eq, hr, not_false_eq_true, true_and]
  by_cases hm : s.minPower = []
  · simp [hm, periods]
  by_cases h1 : s.facs.length = 1
  · have hsingle : ∀ d (k : Nat) t, k < s.minPower.length →
        ∃ d', period s vars (s.reactors.tail ++ s.notreactors) (s.reactors.head hr) d k t = ok d' :=
      fun d k t hk => period_ok_of_single _ d t h1 hk (hlen ▸ hk) (by rw [hvars, h1]; omega)
    obtain ⟨d', hd'⟩ := periods_ok hsingle 0 ((List.range s.minPower.length).map fun i : Nat => s.timeOf i)
      ⟨initialBuilds s.builds, GoMap.empty⟩ (by simp)
    simp [hd', h1]
  · obtain ⟨p, hp⟩ := period_panics s vars _ (s.reactors.head hr) ⟨initialBuilds s.builds, GoMap.empty⟩
      0 (s.timeOf 0) (by simp; omega) (by simp; exact hvf)
    obtain ⟨m, hm'⟩ : ∃ m, s.minPower.length = m + 1 :=
      Nat.exists_eq_succ_of_ne_zero fun h => hm (List.length_eq_zero.mp h)
    simpa [hm', List.range_succ_eq_map, periods, hp, h1] using hm

/-- Two reactor types and one build period. -/
def twoReactors : Scenario :=
  { simDur := 2, buildOffset := 0, trailingDur := 0, buildPeriod := 1,
    facs := [⟨"lwr", 1, 0, 0, []⟩, ⟨"fr", 1, 0, 0, []⟩], minPower := [0], maxPower := [0],
    builds := [] }

/-- `Validate` accepts the scenario and two variables are its `nvars()`, yet
`TransformVars` reads slot 1 of `varfacs`, which holds only the second
reactor, and panics. -/
theorem transformVars_ok_iff_twoReactors :
    twoReactors.validate = ok () ∧ twoReactors.nvars = ok 2 ∧
      twoReactors.transformVars [0, 0] = panic (.indexOutOfRange 1 1) ∧
      ¬ ∃ m, twoReactors.transformVars [0, 0] = ok m := by
  have hv : twoReactors.validate = ok () := by decide
  have hl : twoReactors.nvars = ok 2 := by decide
  exact ⟨hv, hl, by decide, fun h => by
    simpa [twoReactors] using (transformVars_ok_iff twoReactors [0, 0] hv hl).2.mp h⟩

end Cloudlus.Scen
