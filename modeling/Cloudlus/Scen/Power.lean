import Cloudlus.Scen.Transform

/-!
# What the power variable of a period asks for

In each period `TransformVars` computes `shouldhavepower`, the power alive at
the period's time plus the rounding errors carried so far, and from it the
capacity to build,

    captobuild = max(MinPower[i] - shouldhavepower, 0) + powervar * powerrange,

so that `shouldhavepower + captobuild` moves from
`max(shouldhavepower, MinPower[i])` at `powervar = 0` to `MaxPower[i]` at
`powervar = 1`. A deployment rounds the capacity it wants to whole
facilities and carries the rest in `caperror`.

The scenarios whose runs return are those with one facility type
(`transformVars_ok_iff`); their periods deploy only the implicit reactor.

Results:
* `nbuildOf_nonneg`, `sub_nbuildOf_lt`, `le_sub_nbuildOf`: rounding half up,
  and at least 0, leaves a remainder below one half, and not below minus one
  half unless the value was.
* `reactor_carry`: a reactor deployment builds `n ≥ 0` units with
  `n * Cap + caperror' = facfrac * captobuild + caperror` and
  `caperror' < Cap / 2`.
* `powercap_appendBuild`: appending a build adds its capacity if it is alive.
* `period_single`: with one facility type, every period of every run brings
  the power alive at its time plus the carried error to
  `m + powervar * (MaxPower[i] - m)` for `m = max(shouldhavepower, MinPower[i])`,
  the carried error staying below `Cap / 2`.
* `period_single_within_bounds`: so with `0 ≤ powervar ≤ 1`, bounds in
  order, no more than `MaxPower[i]` already there and a carried error of at
  least `-Cap / 2`, the power alive after the period lies within half a
  reactor of `[MinPower[i], MaxPower[i]]`, and the carried error stays within
  `[-Cap / 2, Cap / 2)`.
* `periods_single_builds`: the periods append one build of the reactor per
  period, with `N ≥ 0`, and touch no other prototype;
  `transformVars_ignores_available`: so when the first period's bound needs
  at least half a reactor more than the initial builds give, the first period
  builds one with `N > 0`, whatever `BuildAfter` and `Available` say.
-/
namespace Cloudlus.Scen

open Go Outcome

/-! ## Rounding to whole facilities -/

theorem nbuildOf_nonneg (x : ℚ) : 0 ≤ nbuildOf x := le_max_left _ _

theorem sub_nbuildOf_lt (x : ℚ) : x - nbuildOf x < 1 / 2 := by
  have hfl := Int.lt_floor_add_one (x + 1 / 2)
  have hle : (⌊x + 1 / 2⌋ : ℚ) ≤ nbuildOf x := Int.cast_le.mpr (le_max_right _ _)
  linarith

theorem le_sub_nbuildOf {x : ℚ} (hx : -(1 / 2) ≤ x) : -(1 / 2) ≤ x - nbuildOf x := by
  have h : 0 ≤ ⌊x + 1 / 2⌋ := Int.floor_nonneg.mpr (neg_le_iff_add_nonneg.mp hx)
  rw [nbuildOf, max_eq_right h, le_sub_comm, sub_neg_eq_add]
  exact Int.floor_le (x + 1 / 2)

/-- One reactor deployment: `n ≥ 0` units of `fac` at time `t`, and the
carried error `e'` of its prototype with `n * Cap + e' = wantcap`, below half
a unit, and not below minus half a unit unless `wantcap` was. -/
theorem reactor_carry (d : Deploy) (t : Int) (fac : Facility) (facfrac captobuild : ℚ)
    (hcap : 0 < fac.cap) :
    ∃ n e', 0 ≤ n ∧
      d.reactor t fac facfrac captobuild =
        ⟨appendBuild d.builds fac.proto ⟨t, fac.proto, n, 0, fac⟩, d.caperror.set fac.proto e'⟩ ∧
      n * fac.cap + e' = facfrac * captobuild + d.caperror.get fac.proto 0 ∧
      e' < fac.cap / 2 ∧
      (-(fac.cap / 2) ≤ facfrac * captobuild + d.caperror.get fac.proto 0 → -(fac.cap / 2) ≤ e') := by
  set w := facfrac * captobuild + d.caperror.get fac.proto 0
  have hlt := sub_nbuildOf_lt (w / fac.cap)
  have hrem : w / fac.cap - nbuildOf (w / fac.cap) = (w - nbuildOf (w / fac.cap) * fac.cap) / fac.cap := by
    rw [sub_div, mul_div_cancel_right₀ _ hcap.ne']
  refine ⟨nbuildOf (w / fac.cap), w - nbuildOf (w / fac.cap) * fac.cap, nbuildOf_nonneg _, rfl,
    by ring, ?_, fun hw => ?_⟩
  · rwa [hrem, div_lt_iff₀ hcap, one_div_mul_eq_div] at hlt
  · have hge := le_sub_nbuildOf (x := w / fac.cap) (by rwa [le_div_iff₀ hcap, neg_mul, one_div_mul_eq_div])
    rwa [hrem, le_div_iff₀ hcap, neg_mul, one_div_mul_eq_div] at hge

/-! ## Sums over a map after an assignment -/

theorem sum_map_assocSet {κ ν : Type} [DecidableEq κ] (g : ν → ℚ) (es : List (κ × ν)) (k : κ) (v : ν) :
    ((assocSet es k v).map fun e => g e.2).sum =
      (es.map fun e => g e.2).sum - (((es.find? (·.1 = k)).map Prod.snd).map g).getD 0 + g v := by
  induction es with
  | nil => simp [assocSet]
  | cons e es ih =>
    simp only [assocSet]
    split
    · simp [*, List.find?_cons, add_comm]
    · simp [*, List.find?_cons]; ring

/-- The sum of `g` over a map's values after `m[k] = v`. -/
theorem sum_values_set {κ ν : Type} [DecidableEq κ] (g : ν → ℚ) (m : GoMap κ ν) (k : κ) (v : ν) :
    ((m.set k v).values.map g).sum = (m.values.map g).sum - ((m.find? k).map g).getD 0 + g v := by
  simpa [GoMap.values, GoMap.set, GoMap.find?, Option.map_map] using sum_map_assocSet g m.entries k v

theorem powercap_appendBuild (m : BuildMap) (p : String) (b : Build) (t : Int) :
    powercap (appendBuild m p b) t = powercap m t + if b.alive t then b.fac.cap * b.n else 0 := by
  set f : List Build → ℚ := fun bs => ((aliveAt t bs).map fun b => b.fac.cap * (b.n : ℚ)).sum
  have happ : ∀ bs, f (bs ++ [b]) = f bs + if b.alive t then b.fac.cap * b.n else 0 := fun bs => by
    by_cases h : b.alive t <;> simp [f, aliveAt, h]
  have hold : ((m.find? p).map f).getD 0 = f (m.get p []) := by
    cases h : m.find? p <;> simp [GoMap.get, f, aliveAt, h]
  rw [powercap_eq, powercap_eq, appendBuild]
  erw [sum_values_set f, hold, happ]
  ring

/-- A build deployed at `t` is alive at `t`, whatever its lifetime. -/
theorem alive_at_own_time (t : Int) (p : String) (n : Int) (fac : Facility) :
    (⟨t, p, n, 0, fac⟩ : Build).alive t := by
  simp [Build.alive, alive, Build.lifetime]
  omega

/-! ## One period with one facility type -/

section Single

variable {s : Scenario} {vars : List ℚ} {varfacs : List Facility} {r : Facility} {d : Deploy}
  {i : Nat} {t : Int}

/-- With one facility type a period reads its bounds and power variable and
deploys the implicit reactor towards all of `captobuild`. -/
theorem period_single_eq (h1 : s.facs.length = 1) (hmin : i < s.minPower.length)
    (hmax : i < s.maxPower.length) (hvars : i < vars.length) :
    let shp := powercap d.builds t + d.caperror.values.sum
    period s vars varfacs r d i t =
      ok (d.reactor t r 1 (max (s.minPower[i] - shp) 0 +
        vars[i] * (s.maxPower[i] - (shp + max (s.minPower[i] - shp) 0)))) := by
  have hpow : s.powerVarIndex i = (i : Nat) := by simp [Scenario.powerVarIndex, h1]
  simp [period, index_of_lt _ hmin, index_of_lt _ hmax, hpow, index_of_lt _ hvars, h1,
    reactorLoop, otherLoop]

/-- `shouldhavepower` plus `max(MinPower[i] - shouldhavepower, 0)`. -/
theorem add_max_sub_zero (a b : ℚ) : a + max (b - a) 0 = max a b := by
  rw [← max_add_add_left, add_sub_cancel, add_zero, max_comm]

/-- With one facility type, every period brings the power alive at its time
plus the carried error to `goal = m + powervar * (MaxPower[i] - m)`, where `m`
is the larger of `MinPower[i]` and that sum before the period; the carried
error stays below `Cap / 2`, is not below `-Cap / 2` when the power alive
before the period is not above `goal + Cap / 2`, and remains the only one. -/
theorem period_single (h1 : s.facs.length = 1) (hcap : 0 < r.cap) (hmin : i < s.minPower.length)
    (hmax : i < s.maxPower.length) (hvars : i < vars.length)
    (hE : d.caperror.values.sum = d.caperror.get r.proto 0) :
    let shp := powercap d.builds t + d.caperror.get r.proto 0
    let goal := max shp s.minPower[i] + vars[i] * (s.maxPower[i] - max shp s.minPower[i])
    ∃ d', period s vars varfacs r d i t = ok d' ∧
      (∃ n, 0 ≤ n ∧ d'.builds = appendBuild d.builds r.proto ⟨t, r.proto, n, 0, r⟩) ∧
      d'.caperror.values.sum = d'.caperror.get r.proto 0 ∧
      d'.caperror.get r.proto 0 < r.cap / 2 ∧
      (powercap d.builds t - r.cap / 2 ≤ goal → -(r.cap / 2) ≤ d'.caperror.get r.proto 0) ∧
      powercap d'.builds t + d'.caperror.get r.proto 0 = goal := by
  intro shp goal
  have hshp : shp = powercap d.builds t + d.caperror.get r.proto 0 := rfl
  have hgoal : goal = max shp s.minPower[i] + vars[i] * (s.maxPower[i] - max shp s.minPower[i]) := rfl
  have hm := add_max_sub_zero shp s.minPower[i]
  obtain ⟨n, e', hn, hd, hsum, hlt, hge⟩ := reactor_carry d t r 1
    (max (s.minPower[i] - shp) 0 + vars[i] * (s.maxPower[i] - (shp + max (s.minPower[i] - shp) 0))) hcap
  rw [hm] at hsum hge
  have hget : (d.caperror.set r.proto e').get r.proto 0 = e' := by simp [GoMap.get]
  refine ⟨_, (period_single_eq h1 hmin hmax hvars).trans (by rw [hE, hd]), ⟨n, hn, rfl⟩, ?_, ?_,
    fun hw => ?_, ?_⟩
  · have := sum_values_set id d.caperror r.proto e'
    rw [List.map_id, List.map_id, hE] at this
    rw [hget, this]
    cases h : d.caperror.find? r.proto <;> simp [GoMap.get, h]
  · rwa [hget]
  · rw [hget]
    exact hge (by linarith)
  · rw [hget, powercap_appendBuild, if_pos (alive_at_own_time _ _ _ _)]
    linarith

/-- `m + powervar * (MaxPower[i] - m)` is not below `MinPower[i]` once `m` is
not, the bounds are in order and `0 ≤ powervar ≤ 1`. -/
theorem le_goal {lo hi m v : ℚ} (hm : lo ≤ m) (hb : lo ≤ hi) (hv : 0 ≤ v ∧ v ≤ 1) :
    lo ≤ m + v * (hi - m) := by
  rcases le_total m hi with h | h
  · exact hm.trans (le_add_of_nonneg_right (mul_nonneg hv.1 (sub_nonneg.mpr h)))
  · calc lo ≤ hi := hb
      _ = m + 1 * (hi - m) := by rw [one_mul, add_sub_cancel]
      _ ≤ m + v * (hi - m) := add_le_add_left (mul_le_mul_of_nonpos_right hv.2 (sub_nonpos.mpr h)) m

/-- With `0 ≤ powervar ≤ 1`, `MinPower[i] ≤ MaxPower[i]`, no more than
`MaxPower[i]` alive and carried before the period and a carried error of at
least `-Cap / 2`, the power alive after the period is within half a reactor
of `[MinPower[i], MaxPower[i]]`, and the carried error within
`[-Cap / 2, Cap / 2)`. -/
theorem period_single_within_bounds (h1 : s.facs.length = 1) (hcap : 0 < r.cap)
    (hmin : i < s.minPower.length) (hmax : i < s.maxPower.length) (hvars : i < vars.length)
    (hE : d.caperror.values.sum = d.caperror.get r.proto 0)
    (hv : 0 ≤ vars[i] ∧ vars[i] ≤ 1) (hb : s.minPower[i] ≤ s.maxPower[i])
    (hshp : powercap d.builds t + d.caperror.get r.proto 0 ≤ s.maxPower[i])
    (hE0 : -(r.cap / 2) ≤ d.caperror.get r.proto 0) :
    ∃ d', period s vars varfacs r d i t = ok d' ∧
      s.minPower[i] - r.cap / 2 < powercap d'.builds t ∧ powercap d'.builds t ≤ s.maxPower[i] + r.cap / 2 ∧
      -(r.cap / 2) ≤ d'.caperror.get r.proto 0 ∧ d'.caperror.get r.proto 0 < r.cap / 2 := by
  obtain ⟨d', hp, -, -, hlt, hge, heq⟩ := @period_single s vars varfacs r d i t h1 hcap hmin hmax hvars hE
  set shp := powercap d.builds t + d.caperror.get r.proto 0 with hs
  set m := max shp s.minPower[i]
  have hm : shp ≤ m ∧ m ≤ s.maxPower[i] := ⟨le_max_left _ _, max_le hshp hb⟩
  have hlo := le_goal (le_max_right shp s.minPower[i]) hb hv
  have hrange := mul_nonneg hv.1 (sub_nonneg.mpr hm.2)
  have hhi := mul_le_of_le_one_left (sub_nonneg.mpr hm.2) hv.2
  have he' := hge <| calc
    powercap d.builds t - r.cap / 2 ≤ shp := by rw [hs, sub_eq_add_neg]; exact add_le_add_left hE0 _
    _ ≤ m := hm.1
    _ ≤ m + vars[i] * (s.maxPower[i] - m) := le_add_of_nonneg_right hrange
  exact ⟨d', hp, by linarith, by linarith, he', hlt⟩

/-- Every run of the period loop of a one-facility scenario, from a state whose
only carried error is the implicit reactor's, only appends: under the implicit
reactor's prototype one build of `n ≥ 0` reactors at each period's time, and
nothing under any other prototype. -/
theorem periods_single_builds (h1 : s.facs.length = 1) (hcap : 0 < r.cap) :
    ∀ (ts : List Int) (i : Nat) (d : Deploy), i + ts.length ≤ s.minPower.length →
      i + ts.length ≤ s.maxPower.length → i + ts.length ≤ vars.length →
      d.caperror.values.sum = d.caperror.get r.proto 0 →
      ∃ d' ns, periods s vars varfacs r i ts d = ok d' ∧ ns.length = ts.length ∧ (∀ n ∈ ns, 0 ≤ n) ∧
        d'.builds.get r.proto [] =
          d.builds.get r.proto [] ++ List.zipWith (fun t n => ⟨t, r.proto, n, 0, r⟩) ts ns ∧
        ∀ q, q ≠ r.proto → d'.builds.get q [] = d.builds.get q [] := by
  intro ts
  induction ts with
  | nil => exact fun _ d _ _ _ _ => ⟨d, [], rfl, rfl, by simp, by simp, fun _ _ => rfl⟩
  | cons t ts ih =>
    intro i d hmin hmax hvars hE
    simp only [List.length_cons] at hmin hmax hvars
    obtain ⟨d₁, hp, ⟨n, hn, hd⟩, hE₁, -⟩ :=
      @period_single s vars varfacs r d i t h1 hcap (by omega) (by omega) (by omega) hE
    obtain ⟨d', ns, hps, hlen, hns, hget, hother⟩ :=
      ih (i + 1) d₁ (by omega) (by omega) (by omega) hE₁
    refine ⟨d', n :: ns, by rw [periods, hp, ok_bind, hps], by simp [hlen],
      List.forall_mem_cons.mpr ⟨hn, hns⟩, ?_, fun q hq => ?_⟩
    · rw [hget, hd, get_appendBuild, if_pos rfl]
      simp
    · rw [hother q hq, hd, get_appendBuild, if_neg (Ne.symm hq)]

end Single

/-- For an accepted scenario of one reactor type `r`, there is one variable per
period and `TransformVars` is the period loop with `r` as the implicit reactor. -/
theorem transformVars_eq_single {s : Scenario} {vars : List ℚ} {r : Facility}
    (hv : s.validate = ok ()) (hl : s.nvars = ok (vars.length : Int)) (hr : s.facs = [r])
    (hcap : 0 < r.cap) :
    vars.length = s.minPower.length ∧
      s.transformVars vars = periods s vars s.notreactors r 0
        ((List.range s.minPower.length).map fun i : Nat => s.timeOf i) ⟨initialBuilds s.builds, GoMap.empty⟩ >>=
          fun d => ok d.builds := by
  have hR : s.reactors = [r] := by simp [Scenario.reactors, hr, hcap]
  have hfo : s.periodFacOrder = ok (s.notreactors, r) := by
    simp [Scenario.periodFacOrder, sliceFrom, hR, index_of_lt]
  exact ⟨by simp [vars_length_of_nvars hv hl, hr], by rw [transformVars_eq hv hl, hfo, ok_bind]⟩

/-- `TransformVars` never consults `Available`: for every accepted scenario
of one reactor type `r` whose first period asks for at least half a reactor
more than the initial builds supply, and variables in `[0, 1]`, it returns a
map in which a build of `n > 0` reactors of `r` at the first period's time
follows the initial builds of `r`, whatever `r.BuildAfter` is. -/
theorem transformVars_ignores_available {s : Scenario} {vars : List ℚ} {r : Facility}
    (hv : s.validate = ok ()) (hl : s.nvars = ok (vars.length : Int)) (hr : s.facs = [r])
    (hcap : 0 < r.cap) (hvar : ∀ x ∈ vars, 0 ≤ x ∧ x ≤ 1)
    (hb : ∀ k (hk : k < s.minPower.length) (hk2 : k < s.maxPower.length), s.minPower[k] ≤ s.maxPower[k])
    (h0 : 0 < s.minPower.length)
    (hlow : powercap (initialBuilds s.builds) (s.timeOf 0) + r.cap / 2 ≤ s.minPower[0]) :
    ∃ m, s.transformVars vars = ok m ∧ ∃ n rest, 0 < n ∧
      m.get r.proto [] = s.builds.filter (·.proto = r.proto) ++ ⟨s.timeOf 0, r.proto, n, 0, r⟩ :: rest := by
  obtain ⟨hlen, -, -⟩ := Scenario.validate_eq_ok.mp hv
  obtain ⟨hvars, htv⟩ := transformVars_eq_single hv hl hr hcap
  obtain ⟨N, hN⟩ : ∃ N, s.minPower.length = N + 1 := Nat.exists_eq_succ_of_ne_zero h0.ne'
  have htimes : (List.range s.minPower.length).map (fun i : Nat => s.timeOf i) =
      s.timeOf 0 :: (List.range N).map (fun i : Nat => s.timeOf (i + 1)) := by
    rw [hN, List.range_succ_eq_map]
    simp
  have h1 : s.facs.length = 1 := by simp [hr]
  obtain ⟨d₁, hp, ⟨n, -, hd⟩, hE₁, hlt, -, heq⟩ :=
    @period_single s vars s.notreactors r ⟨initialBuilds s.builds, GoMap.empty⟩ 0 (s.timeOf 0) h1 hcap
      h0 (by omega) (by omega) (by simp [GoMap.values, GoMap.empty, GoMap.get, GoMap.find?])
  obtain ⟨d', ns, hps, -, -, hget, -⟩ := @periods_single_builds s vars s.notreactors r h1 hcap
    ((List.range N).map fun i : Nat => s.timeOf (i + 1)) 1 d₁ (by simp; omega) (by simp; omega)
    (by simp; omega) hE₁
  have hv0 : 0 < vars.length := by omega
  have hgoal := le_goal (le_max_right (powercap (initialBuilds s.builds) (s.timeOf 0) + 0) s.minPower[0])
    (hb 0 h0 (by omega)) (hvar vars[0] (List.getElem_mem hv0))
  have hP : powercap d₁.builds (s.timeOf 0) = powercap (initialBuilds s.builds) (s.timeOf 0) + r.cap * n := by
    rw [hd, powercap_appendBuild, if_pos (alive_at_own_time _ _ _ _)]
  dsimp only [GoMap.get_empty] at heq
  have hpos : 0 < n := by
    have : 0 < r.cap * n := by linarith
    exact_mod_cast pos_of_mul_pos_right this hcap.le
  refine ⟨d'.builds, ?_, n, List.zipWith (fun t n => ⟨t, r.proto, n, 0, r⟩)
    ((List.range N).map fun i : Nat => s.timeOf (i + 1)) ns, hpos, ?_⟩
  · rw [htv, htimes, periods, hp, ok_bind, zero_add, hps, ok_bind]
  · rw [hget, hd, get_appendBuild, if_pos rfl, get_initialBuilds]
    simp

/-- One reactor type that is never available (`BuildAfter = -1`), one build
period, at time 1, asking for one reactor, and no initial builds. -/
def neverAvailable : Scenario :=
  { simDur := 2, buildOffset := 0, trailingDur := 0, buildPeriod := 1,
    facs := [⟨"lwr", 1, 10, -1, []⟩], minPower := [1], maxPower := [1], builds := [] }

/-- `Validate` accepts the scenario and one variable is its `nvars()`; the
reactor is not available at time 1, yet `TransformVars [0]` builds `n > 0` of
it there. -/
theorem transformVars_ignores_available_neverAvailable :
    neverAvailable.validate = ok () ∧ neverAvailable.nvars = ok 1 ∧
      (⟨"lwr", 1, 10, -1, []⟩ : Facility).available (neverAvailable.timeOf 0) = false ∧
      ∃ m, neverAvailable.transformVars [0] = ok m ∧ ∃ n rest, 0 < n ∧
        m.get "lwr" [] = ⟨1, "lwr", n, 0, ⟨"lwr", 1, 10, -1, []⟩⟩ :: rest := by
  have hv : neverAvailable.validate = ok () := by decide
  have hl : neverAvailable.nvars = ok (([0] : List ℚ).length : Int) := by decide
  obtain ⟨m, hm, n, rest, hn, hget⟩ := transformVars_ignores_available hv hl rfl (by norm_num)
    (by norm_num) (fun _ _ _ => le_rfl) (by decide)
    (by norm_num [neverAvailable, initialBuilds, powercap, GoMap.values, GoMap.empty])
  exact ⟨hv, hl, by decide, m, hm, n, rest, hn, hget⟩

end Cloudlus.Scen
