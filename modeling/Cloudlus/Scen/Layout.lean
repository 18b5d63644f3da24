import Cloudlus.Scen.Transform

/-!
# The layout of the optimizer variables (`VarNames`)

The variables of a scenario are `nvars() = len(Facs) * nperiods()` numbers.
`TransformVars`'s doc comment orders them facility by facility,
`fac1_t1, fac1_t2, ..., fac1_tn, fac2_t1, ...`, and `VarNames` names them so:
slot `f` of period `n` sits at index `f*nperiods + n` and is named
`f{f}_t{t}` for the period's time `t`. `TransformVars` reads them period by
period instead: the power variable of period `i` at `i*nvarsPerPeriod()` and
slot `j` at `BuildPeriod*i + j`.

Results:
* `varNames_eq_ok`: `VarNames` fills every index, the one of slot `f` of
  period `n` being `f * nperiods + n`.
* `transformVars_reads_varNames_layout_iff`: for every scenario `Validate`
  accepts, `VarNames` lays the variables out facility by facility, and the
  indices `TransformVars` reads agree with that layout exactly when there is
  a single facility type or at most one period.
-/
namespace Cloudlus.Scen

open Go Outcome

/-- `fmt.Sprintf("f%v_t%v", f, t)` -/
def varName (f : Nat) (t : Int) : String := "f" ++ toString f ++ "_t" ++ toString t

/-- Where `VarNames` puts period `n` of facility `f` (line 512). -/
def nameIndex (nperiods : Int) (f n : Nat) : Int := f * nperiods + n

/-- The inner loop of `VarNames` (lines 511-514), over the period times from
period `n`. -/
def nameLoop (nperiods : Int) (f : Nat) : Nat → List Int → List String → Outcome (List String)
  | _, [], names => ok names
  | n, t :: ts, names => do
    let names ← setIndex names (nameIndex nperiods f n) (varName f t)
    nameLoop nperiods f (n + 1) ts names

/-- The outer loop of `VarNames` (lines 510-515), over the facilities from
facility `f`. -/
def facNameLoop (s : Scenario) (nperiods : Int) : Nat → List Facility → List String →
    Outcome (List String)
  | _, [], names => ok names
  | f, _ :: fs, names => do
    let names ← nameLoop nperiods f 0 (← s.periodTimes) names
    facNameLoop s nperiods (f + 1) fs names

/-- mirrors `Scenario.VarNames` (lines 507-517). -/
def Scenario.varNames (s : Scenario) : Outcome (List String) := do
  let nperiods ← s.nperiods
  let names ← makeSlice (← s.nvars) ""
  facNameLoop s nperiods 0 s.facs names

/-! ## Sequential writes -/

/-- The first `k` names of `L` written, the rest still `""`. -/
def written (L : List String) (k : Nat) : List String :=
  L.take k ++ List.replicate (L.length - k) ""

theorem written_set {L : List String} {k : Nat} (h : k < L.length) :
    (written L k).set k L[k] = written L (k + 1) := by
  have hk : (L.take k).length = k := by simp; omega
  obtain ⟨m, hm⟩ : ∃ m, L.length - k = m + 1 := ⟨L.length - k - 1, by omega⟩
  rw [written, written, List.set_append_right _ _ (by omega), hk, Nat.sub_self, hm,
    List.replicate_succ, List.set_cons_zero, List.take_succ, List.getElem?_eq_getElem h,
    Option.toList_some, List.append_assoc, List.singleton_append, show L.length - (k + 1) = m by omega]

/-- Slot `f` of period `n` lies within the `len(Facs) * nperiods` names. -/
theorem slot_lt {f n np nf : Nat} (hf : f < nf) (hn : n < np) : f * np + n < nf * np :=
  calc f * np + n < (f + 1) * np := by rw [Nat.succ_mul]; omega
    _ ≤ nf * np := Nat.mul_le_mul_right _ hf

theorem length_written (L : List String) (k : Nat) (h : k ≤ L.length) :
    (written L k).length = L.length := by
  simp [written]; omega

section
variable (s : Scenario) (np : Nat)

/-- The names `VarNames` is meant to produce: index `f * np + n` names slot
`f` of period `n`. -/
def layoutNames : List String :=
  (List.range (s.facs.length * np)).map fun idx => varName (idx / np) (s.timeOf (idx % np : Nat))

theorem layoutNames_getElem {f n : Nat} (hf : f < s.facs.length) (hn : n < np) :
    (layoutNames s np)[f * np + n]? = some (varName f (s.timeOf n)) := by
  have hlt := slot_lt hf hn
  have hdiv : (f * np + n) / np = f := by
    rw [Nat.add_comm, Nat.add_mul_div_right _ _ (by omega), Nat.div_eq_of_lt hn, Nat.zero_add]
  have hmod : (f * np + n) % np = n := by
    rw [Nat.add_comm, Nat.add_mul_mod_self_right, Nat.mod_eq_of_lt hn]
  simp only [layoutNames, List.getElem?_map, List.getElem?_range hlt, Option.map_some', hdiv, hmod]

theorem nameLoop_written {f : Nat} (hf : f < s.facs.length) :
    ∀ (m n : Nat), n + m = np →
      nameLoop np f n ((List.range' n m).map fun i : Nat => s.timeOf i)
        (written (layoutNames s np) (f * np + n)) = ok (written (layoutNames s np) (f * np + np))
  | 0, n, h => by simp [nameLoop, ← h]
  | m + 1, n, h => by
    have hlen : (layoutNames s np).length = s.facs.length * np := by simp [layoutNames]
    have hlt := slot_lt hf (show n < np by omega)
    have hget := layoutNames_getElem s np hf (n := n) (by omega)
    rw [List.getElem?_eq_getElem (by omega), Option.some_inj] at hget
    rw [List.range'_succ, List.map_cons, nameLoop, show nameIndex np f n = ((f * np + n : Nat) : Int) by
      simp [nameIndex], setIndex_of_lt _ _ (by rw [length_written _ _ (by omega)]; omega), ok_bind,
      ← hget, written_set (by omega), Nat.add_assoc]
    exact nameLoop_written hf m (n + 1) (by omega)

theorem facNameLoop_written (hn : s.nperiods = ok (np : Int)) :
    ∀ (fs : List Facility) (f : Nat), f + fs.length = s.facs.length →
      facNameLoop s np f fs (written (layoutNames s np) (f * np)) =
        ok (written (layoutNames s np) (s.facs.length * np))
  | [], f, h => by simp [facNameLoop, ← h]
  | _ :: fs, f, h => by
    have hf : f < s.facs.length := by simp at h; omega
    have := nameLoop_written s np hf np 0 (by simp)
    simp only [Nat.add_zero, ← List.range_eq_range'] at this
    rw [facNameLoop, Scenario.periodTimes_of_nperiods hn (by simp), ok_bind]
    simp only [Int.toNat_ofNat, this, ok_bind]
    rw [show f * np + np = (f + 1) * np by ring]
    exact facNameLoop_written hn fs (f + 1) (by simp at h; omega)

end

/-- `VarNames` names index `f * nperiods + n` after slot `f` and the time of
period `n`, for every slot and period. -/
theorem varNames_eq_ok {s : Scenario} {np : Nat} (hn : s.nperiods = ok (np : Int)) :
    s.varNames = ok (layoutNames s np) := by
  have hlen : (layoutNames s np).length = s.facs.length * np := by simp [layoutNames]
  have h0 : makeSlice ((s.facs.length : Int) * np) "" = ok (written (layoutNames s np) 0) := by
    rw [makeSlice, if_neg (not_lt.mpr (by positivity)), ← Nat.cast_mul, Int.toNat_ofNat]
    simp [written, hlen]
  have := facNameLoop_written s np hn s.facs 0 (by simp)
  simp only [Nat.zero_mul] at this
  simp only [Scenario.varNames, hn, Scenario.nvars_of_nperiods hn, Scenario.nvarsPerPeriod_eq, ok_bind,
    h0, this]
  simp [written, hlen]

/-- `TransformVars` reads slot `k` of period `n` where `VarNames` names it,
at `k * nperiods + n`, for every period and slot; slot 0 is the power
variable. -/
def Scenario.readsVarNamesLayout (s : Scenario) : Prop :=
  (∀ n : Nat, n < s.minPower.length → s.powerVarIndex n = n) ∧
    ∀ n k : Nat, n < s.minPower.length → 1 ≤ k → k < s.facs.length →
      s.facVarIndex n k = (k * s.minPower.length + n : Nat)

/-- For every scenario `Validate` accepts, `VarNames` names index
`f * nperiods() + n` after slot `f` and the time of period `n`, and
`TransformVars` reads the variables at those indices exactly when there is a
single facility type or at most one period. -/
theorem transformVars_reads_varNames_layout_iff (s : Scenario) (hv : s.validate = ok ()) :
    (∃ names, s.varNames = ok names ∧ names.length = s.facs.length * s.minPower.length ∧
      ∀ f n, f < s.facs.length → n < s.minPower.length →
        names[f * s.minPower.length + n]? = some (varName f (s.timeOf n))) ∧
    (s.readsVarNamesLayout ↔ s.facs.length = 1 ∨ s.minPower.length ≤ 1) := by
  obtain ⟨-, hn, -⟩ := Scenario.validate_eq_ok.mp hv
  refine ⟨⟨_, varNames_eq_ok hn, by simp [layoutNames], fun f n hf hn' => layoutNames_getElem s _ hf hn'⟩,
    ⟨fun ⟨hpow, _⟩ => ?_, ?_⟩⟩
  · by_contra hc
    have := hpow 1 (by omega)
    simp [Scenario.powerVarIndex] at this
    omega
  · rintro (h1 | h1)
    · refine ⟨fun n _ => by simp [Scenario.powerVarIndex, h1], fun n k _ hk hk' => by omega⟩
    · refine ⟨fun n hn' => ?_, fun n k hn' _ _ => ?_⟩ <;>
        obtain rfl : n = 0 := by omega
      · simp [Scenario.powerVarIndex]
      · simp [Scenario.facVarIndex, show s.minPower.length = 1 by omega]

/-- Two reactor types, two build periods at times 1 and 2. -/
def twoPeriods : Scenario :=
  { simDur := 3, buildOffset := 0, trailingDur := 0, buildPeriod := 1,
    facs := [⟨"lwr", 1, 0, 0, []⟩, ⟨"fr", 1, 0, 0, []⟩], minPower := [0, 0], maxPower := [0, 0],
    builds := [] }

/-- `VarNames` names index 1 after reactor 0 at time 2, where period 0 of
`TransformVars` reads its slot 1. -/
theorem transformVars_reads_varNames_layout_twoPeriods :
    twoPeriods.validate = ok () ∧ twoPeriods.varNames = ok ["f0_t1", "f0_t2", "f1_t1", "f1_t2"] ∧
      twoPeriods.facVarIndex 0 1 = 1 ∧ ¬ twoPeriods.readsVarNamesLayout := by
  have hv : twoPeriods.validate = ok () := by decide
  exact ⟨hv, by decide, rfl, fun h => by
    simpa [twoPeriods] using (transformVars_reads_varNames_layout_iff twoPeriods hv).2.mp h⟩

end Cloudlus.Scen
