import Mathlib.Data.Nat.Find
import Cloudlus.Scen.Capacity

/-!
# Midpoint integration and sampling by probability (`integrateMid`, `sampleUniformProb`)

`integrateMid` sums `fn(x) * dx` over the midpoints `x` of `ninterval` equal
cells of `[x1, x2]`. `sampleUniformProb` runs the same sum over
`ninterval * nsample` cells and appends the midpoint of a cell once the
running sum reaches the next multiple of `totA / nsample`, so as to pick
`nsample` points of equal probability mass.

`float64` is `ℚ`, so the running sum of the last cell is exactly the total.

Results:
* `integrateMid_eq`, `sampleLoop_tot`: both loops compute the sum of
  `fn(x) * dx` over the midpoints they visit.
* `sampleUniformProb_last_cell`: the loop appends at most one point per cell,
  so when the whole mass lies in the last cell it returns that cell's
  midpoint alone, whatever `nsample` is.
* `sampleUniformProb_quantiles`: when no cell holds more than
  `totA / nsample`, exactly `nsample` points are returned, and the `k`-th is
  the midpoint of the cell in which the running sum first reaches
  `(k + 1) * totA / nsample`.
* `sampleUniformProb_midpoints`: whatever `fn` is, the points are the `x`
  the loop computes, the cell midpoints, at most one per cell and in order.
-/
namespace Cloudlus.Scen

/-- mirrors `productOf` (lines 49-53). -/
def productOf (fn1 fn2 : ℚ → ℚ) : ℚ → ℚ := fun x => fn1 x * fn2 x

/-- The midpoint of cell `i`, `x1 + (float64(i)+0.5)*dx` (lines 59 and 74). -/
def midpoint (x1 dx : ℚ) (i : Nat) : ℚ := x1 + (i + 1 / 2) * dx

/-- mirrors `integrateMid` (lines 55-64). -/
def integrateMid (fn : ℚ → ℚ) (x1 x2 : ℚ) (ninterval : Int) : ℚ :=
  let dx := (x2 - x1) / ninterval
  (List.range ninterval.toNat).foldl (fun tot i => tot + fn (midpoint x1 dx i) * dx) 0

/-- One iteration of the loop of `sampleUniformProb` (lines 73-79), on the
running sum and the points so far. -/
def sampleStep (fn : ℚ → ℚ) (x1 dx sampleA : ℚ) (st : ℚ × List ℚ) (i : Nat) : ℚ × List ℚ :=
  let x := midpoint x1 dx i
  let tot := st.1 + fn x * dx
  if tot ≥ (st.2.length + 1) * sampleA then (tot, st.2 ++ [x]) else (tot, st.2)

/-- Whether or not it appends, an iteration adds `fn(x) * dx` to the sum. -/
theorem sampleStep_fst (fn : ℚ → ℚ) (x1 dx sampleA : ℚ) (st : ℚ × List ℚ) (i : Nat) :
    (sampleStep fn x1 dx sampleA st i).1 = st.1 + fn (midpoint x1 dx i) * dx := by
  unfold sampleStep
  dsimp only
  split <;> rfl

/-- mirrors `sampleUniformProb` (lines 66-81). -/
def sampleUniformProb (fn : ℚ → ℚ) (x1 x2 : ℚ) (nsample ninterval : Int) : List ℚ :=
  let totA := integrateMid fn x1 x2 (ninterval * nsample)
  let sampleA := totA / nsample
  let dx := (x2 - x1) / (ninterval * nsample : Int)
  ((List.range (ninterval * nsample).toNat).foldl (sampleStep fn x1 dx sampleA) (0, [])).2

/-! ## The running sums -/

theorem integrateMid_eq (fn : ℚ → ℚ) (x1 x2 : ℚ) (n : Int) :
    integrateMid fn x1 x2 n =
      ((List.range n.toNat).map fun i => fn (midpoint x1 ((x2 - x1) / n) i) * ((x2 - x1) / n)).sum := by
  rw [integrateMid, foldl_add, zero_add]

section Loop

variable (fn : ℚ → ℚ) (x1 dx sampleA : ℚ)

theorem sampleLoop_tot (l : List Nat) (st : ℚ × List ℚ) :
    (l.foldl (sampleStep fn x1 dx sampleA) st).1 =
      st.1 + (l.map fun i => fn (midpoint x1 dx i) * dx).sum := by
  induction l generalizing st with
  | nil => simp
  | cons i l ih => rw [List.foldl_cons, ih, sampleStep_fst, List.map_cons, List.sum_cons, add_assoc]

/-- While the cells add nothing, the loop stays where it started. -/
theorem sampleLoop_zero (hA : 0 < sampleA) (l : List Nat)
    (hz : ∀ i ∈ l, fn (midpoint x1 dx i) = 0) :
    l.foldl (sampleStep fn x1 dx sampleA) (0, []) = (0, []) := by
  induction l with
  | nil => rfl
  | cons i l ih =>
    have hs : sampleStep fn x1 dx sampleA (0, []) i = (0, []) := by
      simp [sampleStep, hz i (List.mem_cons_self i l), hA]
    rw [List.foldl_cons, hs, ih fun j hj => hz j (List.mem_cons_of_mem i hj)]

end Loop

/-! ## A heavy last cell: all thresholds at once -/

/-- When all of `fn`'s mass on the grid of `ninterval * nsample` cells lies in
the last cell, that cell's running sum crosses all `nsample` thresholds at
once, and `sampleUniformProb` returns its midpoint alone. -/
theorem sampleUniformProb_last_cell (fn : ℚ → ℚ) (x1 x2 : ℚ) (nsample ninterval : Int)
    (hx : x1 < x2) (hs : 1 ≤ nsample) (hi : 1 ≤ ninterval)
    (hz : ∀ i < (ninterval * nsample).toNat - 1,
      fn (midpoint x1 ((x2 - x1) / (ninterval * nsample : Int)) i) = 0)
    (hlast : 0 < fn (midpoint x1 ((x2 - x1) / (ninterval * nsample : Int)) ((ninterval * nsample).toNat - 1))) :
    sampleUniformProb fn x1 x2 nsample ninterval =
      [midpoint x1 ((x2 - x1) / (ninterval * nsample : Int)) ((ninterval * nsample).toNat - 1)] := by
  set dx : ℚ := (x2 - x1) / (ninterval * nsample : Int)
  have hN : 0 < ninterval * nsample := mul_pos (by omega) (by omega)
  obtain ⟨M, hM⟩ : ∃ M, (ninterval * nsample).toNat = M + 1 := ⟨(ninterval * nsample).toNat - 1, by omega⟩
  rw [hM, Nat.add_sub_cancel] at hz hlast ⊢
  have hdx : 0 < dx := div_pos (sub_pos.mpr hx) (by exact_mod_cast hN)
  have hn : (0 : ℚ) < nsample := by exact_mod_cast (show 0 < nsample by omega)
  have hzero : ∀ i ∈ List.range M, fn (midpoint x1 dx i) = 0 := fun i h => hz i (List.mem_range.mp h)
  have htot : integrateMid fn x1 x2 (ninterval * nsample) = fn (midpoint x1 dx M) * dx := by
    rw [integrateMid_eq, hM, List.sum_range_succ,
      List.sum_eq_zero fun y hy => ?_, zero_add]
    obtain ⟨i, hi, rfl⟩ := List.mem_map.mp hy
    rw [hzero i hi, zero_mul]
  have hA : 0 < fn (midpoint x1 dx M) * dx / nsample := div_pos (mul_pos hlast hdx) hn
  have hle : fn (midpoint x1 dx M) * dx / nsample ≤ fn (midpoint x1 dx M) * dx :=
    div_le_self (mul_pos hlast hdx).le (by exact_mod_cast hs)
  simp only [sampleUniformProb, htot, hM, List.range_succ, List.foldl_append]
  rw [sampleLoop_zero fn x1 dx _ hA _ hzero, List.foldl_cons, List.foldl_nil, sampleStep]
  simp only [List.length_nil, Nat.cast_zero, zero_add, one_mul, ge_iff_le, if_pos hle, List.nil_append]

/-- A density with all its mass on `(1/2, 1]`. -/
def upperHalf (x : ℚ) : ℚ := if x ≤ 1 / 2 then 0 else 1

/-- On `[0, 1]` with `nsample = 2` and `ninterval = 1`, `upperHalf` is not
negative and has midpoint integral `1/2`, yet `sampleUniformProb` returns the
single point `3/4`, not two. -/
theorem sampleUniformProb_last_cell_upperHalf :
    (∀ x, 0 ≤ x → x ≤ 1 → 0 ≤ upperHalf x) ∧ integrateMid upperHalf 0 1 (1 * 2) = 1 / 2 ∧
      sampleUniformProb upperHalf 0 1 2 1 = [3 / 4] := by
  have h2 : (2 : Int).toNat = 2 := rfl
  refine ⟨fun x _ _ => by unfold upperHalf; split <;> norm_num, ?_, ?_⟩
  · norm_num [integrateMid, midpoint, upperHalf, List.range_succ, h2]
  · rw [sampleUniformProb_last_cell upperHalf 0 1 2 1 (by norm_num) (by norm_num) (by norm_num)
      (fun i hi => ?_) (by norm_num [midpoint, upperHalf, h2])]
    · norm_num [midpoint, h2]
    · obtain rfl : i = 0 := by simpa [h2] using hi
      norm_num [midpoint, upperHalf]

/-! ## Light cells: one point per quantile -/

/-- The grid step of `sampleUniformProb` (line 72). -/
def gridStep (x1 x2 : ℚ) (nsample ninterval : Int) : ℚ := (x2 - x1) / (ninterval * nsample : Int)

/-- The mass `fn(x) * dx` that cell `i` adds to the running sum. -/
def cellMass (fn : ℚ → ℚ) (x1 dx : ℚ) (i : Nat) : ℚ := fn (midpoint x1 dx i) * dx

/-- The running sum over the first `i` cells. -/
def partialMass (fn : ℚ → ℚ) (x1 dx : ℚ) (i : Nat) : ℚ := ((List.range i).map (cellMass fn x1 dx)).sum

section Quantiles

variable (fn : ℚ → ℚ) (x1 dx sampleA : ℚ)

/-- The running sum and the points after the first `i` cells. -/
def loopState (i : Nat) : ℚ × List ℚ := (List.range i).foldl (sampleStep fn x1 dx sampleA) (0, [])

theorem loopState_succ (i : Nat) :
    loopState fn x1 dx sampleA (i + 1) = sampleStep fn x1 dx sampleA (loopState fn x1 dx sampleA i) i := by
  rw [loopState, List.range_succ, List.foldl_append, List.foldl_cons, List.foldl_nil, loopState]

theorem loopState_fst (i : Nat) : (loopState fn x1 dx sampleA i).1 = partialMass fn x1 dx i := by
  rw [loopState, sampleLoop_tot, zero_add, partialMass]
  rfl

theorem sampleStep_snd (st : ℚ × List ℚ) (i : Nat) :
    (sampleStep fn x1 dx sampleA st i).2 =
      if st.1 + cellMass fn x1 dx i ≥ (st.2.length + 1) * sampleA then st.2 ++ [midpoint x1 dx i] else st.2 := by
  unfold sampleStep cellMass
  dsimp only
  split <;> rfl

/-- The points only ever grow at the end. -/
theorem loopState_prefix_of_le {i j : Nat} (h : i ≤ j) :
    (loopState fn x1 dx sampleA i).2 <+: (loopState fn x1 dx sampleA j).2 := by
  induction j, h using Nat.le_induction with
  | base => exact List.prefix_refl _
  | succ j _ ih =>
    rw [loopState_succ, sampleStep_snd]
    split
    · exact ih.trans (List.prefix_append _ _)
    · exact ih

/-- The points are cell midpoints, at most one per cell, in cell order. -/
theorem loopState_sublist (i : Nat) :
    List.Sublist (loopState fn x1 dx sampleA i).2 ((List.range i).map (midpoint x1 dx)) := by
  induction i with
  | zero => simp [loopState]
  | succ i ih =>
    rw [loopState_succ, sampleStep_snd, List.range_succ, List.map_append, List.map_singleton]
    split
    · exact ih.append (List.Sublist.refl _)
    · exact ih.trans (List.sublist_append_left _ _)

/-- The cell that appends point `k`: before it there are `k` points, and it
appends its own midpoint. -/
theorem loopState_crossing {k : Nat} :
    ∀ N, k < (loopState fn x1 dx sampleA N).2.length → ∃ i < N, (loopState fn x1 dx sampleA i).2.length = k ∧
      (loopState fn x1 dx sampleA (i + 1)).2 = (loopState fn x1 dx sampleA i).2 ++ [midpoint x1 dx i] := by
  intro N
  induction N with
  | zero => simp [loopState]
  | succ N ih =>
    intro hk
    by_cases hN : k < (loopState fn x1 dx sampleA N).2.length
    · obtain ⟨i, hi, h⟩ := ih hN
      exact ⟨i, by omega, h⟩
    · have hstep := sampleStep_snd fn x1 dx sampleA (loopState fn x1 dx sampleA N) N
      rw [← loopState_succ] at hstep
      split at hstep
      · rw [hstep, List.length_append, List.length_singleton] at hk
        exact ⟨N, by omega, by omega, hstep⟩
      · exact absurd (hstep ▸ hk) hN

/-- While no cell adds more than `sampleA` nor a negative mass, the points so
far are `⌊running sum / sampleA⌋`. -/
theorem loopState_inv (hA : 0 < sampleA) :
    ∀ i, (∀ j < i, 0 ≤ cellMass fn x1 dx j ∧ cellMass fn x1 dx j ≤ sampleA) →
      (loopState fn x1 dx sampleA i).2.length * sampleA ≤ partialMass fn x1 dx i ∧
        partialMass fn x1 dx i < ((loopState fn x1 dx sampleA i).2.length + 1) * sampleA
  | 0, _ => by simp [loopState, partialMass, hA]
  | i + 1, hcell => by
    obtain ⟨hlo, hhi⟩ := loopState_inv hA i fun j hj => hcell j (by omega)
    obtain ⟨hm0, hm⟩ := hcell i (by omega)
    have hP : partialMass fn x1 dx (i + 1) = partialMass fn x1 dx i + cellMass fn x1 dx i := by
      rw [partialMass, partialMass, List.range_succ, List.map_append, List.sum_append]
      simp
    rw [loopState_succ, sampleStep_snd, loopState_fst, hP]
    split
    · rename_i hcross
      simp only [List.length_append, List.length_singleton, Nat.cast_add, Nat.cast_one]
      exact ⟨hcross, by linarith⟩
    · rename_i hcross
      exact ⟨by linarith, not_le.mp hcross⟩

end Quantiles

/-- When no cell of the grid carries a negative mass or more than
`1/nsample` of the total, `sampleUniformProb` returns exactly `nsample`
points, and its `k`-th point is the midpoint of the cell at which the running
sum first reaches `k/nsample` of the total. This is exact arithmetic: with
`float64` rounding the last sum can fall short of the last threshold. -/
theorem sampleUniformProb_quantiles (fn : ℚ → ℚ) (x1 x2 : ℚ) (nsample ninterval : Int) (hs : 1 ≤ nsample)
    (hpos : 0 < integrateMid fn x1 x2 (ninterval * nsample))
    (hcell : ∀ i < (ninterval * nsample).toNat, 0 ≤ cellMass fn x1 (gridStep x1 x2 nsample ninterval) i ∧
      cellMass fn x1 (gridStep x1 x2 nsample ninterval) i ≤ integrateMid fn x1 x2 (ninterval * nsample) / nsample) :
    (sampleUniformProb fn x1 x2 nsample ninterval).length = nsample.toNat ∧
      ∀ k (hk : k < (sampleUniformProb fn x1 x2 nsample ninterval).length), ∃ i < (ninterval * nsample).toNat,
        (sampleUniformProb fn x1 x2 nsample ninterval)[k] = midpoint x1 (gridStep x1 x2 nsample ninterval) i ∧
        partialMass fn x1 (gridStep x1 x2 nsample ninterval) i <
          (k + 1) * (integrateMid fn x1 x2 (ninterval * nsample) / nsample) ∧
        (k + 1) * (integrateMid fn x1 x2 (ninterval * nsample) / nsample) ≤
          partialMass fn x1 (gridStep x1 x2 nsample ninterval) (i + 1) := by
  set N := (ninterval * nsample).toNat
  set dx := gridStep x1 x2 nsample ninterval
  set A := integrateMid fn x1 x2 (ninterval * nsample) / nsample
  have hn : (0 : ℚ) < nsample := by exact_mod_cast (show 0 < nsample by omega)
  have hA : 0 < A := div_pos hpos hn
  have hout : sampleUniformProb fn x1 x2 nsample ninterval = (loopState fn x1 dx A N).2 := rfl
  have htot : partialMass fn x1 dx N = nsample * A := by
    rw [mul_div_cancel₀ _ hn.ne', integrateMid_eq]
    rfl
  have hinv := fun i (hi : i ≤ N) => loopState_inv fn x1 dx A hA i fun j hj => hcell j (by omega)
  have hlen : (sampleUniformProb fn x1 x2 nsample ninterval).length = nsample.toNat := by
    obtain ⟨hlo, hhi⟩ := hinv N le_rfl
    rw [htot] at hlo hhi
    have h1 : ((loopState fn x1 dx A N).2.length : Int) ≤ nsample := by
      exact_mod_cast le_of_mul_le_mul_right hlo hA
    have h2 : nsample < ((loopState fn x1 dx A N).2.length : Int) + 1 := by
      exact_mod_cast lt_of_mul_lt_mul_right hhi hA.le
    rw [hout]
    omega
  refine ⟨hlen, fun k hk => ?_⟩
  obtain ⟨i, hiN, hk', hstep⟩ := loopState_crossing fn x1 dx A N (hout ▸ hk)
  obtain ⟨-, hlt⟩ := hinv i hiN.le
  obtain ⟨hge, -⟩ := hinv (i + 1) hiN
  rw [hk'] at hlt
  rw [hstep, List.length_append, List.length_singleton, hk'] at hge
  refine ⟨i, hiN, ?_, by exact_mod_cast hlt, by exact_mod_cast hge⟩
  have hi : k < (loopState fn x1 dx A (i + 1)).2.length := by simp [hstep, hk']
  simp only [hout, ← (loopState_prefix_of_le fn x1 dx A (show i + 1 ≤ N from hiN)).getElem hi, hstep,
    List.getElem_append_right (le_of_eq hk'), hk', Nat.sub_self, List.getElem_singleton]

/-- A uniform density on `[0, 1]` with `nsample = 2` and `ninterval = 1`: two
cells of mass `1/2` each, no heavier than a quantile, and two points come
back. -/
theorem sampleUniformProb_quantiles_uniform :
    0 < integrateMid (fun _ => 1) 0 1 (1 * 2) ∧ (sampleUniformProb (fun _ => 1) 0 1 2 1).length = 2 := by
  have h2 : (2 : Int).toNat = 2 := rfl
  have htot : integrateMid (fun _ => 1) 0 1 (1 * 2) = 1 := by
    norm_num [integrateMid, List.range_succ, h2]
  refine ⟨by rw [htot]; norm_num, ?_⟩
  have := (sampleUniformProb_quantiles (fun _ => 1) 0 1 2 1 (by norm_num) (by rw [htot]; norm_num)
    fun i _ => by norm_num [show integrateMid (fun _ => 1) 0 1 2 = 1 from htot, cellMass, gridStep]).1
  rwa [h2] at this

end Cloudlus.Scen
