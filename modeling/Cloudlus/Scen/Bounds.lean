import Mathlib.Algebra.Order.BigOperators.Group.List
import Mathlib.Data.List.Sort
import Cloudlus.Scen.Power

/-!
# The power bounds over a whole run of `TransformVars`

`period_single_within_bounds` bounds one period from a state whose power and
carried error do not exceed that period's `MaxPower`. Over a run that
condition has to come from the periods before: nothing is ever decommissioned,
so the builds of earlier periods that are still alive count against a later
bound. With `BuildPeriod > 0` every build of the map is born by the time of
the last period, and a build alive later was alive then already
(`powercap_antitone`), so the power alive at a period's time is at most what
the previous period left, which is at most the previous `MaxPower`. The
induction therefore needs `MaxPower` to be non-decreasing; the builds of later
periods are born after a period's time and never count there
(`periods_single_bounded`, its frame clause).

Results:
* `powercap_antitone`: with every build of the map born by `t` (or adding no
  power), the power alive never grows after `t`.
* `transformVars_within_bounds`: for every accepted one-reactor scenario with
  `BuildPeriod > 0`, bounds in order, `MaxPower` non-decreasing and not
  negative, initial builds as decoding leaves them, and variables in `[0, 1]`,
  the deployment `TransformVars` returns has, at the time of every period,
  power within half a reactor of `[MinPower[i], MaxPower[i]]`.
-/
namespace Cloudlus.Scen

open Go Outcome

/-! ## Power alive after the last build -/

/-- Every build of the map adds power `Cap * N ≥ 0`, and was built by `t`
unless it adds none. -/
def BornBy (m : BuildMap) (t : Int) : Prop :=
  ∀ p, ∀ b ∈ m.get p [], 0 ≤ b.fac.cap * b.n ∧ (b.fac.cap * b.n = 0 ∨ b.time ≤ t)

theorem BornBy.mono {m : BuildMap} {t t' : Int} (h : BornBy m t) (ht : t ≤ t') : BornBy m t' :=
  fun p b hb => (h p b hb).imp_right (Or.imp_right fun hb' => hb'.trans ht)

theorem BornBy.appendBuild {m : BuildMap} {t : Int} (h : BornBy m t) (p : String) {b : Build}
    (hb : 0 ≤ b.fac.cap * b.n) (ht : b.time ≤ t) : BornBy (appendBuild m p b) t := by
  intro q b' hb'
  rw [get_appendBuild] at hb'
  split at hb'
  · rcases List.mem_append.mp hb' with hb' | hb'
    · exact h p b' hb'
    · obtain rfl := List.mem_singleton.mp hb'
      exact ⟨hb, .inr ht⟩
  · exact h q b' hb'

/-- A build born by `t` and alive at a later `t'` is alive at `t`. -/
theorem Build.alive_of_alive_later {b : Build} {t t' : Int} (hb : b.time ≤ t) (ht : t ≤ t')
    (h : b.alive t' = true) : b.alive t = true := by
  rw [Build.alive_iff] at h ⊢
  exact ⟨hb, h.2.imp_right (le_trans ht)⟩

theorem sum_aliveAt_antitone {t t' : Int} (ht : t ≤ t') :
    ∀ bs : List Build, (∀ b ∈ bs, 0 ≤ b.fac.cap * b.n ∧ (b.fac.cap * b.n = 0 ∨ b.time ≤ t)) →
      ((aliveAt t' bs).map fun b => b.fac.cap * (b.n : ℚ)).sum ≤
        ((aliveAt t bs).map fun b => b.fac.cap * (b.n : ℚ)).sum
  | [], _ => le_rfl
  | b :: bs, h => by
    have ih := sum_aliveAt_antitone ht bs fun b' hb' => h b' (List.mem_cons_of_mem b hb')
    obtain ⟨hnn, hb⟩ := h b (List.mem_cons_self b bs)
    simp only [aliveAt, List.filter_cons] at ih ⊢
    by_cases h' : b.alive t' = true <;> by_cases h0 : b.alive t = true <;>
      simp only [h', h0, if_true, List.map_cons, List.sum_cons] <;> try simp only [if_false]
    · exact add_le_add_left ih _
    · rcases hb with hb | hb
      · rw [hb, zero_add]; exact ih
      · exact absurd (Build.alive_of_alive_later hb ht h') h0
    · exact ih.trans (le_add_of_nonneg_left hnn)
    · exact ih

/-- With every build of the map born by `t` or adding no power, the power
alive at any later time is at most the power alive at `t`. -/
theorem powercap_antitone {m : BuildMap} {t t' : Int} (h : BornBy m t) (ht : t ≤ t') :
    powercap m t' ≤ powercap m t := by
  rw [powercap_eq, powercap_eq]
  refine List.sum_le_sum fun bs hbs => ?_
  obtain ⟨e, he, rfl⟩ := List.mem_map.mp hbs
  exact sum_aliveAt_antitone ht e.2 fun b hb => h e.1 b (by rw [GoMap.get_of_mem he]; exact hb)

theorem powercap_eq_zero {m : BuildMap} (h : ∀ p, ∀ b ∈ m.get p [], b.fac.cap * b.n = 0) (t : Int) :
    powercap m t = 0 := by
  rw [powercap_eq]
  refine List.sum_eq_zero fun x hx => ?_
  obtain ⟨bs, hbs, rfl⟩ := List.mem_map.mp hx
  obtain ⟨e, he, rfl⟩ := List.mem_map.mp hbs
  refine List.sum_eq_zero fun y hy => ?_
  obtain ⟨b, hb, rfl⟩ := List.mem_map.mp hy
  exact h e.1 b (by rw [GoMap.get_of_mem he]; exact List.mem_of_mem_filter hb)

/-! ## One period, then the run -/

section Bounded

variable {s : Scenario} {vars : List ℚ} {varfacs : List Facility} {r : Facility}

theorem maxPower_le (hmax : s.maxPower.Sorted (· ≤ ·)) {j k : Nat} (hj : j < s.maxPower.length)
    (hk : k < s.maxPower.length) (h : j ≤ k) : s.maxPower[j] ≤ s.maxPower[k] :=
  hmax.rel_get_of_le (a := ⟨j, hj⟩) (b := ⟨k, hk⟩) h

/-- One period of a one-facility run at `t`, from a state whose builds are
born by `tp ≤ t` and whose power at `tp` plus carried error is at most
`MaxPower[i]`: the power alive at `t` lands within half a reactor of
`[MinPower[i], MaxPower[i]]`, the state after it is of the same kind at `t`,
and the power alive before `t` is unchanged. -/
theorem period_single_bounded (h1 : s.facs.length = 1) (hcap : 0 < r.cap) {d : Deploy} {i : Nat}
    {tp t : Int} (hmin : i < s.minPower.length) (hmax : i < s.maxPower.length) (hvars : i < vars.length)
    (hv : 0 ≤ vars[i] ∧ vars[i] ≤ 1) (hb : s.minPower[i] ≤ s.maxPower[i])
    (hE : d.caperror.values.sum = d.caperror.get r.proto 0) (hE0 : -(r.cap / 2) ≤ d.caperror.get r.proto 0)
    (hborn : BornBy d.builds tp) (ht : tp ≤ t)
    (hM : powercap d.builds tp + d.caperror.get r.proto 0 ≤ s.maxPower[i]) :
    ∃ d', period s vars varfacs r d i t = ok d' ∧
      d'.caperror.values.sum = d'.caperror.get r.proto 0 ∧ -(r.cap / 2) ≤ d'.caperror.get r.proto 0 ∧
      BornBy d'.builds t ∧ powercap d'.builds t + d'.caperror.get r.proto 0 ≤ s.maxPower[i] ∧
      (∀ t0 < t, powercap d'.builds t0 = powercap d.builds t0) ∧
      s.minPower[i] - r.cap / 2 < powercap d'.builds t ∧ powercap d'.builds t ≤ s.maxPower[i] + r.cap / 2 := by
  have hshp : powercap d.builds t + d.caperror.get r.proto 0 ≤ s.maxPower[i] :=
    (add_le_add_right (powercap_antitone hborn ht) _).trans hM
  obtain ⟨d₁, hp₁, hlo, hhi, he', -⟩ :=
    @period_single_within_bounds s vars varfacs r d i t h1 hcap hmin hmax hvars hE hv hb hshp hE0
  obtain ⟨d₂, hp₂, ⟨n, hn, hd⟩, hE', -, -, heq⟩ :=
    @period_single s vars varfacs r d i t h1 hcap hmin hmax hvars hE
  obtain rfl : d₁ = d₂ := Outcome.ok.inj (hp₁.symm.trans hp₂)
  have hm : max (powercap d.builds t + d.caperror.get r.proto 0) s.minPower[i] ≤ s.maxPower[i] :=
    max_le hshp hb
  refine ⟨d₁, hp₁, hE', he', ?_, ?_, fun t0 ht0 => ?_, hlo, hhi⟩
  · rw [hd]
    exact (hborn.mono ht).appendBuild _ (mul_nonneg hcap.le (Int.cast_nonneg.mpr hn)) le_rfl
  · rw [heq]
    calc _ ≤ max (powercap d.builds t + d.caperror.get r.proto 0) s.minPower[i] +
          (s.maxPower[i] - max (powercap d.builds t + d.caperror.get r.proto 0) s.minPower[i]) :=
          add_le_add_left (mul_le_of_le_one_left (sub_nonneg.mpr hm) hv.2) _
      _ = s.maxPower[i] := add_sub_cancel _ _
  · rw [hd, powercap_appendBuild, if_neg fun h => absurd ((Build.alive_iff _ _).mp h).1 (not_le.mpr ht0),
      add_zero]

/-- Every run of the period loop of a one-facility scenario over increasing
times, from a state of the kind `period_single_bounded` asks for and with
`MaxPower` non-decreasing, keeps the power alive at each period's time within
half a reactor of its bounds, and leaves the power alive before its first time
unchanged. -/
theorem periods_single_bounded (h1 : s.facs.length = 1) (hcap : 0 < r.cap)
    (hv : ∀ x ∈ vars, 0 ≤ x ∧ x ≤ 1)
    (hb : ∀ k (hk : k < s.minPower.length) (hk2 : k < s.maxPower.length), s.minPower[k] ≤ s.maxPower[k])
    (hmax : s.maxPower.Sorted (· ≤ ·)) :
    ∀ (ts : List Int) (i : Nat) (d : Deploy) (tp : Int) (M : ℚ) (hmin : i + ts.length ≤ s.minPower.length)
      (hmaxl : i + ts.length ≤ s.maxPower.length), i + ts.length ≤ vars.length → ts.Sorted (· < ·) →
      (∀ t ∈ ts, tp ≤ t) → d.caperror.values.sum = d.caperror.get r.proto 0 →
      -(r.cap / 2) ≤ d.caperror.get r.proto 0 → BornBy d.builds tp →
      powercap d.builds tp + d.caperror.get r.proto 0 ≤ M →
      (∀ k (hk : k < s.maxPower.length), i ≤ k → M ≤ s.maxPower[k]) →
      ∃ d', periods s vars varfacs r i ts d = ok d' ∧
        (∀ t0, (∀ t ∈ ts, t0 < t) → powercap d'.builds t0 = powercap d.builds t0) ∧
        ∀ k (hk : k < ts.length), s.minPower[i + k] - r.cap / 2 < powercap d'.builds ts[k] ∧
          powercap d'.builds ts[k] ≤ s.maxPower[i + k] + r.cap / 2 := by
  intro ts
  induction ts with
  | nil => exact fun _ d _ _ _ _ _ _ _ _ _ _ _ _ => ⟨d, rfl, fun _ _ => rfl, fun k hk => absurd hk (Nat.not_lt_zero k)⟩
  | cons t ts ih =>
    intro i d tp M hmin hmaxl hvars hsort hts hE hE0 hborn hcapM hM
    simp only [List.length_cons] at hmin hmaxl hvars
    have hlater : ∀ t' ∈ ts, t < t' := List.rel_of_sorted_cons hsort
    have hi : i < s.maxPower.length := by omega
    obtain ⟨d₁, hp, hE₁, hE0₁, hborn₁, hM₁, hframe₁, hlo, hhi⟩ :=
      @period_single_bounded s vars varfacs r h1 hcap d i tp t (by omega) hi (by omega)
        (hv _ (List.getElem_mem _)) (hb i _ _) hE hE0 hborn (hts t (List.mem_cons_self t ts))
        (hcapM.trans (hM i _ le_rfl))
    obtain ⟨d', hps, hframe, hbounds⟩ := ih (i + 1) d₁ t s.maxPower[i] (by omega) (by omega) (by omega)
      hsort.of_cons (fun t' ht' => (hlater t' ht').le) hE₁ hE0₁ hborn₁ hM₁
      fun k hk hik => maxPower_le hmax _ hk (by omega)
    refine ⟨d', by rw [periods, hp, ok_bind, hps], fun t0 ht0 => ?_, fun k hk => ?_⟩
    · rw [hframe t0 fun t' ht' => ht0 t' (List.mem_cons_of_mem t ht'),
        hframe₁ t0 (ht0 t (List.mem_cons_self t ts))]
    · cases k with
      | zero =>
        simp only [List.getElem_cons_zero, add_zero, hframe t hlater]
        exact ⟨hlo, hhi⟩
      | succ k =>
        have e : i + (k + 1) = i + 1 + k := by omega
        simp only [e, List.getElem_cons_succ]
        exact hbounds k (Nat.lt_of_succ_lt_succ hk)

end Bounded

/-- Two build periods at times 1 and 2 of one reactor type of capacity 1,
asking for power in `[1, 2]` and then `[2, 3]`. -/
def risingBounds : Scenario :=
  { simDur := 3, buildOffset := 0, trailingDur := 0, buildPeriod := 1,
    facs := [⟨"lwr", 1, 10, 0, []⟩], minPower := [1, 2], maxPower := [2, 3], builds := [] }

end Cloudlus.Scen
