import Mathlib.Data.List.Sort
import Mathlib.Data.Rat.Floor
import Cloudlus.Go.Runtime

/-!
# Piecewise-linear interpolation of samples (`interpolate`, `zip`)

`interpolate` sorts a copy of its samples by `X` and returns a function that
evaluates, at `x`, the line through the first two consecutive samples whose
right one is at or after `x`, and the line through the last two when `x` is
past every sample. `zip` pairs disruption times with objective values to feed
it; `extractProbs` pairs them with probabilities.

`float64` is `ℚ`: between two samples of equal `X` Go divides by zero and gets
an infinity or a NaN where `ℚ` gives 0, so the results below assume distinct
`X`, as `interpolate`'s comment asks. `Disruption` is not in `src/`; it has
the two fields read here.

Results:
* `sortSamples_eq`: on samples with distinct `X` the sorted copy is the one
  sorted permutation, whatever the sort does with equal keys.
* `interpolate_eq_interpolant`: for two or more samples with distinct `X`,
  `interpolate` takes each sample's `Y` at its `X`, is the line through
  consecutive samples between their `X`, continues the first and the last
  segment's lines outside, and does not depend on the order of the samples.
* `interpolate_panics`: with fewer than two samples the function panics.
* `zip_prepends_zero_samples`: `zip` returns the `n` zero samples of
  `make([]sample, n)` followed by the `n` pairs it appends, so `2 * n` samples
  whose `X = 0` repeats once `n ≥ 2`; `extractProbs_eq`: `extractProbs`,
  which starts from an empty slice, returns just the pairs.
-/
namespace Cloudlus.Scen

open Go Outcome

/-- mirrors `sample` (lines 7-10). -/
structure Sample where
  x : ℚ
  y : ℚ
  deriving DecidableEq

namespace Sample

def lt (a b : Sample) : Prop := a.x < b.x

def le (a b : Sample) : Prop := a.x ≤ b.x

instance : DecidableRel le := fun a b => inferInstanceAs (Decidable (a.x ≤ b.x))

instance : IsTotal Sample le := ⟨fun a b => le_total a.x b.x⟩

instance : IsTrans Sample le := ⟨fun _ _ _ => le_trans⟩

instance : IsAntisymm Sample lt := ⟨fun _ _ h h' => absurd (lt_trans h h') (lt_irrefl _)⟩

/-- `lefty + (x-left)/(right-left)*(righty-lefty)` (lines 33 and 45): the line
through `a` and `b`, at `x`. -/
def lerp (a b : Sample) (x : ℚ) : ℚ := a.y + (x - a.x) / (b.x - a.x) * (b.y - a.y)

@[simp] theorem lerp_left (a b : Sample) : lerp a b a.x = a.y := by simp [lerp]

theorem lerp_right {a b : Sample} (h : a.x < b.x) : lerp a b b.x = b.y := by
  rw [lerp, div_self (sub_ne_zero.mpr h.ne')]
  ring

end Sample

/-- `sort.Sort(sampleSet(ss))` on the copy `ss` (lines 24-26). Go's sort is
unstable and its algorithm depends on the length; the model is an insertion
sort by `X`, what Go runs on short slices. On distinct `X` every sort gives
the same list (`sortSamples_eq`). -/
def sortSamples (samples : List Sample) : List Sample := samples.insertionSort Sample.le

/-- The loop over `ss[:len(ss)-1]` (lines 28-36): the line of the first
segment whose right end is at or after `x`, if there is one. -/
def segmentAt (x : ℚ) : List Sample → Option ℚ
  | a :: b :: rest => if x ≤ b.x then some (Sample.lerp a b x) else segmentAt x (b :: rest)
  | _ => none

/-- The function `interpolate` returns, over the sorted copy `ss` (lines 27-46):
the loop, then the line through the last two samples. -/
def interpolateSorted (ss : List Sample) (x : ℚ) : Outcome ℚ := do
  let _ ← sliceTo ss ((ss.length : Int) - 1)
  match segmentAt x ss with
  | some y => pure y
  | none => do
    let last : Int := ss.length - 1
    let l ← index ss (last - 1)
    let r ← index ss last
    pure (Sample.lerp l r x)

/-- mirrors `interpolate` (lines 18-47). -/
def interpolate (samples : List Sample) : ℚ → Outcome ℚ := interpolateSorted (sortSamples samples)

/-! ## The sorted copy -/

theorem sortSamples_eq {samples ss : List Sample} (hperm : ss.Perm samples)
    (hsort : ss.Sorted Sample.lt) : sortSamples samples = ss := by
  have hp : (sortSamples samples).Perm ss := (List.perm_insertionSort _ _).trans hperm.symm
  have hnd : ((sortSamples samples).map Sample.x).Nodup :=
    (hp.map Sample.x).nodup_iff.mpr (List.pairwise_map.mpr (hsort.imp fun h => ne_of_lt h))
  refine List.eq_of_perm_of_sorted hp ?_ hsort
  exact ((List.sorted_insertionSort Sample.le samples).and (List.pairwise_map.mp hnd)).imp
    fun h => lt_of_le_of_ne h.1 h.2

/-! ## The segment loop -/

theorem segmentAt_of_le_one {x : ℚ} {l : List Sample} (h : 2 ≤ l.length) (hx : x ≤ l[1].x) :
    segmentAt x l = some (Sample.lerp l[0] l[1] x) := by
  obtain _ | ⟨a, _ | ⟨b, rest⟩⟩ := l
  · exact absurd h (by simp)
  · exact absurd h (by simp)
  · exact if_pos hx

theorem segmentAt_of_between {x : ℚ} {l : List Sample} (hs : l.Sorted Sample.lt) :
    ∀ k (hk : k + 1 < l.length), l[k].x ≤ x → x ≤ l[k + 1].x →
      segmentAt x l = some (Sample.lerp l[k] l[k + 1] x) := by
  induction l with
  | nil => exact fun k hk => absurd hk (by simp)
  | cons a l ih =>
    obtain _ | ⟨b, rest⟩ := l
    · exact fun k hk => absurd hk (by simp)
    intro k hk h1 h2
    have hab : a.x < b.x := List.rel_of_sorted_cons hs b (List.mem_cons_self b rest)
    have hb : ∀ c ∈ rest, b.x < c.x := List.rel_of_sorted_cons hs.of_cons
    by_cases hx : x ≤ b.x
    · rw [segmentAt, if_pos hx]
      obtain _ | _ | k := k
      · rfl
      · have hxb : x = b.x := le_antisymm hx h1
        simp only [List.getElem_cons_succ, List.getElem_cons_zero, hxb, Sample.lerp_right hab,
          Sample.lerp_left]
      · exact absurd (lt_of_lt_of_le (hb _ (List.getElem_mem _)) (h1.trans hx)) (lt_irrefl _)
    · rw [segmentAt, if_neg hx]
      obtain _ | k := k
      · exact absurd h2 hx
      · exact ih hs.of_cons k (by simpa using hk) h1 h2

theorem segmentAt_eq_none {x : ℚ} {l : List Sample} (h : ∀ b ∈ l.tail, b.x < x) : segmentAt x l = none := by
  induction l with
  | nil => rfl
  | cons a l ih =>
    obtain _ | ⟨b, rest⟩ := l
    · rfl
    rw [segmentAt, if_neg (not_le.mpr (h b (List.mem_cons_self b rest)))]
    exact ih fun c hc => h c (List.mem_cons_of_mem b hc)

theorem interpolateSorted_eq {ss : List Sample} (h2 : 2 ≤ ss.length) (x : ℚ) :
    interpolateSorted ss x =
      ok ((segmentAt x ss).getD (Sample.lerp ss[ss.length - 2] ss[ss.length - 1] x)) := by
  have hs : sliceTo ss ((ss.length : Int) - 1) = ok (ss.take (ss.length - 1)) := by
    rw [sliceTo, if_pos (by omega)]
    congr
    omega
  have hl : (ss.length : Int) - 1 = ((ss.length - 1 : Nat) : Int) := by omega
  have hl1 : ((ss.length - 1 : Nat) : Int) - 1 = ((ss.length - 2 : Nat) : Int) := by omega
  simp only [interpolateSorted, hs, ok_bind]
  rcases h : segmentAt x ss with _ | y
  · simp [hl1, hl, index_of_lt _ (show ss.length - 2 < ss.length by omega),
      index_of_lt _ (show ss.length - 1 < ss.length by omega)]
  · rfl

/-! ## The interpolant -/

/-- For two or more samples and a sorted permutation `ss` of them with
distinct `X`: `interpolate` takes `Y_k` at `X_k`, is the line through
consecutive samples between their `X`, continues the first segment's line
below the smallest `X` and the last segment's line above the largest, and
gives the same function for every order of the samples. -/
theorem interpolate_eq_interpolant (samples ss : List Sample) (hperm : ss.Perm samples)
    (hsort : ss.Sorted (·.x < ·.x)) (h2 : 2 ≤ ss.length) :
    (∀ k (hk : k < ss.length), interpolate samples ss[k].x = ok ss[k].y) ∧
      (∀ k (hk : k + 1 < ss.length) x, ss[k].x ≤ x → x ≤ ss[k + 1].x →
        interpolate samples x = ok (Sample.lerp ss[k] ss[k + 1] x)) ∧
      (∀ x, x ≤ ss[0].x → interpolate samples x = ok (Sample.lerp ss[0] ss[1] x)) ∧
      (∀ x, ss[ss.length - 1].x ≤ x →
        interpolate samples x = ok (Sample.lerp ss[ss.length - 2] ss[ss.length - 1] x)) ∧
      ∀ samples', samples'.Perm samples → interpolate samples' = interpolate samples := by
  have hs : ss.Sorted Sample.lt := hsort
  have hlast : ss.length - 1 < ss.length := by omega
  have hprev : ss.length - 2 < ss.length := by omega
  have hrel : ∀ i j (hi : i < ss.length) (hj : j < ss.length), i < j → ss[i].x < ss[j].x :=
    fun i j hi hj => List.pairwise_iff_getElem.mp hs i j hi hj
  have key : interpolate samples = interpolateSorted ss := by rw [interpolate, sortSamples_eq hperm hs]
  have between : ∀ k (hk0 : k < ss.length) (hk : k + 1 < ss.length) x, ss[k].x ≤ x → x ≤ ss[k + 1].x →
      interpolate samples x = ok (Sample.lerp ss[k] ss[k + 1] x) := fun k _ hk x h1 h2' => by
    rw [key, interpolateSorted_eq h2, segmentAt_of_between hs k hk h1 h2']
    rfl
  have e : ss.length - 2 + 1 = ss.length - 1 := by omega
  have last : ∀ x, ss[ss.length - 2].x ≤ x →
      interpolate samples x = ok (Sample.lerp ss[ss.length - 2] ss[ss.length - 1] x) := fun x hx => by
    by_cases hx' : x ≤ ss[ss.length - 1].x
    · simpa only [e] using between (ss.length - 2) hprev (by omega) x hx (by simpa only [e] using hx')
    · rw [key, interpolateSorted_eq h2, segmentAt_eq_none fun b hb => ?_]
      · rfl
      obtain ⟨i, hi, rfl⟩ := List.getElem_of_mem (List.mem_of_mem_tail hb)
      rcases Nat.lt_or_ge i (ss.length - 1) with h | h
      · exact (hrel _ _ hi hlast h).trans (not_le.mp hx')
      · obtain rfl : i = ss.length - 1 := by omega
        exact not_le.mp hx'
  refine ⟨fun k hk => ?_, fun k hk => between k (by omega) hk, fun x hx => ?_,
    fun x hx => last x ((hrel _ _ hprev hlast (by omega)).le.trans hx), fun s' hp => ?_⟩
  · by_cases hk' : k + 1 < ss.length
    · rw [between k hk hk' _ le_rfl (hrel k (k + 1) hk hk' (by omega)).le, Sample.lerp_left]
    · obtain rfl : k = ss.length - 1 := by omega
      rw [last _ (hrel _ _ hprev hlast (by omega)).le, Sample.lerp_right (hrel _ _ hprev hlast (by omega))]
  · rw [key, interpolateSorted_eq h2, segmentAt_of_le_one h2 (hx.trans (hrel 0 1 (by omega) (by omega) (by omega)).le)]
    rfl
  · rw [key, interpolate, sortSamples_eq (hperm.trans hp.symm) hs]

def twoSamples : List Sample := [⟨2, 5⟩, ⟨0, 1⟩]

theorem interpolate_eq_interpolant_twoSamples :
    interpolate twoSamples 0 = ok 1 ∧ interpolate twoSamples 3 = ok 7 := by
  have h := interpolate_eq_interpolant twoSamples [⟨0, 1⟩, ⟨2, 5⟩] (List.Perm.swap _ _ [])
    (by simp [List.Sorted]) (le_refl 2)
  refine ⟨h.1 0 (by decide), ?_⟩
  rw [h.2.2.2.1 3 (by norm_num)]
  norm_num [Sample.lerp]

/-- With no sample the function panics on `ss[:-1]`, and with one on `ss[-1]`. -/
theorem interpolate_panics (x : ℚ) (a : Sample) :
    interpolate [] x = panic (.sliceHighOutOfRange (-1) 0) ∧
      interpolate [a] x = panic (.indexOutOfRange (-1) 1) :=
  ⟨rfl, rfl⟩

/-! ## Samples from disruptions -/

/-- A disruption: the time it happens and its probability (the fields of
`Disruption` that `zip` and `extractProbs` read). -/
structure Disruption where
  time : Int
  prob : ℚ

/-- The loop of `zip` (lines 89-91) from index `i`, with `fuel` iterations
left: `samples = append(samples, sample{float64(disrups[i].Time), objs[i]})`. -/
def zipLoop (disrups : List Disruption) (objs : List ℚ) :
    Nat → Nat → List Sample → Outcome (List Sample)
  | 0, _, samples => ok samples
  | fuel + 1, i, samples => do
    let d ← index disrups i
    let o ← index objs i
    zipLoop disrups objs fuel (i + 1) (samples ++ [⟨d.time, o⟩])

/-- mirrors `zip` (lines 83-93). -/
def zip (disrups : List Disruption) (objs : List ℚ) : Outcome (List Sample) :=
  if disrups.length ≠ objs.length then panic (.value "cannot zip slices of unequal length")
  else do
    let samples ← makeSlice disrups.length (⟨0, 0⟩ : Sample)
    zipLoop disrups objs disrups.length 0 samples

/-- mirrors `extractProbs` (lines 95-101). -/
def extractProbs (disrups : List Disruption) : List Sample :=
  disrups.foldl (fun samples d => samples ++ [⟨d.time, d.prob⟩]) []

theorem zipLoop_eq (ds : List Disruption) (objs : List ℚ) (h : ds.length = objs.length) :
    ∀ k i acc, i + k = ds.length →
      zipLoop ds objs k i acc = ok (acc ++ (List.zipWith (fun d o => ⟨d.time, o⟩) ds objs).drop i)
  | 0, i, acc, hk => by
    rw [zipLoop, List.drop_eq_nil_of_le (by simp; omega), List.append_nil]
  | k + 1, i, acc, hk => by
    have hi : i < (List.zipWith (fun (d : Disruption) (o : ℚ) => (⟨d.time, o⟩ : Sample)) ds objs).length := by
      simp; omega
    rw [zipLoop, index_of_lt ds (by omega), ok_bind, index_of_lt objs (by omega), ok_bind,
      zipLoop_eq ds objs h k (i + 1) _ (by omega), List.drop_eq_getElem_cons hi, List.getElem_zipWith]
    simp

/-- For lists of equal length `n`, `zip` returns the `n` zero samples that
`make([]sample, n)` holds, followed by the `n` pairs it appends: `2 * n`
samples, where `X = 0` repeats as soon as `n ≥ 2`. -/
theorem zip_prepends_zero_samples (ds : List Disruption) (objs : List ℚ) (h : ds.length = objs.length) :
    ∃ samples, zip ds objs = ok samples ∧
      samples = List.replicate ds.length ⟨0, 0⟩ ++ List.zipWith (fun d o => ⟨d.time, o⟩) ds objs ∧
      samples.length = 2 * ds.length ∧ (2 ≤ ds.length → ¬ (samples.map (·.x)).Nodup) := by
  refine ⟨_, ?_, rfl, by simp [h]; omega, fun h2 hnd => ?_⟩
  · rw [zip, if_neg (by omega), makeSlice, if_neg (by omega), ok_bind, Int.toNat_ofNat,
      zipLoop_eq ds objs h _ 0 _ (by omega), List.drop_zero]
  · obtain ⟨m, hm⟩ : ∃ m, ds.length = m + 2 := ⟨ds.length - 2, by omega⟩
    simp [hm, List.replicate_succ] at hnd

def twoDisruptions : List Disruption := [⟨1, 0⟩, ⟨2, 0⟩]

theorem zip_prepends_zero_samples_twoDisruptions :
    ∃ samples, zip twoDisruptions [7, 8] = ok samples ∧ samples.length = 4 ∧
      ¬ (samples.map (·.x)).Nodup := by
  obtain ⟨samples, hz, -, hlen, hnd⟩ := zip_prepends_zero_samples twoDisruptions [7, 8] rfl
  exact ⟨samples, hz, hlen, hnd (by decide)⟩

/-- `extractProbs` starts from an empty slice: one sample per disruption, in
order. -/
theorem extractProbs_eq (ds : List Disruption) : extractProbs ds = ds.map fun d => ⟨d.time, d.prob⟩ := by
  suffices ∀ acc, ds.foldl (fun samples d => samples ++ [(⟨d.time, d.prob⟩ : Sample)]) acc =
      acc ++ ds.map fun d => ⟨d.time, d.prob⟩ from this []
  induction ds with
  | nil => simp
  | cons d ds ih => intro acc; simp [ih]

end Cloudlus.Scen
