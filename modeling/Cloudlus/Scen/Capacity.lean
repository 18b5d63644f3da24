import Mathlib.Algebra.BigOperators.Group.List
import Cloudlus.Scen.Scenario

/-!
# Counting deployed facilities and power (`naliveproto`, `powercap`)

`TransformVars` keeps its deployments in a `map[string][]Build` keyed by
prototype. It starts from the scenario's initial builds and asks two
questions of the map at a time `t`: how many facilities of some prototypes
are alive (`naliveproto`), and how much power capacity is alive
(`powercap`).

Results:
* `naliveproto_eq`, `powercap_eq`: `naliveproto` counts the alive build
  records, whatever their `N`; `powercap` sums `fac.Cap * N` over them.
* `naliveproto_counts_records`: a single alive build of two facilities is
  counted once by `naliveproto`, while `powercap` counts both.
* `validate_leaves_builds_unbound`: `Validate` looks each initial build's
  prototype up but binds nothing (it assigns the loop's copy), so the
  builds keep the zero `fac` that decoding leaves in the unexported field:
  in the map `TransformVars` starts from they add no power at any time, and
  one with `Life <= 0` has `Lifetime() = 0`, which makes it alive forever.
* `alive_window`: a build is alive from `Time` through `Time + Lifetime()`
  inclusive, `Lifetime() + 1` steps when it is positive, and `naliveproto`
  and `powercap` still count it at the last of them.
-/
namespace Cloudlus.Scen

open Go

/-- `map[string][]Build`: the builds of each prototype. -/
abbrev BuildMap := GoMap String (List Build)

/-- `builds[p] = append(builds[p], b)` -/
def appendBuild (builds : BuildMap) (p : String) (b : Build) : BuildMap :=
  builds.set p (builds.get p [] ++ [b])

/-- The map `TransformVars` starts from (lines 279-282): each initial build
under its prototype. -/
def initialBuilds (bs : List Build) : BuildMap :=
  bs.foldl (fun builds b => appendBuild builds b.proto b) GoMap.empty

/-- mirrors `Scenario.naliveproto` (lines 370-381), whose receiver is unused. -/
def naliveproto (facs : BuildMap) (t : Int) (protos : List String) : Int :=
  protos.foldl (fun count proto =>
    (facs.get proto []).foldl (fun count b => if b.alive t then count + 1 else count) count) 0

/-- mirrors `Scenario.powercap` (lines 383-393), whose receiver is unused. -/
def powercap (builds : BuildMap) (t : Int) : ℚ :=
  builds.values.foldl (fun pow buildsproto =>
    buildsproto.foldl (fun pow b => if b.alive t then pow + b.fac.cap * b.n else pow) pow) 0

/-! ## The loops as sums -/

section Folds

variable {α β : Type} [AddCommMonoid β]

theorem foldl_add (g : α → β) (c : β) (l : List α) :
    l.foldl (fun c x => c + g x) c = c + (l.map g).sum := by
  induction l generalizing c with
  | nil => simp
  | cons x l ih => simp [ih, add_assoc]

theorem foldl_ite_add (p : α → Bool) (g : α → β) (c : β) (l : List α) :
    l.foldl (fun c x => if p x then c + g x else c) c = c + ((l.filter p).map g).sum := by
  induction l generalizing c with
  | nil => simp
  | cons x l ih => by_cases hx : p x <;> simp [ih, hx, List.filter_cons, add_assoc]

end Folds

/-- The alive builds of a list. -/
def aliveAt (t : Int) (bs : List Build) : List Build := bs.filter (·.alive t)

theorem naliveproto_eq (facs : BuildMap) (t : Int) (protos : List String) :
    naliveproto facs t protos = (protos.map fun p => ((aliveAt t (facs.get p [])).length : Int)).sum := by
  have inner : ∀ (c : Int) (bs : List Build),
      bs.foldl (fun count b => if b.alive t then count + 1 else count) c =
        c + (aliveAt t bs).length := by
    intro c bs
    induction bs generalizing c with
    | nil => simp [aliveAt]
    | cons b bs ih =>
      by_cases hb : b.alive t
      · simp [ih, hb, aliveAt, List.filter_cons]; omega
      · simp [ih, hb, aliveAt, List.filter_cons]
  simp only [naliveproto, inner, foldl_add, zero_add]

theorem powercap_eq (builds : BuildMap) (t : Int) :
    powercap builds t =
      (builds.values.map fun bs => ((aliveAt t bs).map fun b => b.fac.cap * (b.n : ℚ)).sum).sum := by
  simp only [powercap, foldl_ite_add, foldl_add, zero_add, aliveAt]

/-- An alive build of two reactors of capacity 1. -/
def twinReactors : BuildMap :=
  appendBuild GoMap.empty "lwr" ⟨0, "lwr", 2, 0, ⟨"lwr", 1, 0, 0, []⟩⟩

/-- `naliveproto` counts the build once: one facility alive at time 0, where
the build deploys two and `powercap` counts capacity 2. -/
theorem naliveproto_counts_records :
    naliveproto twinReactors 0 ["lwr"] = 1 ∧
      ((aliveAt 0 (twinReactors.get "lwr" [])).map (·.n)).sum = 2 ∧
      powercap twinReactors 0 = 2 := by
  refine ⟨by decide, by decide, ?_⟩
  rw [powercap_eq]
  norm_num [twinReactors, appendBuild, GoMap.values, GoMap.set, GoMap.get, GoMap.find?, assocSet,
    GoMap.empty, aliveAt, Build.alive, Build.lifetime, alive]

/-! ## The initial builds -/

@[simp] theorem get_appendBuild (builds : BuildMap) (p q : String) (b : Build) :
    (appendBuild builds p b).get q [] = if p = q then builds.get p [] ++ [b] else builds.get q [] := by
  by_cases h : p = q <;> simp [appendBuild, GoMap.get, h]

/-- The initial map holds, under each prototype, its initial builds in order,
exactly as `s.Builds` has them. -/
theorem get_initialBuilds (bs : List Build) (p : String) :
    (initialBuilds bs).get p [] = bs.filter (·.proto = p) := by
  suffices ∀ m : BuildMap, (bs.foldl (fun builds b => appendBuild builds b.proto b) m).get p [] =
      m.get p [] ++ bs.filter (·.proto = p) by
    simpa [initialBuilds, GoMap.get] using this GoMap.empty
  induction bs with
  | nil => simp
  | cons b bs ih =>
    intro m
    by_cases h : b.proto = p <;> simp [ih, h, List.filter_cons]

/-- Every value of the initial map is a sublist of the initial builds. -/
theorem mem_initialBuilds {bs : List Build} {e : String × List Build}
    (he : e ∈ (initialBuilds bs).entries) : ∀ b ∈ e.2, b ∈ bs := by
  have hget := GoMap.find?_of_mem he
  have : (initialBuilds bs).get e.1 [] = e.2 := by simp [GoMap.get, hget]
  rw [get_initialBuilds] at this
  intro b hb
  exact List.mem_of_mem_filter (this ▸ hb)

/-- For every scenario `Validate` accepts whose builds carry the zero `fac`
that decoding leaves in the unexported field: each build names a prototype of
`Facs`, yet in the map `TransformVars` starts from the builds add no power at
any time, and one with `Life <= 0` has `Lifetime() = 0`. -/
theorem validate_leaves_builds_unbound (s : Scenario) (hv : s.validate = .ok ())
    (hz : ∀ b ∈ s.builds, b.fac = Facility.zero) (t : Int) :
    (∀ b ∈ s.builds, ∃ f ∈ s.facs, f.proto = b.proto) ∧
      powercap (initialBuilds s.builds) t = 0 ∧
      ∀ b ∈ s.builds, b.life ≤ 0 → b.lifetime = 0 := by
  refine ⟨(Scenario.validate_eq_ok.mp hv).2.2, ?_, fun b hb hl => ?_⟩
  · rw [powercap_eq]
    refine List.sum_eq_zero fun x hx => ?_
    obtain ⟨bs, hbs, rfl⟩ := List.mem_map.mp hx
    obtain ⟨e, he, rfl⟩ := List.mem_map.mp hbs
    refine List.sum_eq_zero fun y hy => ?_
    obtain ⟨b, hb, rfl⟩ := List.mem_map.mp hy
    simp [hz b (mem_initialBuilds he b (List.mem_of_mem_filter hb)), Facility.zero]
  · simp [Build.lifetime, not_lt.mpr hl, hz b hb, Facility.zero]

/-- One reactor type of capacity 1 and lifetime 10, one build period, and one
initial reactor built at time 0, decoded with the zero `fac`. -/
def initialReactor : Scenario :=
  { simDur := 2, buildOffset := 0, trailingDur := 0, buildPeriod := 1,
    facs := [⟨"lwr", 1, 10, 0, []⟩], minPower := [1], maxPower := [1],
    builds := [⟨0, "lwr", 1, 0, Facility.zero⟩] }

/-- `Validate` accepts the scenario; its initial reactor, alive at the period
time 1, adds no power there (where its prototype's capacity is 1), and has
lifetime 0 (where its prototype's is 10). -/
theorem validate_leaves_builds_unbound_initialReactor :
    initialReactor.validate = .ok () ∧
      (powercap (initialBuilds initialReactor.builds) 1 = 0 ∧
        (⟨0, "lwr", 1, 0, Facility.zero⟩ : Build).lifetime = 0) := by
  have hv : initialReactor.validate = .ok () := by decide
  have h := validate_leaves_builds_unbound initialReactor hv (by decide) 1
  exact ⟨hv, h.2.1, h.2.2 _ (List.mem_singleton_self _) (by decide)⟩

/-! ## How long a build counts as alive -/

/-- A build whose `Lifetime()` is `L > 0` is alive at the `L + 1` times
`Time, ..., Time + L`, not only at the `L` time steps `Facility.Life`
documents: at `Time + L`, `naliveproto` still counts it and `powercap` still
adds its capacity. With `L ≤ 0` it is alive from `Time` on. -/
theorem alive_window (b : Build) :
    (∀ t, b.alive t = true ↔ b.time ≤ t ∧ (b.lifetime ≤ 0 ∨ t ≤ b.time + b.lifetime)) ∧
      (0 < b.lifetime →
        naliveproto (appendBuild GoMap.empty b.proto b) (b.time + b.lifetime) [b.proto] = 1 ∧
          powercap (appendBuild GoMap.empty b.proto b) (b.time + b.lifetime) = b.fac.cap * b.n) := by
  refine ⟨b.alive_iff, fun hL => ?_⟩
  have ha : b.alive (b.time + b.lifetime) = true := (b.alive_iff _).mpr ⟨by omega, .inr le_rfl⟩
  refine ⟨by simp [naliveproto_eq, aliveAt, ha], ?_⟩
  rw [powercap_eq]
  simp [appendBuild, GoMap.values, GoMap.set, GoMap.get, GoMap.empty, GoMap.find?, assocSet, aliveAt, ha]

/-- A build of one reactor, built at 0 with `Life` 1. -/
def oneStep : Build := ⟨0, "lwr", 1, 1, ⟨"lwr", 1, 1, 0, []⟩⟩

/-- With lifetime 1 the build is alive at the two times 0 and 1, and
`naliveproto` counts it at time 1. -/
theorem alive_window_oneStep :
    oneStep.alive 0 = true ∧ oneStep.alive 1 = true ∧ oneStep.alive 2 = false ∧
      naliveproto (appendBuild GoMap.empty "lwr" oneStep) 1 ["lwr"] = 1 :=
  ⟨((alive_window oneStep).1 0).mpr (by decide), ((alive_window oneStep).1 1).mpr (by decide),
    Bool.eq_false_iff.mpr fun h => absurd (((alive_window oneStep).1 2).mp h) (by decide),
    ((alive_window oneStep).2 (by decide)).1⟩

end Cloudlus.Scen
