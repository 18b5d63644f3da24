import Cloudlus.Scen.Scenario

/-!
# Loading a scenario file (`Load`, `findLine`)

`Load` reads the file and decodes it with `json.Unmarshal`. On a syntax error
it reports `file:line:col: error`, with the line and column that `findLine`
computes for the error's byte offset. A decoded scenario without `Builds` is
given `make([]Build, s.nvars())` before `Validate` runs.

Reading the file and the JSON grammar are not modelled: `loadFile` takes the
file's bytes and what `Unmarshal` made of them (`Decoded`). `File`, which
`Load` sets and nothing modelled reads, is left out.

Results:
* `findLine_position`: for every offset `0 ≤ pos ≤ len(data)`, `findLine`
  returns, without panicking, line `1 + (newlines in data[:pos])`, and column
  `pos` on the first line, but one more than the number of bytes after the
  last newline on every later line; `findLine_panics`: past the end it panics
  with `EOF`.
* `load_default_builds`: a scenario without `Builds` loads exactly when
  `Validate` accepts it and the default `Builds`, `nvars()` zero `Build`s of
  prototype `""`, are empty or `Facs` has a prototype `""`.
-/
namespace Cloudlus.Scen

open Go Outcome

/-! ## `findLine` -/

/-- The body of `findLine`'s loop after `ReadByte` (lines 559-564). -/
def lineColStep (lc : Int × Int) (b : UInt8) : Int × Int :=
  if b = 10 then (lc.1 + 1, 1) else (lc.1, lc.2 + 1)

/-- The loop of `findLine` (lines 554-565) with `fuel` iterations left:
`buf.ReadByte()`, whose `io.EOF` past the end is panicked, then the body. -/
def findLineLoop : Nat → List UInt8 → Int × Int → Outcome (Int × Int)
  | 0, _, lc => ok lc
  | _ + 1, [], _ => panic (.value "EOF")
  | fuel + 1, b :: rest, lc => findLineLoop fuel rest (lineColStep lc b)

/-- mirrors `findLine` (lines 551-567). -/
def findLine (data : List UInt8) (pos : Int) : Outcome (Int × Int) := findLineLoop pos.toNat data (1, 0)

theorem findLineLoop_eq : ∀ (k : Nat) (bs : List UInt8) (lc : Int × Int), k ≤ bs.length →
    findLineLoop k bs lc = ok ((bs.take k).foldl lineColStep lc)
  | 0, _, _, _ => rfl
  | _ + 1, [], _, h => absurd h (by simp)
  | k + 1, b :: rest, lc, h => by
    rw [findLineLoop, findLineLoop_eq k rest _ (by simp at h; omega)]
    rfl

theorem findLineLoop_panics : ∀ (k : Nat) (bs : List UInt8) (lc : Int × Int), bs.length < k →
    findLineLoop k bs lc = panic (.value "EOF")
  | 0, _, _, h => absurd h (Nat.not_lt_zero _)
  | _ + 1, [], _, _ => rfl
  | k + 1, b :: rest, lc, h => by
    rw [findLineLoop]
    exact findLineLoop_panics k rest _ (by simp at h; omega)

theorem foldl_lineColStep_fst (l : List UInt8) (lc : Int × Int) :
    (l.foldl lineColStep lc).1 = lc.1 + l.count 10 := by
  induction l generalizing lc with
  | nil => simp
  | cons b l ih =>
    rw [List.foldl_cons, ih, List.count_cons, lineColStep]
    by_cases hb : b = 10
    · simp only [hb, if_true, beq_self_eq_true, Nat.cast_add]
      push_cast
      ring
    · simp [hb]

theorem foldl_lineColStep_of_not_mem {l : List UInt8} (h : 10 ∉ l) (lc : Int × Int) :
    l.foldl lineColStep lc = (lc.1, lc.2 + l.length) := by
  induction l generalizing lc with
  | nil => simp
  | cons b l ih =>
    simp only [List.mem_cons, not_or] at h
    rw [List.foldl_cons, lineColStep, if_neg (Ne.symm h.1), ih h.2]
    simp only [List.length_cons, Nat.cast_add, Nat.cast_one]
    congr 1
    ring

/-- For every offset within `data`, `findLine` returns line
`1 + (newlines in data[:pos])`; the column is `pos` on the first line, but
one more than the number of bytes after the last newline on later lines. -/
theorem findLine_position (data : List UInt8) (pos : Int) (h0 : 0 ≤ pos) (hp : pos ≤ data.length) :
    ∃ line col, findLine data pos = ok (line, col) ∧ line = 1 + (data.take pos.toNat).count 10 ∧
      (10 ∉ data.take pos.toNat → col = pos) ∧
      ∀ pre post, data.take pos.toNat = pre ++ 10 :: post → 10 ∉ post → col = post.length + 1 := by
  refine ⟨_, _, findLineLoop_eq _ data (1, 0) (by omega), foldl_lineColStep_fst _ _, fun h => ?_,
    fun pre post hsplit hpost => ?_⟩
  · rw [foldl_lineColStep_of_not_mem h, List.length_take]
    simp only [zero_add]
    omega
  · rw [hsplit, List.foldl_append, List.foldl_cons, lineColStep, if_pos rfl,
      foldl_lineColStep_of_not_mem hpost]
    dsimp only
    ring

/-- Past the end of `data`, `ReadByte` returns `io.EOF` and `findLine` panics. -/
theorem findLine_panics (data : List UInt8) (pos : Int) (h : data.length < pos) :
    findLine data pos = panic (.value "EOF") :=
  findLineLoop_panics _ data _ (by omega)

theorem findLine_position_secondLine :
    findLine [97, 10, 98] 3 = ok (2, 2) ∧ findLine [97] 1 = ok (1, 1) := by
  obtain ⟨line, col, h, hl, -, hc⟩ := findLine_position [97, 10, 98] 3 (by decide) (by decide)
  obtain ⟨line', col', h', hl', hc', -⟩ := findLine_position [97] 1 (by decide) (by decide)
  rw [hc [97] [98] rfl (by decide), hl] at h
  rw [hc' (by decide), hl'] at h'
  exact ⟨h, h'⟩

/-! ## `Load` -/

def Build.zero : Build := ⟨0, "", 0, 0, Facility.zero⟩

/-- The end of `Scenario.Load` (lines 440-443): without `Builds`,
`make([]Build, s.nvars())`, then `Validate`. -/
def Scenario.load (s : Scenario) : Outcome Unit := do
  let s ← if s.builds.length = 0 then do
      let builds ← makeSlice (← s.nvars) Build.zero
      pure { s with builds := builds }
    else pure s
  s.validate

/-- What `json.Unmarshal` made of the file's bytes (lines 431-437). -/
inductive Decoded where
  /-- a `*json.SyntaxError` after `offset` bytes, printing `msg` -/
  | syntaxError (offset : Int) (msg : String)
  /-- any other error, printing `msg` -/
  | otherError (msg : String)
  /-- the decoded scenario -/
  | scenario (s : Scenario)

/-- mirrors `Scenario.Load` (lines 423-444), once `ioutil.ReadFile` returned `data`. -/
def loadFile (fname : String) (data : List UInt8) : Decoded → Outcome Unit
  | .syntaxError offset msg => do
    let (line, col) ← findLine data offset
    error (fname ++ ":" ++ toString line ++ ":" ++ toString col ++ ": " ++ msg)
  | .otherError msg => error msg
  | .scenario s => s.load

theorem validate_with_builds {s : Scenario} (hb : s.builds = []) (bs : List Build) :
    ({ s with builds := bs } : Scenario).validate = ok () ↔
      s.validate = ok () ∧ ∀ b ∈ bs, ∃ f ∈ s.facs, f.proto = b.proto := by
  rw [Scenario.validate_eq_ok, Scenario.validate_eq_ok (s := s), hb]
  simp only [List.not_mem_nil, false_implies, implies_true, and_true, and_assoc]
  exact Iff.rfl

theorem load_of_builds_nil {s : Scenario} (hb : s.builds = []) :
    s.load = s.nvars >>= fun n => makeSlice n Build.zero >>= fun bs =>
      ({ s with builds := bs } : Scenario).validate := by
  cases h : s.nvars <;> simp [Scenario.load, hb, h]

/-- A scenario without `Builds` loads exactly when `Validate` accepts it and
the `nvars()` default `Build`s, of prototype `""`, are none (no facility type
or no build period) or `Facs` has a prototype `""`. -/
theorem load_default_builds (s : Scenario) (hb : s.builds = []) :
    s.load = ok () ↔ s.validate = ok () ∧ (s.facs = [] ∨ s.minPower = [] ∨ ∃ f ∈ s.facs, f.proto = "") := by
  by_cases hv : s.validate = ok ()
  · obtain ⟨-, hn, -⟩ := Scenario.validate_eq_ok.mp hv
    have hnv : s.nvars = ok ((s.facs.length * s.minPower.length : Nat) : Int) := by
      simp [Scenario.nvars_of_nperiods hn]
    rw [load_of_builds_nil hb, hnv, ok_bind, makeSlice, if_neg (by omega), ok_bind, validate_with_builds hb,
      Int.toNat_ofNat, List.forall_mem_replicate]
    simp [hv, Build.zero, Nat.mul_eq_zero, or_assoc]
  · refine iff_of_false (fun h => hv ?_) (fun h => hv h.1)
    rw [load_of_builds_nil hb] at h
    obtain ⟨n, -, h⟩ := bind_eq_ok.mp h
    obtain ⟨bs, -, h⟩ := bind_eq_ok.mp h
    exact ((validate_with_builds hb bs).mp h).1

def withoutBuilds : Scenario :=
  { simDur := 2, buildOffset := 0, trailingDur := 0, buildPeriod := 1,
    facs := [⟨"lwr", 1, 10, 0, []⟩], minPower := [1], maxPower := [1], builds := [] }

theorem load_default_builds_withoutBuilds :
    withoutBuilds.validate = ok () ∧ withoutBuilds.load ≠ ok () ∧
      withoutBuilds.load = error "param prototype \x27\x27 is not defined in Facs" := by
  have hv : withoutBuilds.validate = ok () := by decide
  refine ⟨hv, fun h => ?_, by decide⟩
  have := (load_default_builds withoutBuilds rfl).mp h
  simp [withoutBuilds] at this

end Cloudlus.Scen
