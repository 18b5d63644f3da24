import Mathlib.Data.List.Nodup

/-!
# The Go run-time behaviour the `scen` package relies on

`scen` is plain Go over `int`, `float64`, slices and maps. Its model:

* a call ends in an `Outcome`: its result, the `error` it returns, or a
  panic (`Panic`: a run-time one, with the values the runtime's message
  prints, or the program's own `panic(v)`).
  `bind` runs the rest of a function only after a result: that is Go's
  `if err != nil { return nil, err }`, and the unwinding of a panic, which
  nothing in `scen` recovers.
* `int` is `Int`, and integer `/` truncates toward zero (`Int.tdiv`) and
  panics on a zero divisor. Go's `int` is 64 bits wide and wraps around;
  the model does not, so a result about values that could overflow assumes
  that each value Go computes fits (`FitsInt`), where the two agree.
* `float64` is `ℚ`: arithmetic is exact, with no rounding, infinities or NaN.
* a slice is a `List`; indexing, slicing and `make` check their bounds.
* a `map[K]V` is a `GoMap K V`, an association list whose keys are distinct;
  reading an absent key gives the zero value the caller names. Iteration is
  in insertion order, where Go randomises it: every loop of `scen` over a
  map sums it, and sums in `ℚ` do not depend on the order.
-/
namespace Cloudlus.Go

/-- A run-time panic, with the operands its message prints. -/
inductive Panic where
  /-- `index out of range [i] with length len` -/
  | indexOutOfRange (i len : Int)
  /-- `slice bounds out of range [lo:len]` -/
  | sliceBoundsOutOfRange (lo len : Int)
  /-- `slice bounds out of range [:hi]` (`with capacity cap` when `hi` is past it) -/
  | sliceHighOutOfRange (hi cap : Int)
  /-- `integer divide by zero` -/
  | integerDivideByZero
  /-- `makeslice: len out of range` -/
  | makesliceLenOutOfRange
  /-- `panic(v)` with a string or an `error` `v`; `msg` is what it prints. -/
  | value (msg : String)
  deriving DecidableEq, Repr

/-- How a call ends. -/
inductive Outcome (α : Type) where
  | ok (a : α)
  | error (msg : String)
  | panic (p : Panic)
  deriving DecidableEq, Repr

namespace Outcome

variable {α β : Type}

/-- Continue with the result; an error or a panic ends the caller too. -/
def bind : Outcome α → (α → Outcome β) → Outcome β
  | ok a, f => f a
  | error e, _ => error e
  | panic p, _ => panic p

instance : Monad Outcome where
  pure := ok
  bind := bind

@[simp] theorem pure_eq (a : α) : (pure a : Outcome α) = ok a := rfl
@[simp] theorem ok_bind (a : α) (f : α → Outcome β) : (ok a >>= f) = f a := rfl
@[simp] theorem error_bind (e : String) (f : α → Outcome β) : (error e >>= f) = error e := rfl
@[simp] theorem panic_bind (p : Panic) (f : α → Outcome β) : (panic p >>= f) = panic p := rfl

theorem bind_eq_ok {x : Outcome α} {f : α → Outcome β} {b : β} :
    x >>= f = ok b ↔ ∃ a, x = ok a ∧ f a = ok b := by
  cases x <;> simp

/-- A computation that never returns an `error`. -/
def NoError (x : Outcome α) : Prop := ∀ e, x ≠ error e

theorem NoError.bind {x : Outcome α} {f : α → Outcome β} (hx : x.NoError)
    (hf : ∀ a, x = ok a → (f a).NoError) : (x >>= f).NoError := by
  cases x with
  | ok a => exact hf a rfl
  | error e => exact absurd rfl (hx e)
  | panic p => intro e; simp

/-- After a computation that returns no `error`, `x >>= f` panics once `f`
panics on every result of `x`. -/
theorem NoError.bind_panic {x : Outcome α} {f : α → Outcome β} (hx : x.NoError)
    (hf : ∀ a, x = ok a → ∃ p, f a = panic p) : ∃ p, x >>= f = panic p := by
  cases x with
  | ok a => exact hf a rfl
  | error e => exact absurd rfl (hx e)
  | panic p => exact ⟨p, rfl⟩

end Outcome

open Outcome

variable {α : Type}

/-- `xs[i]`. -/
def index (xs : List α) (i : Int) : Outcome α :=
  if h : 0 ≤ i ∧ i < xs.length then ok (xs.get ⟨i.toNat, by omega⟩)
  else panic (.indexOutOfRange i xs.length)

theorem index_of_lt (xs : List α) {n : Nat} (h : n < xs.length) :
    index xs n = ok (xs.get ⟨n, h⟩) := by
  have hn : (0 : Int) ≤ n ∧ (n : Int) < xs.length := by omega
  simp [index, hn]

@[simp] theorem index_cons_zero (a : α) (as : List α) : index (a :: as) 0 = ok a := by
  rw [index, dif_pos (by simp)]; rfl

theorem index_of_le (xs : List α) {i : Int} (h : xs.length ≤ i) :
    index xs i = panic (.indexOutOfRange i xs.length) := by
  rw [index, dif_neg (by omega)]

/-- `xs[lo:]`. -/
def sliceFrom (xs : List α) (lo : Int) : Outcome (List α) :=
  if 0 ≤ lo ∧ lo ≤ xs.length then ok (xs.drop lo.toNat)
  else panic (.sliceBoundsOutOfRange lo xs.length)

/-- `xs[:hi]`, on a slice whose capacity is its length. -/
def sliceTo (xs : List α) (hi : Int) : Outcome (List α) :=
  if 0 ≤ hi ∧ hi ≤ xs.length then ok (xs.take hi.toNat)
  else panic (.sliceHighOutOfRange hi xs.length)

/-- `x` is a value of Go's 64-bit `int`, `-2^63 ≤ x < 2^63`. -/
def FitsInt (x : Int) : Prop := -9223372036854775808 ≤ x ∧ x < 9223372036854775808

instance (x : Int) : Decidable (FitsInt x) := inferInstanceAs (Decidable (_ ∧ _))

/-- `a / b` on `int`. -/
def quot (a b : Int) : Outcome Int :=
  if b = 0 then panic .integerDivideByZero else ok (a.tdiv b)

/-- `make([]T, n)`, filled with the zero value `z`. -/
def makeSlice (n : Int) (z : α) : Outcome (List α) :=
  if n < 0 then panic .makesliceLenOutOfRange else ok (List.replicate n.toNat z)

/-- `xs[i] = v`. -/
def setIndex (xs : List α) (i : Int) (v : α) : Outcome (List α) :=
  if 0 ≤ i ∧ i < xs.length then ok (xs.set i.toNat v)
  else panic (.indexOutOfRange i xs.length)

theorem setIndex_of_lt (xs : List α) {n : Nat} (v : α) (h : n < xs.length) :
    setIndex xs n v = ok (xs.set n v) := by
  have hn : (0 : Int) ≤ n ∧ (n : Int) < xs.length := by omega
  simp [setIndex, hn]

/-! ## Maps -/

/-- Replace the value of key `k`, or add `k` at the end. -/
def assocSet {κ ν : Type} [DecidableEq κ] : List (κ × ν) → κ → ν → List (κ × ν)
  | [], k, v => [(k, v)]
  | e :: es, k, v => if e.1 = k then (k, v) :: es else e :: assocSet es k v

theorem mem_keys_assocSet {κ ν : Type} [DecidableEq κ] (es : List (κ × ν)) (k k' : κ) (v : ν) :
    k' ∈ (assocSet es k v).map Prod.fst ↔ k' = k ∨ k' ∈ es.map Prod.fst := by
  induction es with
  | nil => simp [assocSet]
  | cons e es ih =>
    simp only [assocSet]
    split <;> simp_all [or_left_comm]

theorem nodup_assocSet {κ ν : Type} [DecidableEq κ] {es : List (κ × ν)} (k : κ) (v : ν)
    (h : (es.map Prod.fst).Nodup) : ((assocSet es k v).map Prod.fst).Nodup := by
  induction es with
  | nil => simp [assocSet]
  | cons e es ih =>
    simp only [List.map_cons, List.nodup_cons] at h
    simp only [assocSet]
    split
    · simpa [*] using h
    · simp only [List.map_cons, List.nodup_cons, mem_keys_assocSet, not_or]
      exact ⟨⟨‹¬e.1 = k›, h.1⟩, ih h.2⟩

/-- A Go map: an association list with distinct keys. -/
structure GoMap (κ ν : Type) where
  entries : List (κ × ν)
  nodup : (entries.map Prod.fst).Nodup
  deriving DecidableEq

namespace GoMap

variable {κ ν : Type} [DecidableEq κ]

/-- `map[K]V{}` -/
def empty : GoMap κ ν := ⟨[], List.nodup_nil⟩

/-- `v, ok := m[k]` -/
def find? (m : GoMap κ ν) (k : κ) : Option ν := (m.entries.find? (·.1 = k)).map Prod.snd

/-- `m[k]`, where `z` is the zero value of `V`. -/
def get (m : GoMap κ ν) (k : κ) (z : ν) : ν := (m.find? k).getD z

/-- `m[k] = v` -/
def set (m : GoMap κ ν) (k : κ) (v : ν) : GoMap κ ν :=
  ⟨assocSet m.entries k v, nodup_assocSet k v m.nodup⟩

/-- The values, in iteration order. -/
def values (m : GoMap κ ν) : List ν := m.entries.map Prod.snd

@[simp] theorem find?_empty (k : κ) : (empty : GoMap κ ν).find? k = none := rfl

@[simp] theorem get_empty (k : κ) (z : ν) : (empty : GoMap κ ν).get k z = z := rfl

theorem find?_assocSet (es : List (κ × ν)) (k k' : κ) (v : ν) :
    ((assocSet es k v).find? (·.1 = k')).map Prod.snd =
      if k = k' then some v else (es.find? (·.1 = k')).map Prod.snd := by
  induction es with
  | nil => by_cases h : k = k' <;> simp [assocSet, h]
  | cons e es ih =>
    simp only [assocSet]
    by_cases h : k = k'
    · subst h; by_cases he : e.1 = k <;> simp_all [List.find?_cons]
    · by_cases he : e.1 = k <;> by_cases h' : e.1 = k' <;> simp_all [List.find?_cons]

@[simp] theorem find?_set (m : GoMap κ ν) (k k' : κ) (v : ν) :
    (m.set k v).find? k' = if k = k' then some v else m.find? k' :=
  find?_assocSet m.entries k k' v

/-- A key's entry is the one `find?` returns: the keys are distinct. -/
theorem find?_of_mem {m : GoMap κ ν} {k : κ} {v : ν} (h : (k, v) ∈ m.entries) :
    m.find? k = some v := by
  obtain ⟨es, nodup⟩ := m
  simp only [find?]
  induction es with
  | nil => cases h
  | cons e es ih =>
    simp only [List.map_cons, List.nodup_cons] at nodup
    rcases List.mem_cons.mp h with rfl | h
    · simp
    · have hk : e.1 ≠ k := fun he => nodup.1 (he ▸ List.mem_map_of_mem Prod.fst h)
      simpa [List.find?_cons, hk] using ih nodup.2 h

/-- The value an entry holds is what `m[k]` returns for its key. -/
theorem get_of_mem {m : GoMap κ ν} {e : κ × ν} (h : e ∈ m.entries) (z : ν) : m.get e.1 z = e.2 := by
  simp [get, find?_of_mem h]

end GoMap

end Cloudlus.Go
