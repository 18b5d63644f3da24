import Mathlib.Data.List.Nodup

/-!
# The result cache: a size-bounded LRU map

`alljobs` is a `cache.LRUCache` of `github.com/rwcarlsen/gocache`, built with
`NewLRUCache(500 * MB)`. The library is not part of the source; its
behaviour is the one the spec asks of the cache (§4.3: bounded by total
size, least-recently-used eviction), as the library implements it:

* `Get(key)` returns the entry's value and moves it to the front;
* `Set(key, value)` replaces the entry's value and size (`value.Size()`,
  taken at the time of the call) or pushes a new entry, moves it to the
  front, and then `checkCapacity` removes `list.Back()` while the total
  size exceeds the capacity.

The entries are listed from the back (least recently used) to the front;
keys are distinct, which the structure carries.

The dispatcher only needs what a lookup can see:
* `lookup_get`: `Get` changes no lookup.
* `lookup_set`: after `Set k v`, a lookup of `k` is `v` or nothing, and a
  lookup of any other key is what it was or nothing (eviction is silent).
* `lookup_set_self`: an entry no larger than the capacity survives its own
  `Set`.

And what bounds its size:
* `total_set_le`, `total_get`: after `Set` the entries' sizes add up to no
  more than the capacity, and `Get` leaves their sum as it was.
* `set_of_large`: an entry larger than the capacity empties the cache.
* `set_keeps_recent`: `Set` evicts from the least recently used end: an
  entry survives while it, the entries used after it and the new one fit.
-/
namespace Cloudlus

/-- One cache entry: key, value, and the size `Set` charged for it. -/
structure Entry (κ ν : Type) where
  key : κ
  value : ν
  size : Nat

/-- The total size of some entries (`lru.size`). -/
def total {κ ν : Type} (es : List (Entry κ ν)) : Nat := es.foldr (fun e acc => e.size + acc) 0

/-- `LRUCache`: entries from `list.Back()` to `list.Front()`, one per key. -/
structure LRUCache (κ ν : Type) where
  capacity : Nat
  entries : List (Entry κ ν)
  nodup : (entries.map Entry.key).Nodup

variable {κ ν : Type}

/-- `NewLRUCache(capacity)`. -/
def LRUCache.empty (capacity : Nat) : LRUCache κ ν := ⟨capacity, [], List.nodup_nil⟩

/-- `checkCapacity`: while over capacity, remove `list.Back()`. -/
def checkCapacity (cap : Nat) : List (Entry κ ν) → List (Entry κ ν)
  | [] => []
  | e :: es => if cap < total (e :: es) then checkCapacity cap es else e :: es

theorem checkCapacity_suffix (cap : Nat) :
    ∀ es : List (Entry κ ν), checkCapacity cap es <:+ es
  | [] => List.suffix_refl _
  | e :: es => by
    unfold checkCapacity
    split
    · exact (checkCapacity_suffix cap es).trans (List.suffix_cons e es)
    · exact List.suffix_refl _

theorem checkCapacity_last (cap : Nat) (e : Entry κ ν) (he : e.size ≤ cap) :
    ∀ es : List (Entry κ ν), e ∈ checkCapacity cap (es ++ [e])
  | [] => by simp [checkCapacity, total, he]
  | x :: es => by
    simp only [List.cons_append, checkCapacity]
    split
    · exact checkCapacity_last cap e he es
    · exact List.mem_cons_of_mem _ (List.mem_append_right _ (List.mem_singleton_self _))

/-! ## Sizes -/

@[simp] theorem total_nil : total ([] : List (Entry κ ν)) = 0 := rfl

@[simp] theorem total_cons (e : Entry κ ν) (es : List (Entry κ ν)) : total (e :: es) = e.size + total es := rfl

theorem total_append (es es' : List (Entry κ ν)) : total (es ++ es') = total es + total es' := by
  induction es with
  | nil => simp
  | cons e es ih => simp [ih, Nat.add_assoc]

/-- `checkCapacity` leaves no more than the capacity. -/
theorem total_checkCapacity (cap : Nat) : ∀ es : List (Entry κ ν), total (checkCapacity cap es) ≤ cap
  | [] => Nat.zero_le _
  | e :: es => by
    unfold checkCapacity
    split
    · exact total_checkCapacity cap es
    · omega

/-- An entry larger than the capacity takes every entry with it. -/
theorem checkCapacity_of_large (cap : Nat) (e : Entry κ ν) (he : cap < e.size) :
    ∀ es : List (Entry κ ν), checkCapacity cap (es ++ [e]) = []
  | [] => by simp [checkCapacity, he]
  | x :: es => by
    have : cap < total (x :: (es ++ [e])) := by simp [total_append]; omega
    rw [List.cons_append, checkCapacity, if_pos this]
    exact checkCapacity_of_large cap e he es

/-- `checkCapacity` removes from the back only: every tail of the entries
that fits in the capacity survives it. -/
theorem checkCapacity_keeps_suffix (cap : Nat) {suf : List (Entry κ ν)} (hs : total suf ≤ cap) :
    ∀ pre : List (Entry κ ν), suf <:+ checkCapacity cap (pre ++ suf)
  | [] => by
    cases suf with
    | nil => exact List.nil_suffix
    | cons e es =>
      have h : checkCapacity cap (e :: es) = e :: es := by rw [checkCapacity, if_neg (by omega)]
      simpa only [List.nil_append, h] using List.suffix_refl (e :: es)
  | x :: pre => by
    rw [List.cons_append, checkCapacity]
    split
    · exact checkCapacity_keeps_suffix cap hs pre
    · exact List.suffix_append (x :: pre) suf

variable [DecidableEq κ]

/-- The entries without the one for `k`, then `e` at the front. -/
def toFront (es : List (Entry κ ν)) (e : Entry κ ν) : List (Entry κ ν) :=
  es.filter (fun x => x.key ≠ e.key) ++ [e]

theorem toFront_nodup {es : List (Entry κ ν)} (h : (es.map Entry.key).Nodup) (e : Entry κ ν) :
    ((toFront es e).map Entry.key).Nodup := by
  rw [toFront, List.map_append, List.nodup_append]
  refine ⟨(h.sublist (List.filter_sublist _ |>.map _)), List.nodup_singleton _, ?_⟩
  simp [List.disjoint_singleton]

/-- `Set(key, value)`: `updateInplace` or `addNew`, then `checkCapacity`. -/
def LRUCache.set (c : LRUCache κ ν) (k : κ) (v : ν) (size : Nat) : LRUCache κ ν where
  capacity := c.capacity
  entries := checkCapacity c.capacity (toFront c.entries ⟨k, v, size⟩)
  nodup := (toFront_nodup c.nodup _).sublist ((checkCapacity_suffix _ _).sublist.map _)

/-- What a `Get` of `k` would return, without moving anything. -/
def LRUCache.lookup (c : LRUCache κ ν) (k : κ) : Option ν :=
  (c.entries.find? (fun e => e.key = k)).map Entry.value

/-- `Get(key)`: the value, and the entry moved to the front. -/
def LRUCache.get (c : LRUCache κ ν) (k : κ) : Option ν × LRUCache κ ν :=
  match c.entries.find? (fun e => e.key = k) with
  | none => (none, c)
  | some e => (some e.value, ⟨c.capacity, toFront c.entries e, toFront_nodup c.nodup e⟩)

/-! ## Lookups -/

/-- With distinct keys, the entry with key `k` is the one `find?` returns. -/
theorem find?_key_of_mem {es : List (Entry κ ν)} (h : (es.map Entry.key).Nodup) {e : Entry κ ν}
    (he : e ∈ es) : es.find? (fun x => x.key = e.key) = some e := by
  cases hf : es.find? (fun x => x.key = e.key) with
  | none => exact absurd he (by simpa using List.find?_eq_none.mp hf e)
  | some x =>
    have hx := List.mem_of_find?_eq_some hf
    have hk : x.key = e.key := by simpa using List.find?_some hf
    rw [List.inj_on_of_nodup_map h hx he hk]

/-- A lookup in a sublist with distinct keys finds the same entry or none. -/
theorem find?_sublist {es es' : List (Entry κ ν)} (h : (es.map Entry.key).Nodup) (hs : List.Sublist es' es)
    (k : κ) {e : Entry κ ν} (he : es'.find? (fun x => x.key = k) = some e) :
    es.find? (fun x => x.key = k) = some e := by
  have hk : e.key = k := by simpa using List.find?_some he
  subst hk
  exact find?_key_of_mem h (hs.subset (List.mem_of_find?_eq_some he))

theorem find?_toFront (es : List (Entry κ ν)) (e : Entry κ ν) (k : κ) :
    (toFront es e).find? (fun x => x.key = k) =
      if e.key = k then some e else es.find? (fun x => x.key = k) := by
  rw [toFront, List.find?_append, List.find?_filter]
  split
  · rename_i h
    subst h
    rw [List.find?_eq_none.mpr (by simp)]
    simp
  · rename_i h
    have : (fun a : Entry κ ν => decide (decide (a.key ≠ e.key) = true ∧ decide (a.key = k) = true))
        = fun a => decide (a.key = k) := by
      funext a; by_cases ha : a.key = k <;> simp [ha]; exact fun h' => h (h' ▸ ha.symm ▸ rfl)
    rw [this]
    cases es.find? (fun x => x.key = k) <;> simp [h]

@[simp] theorem get_fst (c : LRUCache κ ν) (k : κ) : (c.get k).1 = c.lookup k := by
  unfold LRUCache.get LRUCache.lookup
  cases c.entries.find? (fun e => e.key = k) <;> rfl

@[simp] theorem lookup_get (c : LRUCache κ ν) (k k' : κ) : (c.get k).2.lookup k' = c.lookup k' := by
  unfold LRUCache.get
  split
  · rfl
  · rename_i e he
    have hk : e.key = k := by simpa using List.find?_some he
    simp only [LRUCache.lookup, find?_toFront]
    split
    · rename_i h
      rw [← h, find?_key_of_mem c.nodup (List.mem_of_find?_eq_some he)]
    · rfl

/-- After `Set k v`, a lookup finds `v` under `k`, what it found before under
any other key, or nothing. -/
theorem lookup_set {c : LRUCache κ ν} {k k' : κ} {v r : ν} {size : Nat}
    (h : (c.set k v size).lookup k' = some r) :
    (k' = k ∧ r = v) ∨ (k' ≠ k ∧ c.lookup k' = some r) := by
  simp only [LRUCache.lookup, LRUCache.set, Option.map_eq_some'] at h ⊢
  obtain ⟨e, he, rfl⟩ := h
  have hf := find?_sublist (toFront_nodup c.nodup _) (checkCapacity_suffix _ _).sublist k' he
  rw [find?_toFront] at hf
  split at hf
  · rename_i hk
    cases hf
    exact .inl ⟨hk.symm, rfl⟩
  · rename_i hk
    exact .inr ⟨fun h => hk h.symm, e, hf, rfl⟩

/-- An entry no larger than the capacity is found right after its `Set`. -/
theorem lookup_set_self (c : LRUCache κ ν) (k : κ) (v : ν) {size : Nat} (h : size ≤ c.capacity) :
    (c.set k v size).lookup k = some v := by
  have hmem : (⟨k, v, size⟩ : Entry κ ν) ∈ (c.set k v size).entries :=
    checkCapacity_last c.capacity _ h _
  simp only [LRUCache.lookup, find?_key_of_mem (c.set k v size).nodup hmem]
  rfl

@[simp] theorem lookup_empty (cap : Nat) (k : κ) : (LRUCache.empty cap : LRUCache κ ν).lookup k = none :=
  rfl

/-- Moving an entry to the front keeps the total size. -/
theorem total_toFront {es : List (Entry κ ν)} (h : (es.map Entry.key).Nodup) {e : Entry κ ν} (he : e ∈ es) :
    total (toFront es e) = total es := by
  rw [toFront, total_append]
  induction es with
  | nil => cases he
  | cons x es ih =>
    simp only [List.map_cons, List.nodup_cons, List.mem_map] at h
    rcases List.mem_cons.mp he with rfl | he'
    · have hf : es.filter (fun y => y.key ≠ e.key) = es :=
        List.filter_eq_self.mpr fun y hy => by simpa using fun hk => h.1 ⟨y, hy, hk⟩
      rw [List.filter_cons_of_neg (by simp), hf]
      simp [Nat.add_comm]
    · have hk : x.key ≠ e.key := fun hk => h.1 ⟨e, he', hk.symm⟩
      rw [List.filter_cons_of_pos (by simpa using hk), total_cons, Nat.add_assoc, ih h.2 he', total_cons]

theorem total_set_le (c : LRUCache κ ν) (k : κ) (v : ν) (size : Nat) :
    total (c.set k v size).entries ≤ c.capacity :=
  total_checkCapacity _ _

theorem total_get (c : LRUCache κ ν) (k : κ) : total (c.get k).2.entries = total c.entries := by
  unfold LRUCache.get
  split
  · rfl
  · exact total_toFront c.nodup (List.mem_of_find?_eq_some ‹_›)

@[simp] theorem capacity_set (c : LRUCache κ ν) (k : κ) (v : ν) (size : Nat) :
    (c.set k v size).capacity = c.capacity := rfl

@[simp] theorem capacity_get (c : LRUCache κ ν) (k : κ) : (c.get k).2.capacity = c.capacity := by
  unfold LRUCache.get
  split <;> rfl

/-- `Set` evicts the least recently used entries first: an entry survives a
`Set` of another key as long as its size, the sizes of the entries used after
it and the new entry's size fit in the capacity. -/
theorem set_keeps_recent (c : LRUCache κ ν) (k : κ) (v : ν) (size : Nat) {pre suf : List (Entry κ ν)}
    (h : c.entries = pre ++ suf) (hs : total (suf.filter (·.key ≠ k)) + size ≤ c.capacity) :
    ∀ e ∈ suf, e.key ≠ k → e ∈ (c.set k v size).entries := by
  intro e he hk
  have hkeep : suf.filter (·.key ≠ k) ++ [⟨k, v, size⟩] <:+ (c.set k v size).entries := by
    have := @checkCapacity_keeps_suffix κ ν c.capacity (suf.filter (·.key ≠ k) ++ [⟨k, v, size⟩])
      (by simpa [total_append] using hs) (pre.filter (·.key ≠ k))
    simpa only [LRUCache.set, toFront, h, List.filter_append, List.append_assoc] using this
  exact hkeep.subset (List.mem_append_left _ (List.mem_filter.mpr ⟨he, by simpa using hk⟩))

/-- A cache of capacity 10 holding an entry of size 3, then, more recently
used, one of size 4. -/
def twoEntries : LRUCache Nat String := ⟨10, [⟨1, "a", 3⟩, ⟨2, "b", 4⟩], by decide⟩

/-- A `Set` of size 5 keeps the more recent entry, since `4 + 5 ≤ 10`. -/
theorem set_keeps_recent_twoEntries : (⟨2, "b", 4⟩ : Entry Nat String) ∈ (twoEntries.set 3 "c" 5).entries :=
  @set_keeps_recent Nat String _ twoEntries 3 "c" 5 [⟨1, "a", 3⟩] [⟨2, "b", 4⟩] rfl (by decide) _
    (List.mem_singleton_self _) (by decide)

/-- A `Set` of a value larger than the capacity empties the cache. -/
theorem set_of_large (c : LRUCache κ ν) (k : κ) (v : ν) {size : Nat} (h : c.capacity < size) :
    (c.set k v size).entries = [] :=
  checkCapacity_of_large _ ⟨k, v, size⟩ h _

end Cloudlus
