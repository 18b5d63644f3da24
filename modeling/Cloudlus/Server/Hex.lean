import Cloudlus.Server.Job

/-!
# Job ids as text: `fmt.Sprintf("%x", id)` and `convid`

The submit handlers print a new job's id with `fmt.Fprintf(w, "%x", j.Id)`;
`getjob` reads it back from the URL with `convid`, which runs
`hex.DecodeString` and then `copy(id[:], uid)`. Go strings are byte strings,
so both sides are lists of bytes here.

* `sprintfX`: `%x` on a byte array, two lowercase digits per byte, high
  nibble first (`fmt`'s `fmtSbx` over `"0123456789abcdef"`).
* `decode`: `hex.Decode`, pair by pair from the left; the first pair with a
  byte outside `[0-9a-fA-F]` is an `InvalidByteError`, and a trailing odd
  byte is `ErrLength` once it is itself a digit.
* `convid`: on success the first sixteen decoded bytes, zero-padded when
  fewer were decoded (`copy` stops at the shorter of the two slices).

Results:
* `convid_sprintfX`: every id prints to a string that reads back as that id.
* `convid_ok_iff`: `convid` accepts exactly the strings of even length made
  of hex digits of either case, whatever their length.
* `sprintfX_convid`: on an accepted string of 32 digits, printing the id it
  reads gives the string back in lowercase.
* `convid_pads`: the empty string and `"00"` both read as the zero id.
* `convid_append`: after 32 digits, further well-formed digits are ignored.
-/
namespace Cloudlus

/-! ## `%x` -/

/-- The lowercase digit of a nibble. -/
def hexDigit (n : Nat) : UInt8 := UInt8.ofNat (if n < 10 then 48 + n else 87 + n)

/-- `fmt.Sprintf("%x", bs)` for a byte array. -/
def sprintfX : List UInt8 → List UInt8
  | [] => []
  | b :: bs => hexDigit (b.toNat / 16) :: hexDigit (b.toNat % 16) :: sprintfX bs

@[simp] theorem length_sprintfX (bs : List UInt8) : (sprintfX bs).length = 2 * bs.length := by
  induction bs with
  | nil => rfl
  | cons b bs ih => simp only [sprintfX, List.length_cons, ih]; omega

/-! ## `hex.DecodeString` -/

/-- The value of a hex digit of either case (`fromHexChar` in `encoding/hex`). -/
def fromHexChar (c : UInt8) : Option Nat :=
  if 48 ≤ c.toNat ∧ c.toNat ≤ 57 then some (c.toNat - 48)
  else if 97 ≤ c.toNat ∧ c.toNat ≤ 102 then some (c.toNat - 87)
  else if 65 ≤ c.toNat ∧ c.toNat ≤ 70 then some (c.toNat - 55)
  else none

/-- The errors `hex.Decode` returns. -/
inductive HexError where
  | invalidByte (b : UInt8)
  | oddLength
  deriving DecidableEq, Repr

/-- `hex.DecodeString`. -/
def decode : List UInt8 → Except HexError (List UInt8)
  | [] => .ok []
  | [c] => if (fromHexChar c).isSome then .error .oddLength else .error (.invalidByte c)
  | p :: q :: rest =>
    match fromHexChar p, fromHexChar q with
    | none, _ => .error (.invalidByte p)
    | some _, none => .error (.invalidByte q)
    | some a, some b => (decode rest).map (UInt8.ofNat (a * 16 + b) :: ·)

/-- `copy(id[:], uid)` into a zeroed `[16]byte`. -/
def copyId (uid : List UInt8) : JobId :=
  ⟨(uid ++ List.replicate 16 0).take 16, by simp⟩

/-- mirrors `convid` (server, lines 289-297). -/
def convid (s : List UInt8) : Except HexError JobId := (decode s).map copyId

/-! ## Digits -/

theorem fromHexChar_hexDigit {n : Nat} (h : n < 16) : fromHexChar (hexDigit n) = some n := by
  have hv : (hexDigit n).toNat = if n < 10 then 48 + n else 87 + n := by
    unfold hexDigit; split <;> exact UInt8.toNat_ofNat_of_lt (by unfold UInt8.size; omega)
  unfold fromHexChar; rw [hv]
  by_cases hn : n < 10
  · rw [if_pos hn, if_pos (by omega), Nat.add_sub_cancel_left]
  · rw [if_neg hn, if_neg (by omega), if_pos (by omega)]
    congr 1; omega

theorem byte_of_nibbles (b : UInt8) : UInt8.ofNat (b.toNat / 16 * 16 + b.toNat % 16) = b :=
  UInt8.toNat.inj (by rw [Nat.div_add_mod', UInt8.toNat_ofNat_of_lt b.toNat_lt_size])

theorem fromHexChar_lt {c : UInt8} {v : Nat} (h : fromHexChar c = some v) : v < 16 := by
  unfold fromHexChar at h
  split at h
  · cases h; omega
  · split at h
    · cases h; omega
    · split at h
      · cases h; omega
      · cases h

/-- ASCII lowercasing of one byte (`unicode.ToLower` on `'A'`-`'Z'`). -/
def asciiLower (c : UInt8) : UInt8 := if 65 ≤ c.toNat ∧ c.toNat ≤ 90 then UInt8.ofNat (c.toNat + 32) else c

/-- Printing the value of a digit gives the digit back, lowercased. -/
theorem hexDigit_fromHexChar {c : UInt8} {v : Nat} (h : fromHexChar c = some v) :
    hexDigit v = asciiLower c := by
  have hc : c.toNat < 256 := c.toNat_lt_size
  unfold fromHexChar at h
  unfold hexDigit asciiLower
  apply UInt8.toNat.inj
  split at h
  · cases h
    rw [if_pos (by omega), if_neg (by omega), UInt8.toNat_ofNat_of_lt (by unfold UInt8.size; omega)]
    omega
  · split at h
    · cases h
      rw [if_neg (by omega), if_neg (by omega), UInt8.toNat_ofNat_of_lt (by unfold UInt8.size; omega)]
      omega
    · split at h
      · cases h
        rw [if_neg (by omega), if_pos (by omega), UInt8.toNat_ofNat_of_lt (by unfold UInt8.size; omega),
          UInt8.toNat_ofNat_of_lt (by unfold UInt8.size; omega)]
        omega
      · cases h

/-! ## Round trip -/

theorem decode_sprintfX (bs : List UInt8) : decode (sprintfX bs) = .ok bs := by
  induction bs with
  | nil => rfl
  | cons b bs ih =>
    have hb : b.toNat < 256 := b.toNat_lt_size
    simp only [sprintfX, decode, fromHexChar_hexDigit (show b.toNat / 16 < 16 by omega),
      fromHexChar_hexDigit (show b.toNat % 16 < 16 by omega), ih, byte_of_nibbles]
    rfl

theorem copyId_bytes (id : JobId) : copyId id.bytes = id := by
  obtain ⟨bs, h⟩ := id
  simp only [copyId, JobId.mk.injEq]
  rw [List.take_append_of_le_length (by omega), ← h, List.take_length]

/-- Every id prints to a string that `convid` reads back as that id. -/
theorem convid_sprintfX (id : JobId) : convid (sprintfX id.bytes) = .ok id := by
  simp only [convid, decode_sprintfX]
  exact congrArg Except.ok (copyId_bytes id)

/-! ## What `convid` accepts -/

theorem exists_map_ok {ε α β : Type} (f : α → β) (e : Except ε α) :
    (∃ b, e.map f = .ok b) ↔ ∃ a, e = .ok a := by
  cases e <;> simp [Except.map]

theorem decode_ok_iff : ∀ s : List UInt8,
    (∃ bs, decode s = .ok bs) ↔ s.length % 2 = 0 ∧ ∀ c ∈ s, (fromHexChar c).isSome
  | [] => by simp [decode]
  | [c] => by simp only [decode]; split <;> simp
  | p :: q :: rest => by
    have h2 : (rest.length + 1 + 1) % 2 = rest.length % 2 := by omega
    simp only [decode]
    cases hp : fromHexChar p <;> cases hq : fromHexChar q <;>
      simp [hp, hq, exists_map_ok, decode_ok_iff rest, h2]

/-- `convid` accepts exactly the strings of even length made of hex digits. -/
theorem convid_ok_iff (s : List UInt8) :
    (∃ id, convid s = .ok id) ↔ s.length % 2 = 0 ∧ ∀ c ∈ s, (fromHexChar c).isSome := by
  rw [convid, exists_map_ok, decode_ok_iff]

/-- What `decode` accepts is twice as long as what it returns and prints
back lowercased. -/
theorem sprintfX_decode : ∀ {s bs : List UInt8}, decode s = .ok bs →
    s.length = 2 * bs.length ∧ sprintfX bs = s.map asciiLower
  | [], _, h => by cases h; simp [sprintfX]
  | [c], _, h => by simp only [decode] at h; split at h <;> cases h
  | p :: q :: rest, bs, h => by
    simp only [decode] at h
    cases hp : fromHexChar p <;> cases hq : fromHexChar q <;> simp only [hp, hq] at h <;> try cases h
    rename_i a b
    cases hr : decode rest with
    | error e => simp [hr, Except.map] at h
    | ok bs' =>
      simp only [hr, Except.map, Except.ok.injEq] at h
      subst h
      have ha := fromHexChar_lt hp
      have hb := fromHexChar_lt hq
      have hv : (UInt8.ofNat (a * 16 + b)).toNat = a * 16 + b :=
        UInt8.toNat_ofNat_of_lt (by unfold UInt8.size; omega)
      obtain ⟨hl, hs⟩ := sprintfX_decode hr
      refine ⟨by simp [hl]; omega, ?_⟩
      simp only [sprintfX, hv, List.map_cons, hs, ← hexDigit_fromHexChar hp, ← hexDigit_fromHexChar hq]
      congr 3 <;> omega

/-- On an accepted string of 32 digits, printing the id it reads gives the
string back in lowercase. -/
theorem sprintfX_convid {s : List UInt8} {id : JobId} (h : convid s = .ok id) (hl : s.length = 32) :
    sprintfX id.bytes = s.map asciiLower := by
  cases hd : decode s with
  | error e => simp [convid, hd, Except.map] at h
  | ok bs =>
    simp only [convid, hd, Except.map, Except.ok.injEq] at h
    obtain ⟨hlen, hs⟩ := sprintfX_decode hd
    subst h
    show sprintfX ((bs ++ _).take 16) = _
    rw [← hs, List.take_append_of_le_length (by omega), List.take_of_length_le (by omega)]

/-- `%x` and `convid` are inverse on the id space; `convid` accepts every
even-length string of hex digits, and on those of exactly 32 digits the
printed id is the string lowercased (so two such strings name one job only
when they agree up to case). -/
theorem convid_reads_printed_ids :
    (∀ id : JobId, convid (sprintfX id.bytes) = .ok id) ∧
    (∀ s, (∃ id, convid s = .ok id) ↔ s.length % 2 = 0 ∧ ∀ c ∈ s, (fromHexChar c).isSome) ∧
    (∀ s id, convid s = .ok id → s.length = 32 → sprintfX id.bytes = s.map asciiLower) :=
  ⟨convid_sprintfX, convid_ok_iff, fun _ _ => sprintfX_convid⟩

/-- The string of 32 zero digits (`"000…0"`). -/
def zeroDigits : List UInt8 := List.replicate 32 48

theorem convid_reads_printed_ids_zero :
    convid zeroDigits = .ok JobId.zero ∧ zeroDigits.length = 32 ∧
      sprintfX JobId.zero.bytes = zeroDigits.map asciiLower :=
  ⟨rfl, rfl, convid_reads_printed_ids.2.2 _ _ rfl rfl⟩

/-- Shorter strings are zero-padded: `""` and `"00"` are accepted and both
name the zero id. -/
theorem convid_accepts_short_ids :
    convid [] = .ok JobId.zero ∧ convid [48, 48] = .ok JobId.zero := ⟨rfl, rfl⟩

/-! ## Longer strings -/

/-- An even-length prefix is decoded on its own: its first bad pair, or else
its bytes followed by what the rest decodes to. -/
theorem decode_append : ∀ {s : List UInt8}, s.length % 2 = 0 → ∀ t : List UInt8,
    decode (s ++ t) = (decode s).bind fun a => (decode t).map (a ++ ·)
  | [], _, t => by
    rw [List.nil_append]
    cases decode t <;> rfl
  | [_], h, _ => absurd h (by simp)
  | p :: q :: rest, h, t => by
    have hr : rest.length % 2 = 0 := by simp at h; omega
    simp only [List.cons_append, decode]
    cases hp : fromHexChar p <;> cases hq : fromHexChar q <;> simp only [hp, hq] <;> try rfl
    rw [show rest.append t = rest ++ t from rfl, decode_append hr t]
    cases decode rest <;> cases decode t <;> rfl

/-- After 32 digits, `convid` ignores any further well-formed digits: it keeps
the first sixteen bytes. -/
theorem convid_append {s : List UInt8} (hs : s.length = 32) {t bs : List UInt8} (ht : decode t = .ok bs) :
    convid (s ++ t) = convid s := by
  rw [convid, convid, decode_append (by omega) t, ht]
  cases hd : decode s with
  | error e => rfl
  | ok a =>
    have ha : a.length = 16 := by have := (sprintfX_decode hd).1; omega
    show Except.ok (copyId (a ++ bs)) = Except.ok (copyId a)
    simp only [copyId, List.append_assoc, List.take_append_of_le_length (show 16 ≤ a.length by omega)]

end Cloudlus
