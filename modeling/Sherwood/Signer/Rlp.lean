/-
# The RLP encoder

The signer's own encoder, as the crate computes it, in machine integers:
lengths go through `u128::to_be_bytes`, whose leading zero bytes are cut off,
and the prefix byte is an addition of bytes. On everything that fits a `Vec`
it is recursive length prefix: a byte string, a list of encoded items and an
integer are encoded as the items they stand for (`encodeBytes_eq`,
`encodeList_eq`, `encodeUint_eq`).

Key definitions: `Signer.encodeBytes`, `Signer.encodeList`, `Signer.encodeUint`.
Key theorems: `Signer.encodeBytes_eq`, `Signer.encodeList_eq`, `Signer.encodeUint_eq`.
-/
import Mathlib.Data.List.TakeWhile
import Sherwood.Lib.Rlp

namespace Sherwood.Signer

/-- A `Vec<u8>`, which holds `isize::MAX` bytes at most. -/
@[ext] structure ByteVec where
  toList : List UInt8
  length_lt : toList.length < 2 ^ 63

/-- `u128::to_be_bytes`. -/
def toBeBytes (v : BitVec 128) : List UInt8 := BigEndian.bytes 16 v.toNat

/-- Where the first byte that is not zero stands; the last one, if all are zero. -/
def firstNonzero (be : List UInt8) : ℕ := (be.findIdx? (· != 0)).getD (be.length - 1)

def minimalBe (v : BitVec 128) : List UInt8 := (toBeBytes v).drop (firstNonzero (toBeBytes v))

/-- `u8::try_from(n).unwrap_or(fallback)`. -/
def byteOr (n : ℕ) (fallback : UInt8) : UInt8 := if n < 256 then .ofNat n else fallback

def lengthPrefix (shortBase longBase : UInt8) (len : ℕ) : List UInt8 :=
  if len ≤ 55 then [shortBase + byteOr len 55]
  else
    let lenBytes := minimalBe (.ofNat 128 len)
    (longBase + byteOr lenBytes.length 8) :: lenBytes

def encodeBytes (data : List UInt8) : List UInt8 :=
  if data.length = 1 ∧ data.headD 0 < 0x80 then [data.headD 0]
  else lengthPrefix 0x80 0xb7 data.length ++ data

def encodeList (items : List (List UInt8)) : List UInt8 :=
  lengthPrefix 0xc0 0xf7 (items.map List.length).sum ++ items.flatten

def encodeUint (value : BitVec 128) : List UInt8 :=
  if value = 0 then encodeBytes []
  else encodeBytes ((toBeBytes value).drop (firstNonzero (toBeBytes value)))

theorem drop_firstNonzero {be : List UInt8} (h : ∃ b ∈ be, b ≠ 0) :
    be.drop (firstNonzero be) = be.dropWhile (· == 0) := by
  induction be with
  | nil => simp at h
  | cons b bs ih =>
    by_cases hb : b = 0
    · subst hb
      have hbs : ∃ b ∈ bs, b ≠ 0 := by simpa using h
      obtain ⟨k, hk⟩ : ∃ k, bs.findIdx? (· != 0) = some k := by
        rw [← Option.isSome_iff_exists, List.findIdx?_isSome]
        simpa using hbs
      have ih := ih hbs
      simp only [firstNonzero, hk, Option.getD_some] at ih
      simp [firstNonzero, List.findIdx?_cons, hk, ih]
    · simp [firstNonzero, List.findIdx?_cons, hb]

theorem value_toBeBytes (v : BitVec 128) : BigEndian.value (toBeBytes v) = v.toNat :=
  BigEndian.value_bytes_of_lt v.isLt

/-- What is left of a number's sixteen bytes is how it is written shortest. -/
theorem minimalBe_eq {v : BitVec 128} (h : v ≠ 0) : minimalBe v = BigEndian.shortest v.toNat := by
  have hsome : ∃ b ∈ toBeBytes v, b ≠ 0 := by
    by_contra hall
    have hzero : (toBeBytes v).dropWhile (· == 0) = [] := by
      rw [List.dropWhile_eq_nil_iff]
      intro b hb
      by_contra hne
      exact hall ⟨b, hb, by simpa using hne⟩
    rw [BigEndian.dropWhile_zero_eq, value_toBeBytes, BigEndian.shortest_eq_nil] at hzero
    exact h (BitVec.eq_of_toNat_eq hzero)
  rw [minimalBe, drop_firstNonzero hsome, BigEndian.dropWhile_zero_eq, value_toBeBytes]

theorem minimalBe_ofNat {len : ℕ} (hpos : len ≠ 0) (h : len < 2 ^ 64) :
    minimalBe (.ofNat 128 len) = BigEndian.shortest len := by
  have hval : (BitVec.ofNat 128 len).toNat = len := by
    rw [BitVec.toNat_ofNat, Nat.mod_eq_of_lt (by omega)]
  rw [minimalBe_eq, hval]
  intro hz
  rw [hz] at hval
  exact hpos hval.symm

theorem lengthPrefix_eq (base : ℕ) {len : ℕ} (h : len < 2 ^ 64) :
    lengthPrefix (.ofNat base) (.ofNat (base + 55)) len = Rlp.header base len := by
  unfold lengthPrefix Rlp.header Rlp.mark
  by_cases hshort : len ≤ 55
  · rw [if_pos hshort, if_pos (by omega), byteOr, if_pos (by omega), UInt8.ofNat_add]
  · have h8 := Rlp.shortest_length_le_eight h
    simp only [if_neg hshort, if_neg (show ¬ len < 56 by omega), minimalBe_ofNat (by omega) h, byteOr,
      if_pos (show (BigEndian.shortest len).length < 256 by omega), UInt8.ofNat_add, UInt8.add_assoc]

theorem encodeBytes_eq {data : List UInt8} (h : data.length < 2 ^ 64) :
    encodeBytes data = (Rlp.Item.str data).encode := by
  have hprefix := lengthPrefix_eq 128 h
  unfold encodeBytes Rlp.Item.encode
  by_cases hone : data.length = 1
  · obtain ⟨b, rfl⟩ := List.length_eq_one_iff.mp hone
    by_cases hb : b < 128
    · rw [if_pos ⟨hone, hb⟩, if_pos ⟨hone, by simpa using hb⟩]
      rfl
    · rw [if_neg (fun hc => hb hc.2), if_neg (fun hc => hb (hc.2 b List.mem_cons_self))]
      exact congrArg (· ++ [b]) hprefix
  · rw [if_neg (fun hc => hone hc.1), if_neg (fun hc => hone hc.1)]
    exact congrArg (· ++ data) hprefix

theorem encodeAll_eq_flatten (items : List Rlp.Item) :
    Rlp.encodeAll items = (items.map Rlp.Item.encode).flatten := by
  induction items with
  | nil => rfl
  | cons i is ih => rw [Rlp.encodeAll, ih, List.map_cons, List.flatten_cons]

/-- A list of encoded items is encoded as the list of the items. -/
theorem encodeList_eq {items : List Rlp.Item} (h : (Rlp.encodeAll items).length < 2 ^ 64) :
    encodeList (items.map Rlp.Item.encode) = (Rlp.Item.list items).encode := by
  have hprefix := lengthPrefix_eq 192 h
  rw [encodeList, ← List.length_flatten, ← encodeAll_eq_flatten, Rlp.Item.encode]
  exact congrArg (· ++ Rlp.encodeAll items) hprefix

theorem encodeUint_eq (value : BitVec 128) : encodeUint value = (Rlp.Item.ofNat value.toNat).encode := by
  have hshort : (BigEndian.shortest value.toNat).length ≤ 16 :=
    BigEndian.shortest_length_le value.isLt
  have hdata : encodeUint value = encodeBytes (BigEndian.shortest value.toNat) := by
    unfold encodeUint
    by_cases hv : value = 0
    · rw [if_pos hv, hv, show BitVec.toNat (0 : BitVec 128) = 0 from rfl, BigEndian.shortest_zero]
    · rw [if_neg hv, ← minimalBe_eq hv, minimalBe]
  rw [hdata, encodeBytes_eq (by omega), Rlp.Item.ofNat]

end Sherwood.Signer
