/-
# What is written is read

The encoders and the readers of `sherwood-chain` and `sherwood-dex` stand in different
crates. Here they meet: a word is read as what it was made of, and a string as itself,
also where it is empty, ends at a word's end or holds zero bytes
(`decodeString_abiEncode`). The fallback for the `bytes32` of old tokens only reads
what is shorter than any string, and the empty one.

Key definitions: `abiEncode`, `errorPayload`.
Key theorems: `decodeU128_uintWord`, `decodeI32_intWord`, `decodeAddress_word`,
`decodeString_abiEncode`, `string_round_trip`.
-/
import Sherwood.Chain.Hex

namespace Sherwood.Chain

open Dex (encodeBytes encodeSingleDynamicStruct)

/-! ### Words -/

@[simp] theorem toBeBytes_length (v : BitVec 128) : (toBeBytes v).length = 16 := BigEndian.bytes_length 16 _

@[simp] theorem uintWord_length (v : BitVec 128) : (uintWord v).length = 32 := by simp [uintWord]

@[simp] theorem intWord_length (v : BitVec 128) : (intWord v).length = 32 := by simp [intWord]

theorem fromBeBytes_toBeBytes (v : BitVec 128) : fromBeBytes (toBeBytes v) = v := by
  rw [← BitVec.toNat_inj, fromBeBytes_toNat (toBeBytes_length v), toBeBytes, BigEndian.value_bytes_of_lt v.isLt]

/-- A number is read from its word, whatever comes after it. -/
theorem decodeU128_uintWord (v : BitVec 128) (rest : List UInt8) : decodeU128 (uintWord v ++ rest) = .ok v := by
  have hhigh : (uintWord v ++ rest).take 16 = List.replicate 16 0 := by
    rw [uintWord, List.append_assoc, List.take_left' (by simp)]
  have hlow : ((uintWord v ++ rest).drop 16).take 16 = toBeBytes v := by
    rw [uintWord, List.append_assoc, List.drop_left' (by simp), List.take_left' (by simp)]
  rw [decodeU128_of_length (by simp), hhigh, hlow, if_neg (by simp), fromBeBytes_toBeBytes]

theorem ofNat_signExtend (x : BitVec 32) : BitVec.ofNat 32 (x.signExtend 128).toNat = x := by
  have hx := x.isLt
  rw [← BitVec.toNat_inj, BitVec.toNat_ofNat, BitVec.toNat_signExtend, BitVec.toNat_setWidth]
  split <;> omega

theorem decodeI32_intWord (v : Int32) (rest : List UInt8) :
    decodeI32 (intWord (v.toBitVec.signExtend 128) ++ rest) = .ok v := by
  have hlast : ((intWord (v.toBitVec.signExtend 128) ++ rest).drop 28).take 4 =
      BigEndian.bytes 4 (v.toBitVec.signExtend 128).toNat := by
    have hsplit := BigEndian.drop_bytes 12 4 (v.toBitVec.signExtend 128).toNat
    rw [List.drop_append_of_le_length (by simp), List.take_append_of_le_length (by simp), intWord, toBeBytes,
      show 28 = 16 + 12 from rfl, ← List.drop_drop, List.drop_left' (by simp), hsplit]
    exact List.take_of_length_le (by simp)
  have hvalue : BitVec.ofNat 32 (BigEndian.value (BigEndian.bytes 4 (v.toBitVec.signExtend 128).toNat)) =
      v.toBitVec := by
    rw [BigEndian.value_bytes, ← ofNat_signExtend v.toBitVec, ← BitVec.toNat_inj, BitVec.toNat_ofNat, BitVec.toNat_ofNat,
      ofNat_signExtend]
    omega
  rw [decodeI32, Outcome.reject, if_neg (by simp), Outcome.ok_bind, slice_of_le (by omega) (by simp), hlast,
    Outcome.ok_bind, copyFromSlice_of_length (by simp), Outcome.ok_bind, hvalue]
  rfl

theorem decodeAddress_word {raw : List UInt8} (h : raw.length = 20) (rest : List UInt8) :
    decodeAddress (List.replicate 12 0 ++ raw ++ rest) = .ok (toHex raw) := by
  have hslice : ((List.replicate 12 0 ++ raw ++ rest).drop 12).take 20 = raw := by
    rw [List.append_assoc, List.drop_left' (by simp), List.take_left' h]
  rw [decodeAddress, Outcome.reject, if_neg (by simp [h]), Outcome.ok_bind,
    slice_of_le (by omega) (by simp [h]), hslice]
  rfl

/-! ### Strings -/

/-- `abi.encode` of one string. -/
def abiEncode (s : String) : List UInt8 := encodeSingleDynamicStruct (encodeBytes (utf8 s))

/-- What a string can hold: `isize::MAX` bytes. -/
def maxStringLength : ℕ := 2 ^ 63 - 1

variable {s : String}

theorem abiEncode_eq (h : (utf8 s).length ≤ maxStringLength) :
    abiEncode s = uintWord 32 ++ (uintWord (.ofNat 128 (utf8 s).length) ++ Abi.pad (utf8 s)) := by
  have hlen : (utf8 s).length < 2 ^ 128 := by
    unfold maxStringLength at h
    omega
  have hword : uintWord (.ofNat 128 (utf8 s).length) = Abi.word (utf8 s).length := Dex.wordUint_ofNat hlen
  rw [abiEncode, encodeSingleDynamicStruct, Dex.encodeBytes_eq hlen, Abi.Val.encode, hword]
  rfl

theorem le_pad_length {bs : List UInt8} (h : bs ≠ []) : 32 ≤ (Abi.pad bs).length := by
  have := List.length_pos_iff.mpr h
  simp only [Abi.pad, Abi.padding, List.length_append, List.length_replicate]
  omega

theorem utf8_eq_nil : utf8 s = [] ↔ s = "" := by
  constructor
  · intro h
    exact utf8_injective h
  · rintro rfl
    rfl

/-- Behind its two words a string stands in full. -/
theorem take_drop_abiEncode (h : (utf8 s).length ≤ maxStringLength) :
    ((abiEncode s).drop 64).take (utf8 s).length = utf8 s := by
  rw [abiEncode_eq h, ← List.append_assoc, List.drop_left' (by simp), Abi.pad, List.take_left' rfl]

/-- **Strings.** A string is read back from its encoding. -/
theorem decodeString_abiEncode (checks : Bool) (h : (utf8 s).length ≤ maxStringLength) :
    decodeString checks (abiEncode s) = .ok s := by
  have henc := abiEncode_eq h
  by_cases hs : s = ""
  · subst hs
    -- two words of zeros but for one byte, read as a text up to the first zero
    have hshort : ¬ (abiEncode "").length ≥ 96 ∧ trimmedText (abiEncode "") = "" := by decide +kernel
    rw [decodeString, if_neg hshort.1, hshort.2]
    rfl
  have hpos : 0 < (utf8 s).length := List.length_pos_iff.mpr (by rwa [Ne, utf8_eq_nil])
  have hpad : 32 ≤ (Abi.pad (utf8 s)).length := le_pad_length (by rwa [Ne, utf8_eq_nil])
  have hle : (utf8 s).length ≤ (Abi.pad (utf8 s)).length := by simp [Abi.pad]
  have hlen : (abiEncode s).length = 64 + (Abi.pad (utf8 s)).length := by
    rw [henc]
    simp
    omega
  have hword : ((abiEncode s).drop 32).take 32 = uintWord (.ofNat 128 (utf8 s).length) := by
    rw [henc, List.drop_left' (by simp), List.take_left' (by simp)]
  have hdecode := decodeU128_uintWord (.ofNat 128 (utf8 s).length) []
  rw [List.append_nil] at hdecode
  have hmod : (BitVec.ofNat 128 (utf8 s).length).toNat % 2 ^ 64 = (utf8 s).length := by
    unfold maxStringLength at h
    rw [BitVec.toNat_ofNat]
    omega
  have hfits : 64 + (utf8 s).length < 2 ^ 64 := by
    unfold maxStringLength at h
    omega
  have htext : String.ofList (Utf8.lossy (utf8 s)) = s := by
    rw [utf8_eq_flatMap, Utf8.lossy_flatMap_utf8EncodeChar, String.ofList_toList]
  rw [decodeString, if_pos (by omega), slice_of_le (by omega) (by omega), Outcome.ok_bind, hword, hdecode,
    Outcome.ok_bind, hmod, textOfLength, if_pos hpos, usizeAdd_of_lt hfits, Outcome.ok_bind, if_pos (by omega),
    slice_of_le (by omega) (by omega), Nat.add_sub_cancel_left, take_drop_abiEncode h, Outcome.ok_bind, htext]
  rfl

/-- What a call reverts with for `Error(string)`. -/
def errorPayload (s : String) : List UInt8 := [0x08, 0xc3, 0x79, 0xa0] ++ abiEncode s

/-- The reason of a revert is read back from its payload. -/
theorem decodeRevertReason_errorPayload {decode : HexDecode} {data : String} (checks : Bool) (hs : s ≠ "")
    (h : (utf8 s).length ≤ maxStringLength) (hdata : fromHex decode data = .ok (errorPayload s)) :
    decodeRevertReason decode checks data = .ok s := by
  have hlen : 4 + 64 ≤ (errorPayload s).length := by
    rw [errorPayload, abiEncode_eq h]
    simp
    omega
  have hselector : slice (errorPayload s) 0 4 = (.ok [0x08, 0xc3, 0x79, 0xa0] : Outcome Unit _) :=
    slice_of_le (by omega) (by omega)
  have hrest : slice (errorPayload s) 4 (errorPayload s).length = (.ok (abiEncode s) : Outcome Unit _) := by
    rw [slice_of_le (by omega) le_rfl, List.take_of_length_le (by simp)]
    rfl
  rw [decodeRevertReason]
  simp only [Outcome.bind_eq_ok, Outcome.mapErr_eq_ok, Outcome.ofExcept_eq_ok, Outcome.reject_eq_ok, exists_const,
    not_lt, not_not, Outcome.pure_eq_ok, Outcome.ok.injEq]
  exact ⟨errorPayload s, hdata, hlen, _, hselector, rfl, _, hrest, s, decodeString_abiEncode checks h, hs, rfl⟩

/-- **Round trip.** Every string is read back from its encoding, and every one that is not
empty from the payload of an `Error(string)`, overflow checks or not. -/
theorem string_round_trip (decode : HexDecode) (checks : Bool) (s : String) (h : (utf8 s).length ≤ maxStringLength) :
    decodeString checks (abiEncode s) = .ok s ∧
      (s ≠ "" → ∀ data, fromHex decode data = .ok (errorPayload s) → decodeRevertReason decode checks data = .ok s) :=
  ⟨decodeString_abiEncode checks h, fun hs _ hdata => decodeRevertReason_errorPayload checks hs h hdata⟩

theorem string_round_trip_accented : decodeString true (abiEncode " é\x00") = .ok " é\x00" ∧
    decodeRevertReason Dex.hexDecode true (toHex (errorPayload " é\x00")) = .ok " é\x00" := by
  obtain ⟨hstring, hreason⟩ := string_round_trip Dex.hexDecode true " é\x00" (by decide)
  exact ⟨hstring, hreason (by decide) _ (fromHex_toHex readsHex_hexDecode _)⟩

end Sherwood.Chain
