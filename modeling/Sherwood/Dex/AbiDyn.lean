/-
# Dynamic ABI values of a swap

The encoders of `sherwood-dex` for byte strings, arrays of them, the pair of
both and a structure by itself, with their offsets counted by hand. Each is
the standard encoding of the value it is for (`encodeBytes_eq`,
`encodeBytesArray_eq`, `encodeBytesAndBytesArray_eq`), as long as lengths and
offsets fit the `u128` they are cast to.

Key definitions: `Dex.encodeBytes`, `Dex.encodeBytesArray`, `Dex.encodeBytesAndBytesArray`.
Key theorems: `Dex.encodeBytes_eq`, `Dex.encodeBytesArray_eq`, `Dex.encodeBytesAndBytesArray_eq`.
-/
import Sherwood.Chain.Abi

namespace Sherwood.Dex

open Abi (Val)

def wordUint (v : BitVec 128) : List UInt8 := List.replicate 16 0 ++ Chain.toBeBytes v

def wordBool (b : Bool) : List UInt8 := List.replicate 31 0 ++ [if b then 1 else 0]

def padToWord (data : List UInt8) : List UInt8 :=
  let rem := data.length % 32
  if rem ≠ 0 then data ++ List.replicate (32 - rem) 0 else data

def encodeBytes (data : List UInt8) : List UInt8 :=
  padToWord (wordUint (.ofNat 128 data.length) ++ data)

/-- The loop over the elements: each one's offset is the sum of those before. -/
def offsets : (offset : ℕ) → List (List UInt8) → List UInt8
  | _, [] => []
  | offset, e :: es => wordUint (.ofNat 128 offset) ++ offsets (offset + e.length) es

def encodeBytesArray (items : List (List UInt8)) : List UInt8 :=
  let encoded := items.map encodeBytes
  wordUint (.ofNat 128 items.length) ++ offsets (items.length * 32) encoded ++ encoded.flatten

def encodeBytesAndBytesArray (a : List UInt8) (b : List (List UInt8)) : List UInt8 :=
  let encA := encodeBytes a
  let encB := encodeBytesArray b
  wordUint (.ofNat 128 (2 * 32)) ++ wordUint (.ofNat 128 (2 * 32 + encA.length)) ++ encA ++ encB

def encodeSingleDynamicStruct (body : List UInt8) : List UInt8 := wordUint (.ofNat 128 32) ++ body

theorem wordUint_eq (v : BitVec 128) : wordUint v = Abi.word v.toNat := Chain.uintWord_eq v

theorem wordUint_ofNat {n : ℕ} (h : n < 2 ^ 128) : wordUint (.ofNat 128 n) = Abi.word n := by
  rw [wordUint_eq, BitVec.toNat_ofNat, Nat.mod_eq_of_lt h]

theorem wordBool_eq (b : Bool) : wordBool b = Abi.word (if b then 1 else 0) := by
  cases b <;> decide

theorem padToWord_eq (n : ℕ) (data : List UInt8) :
    padToWord (Abi.word n ++ data) = Abi.word n ++ Abi.pad data := by
  unfold padToWord Abi.pad Abi.padding
  simp only [List.length_append, Abi.word_length, Nat.add_mod_left]
  by_cases hrem : data.length % 32 = 0
  · rw [if_neg (by simpa using hrem), hrem]
    simp
  · rw [if_pos hrem, List.append_assoc, show (32 - data.length % 32) % 32 = 32 - data.length % 32 by omega]

theorem encodeBytes_eq {data : List UInt8} (h : data.length < 2 ^ 128) :
    encodeBytes data = (Val.bytes data).encode := by
  rw [encodeBytes, wordUint_ofNat h, padToWord_eq, Val.encode]

def bytesVals (items : List (List UInt8)) : List Val := items.map .bytes

theorem offsets_eq {items : List (List UInt8)} {offset : ℕ}
    (h : offset + (Abi.tails ((bytesVals items).map Abi.part)).length < 2 ^ 128) :
    offsets offset ((bytesVals items).map Val.encode) =
      Abi.heads offset ((bytesVals items).map Abi.part) := by
  induction items generalizing offset with
  | nil => rfl
  | cons data items ih =>
    simp only [bytesVals, List.map_cons, Abi.tails, Abi.part, Val.ty, Abi.Ty.dynamic, if_true,
      List.flatten_cons, List.length_append] at h
    have hnext := @ih (offset + (Val.bytes data).encode.length)
      (by simp only [bytesVals, Abi.tails]; omega)
    simp only [bytesVals, List.map_cons, offsets, Abi.heads, Abi.part, Val.ty, Abi.Ty.dynamic, if_true]
      at hnext ⊢
    rw [wordUint_ofNat (by omega), hnext]

theorem tails_bytesVals (items : List (List UInt8)) :
    Abi.tails ((bytesVals items).map Abi.part) = ((bytesVals items).map Val.encode).flatten := by
  induction items with
  | nil => rfl
  | cons data items ih =>
    simp only [Abi.tails, bytesVals, List.map_cons, List.flatten_cons] at ih ⊢
    rw [ih]
    rfl

theorem headLength_bytesVals (items : List (List UInt8)) :
    Abi.headLength ((bytesVals items).map Abi.part) = items.length * 32 := by
  induction items with
  | nil => rfl
  | cons data items ih =>
    simp only [Abi.headLength, bytesVals, List.map_cons, List.sum_cons, List.length_cons] at ih ⊢
    rw [ih]
    simp [Abi.part, Val.ty, Abi.Ty.dynamic]
    omega

theorem encode_bytes_length (data : List UInt8) : data.length ≤ (Val.bytes data).encode.length := by
  simp only [Val.encode, Abi.pad, List.length_append]
  omega

theorem encodeBytesArray_eq {items : List (List UInt8)}
    (h : (Val.array .bytes (bytesVals items)).encode.length < 2 ^ 128) :
    encodeBytesArray items = (Val.array .bytes (bytesVals items)).encode := by
  have hlayout : (Val.array .bytes (bytesVals items)).encode =
      Abi.word items.length ++ Abi.layout ((bytesVals items).map Abi.part) := by
    rw [Val.encode, Abi.parts_eq_map, bytesVals, List.length_map]
  rw [hlayout, List.length_append, Abi.layout_length, headLength_bytesVals] at h
  have hitems : items.map encodeBytes = (bytesVals items).map Val.encode := by
    rw [bytesVals, List.map_map]
    refine List.map_congr_left fun data hdata => encodeBytes_eq ?_
    have hle := @Abi.encode_length_le_layout (.bytes data) (bytesVals items)
      (List.mem_map_of_mem hdata)
    rw [Abi.layout_length, headLength_bytesVals] at hle
    have := encode_bytes_length data
    omega
  rw [encodeBytesArray, hlayout, Abi.layout, hitems, wordUint_ofNat (by omega), headLength_bytesVals,
    offsets_eq (by omega), tails_bytesVals, List.append_assoc]

/-- The array of byte strings behind the byte string. -/
def bytesAndArray (a : List UInt8) (b : List (List UInt8)) : Val :=
  .tuple [.bytes a, .array .bytes (bytesVals b)]

theorem encodeBytesAndBytesArray_eq {a : List UInt8} {b : List (List UInt8)}
    (h : (bytesAndArray a b).encode.length < 2 ^ 128) :
    encodeBytesAndBytesArray a b = (bytesAndArray a b).encode := by
  have hsplit : (bytesAndArray a b).encode = Abi.word 64 ++ (Abi.word (64 + (Val.bytes a).encode.length) ++
      ((Val.bytes a).encode ++ (Val.array .bytes (bytesVals b)).encode)) := by
    simp [bytesAndArray, Val.encode, Abi.parts, Abi.layout, Abi.headLength, Abi.heads, Abi.tails, Val.ty,
      Abi.Ty.dynamic]
  rw [hsplit] at h
  simp only [List.length_append, Abi.word_length] at h
  have ha := encode_bytes_length a
  rw [encodeBytesAndBytesArray, hsplit, encodeBytes_eq (by omega), encodeBytesArray_eq (by omega),
    wordUint_ofNat (by omega), wordUint_ofNat (by omega)]
  simp only [List.append_assoc]

end Sherwood.Dex
