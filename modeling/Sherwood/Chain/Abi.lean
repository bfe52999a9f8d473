/-
# Words of a call

The ABI words `sherwood-chain` builds: an address from its hex text, a `u128`
and an `i128`. Each is the word of the number it stands for, a negative one
in two's complement (`addressWord_eq`, `uintWord_eq`, `intWord_eq`).

Hex decoding is a parameter: the `hex` crate is not in the repository.

Key definitions: `Chain.addressWord`, `Chain.uintWord`, `Chain.intWord`.
Key theorems: `Chain.addressWord_eq`, `Chain.uintWord_eq`, `Chain.intWord_eq`.
-/
import Sherwood.Lib.Abi

namespace Sherwood.Chain

/-- `hex::decode`, its error as its text. -/
abbrev HexDecode := String → Except String (List UInt8)

/-- Anything that can go wrong reading the chain. -/
inductive ChainError
  | transport (message : String)
  | rpc (code : Int64) (message : String)
  | decode (message : String)
  | reverted (reason data : Option String)
  | notFound (message : String)

def strip0x (s : String) : String :=
  match s.toList with
  | '0' :: 'x' :: cs => .ofList cs
  | '0' :: 'X' :: cs => .ofList cs
  | _ => s

def fromHex (hex : HexDecode) (s : String) : Except ChainError (List UInt8) :=
  (hex (strip0x s)).mapError fun e => .decode s!"bad hex: {e}"

def addressWord (hex : HexDecode) (addr : String) : Except ChainError (List UInt8) :=
  (fromHex hex addr).bind fun raw =>
    if raw.length ≠ 20 then .error (.decode s!"address must be 20 bytes, got {raw.length}")
    else .ok (List.replicate 12 0 ++ raw)

/-- `u128::to_be_bytes` and `i128::to_be_bytes`. -/
def toBeBytes (v : BitVec 128) : List UInt8 := BigEndian.bytes 16 v.toNat

def uintWord (value : BitVec 128) : List UInt8 := List.replicate 16 0 ++ toBeBytes value

def intWord (value : BitVec 128) : List UInt8 :=
  List.replicate 16 (if value.toInt < 0 then 0xff else 0) ++ toBeBytes value

/-- The text is the hex of these twenty bytes. -/
structure IsAddress (hex : HexDecode) (addr : String) (raw : List UInt8) : Prop where
  decodes : hex (strip0x addr) = .ok raw
  length : raw.length = 20

theorem uintWord_eq (v : BitVec 128) : uintWord v = Abi.word v.toNat :=
  (BigEndian.bytes_add 16 v.isLt).symm

theorem IsAddress.lt {hex : HexDecode} {addr : String} {raw : List UInt8} (h : IsAddress hex addr raw) :
    BigEndian.value raw < 2 ^ 160 := by
  have := BigEndian.value_lt raw
  rwa [h.length] at this

theorem addressWord_eq {hex : HexDecode} {addr : String} {raw : List UInt8} (h : IsAddress hex addr raw) :
    addressWord hex addr = .ok (Abi.word (BigEndian.value raw)) := by
  have hword : Abi.word (BigEndian.value raw) = List.replicate 12 0 ++ raw := by
    have hsplit := BigEndian.bytes_add 12 (BigEndian.value_lt raw)
    rw [BigEndian.bytes_value, h.length] at hsplit
    exact hsplit
  rw [hword, addressWord, fromHex, h.decodes]
  simp [Except.mapError, Except.bind, h.length]

theorem value_replicate_ff : BigEndian.value (List.replicate 16 0xff) = 2 ^ 128 - 1 := by
  decide

theorem intWord_eq (v : BitVec 128) : intWord v = Abi.word (v.toInt % 2 ^ 256).toNat := by
  have hlt := v.isLt
  have hint := BitVec.toInt_eq_toNat_cond v
  by_cases hneg : v.toInt < 0
  · have hvalue : BigEndian.value (intWord v) = (v.toInt % 2 ^ 256).toNat := by
      rw [intWord, if_pos hneg, BigEndian.value_append, value_replicate_ff, toBeBytes,
        BigEndian.bytes_length, BigEndian.value_bytes_of_lt hlt]
      split at hint <;> omega
    have hlen : (intWord v).length = 32 := by simp [intWord, toBeBytes]
    rw [← hvalue, Abi.word, ← hlen, BigEndian.bytes_value]
  · have hvalue : (v.toInt % 2 ^ 256).toNat = v.toNat := by
      split at hint <;> omega
    rw [hvalue, ← uintWord_eq, intWord, if_neg hneg, uintWord]

end Sherwood.Chain
