/-
# Signing payloads and raw transactions

The transaction of `sherwood-signer`, what of it is hashed and signed, and the
raw bytes with the signature. Over it, what a node reads: a type byte, one
list, nine fields, and three more when it is signed, with every integer
written shortest (`decodeUnsigned`, `decodeSigned`).

A signing payload is read back as its transaction, so it is the payload of no
other one (`signingPayload_sound`). A raw transaction is read back exactly
when neither `r` nor `s` starts with a zero byte: `into_raw_signed` writes
them as strings of 32 bytes, not as the integers they are
(`rawSigned_accepted_iff`).

The curve and the hash are parameters: `k256` and `sha3` are not in the
repository.

Key definitions: `Signer.Eip1559Tx`, `Signer.LocalSigner.signTransaction`, `Signer.decodeSigned`.
Key theorems: `Signer.signingPayload_sound`, `Signer.rawSigned_accepted_iff`.
-/
import Sherwood.Signer.Rlp

namespace Sherwood.Signer

open Rlp (Item)

@[ext] structure Eip1559Tx where
  chainId : UInt64
  nonce : UInt64
  maxPriorityFeePerGas : BitVec 128
  maxFeePerGas : BitVec 128
  gasLimit : UInt64
  toAddr : Vector UInt8 20
  value : BitVec 128
  data : ByteVec

/-- `u128::from`. -/
def u128 (v : UInt64) : BitVec 128 := v.toBitVec.setWidth 128

@[simp] theorem u128_toNat (v : UInt64) : (u128 v).toNat = v.toNat := by
  have := v.toNat_lt
  rw [u128, BitVec.toNat_setWidth, UInt64.toNat_toBitVec, Nat.mod_eq_of_lt (by omega)]

namespace Eip1559Tx

variable (tx : Eip1559Tx)

def unsignedFields : List (List UInt8) :=
  [encodeUint (u128 tx.chainId), encodeUint (u128 tx.nonce), encodeUint tx.maxPriorityFeePerGas,
    encodeUint tx.maxFeePerGas, encodeUint (u128 tx.gasLimit), encodeBytes tx.toAddr.toList,
    encodeUint tx.value, encodeBytes tx.data.toList, encodeList []]

def signingPayload : List UInt8 := 0x02 :: encodeList tx.unsignedFields

def intoRawSigned (yParity : UInt8) (r s : Vector UInt8 32) : List UInt8 :=
  0x02 :: encodeList (tx.unsignedFields ++
    [encodeUint (.ofNat 128 yParity.toNat), encodeBytes r.toList, encodeBytes s.toList])

end Eip1559Tx

/-- `r` and `s` as `to_bytes` gives them. -/
structure Signature where
  r : Vector UInt8 32
  s : Vector UInt8 32

structure RecoveryId where
  isYOdd : Bool
  isXReduced : Bool

def RecoveryId.toByte (id : RecoveryId) : UInt8 :=
  (if id.isXReduced then 2 else 0) + if id.isYOdd then 1 else 0

/-- What the signer calls of `sha3` and `k256`. -/
structure Ecdsa (Key : Type) where
  keccak256 : List UInt8 → Vector UInt8 32
  signPrehash : Key → Vector UInt8 32 → Except String (Signature × RecoveryId)
  normalizeS : Signature → Option Signature

inductive SignerError
  | key (message : String)
  | sign (message : String)

structure LocalSigner (Key : Type) where
  key : Key
  address : Vector UInt8 20

namespace LocalSigner

variable {Key : Type} (E : Ecdsa Key) (signer : LocalSigner Key)

def signPrehashLowS (hash : Vector UInt8 32) : Except SignerError (Signature × RecoveryId) :=
  match E.signPrehash signer.key hash with
  | .error e => .error (.sign e)
  | .ok (sig, recId) =>
    match E.normalizeS sig with
    | some normalized => .ok (normalized, ⟨!recId.isYOdd, recId.isXReduced⟩)
    | none => .ok (sig, recId)

def signTransaction (tx : Eip1559Tx) : Except SignerError (List UInt8) :=
  (signer.signPrehashLowS E (E.keccak256 tx.signingPayload)).map fun p =>
    tx.intoRawSigned p.2.toByte p.1.r p.1.s

end LocalSigner

/-! ## What a node reads -/

/-- What a transaction says. -/
@[ext] structure TxFields where
  chainId : ℕ
  nonce : ℕ
  maxPriorityFeePerGas : ℕ
  maxFeePerGas : ℕ
  gasLimit : ℕ
  toAddr : List UInt8
  value : ℕ
  data : List UInt8
  accessList : List Item

structure SignedFields where
  tx : TxFields
  yParity : ℕ
  r : ℕ
  s : ℕ

/-- An integer of so many bits, without a leading zero byte. -/
def uintOf? (bits : ℕ) (i : Item) : Option ℕ :=
  i.toNat?.bind fun n => if n < 2 ^ bits then some n else none

def addressOf? (i : Item) : Option (List UInt8) :=
  i.toBytes?.bind fun bs => if bs.length = 20 then some bs else none

def unsignedOf? : List Item → Option TxFields
  | [chainId, nonce, priority, maxFee, gas, toAddr, value, data, access] => do
    return {
      chainId := ← uintOf? 64 chainId
      nonce := ← uintOf? 64 nonce
      maxPriorityFeePerGas := ← uintOf? 256 priority
      maxFeePerGas := ← uintOf? 256 maxFee
      gasLimit := ← uintOf? 64 gas
      toAddr := ← addressOf? toAddr
      value := ← uintOf? 256 value
      data := ← data.toBytes?
      accessList := ← access.toItems? }
  | _ => none

/-- The nine fields, the parity bit and the two integers of the signature. -/
def signedOf? (items : List Item) : Option SignedFields :=
  match items.drop 9 with
  | [yParity, r, s] => do
    return {
      tx := ← unsignedOf? (items.take 9)
      yParity := ← uintOf? 1 yParity
      r := ← uintOf? 256 r
      s := ← uintOf? 256 s }
  | _ => none

/-- The list after the type byte of an EIP-1559 transaction. -/
def typedBody? (raw : List UInt8) : Option (List Item) :=
  if raw.head? = some 0x02 then (Rlp.decode raw.tail).bind Item.toItems? else none

def decodeUnsigned (raw : List UInt8) : Option TxFields := (typedBody? raw).bind unsignedOf?

def decodeSigned (raw : List UInt8) : Option SignedFields := (typedBody? raw).bind signedOf?

namespace Eip1559Tx

variable (tx : Eip1559Tx)

/-- The nine items the unsigned fields are. -/
def items : List Item :=
  [.ofNat tx.chainId.toNat, .ofNat tx.nonce.toNat, .ofNat tx.maxPriorityFeePerGas.toNat,
    .ofNat tx.maxFeePerGas.toNat, .ofNat tx.gasLimit.toNat, .str tx.toAddr.toList,
    .ofNat tx.value.toNat, .str tx.data.toList, .list []]

/-- What the transaction says. -/
def fields : TxFields where
  chainId := tx.chainId.toNat
  nonce := tx.nonce.toNat
  maxPriorityFeePerGas := tx.maxPriorityFeePerGas.toNat
  maxFeePerGas := tx.maxFeePerGas.toNat
  gasLimit := tx.gasLimit.toNat
  toAddr := tx.toAddr.toList
  value := tx.value.toNat
  data := tx.data.toList
  accessList := []

theorem unsignedFields_eq : tx.unsignedFields = tx.items.map Item.encode := by
  have hto : tx.toAddr.toList.length < 2 ^ 64 := by simp
  have hdata : tx.data.toList.length < 2 ^ 64 := by
    have := tx.data.length_lt
    omega
  have haccess : encodeList [] = (Item.list []).encode := @encodeList_eq [] (by simp [Rlp.encodeAll])
  simp [unsignedFields, items, encodeUint_eq, encodeBytes_eq hto, encodeBytes_eq hdata, haccess]

end Eip1559Tx

theorem encode_ofNat_length_le (v : BitVec 128) : (Item.ofNat v.toNat).encode.length ≤ 25 := by
  have h16 : (BigEndian.shortest v.toNat).length ≤ 16 := BigEndian.shortest_length_le v.isLt
  have := Item.encode_str_length_le (BigEndian.shortest v.toNat) (by omega)
  exact this.trans (by omega)

theorem encode_u64_length_le (v : UInt64) : (Item.ofNat v.toNat).encode.length ≤ 25 := by
  simpa using encode_ofNat_length_le (u128 v)

/-- The nine items are encoded in the bytes of the data and a few hundred more. -/
theorem Eip1559Tx.items_length_le (tx : Eip1559Tx) :
    (Rlp.encodeAll tx.items).length ≤ tx.data.toList.length + 200 := by
  have hdata := tx.data.length_lt
  have hto := Item.encode_str_length_le tx.toAddr.toList (by simp)
  have hstr := Item.encode_str_length_le tx.data.toList (by omega)
  have haccess := Item.encode_list_length_le [] (by simp [Rlp.encodeAll])
  have hchain := encode_u64_length_le tx.chainId
  have hnonce := encode_u64_length_le tx.nonce
  have hgas := encode_u64_length_le tx.gasLimit
  have hpriority := encode_ofNat_length_le tx.maxPriorityFeePerGas
  have hfee := encode_ofNat_length_le tx.maxFeePerGas
  have hvalue := encode_ofNat_length_le tx.value
  simp only [Eip1559Tx.items, Rlp.encodeAll, List.length_append, List.length_nil, Vector.length_toList]
    at hto haccess ⊢
  omega

/-- A type byte and the list of encoded items are read as the items. -/
theorem typedBody?_encodeList {items : List Item} (h : (Rlp.encodeAll items).length < 2 ^ 63 + 2 ^ 10) :
    typedBody? (0x02 :: encodeList (items.map Item.encode)) = some items := by
  have hlen := Item.encode_list_length_le items (by omega)
  rw [encodeList_eq (by omega), typedBody?, List.head?_cons, if_pos rfl, List.tail_cons,
    Rlp.decode_encode _ (by omega), Option.bind_some, Item.toItems?_list]

theorem uintOf?_ofNat {bits n : ℕ} (h : n < 2 ^ bits) : uintOf? bits (.ofNat n) = some n := by
  simp [uintOf?, h]

/-- A word is an integer only where its first byte is not zero. -/
theorem uintOf?_word (w : Vector UInt8 32) :
    uintOf? 256 (.str w.toList) = if w[0] ≠ 0 then some (BigEndian.value w.toList) else none := by
  have hhead : w.toList.head? = some w[0] := by
    rw [List.head?_eq_getElem?, Vector.getElem?_toList]
    simp
  have hlt : BigEndian.value w.toList < 2 ^ 256 := by
    have := BigEndian.value_lt w.toList
    rwa [Vector.length_toList] at this
  have hshort : BigEndian.Short w.toList ↔ w[0] ≠ 0 := by simp [BigEndian.Short, hhead]
  by_cases hw : w[0] ≠ 0
  · simp only [uintOf?, Item.toNat?, Item.toBytes?_str, Option.bind_some, if_pos (hshort.mpr hw),
      if_pos hlt, if_pos hw]
  · simp only [uintOf?, Item.toNat?, Item.toBytes?_str, Option.bind_some,
      if_neg (fun hs => hw (hshort.mp hs)), if_neg hw, Option.bind_none]

theorem unsignedOf?_items (tx : Eip1559Tx) : unsignedOf? tx.items = some tx.fields := by
  have hwiden : ∀ v : BitVec 128, v.toNat < 2 ^ 256 := fun v => v.isLt.trans (by decide)
  simp [unsignedOf?, Eip1559Tx.items, Eip1559Tx.fields, addressOf?, uintOf?_ofNat tx.chainId.toNat_lt,
    uintOf?_ofNat tx.nonce.toNat_lt, uintOf?_ofNat tx.gasLimit.toNat_lt,
    uintOf?_ofNat (hwiden tx.maxPriorityFeePerGas), uintOf?_ofNat (hwiden tx.maxFeePerGas),
    uintOf?_ofNat (hwiden tx.value)]

theorem Eip1559Tx.fields_injective : Function.Injective Eip1559Tx.fields := by
  intro tx tx' h
  simp only [Eip1559Tx.fields, TxFields.mk.injEq, UInt64.toNat_inj, Vector.toList_inj] at h
  obtain ⟨hchain, hnonce, hprio, hfee, hgas, hto, hvalue, hdata, -⟩ := h
  exact Eip1559Tx.ext hchain hnonce (BitVec.eq_of_toNat_eq hprio) (BitVec.eq_of_toNat_eq hfee) hgas hto
    (BitVec.eq_of_toNat_eq hvalue) (ByteVec.ext hdata)

theorem signingPayload_eq (tx : Eip1559Tx) :
    tx.signingPayload = 0x02 :: encodeList (tx.items.map Item.encode) := by
  rw [Eip1559Tx.signingPayload, tx.unsignedFields_eq]

theorem decodeUnsigned_signingPayload (tx : Eip1559Tx) :
    decodeUnsigned tx.signingPayload = some tx.fields := by
  have hlen := tx.items_length_le
  have hdata := tx.data.length_lt
  rw [decodeUnsigned, signingPayload_eq, typedBody?_encodeList (by omega), Option.bind_some,
    unsignedOf?_items]

/-- **A signing payload means one transaction.** After the type byte stands one
RLP item and nothing else, the list of the nine fields with its integers
written shortest, and no two transactions have the same payload. -/
theorem signingPayload_sound :
    (∀ tx : Eip1559Tx, ∃ body, tx.signingPayload = 0x02 :: body ∧
      Rlp.decode body = some (.list
        [.ofNat tx.chainId.toNat, .ofNat tx.nonce.toNat, .ofNat tx.maxPriorityFeePerGas.toNat,
          .ofNat tx.maxFeePerGas.toNat, .ofNat tx.gasLimit.toNat, .str tx.toAddr.toList,
          .ofNat tx.value.toNat, .str tx.data.toList, .list []]) ∧
      decodeUnsigned tx.signingPayload = some tx.fields) ∧
    Function.Injective Eip1559Tx.signingPayload := by
  refine ⟨fun tx => ⟨encodeList tx.unsignedFields, rfl, ?_, decodeUnsigned_signingPayload tx⟩, ?_⟩
  · have hlen := tx.items_length_le
    have hdata := tx.data.length_lt
    have hlist := Item.encode_list_length_le tx.items (by omega)
    rw [tx.unsignedFields_eq, encodeList_eq (by omega), Rlp.decode_encode _ (by omega)]
    rfl
  · intro tx tx' h
    have hread := decodeUnsigned_signingPayload tx
    rw [h, decodeUnsigned_signingPayload, Option.some.injEq] at hread
    exact Eip1559Tx.fields_injective hread.symm

/-! ## Raw transactions -/

section Raw

variable (tx : Eip1559Tx) (yParity : UInt8) (r s : Vector UInt8 32)

/-- The items `into_raw_signed` writes: the integers of the signature are
strings of 32 bytes. -/
def signedItems : List Item := tx.items ++ [.ofNat yParity.toNat, .str r.toList, .str s.toList]

theorem signedItems_length_le :
    (Rlp.encodeAll (signedItems tx yParity r s)).length ≤ tx.data.toList.length + 400 := by
  have hlen := tx.items_length_le
  have hparity := encode_ofNat_length_le (.ofNat 128 yParity.toNat)
  have hr := Item.encode_str_length_le r.toList (by simp)
  have hs := Item.encode_str_length_le s.toList (by simp)
  have hy : (BitVec.ofNat 128 yParity.toNat).toNat = yParity.toNat := by
    have := yParity.toNat_lt
    rw [BitVec.toNat_ofNat, Nat.mod_eq_of_lt (by omega)]
  rw [hy] at hparity
  simp only [signedItems, Rlp.encodeAll_append, Rlp.encodeAll, List.length_append, List.length_nil,
    Vector.length_toList] at hr hs ⊢
  omega

theorem intoRawSigned_eq : tx.intoRawSigned yParity r s =
    0x02 :: encodeList ((signedItems tx yParity r s).map Item.encode) := by
  have hy : (BitVec.ofNat 128 yParity.toNat).toNat = yParity.toNat := by
    have := yParity.toNat_lt
    rw [BitVec.toNat_ofNat, Nat.mod_eq_of_lt (by omega)]
  rw [Eip1559Tx.intoRawSigned, tx.unsignedFields_eq, encodeUint_eq, hy, encodeBytes_eq (by simp),
    encodeBytes_eq (by simp), signedItems, List.map_append]
  rfl

theorem uintOf?_parity : uintOf? 1 (.ofNat yParity.toNat) =
    if yParity ≤ 1 then some yParity.toNat else none := by
  have hle : yParity ≤ 1 ↔ yParity.toNat < 2 ^ 1 := by
    rw [UInt8.le_iff_toNat_le]
    exact Nat.lt_succ_iff.symm
  simp only [uintOf?, Item.toNat?_ofNat, Option.bind_some, hle]

/-- The raw transaction is read back, or rejected, by the first bytes of the
signature's integers. -/
theorem decodeSigned_intoRawSigned : decodeSigned (tx.intoRawSigned yParity r s) =
    if yParity ≤ 1 ∧ r[0] ≠ 0 ∧ s[0] ≠ 0 then
      some ⟨tx.fields, yParity.toNat, BigEndian.value r.toList, BigEndian.value s.toList⟩
    else none := by
  have hlen := signedItems_length_le tx yParity r s
  have hdata := tx.data.length_lt
  have hnine : tx.items.length = 9 := rfl
  rw [decodeSigned, intoRawSigned_eq, typedBody?_encodeList (by omega), Option.bind_some, signedOf?,
    signedItems, List.drop_left' hnine, List.take_left' hnine]
  simp only [unsignedOf?_items, uintOf?_parity, uintOf?_word]
  by_cases hc : yParity ≤ 1 ∧ r[0] ≠ 0 ∧ s[0] ≠ 0
  · rw [if_pos hc, if_pos hc.1, if_pos hc.2.1, if_pos hc.2.2]
    rfl
  · rw [if_neg hc]
    by_cases hy : yParity ≤ 1
    · by_cases hr : r[0] ≠ 0
      · rw [if_neg (fun hs => hc ⟨hy, hr, hs⟩)]
        simp
      · simp [if_neg hr]
    · simp [if_neg hy]

end Raw

theorem RecoveryId.toByte_le_one (id : RecoveryId) : id.toByte ≤ 1 ↔ id.isXReduced = false := by
  obtain ⟨odd, reduced⟩ := id
  revert odd reduced
  decide

/-- **When a raw transaction is canonical.** A strict decoder reads back the
transaction, the parity and both integers exactly when the parity is a bit and
neither `r` nor `s` starts with a zero byte; the same decides whether it
accepts what `sign_transaction` returns. -/
theorem rawSigned_accepted_iff (tx : Eip1559Tx) :
    (∀ (yParity : UInt8) (r s : Vector UInt8 32),
      decodeSigned (tx.intoRawSigned yParity r s) =
          some ⟨tx.fields, yParity.toNat, BigEndian.value r.toList, BigEndian.value s.toList⟩ ↔
        yParity ≤ 1 ∧ r[0] ≠ 0 ∧ s[0] ≠ 0) ∧
    ∀ (Key : Type) (E : Ecdsa Key) (signer : LocalSigner Key),
      (signer.signTransaction E tx).map (fun raw => (decodeSigned raw).isSome) =
        (signer.signPrehashLowS E (E.keccak256 tx.signingPayload)).map fun p =>
          decide (p.2.isXReduced = false ∧ p.1.r[0] ≠ 0 ∧ p.1.s[0] ≠ 0) := by
  refine ⟨fun yParity r s => ?_, fun Key E signer => ?_⟩
  · rw [decodeSigned_intoRawSigned]
    split
    · rename_i h
      exact ⟨fun _ => h, fun _ => rfl⟩
    · rename_i h
      exact ⟨fun hnone => absurd hnone (by simp), fun hc => absurd hc h⟩
  · unfold LocalSigner.signTransaction
    cases signer.signPrehashLowS E (E.keccak256 tx.signingPayload) with
    | error e => rfl
    | ok p =>
      simp only [Except.map, Except.ok.injEq, decodeSigned_intoRawSigned, p.2.toByte_le_one]
      split <;> simp_all

/-- A transfer of nothing, and an `r` one byte shorter than a word. -/
def transfer : Eip1559Tx where
  chainId := 4663
  nonce := 0
  maxPriorityFeePerGas := 1000000000
  maxFeePerGas := 2000000000
  gasLimit := 21000
  toAddr := Vector.replicate 20 0x11
  value := 0
  data := ⟨[], by decide⟩

def shortR : Vector UInt8 32 := (Vector.replicate 32 1).set 0 0

theorem shortR_rejected : shortR.toList ≠ List.replicate 32 0 ∧
    decodeSigned (transfer.intoRawSigned 1 shortR (Vector.replicate 32 1)) = none := by
  refine ⟨by decide, ?_⟩
  rw [decodeSigned_intoRawSigned, if_neg]
  decide

end Sherwood.Signer
