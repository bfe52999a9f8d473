/-
# Pool keys

A key names a pool of the chain: two currencies in numerical order, fee, tick spacing
and hooks, and its id is the hash of the five words of it. Spellings of an address make the
same words, so the id depends on the addresses only and not on the order they are
given in (`preimage_canonical`), and nothing of a key is lost in it
(`preimage_injective`).

The chain announces a new pool in a log. A key built from addresses with their `0x` is read
back from its log as it is (`decodeInitialize_initializeLog`).

Key definitions: `PoolKey.new`, `PoolKey.preimage`, `PoolKey.poolId`, `initializeLog`.
Key theorems: `decodeInitialize_initializeLog`, `preimage_canonical`, `preimage_injective`, `pool_key_round_trip`.
-/
import Sherwood.Chain.RoundTrip

namespace Sherwood.Dex.PoolKey

open Chain (HexDecode ChainError IsAddress Prefixed ReadsHex addressWord uintWord intWord)

variable (decode : HexDecode)

/-- A key from two currencies in either order. The texts are hex where they are put into
lower case. -/
def new (a b : String) (fee : UInt32) (tickSpacing : Int32) (hooks : String) : Except ChainError PoolKey := do
  let wa ← addressWord decode a
  let wb ← addressWord decode b
  let (currency0, currency1) :=
    if wa ≤ wb then (toAsciiLowercase a, toAsciiLowercase b) else (toAsciiLowercase b, toAsciiLowercase a)
  let _ ← addressWord decode hooks
  return { currency0, currency1, fee, tickSpacing, hooks := toAsciiLowercase hooks }

/-- What is hashed. -/
def preimage (key : PoolKey) : Except ChainError (List UInt8) := do
  let currency0 ← addressWord decode key.currency0
  let currency1 ← addressWord decode key.currency1
  let hooks ← addressWord decode key.hooks
  return currency0 ++ currency1 ++ uintWord (.ofNat 128 key.fee.toNat) ++
    intWord (key.tickSpacing.toBitVec.signExtend 128) ++ hooks

/-- `keccak256(abi.encode(currency0, currency1, fee, tickSpacing, hooks))`. -/
def poolId (keccak256 : List UInt8 → Vector UInt8 32) (key : PoolKey) : Except ChainError (Vector UInt8 32) :=
  (key.preimage decode).map keccak256

/-- The five words, from what they say. -/
def words (currency0 currency1 : List UInt8) (fee : UInt32) (tickSpacing : Int32) (hooks : List UInt8) : List UInt8 :=
  currency0 ++ currency1 ++ uintWord (.ofNat 128 fee.toNat) ++ intWord (tickSpacing.toBitVec.signExtend 128) ++ hooks

variable {decode} {a b hooks : String} {fee : UInt32} {tickSpacing : Int32} {key : PoolKey} {wa wb wh : List UInt8}

/-- A key is built exactly from three addresses; the smaller currency comes first. -/
theorem new_eq_ok : new decode a b fee tickSpacing hooks = .ok key ↔
    ∃ wa wb wh, addressWord decode a = .ok wa ∧ addressWord decode b = .ok wb ∧ addressWord decode hooks = .ok wh ∧
      key = if wa ≤ wb then ⟨toAsciiLowercase a, toAsciiLowercase b, fee, tickSpacing, toAsciiLowercase hooks⟩
        else ⟨toAsciiLowercase b, toAsciiLowercase a, fee, tickSpacing, toAsciiLowercase hooks⟩ := by
  simp only [new, Except.bind_eq_ok, pure, Except.pure, Except.ok.injEq]
  constructor
  · rintro ⟨wa, ha, wb, hb, wh, hh, rfl⟩
    refine ⟨wa, wb, wh, ha, hb, hh, ?_⟩
    split <;> rfl
  · rintro ⟨wa, wb, wh, ha, hb, hh, rfl⟩
    refine ⟨wa, ha, wb, hb, wh, hh, ?_⟩
    split <;> rfl

theorem preimage_eq_ok {bytes : List UInt8} : key.preimage decode = .ok bytes ↔
    ∃ wa wb wh, addressWord decode key.currency0 = .ok wa ∧ addressWord decode key.currency1 = .ok wb ∧
      addressWord decode key.hooks = .ok wh ∧ bytes = words wa wb key.fee key.tickSpacing wh := by
  simp only [preimage, Except.bind_eq_ok, pure, Except.pure, Except.ok.injEq]
  constructor
  · rintro ⟨wa, ha, wb, hb, wh, hh, rfl⟩
    exact ⟨wa, wb, wh, ha, hb, hh, rfl⟩
  · rintro ⟨wa, wb, wh, ha, hb, hh, rfl⟩
    exact ⟨wa, ha, wb, hb, wh, hh, rfl⟩

theorem addressWord_length {addr : String} (h : addressWord decode addr = .ok wa) : wa.length = 32 := by
  obtain ⟨raw, hraw, rfl⟩ := Chain.addressWord_eq_ok.mp h
  simp [hraw.length]

/-! ### One id -/

/-- Words in order. -/
def sorted (wa wb : List UInt8) : List UInt8 × List UInt8 := if wa ≤ wb then (wa, wb) else (wb, wa)

theorem sorted_comm (hlen : wa.length = wb.length) : sorted wa wb = sorted wb wa := by
  simp only [sorted, BigEndian.le_iff_value_le hlen, BigEndian.le_iff_value_le hlen.symm]
  rcases lt_trichotomy (BigEndian.value wa) (BigEndian.value wb) with h | h | h
  · rw [if_pos h.le, if_neg h.not_ge]
  · rw [value_injective hlen h]
  · rw [if_neg h.not_ge, if_pos h.le]

section Spelling

variable (hdecode : ReadsHex decode)

include hdecode

theorem addressWord_toAsciiLowercase {addr : String} (h : addressWord decode addr = .ok wa) :
    addressWord decode (toAsciiLowercase addr) = .ok wa := by
  obtain ⟨raw, hraw, rfl⟩ := Chain.addressWord_eq_ok.mp h
  exact Chain.addressWord_eq_ok.mpr ⟨raw, hraw.lowercase hdecode, rfl⟩

variable (fee tickSpacing) in
/-- The preimage of a key is made of the smaller currency, the larger one and the rest. -/
theorem preimage_new (ha : addressWord decode a = .ok wa) (hb : addressWord decode b = .ok wb)
    (hh : addressWord decode hooks = .ok wh) : ∃ key, new decode a b fee tickSpacing hooks = .ok key ∧
      key.preimage decode = .ok (words (sorted wa wb).1 (sorted wa wb).2 fee tickSpacing wh) := by
  have ha' := addressWord_toAsciiLowercase hdecode ha
  have hb' := addressWord_toAsciiLowercase hdecode hb
  have hh' := addressWord_toAsciiLowercase hdecode hh
  refine ⟨_, new_eq_ok.mpr ⟨wa, wb, wh, ha, hb, hh, rfl⟩, ?_⟩
  unfold sorted
  split
  · exact preimage_eq_ok.mpr ⟨wa, wb, wh, ha', hb', hh', rfl⟩
  · exact preimage_eq_ok.mpr ⟨wb, wa, wh, hb', ha', hh', rfl⟩

/-- **One id.** The preimage is that of the addresses: not of their order, nor of how they
are spelled. -/
theorem preimage_canonical {a' b' hooks' : String} (hkey : new decode a b fee tickSpacing hooks = .ok key)
    (ha : addressWord decode a' = addressWord decode a) (hb : addressWord decode b' = addressWord decode b)
    (hh : addressWord decode hooks' = addressWord decode hooks) : ∃ bytes, key.preimage decode = .ok bytes ∧
      (∃ key', new decode a' b' fee tickSpacing hooks' = .ok key' ∧ key'.preimage decode = .ok bytes) ∧
      ∃ key', new decode b' a' fee tickSpacing hooks' = .ok key' ∧ key'.preimage decode = .ok bytes := by
  obtain ⟨wa, wb, wh, hwa, hwb, hwh, -⟩ := new_eq_ok.mp hkey
  obtain ⟨key₀, hnew, hpre⟩ := preimage_new fee tickSpacing hdecode hwa hwb hwh
  obtain rfl := Except.ok.inj (hnew.symm.trans hkey)
  rw [hwa] at ha
  rw [hwb] at hb
  rw [hwh] at hh
  have hswapped := preimage_new fee tickSpacing hdecode hb ha hh
  rw [sorted_comm ((addressWord_length hb).trans (addressWord_length ha).symm)] at hswapped
  exact ⟨_, hpre, preimage_new fee tickSpacing hdecode ha hb hh, hswapped⟩

end Spelling

theorem words_injective {wa' wb' wh' : List UInt8} {fee' : UInt32} {tickSpacing' : Int32}
    (hwa : wa.length = wa'.length) (hwb : wb.length = wb'.length)
    (h : words wa wb fee tickSpacing wh = words wa' wb' fee' tickSpacing' wh') :
    wa = wa' ∧ wb = wb' ∧ fee = fee' ∧ tickSpacing = tickSpacing' ∧ wh = wh' := by
  simp only [words, List.append_assoc] at h
  obtain ⟨h0, h⟩ := List.append_inj h hwa
  obtain ⟨h1, h⟩ := List.append_inj h hwb
  obtain ⟨hfee, h⟩ := List.append_inj h (by simp)
  obtain ⟨htick, hhooks⟩ := List.append_inj h (by simp)
  refine ⟨h0, h1, ?_, ?_, hhooks⟩
  · have hread := Chain.decodeU128_uintWord (.ofNat 128 fee.toNat) []
    rw [hfee, Chain.decodeU128_uintWord, Outcome.ok.injEq, ← BitVec.toNat_inj, BitVec.toNat_ofNat,
      BitVec.toNat_ofNat] at hread
    have := fee.toNat_lt
    have := fee'.toNat_lt
    rw [← UInt32.toNat_inj]
    omega
  · have hread := Chain.decodeI32_intWord tickSpacing []
    rw [htick, Chain.decodeI32_intWord, Outcome.ok.injEq] at hread
    exact hread.symm

/-- **No two keys share an id's preimage** that differ in an address, the fee or the tick
spacing. -/
theorem preimage_injective {key' : PoolKey} {bytes : List UInt8} (h : key.preimage decode = .ok bytes)
    (h' : key'.preimage decode = .ok bytes) :
    addressWord decode key.currency0 = addressWord decode key'.currency0 ∧
      addressWord decode key.currency1 = addressWord decode key'.currency1 ∧ key.fee = key'.fee ∧
      key.tickSpacing = key'.tickSpacing ∧ addressWord decode key.hooks = addressWord decode key'.hooks := by
  obtain ⟨wa, wb, wh, h0, h1, hh, hbytes⟩ := preimage_eq_ok.mp h
  obtain ⟨wa', wb', wh', h0', h1', hh', hbytes'⟩ := preimage_eq_ok.mp h'
  obtain ⟨rfl, rfl, hfee, htick, rfl⟩ := words_injective
    ((addressWord_length h0).trans (addressWord_length h0').symm)
    ((addressWord_length h1).trans (addressWord_length h1').symm) (hbytes.symm.trans hbytes')
  exact ⟨h0.trans h0'.symm, h1.trans h1'.symm, hfee, htick, hh.trans hh'.symm⟩

end Sherwood.Dex.PoolKey

namespace Sherwood.Chain

open Dex (PoolKey)
open Dex.PoolKey (addressWord_length addressWord_toAsciiLowercase new_eq_ok preimage_canonical preimage_injective)

/-! ### The log of a new pool -/

/-- `Initialize(bytes32,address,address,uint24,int24,address,uint160,int24)`. -/
def initializeTopic : String := "0xdd466e674ea557f56295e2d0218a125ea4b4f0f6f3307b95f85e6110838d6438"

def topicFromAddress (decode : HexDecode) (addr : String) : Except ChainError String :=
  (addressWord decode addr).map toHex

/-- What the chain logs of a new pool: its id and currencies as topics; fee, tick spacing,
hooks, price and tick as data. -/
def initializeLog (decode : HexDecode) (key : PoolKey) (id : String) (sqrtPriceX96 : ℕ) (tick : Int32) :
    Except ChainError (List String × String) := do
  let topic0 ← topicFromAddress decode key.currency0
  let topic1 ← topicFromAddress decode key.currency1
  let hooks ← addressWord decode key.hooks
  let data := uintWord (.ofNat 128 key.fee.toNat) ++ intWord (key.tickSpacing.toBitVec.signExtend 128) ++ hooks ++
    Abi.word sqrtPriceX96 ++ intWord (tick.toBitVec.signExtend 128)
  return ([initializeTopic, id, topic0, topic1], toHex data)

theorem sliceFrom_append {ε : Type} {a b : String} {n : ℕ} (h : Utf8.byteLen a.toList = n) :
    (sliceFrom (a ++ b) n : Outcome ε _) = .ok b := by
  have hcut : Utf8.splitAt? n (a ++ b).toList = some (a.toList, b.toList) :=
    Utf8.splitAt?_eq_some.mpr ⟨String.toList_append, h⟩
  rw [sliceFrom, hcut]
  exact congrArg _ String.ofList_toList

theorem hex_append (as bs : List UInt8) : hex (as ++ bs) = hex as ++ hex bs := by
  rw [← String.toList_inj]
  simp [hex, String.toList_append]

theorem sliceFrom_topic {ε : Type} (raw : List UInt8) :
    (sliceFrom (strip0x (toHex (List.replicate 12 0 ++ raw))) 24 : Outcome ε _) = .ok (hex raw) := by
  rw [toHex, strip0x_append, hex_append]
  exact sliceFrom_append (by decide +kernel)

section

variable {decode : HexDecode} (hdecode : ReadsHex decode) {key : PoolKey} {raw0 raw1 rawHooks : List UInt8}

/-- A key of addresses in lower case behind `0x`. -/
structure Canonical (key : PoolKey) (raw0 raw1 rawHooks : List UInt8) : Prop where
  currency0 : key.currency0 = toHex raw0
  currency1 : key.currency1 = toHex raw1
  hooks : key.hooks = toHex rawHooks
  length0 : raw0.length = 20
  length1 : raw1.length = 20
  lengthHooks : rawHooks.length = 20

include hdecode

theorem initializeLog_eq (h : Canonical key raw0 raw1 rawHooks) (id : String) (sqrtPriceX96 : ℕ) (tick : Int32) :
    initializeLog decode key id sqrtPriceX96 tick =
      .ok ([initializeTopic, id, toHex (List.replicate 12 0 ++ raw0), toHex (List.replicate 12 0 ++ raw1)],
        toHex (uintWord (.ofNat 128 key.fee.toNat) ++ (intWord (key.tickSpacing.toBitVec.signExtend 128) ++
          (List.replicate 12 0 ++ rawHooks ++ (Abi.word sqrtPriceX96 ++ intWord (tick.toBitVec.signExtend 128)))))) := by
  have h0 := addressWord_eq_ok.mpr ⟨raw0, isAddress_toHex hdecode h.length0, rfl⟩
  have h1 := addressWord_eq_ok.mpr ⟨raw1, isAddress_toHex hdecode h.length1, rfl⟩
  have hh := addressWord_eq_ok.mpr ⟨rawHooks, isAddress_toHex hdecode h.lengthHooks, rfl⟩
  rw [initializeLog, topicFromAddress, topicFromAddress, h.currency0, h.currency1, h.hooks, h0, h1, hh]
  simp only [Except.map, bind, Except.bind, pure, Except.pure, List.append_assoc]

theorem poolOf_toHex (currency0 currency1 : String) (fee : UInt32) (tickSpacing : Int32) (hlen : rawHooks.length = 20)
    (tail : List UInt8) :
    poolOf decode currency0 currency1 (toHex (uintWord (.ofNat 128 fee.toNat) ++
      (intWord (tickSpacing.toBitVec.signExtend 128) ++ (List.replicate 12 0 ++ rawHooks ++ tail)))) =
      .ok ⟨currency0, currency1, fee, tickSpacing, toHex rawHooks⟩ := by
  generalize hbytes : uintWord (.ofNat 128 fee.toNat) ++
    (intWord (tickSpacing.toBitVec.signExtend 128) ++ (List.replicate 12 0 ++ rawHooks ++ tail)) = bytes
  have hlength : 96 ≤ bytes.length := by
    rw [← hbytes]
    simp [hlen]
    omega
  have hfirst : slice bytes 0 32 = (.ok (uintWord (.ofNat 128 fee.toNat)) : Outcome Unit _) := by
    rw [slice_of_le (by omega) (by omega), ← hbytes, List.drop_zero, List.take_left' (by simp)]
  have hsecond : slice bytes 32 64 = (.ok (intWord (tickSpacing.toBitVec.signExtend 128)) : Outcome Unit _) := by
    rw [slice_of_le (by omega) (by omega), ← hbytes, List.drop_left' (by simp), List.take_left' (by simp)]
  have hthird : slice bytes 64 96 = (.ok (List.replicate 12 0 ++ rawHooks) : Outcome Unit _) := by
    rw [slice_of_le (by omega) (by omega), ← hbytes, ← List.append_assoc, List.drop_left' (by simp),
      List.take_left' (by simp [hlen])]
  have hfee := decodeU128_uintWord (.ofNat 128 fee.toNat) []
  have htick := decodeI32_intWord tickSpacing []
  have hhooks := decodeAddress_word hlen []
  rw [List.append_nil] at hfee htick hhooks
  have hsmall : (BitVec.ofNat 128 fee.toNat).toNat = fee.toNat := by
    have := fee.toNat_lt
    rw [BitVec.toNat_ofNat]
    omega
  rw [poolOf, fromHex_toHex hdecode]
  simp only [Outcome.ofExcept, Outcome.mapErr, Outcome.ok_bind, Outcome.reject, if_neg (not_lt.mpr hlength), hfirst,
    hsecond, hthird, hfee, htick, hhooks, hsmall]
  rw [if_neg (by have := fee.toNat_lt; omega), Outcome.ok_bind, UInt32.ofNat_toNat]
  rfl

/-- **Pools.** A key in lower case is read back from its log. -/
theorem decodeInitialize_initializeLog (h : Canonical key raw0 raw1 rawHooks) (id : String) (sqrtPriceX96 : ℕ)
    (tick : Int32) : ∃ log, initializeLog decode key id sqrtPriceX96 tick = .ok log ∧
      decodeInitialize decode log.1 log.2 = .ok key := by
  refine ⟨_, initializeLog_eq hdecode h id sqrtPriceX96 tick, ?_⟩
  generalize htail : Abi.word sqrtPriceX96 ++ intWord (tick.toBitVec.signExtend 128) = tail
  have hpool := poolOf_toHex hdecode (toHex raw0) (toHex raw1) key.fee key.tickSpacing h.lengthHooks tail
  rw [← h.currency0, ← h.currency1, ← h.hooks] at hpool
  rw [decodeInitialize, Outcome.reject, if_neg (by simp), Outcome.ok_bind]
  simp only [List.getElem?_cons_succ, List.getElem?_cons_zero, Outcome.unwrap, Option.elim, Outcome.ok_bind,
    sliceFrom_topic]
  rw [← toHex, ← toHex, ← h.currency0, ← h.currency1]
  exact hpool

/-- Addresses with their `0x` make a key in lower case. -/
theorem canonical_new {a b hooks : String} {fee : UInt32} {tickSpacing : Int32}
    (hkey : PoolKey.new decode a b fee tickSpacing hooks = .ok key) (ha : Prefixed a) (hb : Prefixed b)
    (hh : Prefixed hooks) : ∃ raw0 raw1 rawHooks, Canonical key raw0 raw1 rawHooks := by
  obtain ⟨wa, wb, wh, hwa, hwb, hwh, rfl⟩ := new_eq_ok.mp hkey
  obtain ⟨ra, hra, -⟩ := addressWord_eq_ok.mp hwa
  obtain ⟨rb, hrb, -⟩ := addressWord_eq_ok.mp hwb
  obtain ⟨rh, hrh, -⟩ := addressWord_eq_ok.mp hwh
  have hta := hra.toAsciiLowercase_eq hdecode ha
  have htb := hrb.toAsciiLowercase_eq hdecode hb
  have hth := hrh.toAsciiLowercase_eq hdecode hh
  split
  · exact ⟨ra, rb, rh, hta, htb, hth, hra.length, hrb.length, hrh.length⟩
  · exact ⟨rb, ra, rh, htb, hta, hth, hrb.length, hra.length, hrh.length⟩

end

/-- **Pool keys.** A key built from addresses with their `0x` is read back from its log.
The preimage of its id is that of its addresses, in either order and any spelling, and two
keys with one preimage have the same addresses, fee and tick spacing. -/
theorem pool_key_round_trip (decode : HexDecode) (hdecode : ReadsHex decode) :
    (∀ a b hooks fee tickSpacing key, PoolKey.new decode a b fee tickSpacing hooks = .ok key → Prefixed a →
      Prefixed b → Prefixed hooks → ∀ id sqrtPriceX96 tick,
        ∃ log, initializeLog decode key id sqrtPriceX96 tick = .ok log ∧
          decodeInitialize decode log.1 log.2 = .ok key) ∧
    (∀ a b hooks fee tickSpacing key, PoolKey.new decode a b fee tickSpacing hooks = .ok key → ∀ a' b' hooks',
      addressWord decode a' = addressWord decode a → addressWord decode b' = addressWord decode b →
      addressWord decode hooks' = addressWord decode hooks → ∃ bytes, key.preimage decode = .ok bytes ∧
        (∃ key', PoolKey.new decode a' b' fee tickSpacing hooks' = .ok key' ∧ key'.preimage decode = .ok bytes) ∧
        ∃ key', PoolKey.new decode b' a' fee tickSpacing hooks' = .ok key' ∧ key'.preimage decode = .ok bytes) ∧
    ∀ (key key' : PoolKey) (bytes : List UInt8), key.preimage decode = .ok bytes → key'.preimage decode = .ok bytes →
      addressWord decode key.currency0 = addressWord decode key'.currency0 ∧
        addressWord decode key.currency1 = addressWord decode key'.currency1 ∧ key.fee = key'.fee ∧
        key.tickSpacing = key'.tickSpacing ∧ addressWord decode key.hooks = addressWord decode key'.hooks := by
  refine ⟨fun a b hooks fee tickSpacing key hkey ha hb hh id sqrtPriceX96 tick => ?_,
    fun a b hooks fee tickSpacing key hkey a' b' hooks' ha hb hh => preimage_canonical hdecode hkey ha hb hh,
    fun key key' bytes h h' => preimage_injective h h'⟩
  obtain ⟨raw0, raw1, rawHooks, hcanonical⟩ := canonical_new hdecode hkey ha hb hh
  exact decodeInitialize_initializeLog hdecode hcanonical id sqrtPriceX96 tick

/-- NVDA and USDG, with a negative tick spacing. -/
theorem pool_key_round_trip_nvda : ∃ key log,
    PoolKey.new Dex.hexDecode "0xd0601CE157Db5bdC3162BbaC2a2C8aF5320D9EEC" "0X5fc5360D0400a0Fd4f2af552ADD042D716F1d168"
      900000 (-60) "0x0000000000000000000000000000000000000000" = .ok key ∧
      initializeLog Dex.hexDecode key "0x" 79228162514264337593543950336 0 = .ok log ∧
      decodeInitialize Dex.hexDecode log.1 log.2 = .ok key := by
  have hkey : (PoolKey.new Dex.hexDecode "0xd0601CE157Db5bdC3162BbaC2a2C8aF5320D9EEC"
      "0X5fc5360D0400a0Fd4f2af552ADD042D716F1d168" 900000 (-60)
      "0x0000000000000000000000000000000000000000").toBool = true := by
    decide +kernel
  cases hnew : PoolKey.new Dex.hexDecode "0xd0601CE157Db5bdC3162BbaC2a2C8aF5320D9EEC"
      "0X5fc5360D0400a0Fd4f2af552ADD042D716F1d168" 900000 (-60) "0x0000000000000000000000000000000000000000" with
  | error e =>
    rw [hnew] at hkey
    cases hkey
  | ok key =>
    obtain ⟨log, hlog, hread⟩ := (pool_key_round_trip Dex.hexDecode readsHex_hexDecode).1 _ _ _ _ _ key hnew
      (by decide) (by decide) (by decide) "0x" 79228162514264337593543950336 0
    exact ⟨key, log, rfl, hlog, hread⟩

end Sherwood.Chain
