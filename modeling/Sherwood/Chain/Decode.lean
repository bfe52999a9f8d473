/-
# Reading what a node sends

The readers of `sherwood-chain`: of a word, of an address, of a string, of the
reason a call reverted, of an address in a log and of the log of a new pool. A
node may send anything, and each reader checks what it slices. Four of them do
not check enough: a length word near `2^64` overflows `start + len`, and a topic is
cut at a byte that need not begin a character (`readers_panic_iff`).

A reader of an `Option` is an outcome whose error is `()`. Where overflow checks
are not compiled in (`checks`), the sum wraps and the slice panics instead.

Key definitions: `decodeU128`, `decodeString`, `decodeRevertReason`, `decodeInitialize`,
`RpcLog.topicAddress`, `HugeLength`, `CutTopic`.
Key theorems: `decodeString_panic_iff`, `decodeRevertReason_panic_iff`,
`decodeInitialize_panic_iff`, `topicAddress_panic_iff`, `readers_panic_iff`, `readers_panic`.
-/
import Sherwood.Dex.V4Swap
import Sherwood.Json
import Sherwood.Lib.Outcome
import Sherwood.Lib.Sha256
import Sherwood.Lib.Utf8

namespace Sherwood.Chain

open Dex (PoolKey)

variable {ε : Type}

/-! ### Slices and sums -/

/-- `&bytes[start..stop]`. -/
def slice (bytes : List UInt8) (start stop : ℕ) : Outcome ε (List UInt8) :=
  if start ≤ stop ∧ stop ≤ bytes.length then .ok ((bytes.take stop).drop start) else .panic

/-- `buf.copy_from_slice(bytes)`, into a buffer of so many bytes. -/
def copyFromSlice (size : ℕ) (bytes : List UInt8) : Outcome ε (List UInt8) :=
  if bytes.length = size then .ok bytes else .panic

/-- `&text[start..]`. -/
def sliceFrom (text : String) (start : ℕ) : Outcome ε String :=
  .unwrap ((Utf8.splitAt? start text.toList).map fun parts => .ofList parts.2)

/-- `a + b` of a `usize`. -/
def usizeAdd (checks : Bool) (a b : ℕ) : Outcome ε ℕ :=
  if a + b < 2 ^ 64 then .ok (a + b) else if checks then .panic else .ok ((a + b) % 2 ^ 64)

/-- `u128::from_be_bytes`. -/
def fromBeBytes (bytes : List UInt8) : BitVec 128 := .ofNat 128 (BigEndian.value bytes)

/-! ### The readers -/

/-- `0x`-prefixed lowercase hex. -/
def toHex (bytes : List UInt8) : String := "0x" ++ hex bytes

def decodeI32 (ret : List UInt8) : Outcome ChainError Int32 := do
  .reject (ret.length < 32) (.decode s!"expected a 32-byte word, got {ret.length} bytes")
  let buf ← copyFromSlice 4 (← slice ret 28 32)
  return .ofBitVec (.ofNat 32 (BigEndian.value buf))

def decodeU128 (ret : List UInt8) : Outcome ChainError (BitVec 128) := do
  .reject (ret.length < 32) (.decode s!"expected a 32-byte word, got {ret.length} bytes")
  let word ← slice ret 0 32
  let high ← slice word 0 16
  .reject (∃ b ∈ high, b ≠ 0) (.decode "uint256 return exceeds u128 — value too large for this reader")
  let buf ← copyFromSlice 16 (← slice word 16 32)
  return fromBeBytes buf

def decodeAddress (ret : List UInt8) : Outcome ChainError String := do
  .reject (ret.length < 32) (.decode "expected a 32-byte word for address")
  return toHex (← slice ret 12 32)

/-- The whole payload as a text, up to its first zero byte. -/
def trimmedText (ret : List UInt8) : String :=
  trimStr (.ofList (Utf8.lossy (ret.takeWhile (· ≠ 0))))

/-- The `len` bytes behind the length as a text, where there are that many. -/
def textOfLength (checks : Bool) (ret : List UInt8) (len : ℕ) : Outcome ChainError String :=
  if len > 0 then do
    let stop ← usizeAdd checks 64 len
    if stop ≤ ret.length then return .ofList (Utf8.lossy (← slice ret 64 stop))
    else return trimmedText ret
  else return trimmedText ret

/-- A dynamic `string`: offset, length and bytes. What is not one is read whole, for
the `bytes32` of some old tokens. -/
def decodeString (checks : Bool) (ret : List UInt8) : Outcome ChainError String :=
  if ret.length ≥ 96 then do
    let len ← decodeU128 (← slice ret 32 64)
    textOfLength checks ret (len.toNat % 2 ^ 64)
  else return trimmedText ret

/-- The selector at the front of a revert payload, if it is that long. -/
def revertSelector (hex : HexDecode) (data : Option String) : Outcome Unit String := do
  let data ← .okOr data ()
  let raw ← (Outcome.ofExcept (fromHex hex data)).mapErr fun _ => ()
  .reject (raw.length < 4) ()
  return toHex (← slice raw 0 4)

/-- The reason of an `Error(string)`. -/
def decodeRevertReason (hex : HexDecode) (checks : Bool) (data : String) : Outcome Unit String := do
  let raw ← (Outcome.ofExcept (fromHex hex data)).mapErr fun _ => ()
  .reject (raw.length < 4 + 64) ()
  .reject ((← slice raw 0 4) ≠ [0x08, 0xc3, 0x79, 0xa0]) ()
  let reason ← (decodeString checks (← slice raw 4 raw.length)).mapErr fun _ => ()
  .reject (reason = "") ()
  return reason

/-- One decoded log. -/
structure RpcLog where
  address : String
  topics : List String
  data : String
  blockNumber : UInt64

/-- The low 20 bytes of a topic as an address, if there is one of the right length. -/
def RpcLog.topicAddress (log : RpcLog) (i : ℕ) : Outcome Unit String := do
  let t ← .okOr log.topics[i]? ()
  let raw := strip0x t
  .reject (Utf8.byteLen raw.toList ≠ 64) ()
  return "0x" ++ (← sliceFrom raw 24)

/-- What the data of an `Initialize` log says of its pool. -/
def poolOf (hex : HexDecode) (currency0 currency1 data : String) : Outcome Unit PoolKey := do
  let raw ← (Outcome.ofExcept (fromHex hex data)).mapErr fun _ => ()
  .reject (raw.length < 96) ()
  let fee ← (decodeU128 (← slice raw 0 32)).mapErr fun _ => ()
  .reject (fee.toNat ≥ 2 ^ 32) ()
  let tickSpacing ← (decodeI32 (← slice raw 32 64)).mapErr fun _ => ()
  let hooks ← (decodeAddress (← slice raw 64 96)).mapErr fun _ => ()
  return { currency0, currency1, fee := .ofNat fee.toNat, tickSpacing, hooks }

/-- The pool of an `Initialize` log. -/
def decodeInitialize (hex : HexDecode) (topics : List String) (data : String) : Outcome Unit PoolKey := do
  .reject (topics.length < 4) ()
  let currency0 ← sliceFrom (strip0x (← .unwrap topics[2]?)) 24
  let currency1 ← sliceFrom (strip0x (← .unwrap topics[3]?)) 24
  poolOf hex ("0x" ++ currency0) ("0x" ++ currency1) data

/-! ### What the slices give -/

theorem slice_of_le {bytes : List UInt8} {start stop : ℕ} (h : start ≤ stop) (hlen : stop ≤ bytes.length) :
    (slice bytes start stop : Outcome ε _) = .ok ((bytes.drop start).take (stop - start)) := by
  rw [slice, if_pos ⟨h, hlen⟩, List.drop_take]

theorem slice_of_lt {bytes : List UInt8} {start stop : ℕ} (h : stop < start) :
    (slice bytes start stop : Outcome ε _) = .panic := by
  rw [slice, if_neg (by omega)]

theorem copyFromSlice_of_length {size : ℕ} {bytes : List UInt8} (h : bytes.length = size) :
    (copyFromSlice size bytes : Outcome ε _) = .ok bytes := if_pos h

theorem sliceFrom_panic_iff {text : String} {start : ℕ} :
    (sliceFrom text start : Outcome ε _) = .panic ↔ ¬ Utf8.IsBoundary start text.toList := by
  rw [sliceFrom, Outcome.unwrap_eq_panic, Option.map_eq_none_iff, Utf8.not_isBoundary]

theorem usizeAdd_of_lt {checks : Bool} {a b : ℕ} (h : a + b < 2 ^ 64) :
    (usizeAdd checks a b : Outcome ε _) = .ok (a + b) := if_pos h

theorem fromBeBytes_toNat {bytes : List UInt8} (h : bytes.length = 16) :
    (fromBeBytes bytes).toNat = BigEndian.value bytes := by
  have hlt := BigEndian.value_lt bytes
  rw [h] at hlt
  rw [fromBeBytes, BitVec.toNat_ofNat]
  exact Nat.mod_eq_of_lt hlt

/-! ### Words -/

/-- A word is its low half where its high half is zero. -/
theorem decodeU128_of_length {ret : List UInt8} (h : 32 ≤ ret.length) : decodeU128 ret =
    if ∃ b ∈ ret.take 16, b ≠ 0 then
      .err (.decode "uint256 return exceeds u128 — value too large for this reader")
    else .ok (fromBeBytes ((ret.drop 16).take 16)) := by
  have hword : slice ret 0 32 = (.ok (ret.take 32) : Outcome ChainError _) := slice_of_le (by omega) h
  have hhigh : slice (ret.take 32) 0 16 = (.ok (ret.take 16) : Outcome ChainError _) := by
    rw [slice_of_le (by omega) (by rw [List.length_take]; omega), List.drop_zero, List.take_take]
    rfl
  have hlow : slice (ret.take 32) 16 32 = (.ok ((ret.drop 16).take 16) : Outcome ChainError _) := by
    rw [slice_of_le (by omega) (by rw [List.length_take]; omega), List.drop_take, List.take_take]
    rfl
  have hlen : ((ret.drop 16).take 16).length = 16 := by
    rw [List.length_take, List.length_drop]
    omega
  rw [decodeU128, Outcome.reject, if_neg (by omega), Outcome.ok_bind, hword, Outcome.ok_bind, hhigh, Outcome.ok_bind,
    Outcome.reject]
  split
  · rfl
  · rw [Outcome.ok_bind, hlow, Outcome.ok_bind, copyFromSlice_of_length hlen, Outcome.ok_bind, Outcome.pure_eq_ok]

theorem decodeU128_ne_panic (ret : List UInt8) : decodeU128 ret ≠ .panic := by
  by_cases h : ret.length < 32
  · rw [decodeU128, Outcome.reject, if_pos h]
    simp
  · rw [decodeU128_of_length (by omega)]
    split <;> simp

theorem decodeI32_ne_panic (ret : List UInt8) : decodeI32 ret ≠ .panic := by
  rw [decodeI32, Outcome.reject]
  split
  · simp
  · rw [Outcome.ok_bind, slice_of_le (by omega) (by omega), Outcome.ok_bind,
      copyFromSlice_of_length (by rw [List.length_take, List.length_drop]; omega), Outcome.ok_bind]
    simp

theorem decodeAddress_ne_panic (ret : List UInt8) : decodeAddress ret ≠ .panic := by
  rw [decodeAddress, Outcome.reject]
  split
  · simp
  · rw [Outcome.ok_bind, slice_of_le (by omega) (by omega), Outcome.ok_bind]
    simp

/-! ### Strings -/

/-- The length word of a string is a `u128` whose low 64 bits are within 64 of `2^64`. -/
structure HugeLength (ret : List UInt8) : Prop where
  length : 96 ≤ ret.length
  high : ∀ b ∈ (ret.drop 32).take 16, b = 0
  low : 2 ^ 64 - 64 ≤ BigEndian.value ((ret.drop 56).take 8)

theorem usize_of_word {word : List UInt8} (h : word.length = 16) :
    (fromBeBytes word).toNat % 2 ^ 64 = BigEndian.value (word.drop 8) := by
  have hlow : (word.drop 8).length = 8 := by simp [h]
  have hlt := BigEndian.value_lt (word.drop 8)
  have hsplit := BigEndian.value_append (word.take 8) (word.drop 8)
  rw [List.take_append_drop, hlow] at hsplit
  rw [hlow] at hlt
  have hpow : 2 ^ 64 = 256 ^ 8 := by norm_num
  rw [fromBeBytes_toNat h, hsplit, hpow, Nat.mul_add_mod_self_right, Nat.mod_eq_of_lt hlt]

theorem textOfLength_panic_iff {checks : Bool} {ret : List UInt8} {len : ℕ} (hret : 96 ≤ ret.length)
    (hlen : len < 2 ^ 64) : textOfLength checks ret len = .panic ↔ 2 ^ 64 - 64 ≤ len := by
  rw [textOfLength]
  by_cases hfits : 64 + len < 2 ^ 64
  · refine iff_of_false ?_ (by omega)
    rw [usizeAdd_of_lt hfits, Outcome.ok_bind]
    split_ifs with hpos hstop
    · rw [slice_of_le (by omega) hstop, Outcome.ok_bind]
      simp
    · simp
    · simp
  · refine iff_of_true ?_ (by omega)
    rw [if_pos (by omega), usizeAdd, if_neg hfits]
    cases checks
    · have hstop : (64 + len) % 2 ^ 64 < 64 := by omega
      rw [if_neg (by decide), Outcome.ok_bind, if_pos (by omega), slice_of_lt hstop, Outcome.panic_bind]
    · rfl

/-- **Strings.** The reader panics on a length word near `2^64`, overflow checks or not. -/
theorem decodeString_panic_iff (checks : Bool) (ret : List UInt8) :
    decodeString checks ret = .panic ↔ HugeLength ret := by
  by_cases hlen : 96 ≤ ret.length
  swap
  · rw [decodeString, if_neg hlen]
    exact iff_of_false (by simp) fun h => hlen h.length
  have hslice : slice ret 32 64 = (.ok ((ret.drop 32).take 32) : Outcome ChainError _) :=
    slice_of_le (by omega) (by omega)
  have hword : 32 ≤ ((ret.drop 32).take 32).length := by
    rw [List.length_take, List.length_drop]
    omega
  have hhigh : ((ret.drop 32).take 32).take 16 = (ret.drop 32).take 16 := by
    rw [List.take_take]
    rfl
  have hlow : (((ret.drop 32).take 32).drop 16).take 16 = (ret.drop 48).take 16 := by
    rw [List.drop_take, List.drop_drop, List.take_take]
    rfl
  rw [decodeString, if_pos hlen, hslice, Outcome.ok_bind, decodeU128_of_length hword, hhigh, hlow]
  split
  · next h =>
    obtain ⟨b, hb, hne⟩ := h
    exact iff_of_false (by simp) fun h => hne (h.high b hb)
  · next h =>
    have hzero : ∀ b ∈ (ret.drop 32).take 16, b = 0 := fun b hb => by_contra fun hne => h ⟨b, hb, hne⟩
    have hbytes : ((ret.drop 48).take 16).drop 8 = (ret.drop 56).take 8 := by rw [List.drop_take, List.drop_drop]
    rw [Outcome.ok_bind, textOfLength_panic_iff hlen (Nat.mod_lt _ (by norm_num)),
      usize_of_word (by rw [List.length_take, List.length_drop]; omega), hbytes]
    exact ⟨fun hlow => ⟨hlen, hzero, hlow⟩, HugeLength.low⟩

/-- **Revert reasons.** The reader panics where its payload is an `Error(string)` whose
string does. -/
theorem decodeRevertReason_panic_iff (hex : HexDecode) (checks : Bool) (data : String) :
    decodeRevertReason hex checks data = .panic ↔ ∃ raw, fromHex hex data = .ok raw ∧
      raw.take 4 = [0x08, 0xc3, 0x79, 0xa0] ∧ HugeLength (raw.drop 4) := by
  have hslices : ∀ raw : List UInt8, 4 + 64 ≤ raw.length →
      slice raw 0 4 = (.ok (raw.take 4) : Outcome Unit _) ∧
        slice raw 4 raw.length = (.ok (raw.drop 4) : Outcome Unit _) := by
    intro raw h
    refine ⟨slice_of_le (by omega) (by omega), ?_⟩
    rw [slice_of_le (by omega) le_rfl, List.take_of_length_le (by simp)]
  rw [decodeRevertReason]
  simp only [Outcome.bind_eq_panic, Outcome.mapErr_eq_panic, Outcome.ofExcept_ne_panic, Outcome.mapErr_eq_ok,
    Outcome.ofExcept_eq_ok, false_or, Outcome.reject_ne_panic, Outcome.reject_eq_ok, exists_const, not_lt]
  constructor
  · rintro ⟨raw, hraw, hlen, h⟩
    obtain ⟨hfour, hrest⟩ := hslices raw hlen
    rw [hfour, hrest] at h
    simpa [hraw, decodeString_panic_iff] using h
  · rintro ⟨raw, hraw, hselector, hhuge⟩
    have hlen : 4 + 64 ≤ raw.length := by
      have := hhuge.length
      rw [List.length_drop] at this
      omega
    obtain ⟨hfour, hrest⟩ := hslices raw hlen
    refine ⟨raw, hraw, hlen, ?_⟩
    rw [hfour, hrest]
    simpa [hselector, decodeString_panic_iff] using hhuge

/-! ### Topics -/

/-- A topic that byte 24 does not cut: a short one, or one with a character across it. -/
def CutTopic (topic : String) : Prop := ¬ Utf8.IsBoundary 24 (strip0x topic).toList

instance (topic : String) : Decidable (CutTopic topic) := inferInstanceAs (Decidable (¬ _))

/-- **Topics.** The reader panics on a topic of 64 bytes that byte 24 does not cut. -/
theorem topicAddress_panic_iff (log : RpcLog) (i : ℕ) : log.topicAddress i = .panic ↔
    ∃ t, log.topics[i]? = some t ∧ Utf8.byteLen (strip0x t).toList = 64 ∧ CutTopic t := by
  rw [RpcLog.topicAddress]
  simp only [Outcome.bind_eq_panic, Outcome.okOr_ne_panic, Outcome.okOr_eq_ok, Outcome.reject_ne_panic,
    Outcome.reject_eq_ok, exists_const, false_or, not_not, sliceFrom_panic_iff, Outcome.pure_eq_ok, reduceCtorEq,
    and_false, or_false]
  rfl

theorem poolOf_ne_panic (hex : HexDecode) (currency0 currency1 data : String) :
    poolOf hex currency0 currency1 data ≠ .panic := by
  rw [poolOf]
  simp only [Ne, Outcome.bind_eq_panic, Outcome.mapErr_eq_panic, Outcome.ofExcept_ne_panic, Outcome.mapErr_eq_ok,
    Outcome.ofExcept_eq_ok, false_or, Outcome.reject_ne_panic, Outcome.reject_eq_ok, exists_const, not_lt,
    decodeU128_ne_panic, decodeI32_ne_panic, decodeAddress_ne_panic, Outcome.pure_eq_ok, reduceCtorEq, and_false,
    or_false]
  rintro ⟨raw, -, hlen, h⟩
  have hslice : ∀ start stop, start ≤ stop → stop ≤ 96 → (slice raw start stop : Outcome Unit _) ≠ .panic := by
    intro start stop hle hstop
    rw [slice_of_le hle (by omega)]
    simp
  rcases h with h | ⟨-, -, -, -, -, h | ⟨-, -, -, -, h⟩⟩
  · exact hslice 0 32 (by omega) (by omega) h
  · exact hslice 32 64 (by omega) (by omega) h
  · exact hslice 64 96 (by omega) (by omega) h

/-- **Pools.** The reader panics on a log of four topics where byte 24 does not cut the
third or the fourth. -/
theorem decodeInitialize_panic_iff (hex : HexDecode) (topics : List String) (data : String) :
    decodeInitialize hex topics data = .panic ↔
      ∃ t₂ t₃, topics[2]? = some t₂ ∧ topics[3]? = some t₃ ∧ (CutTopic t₂ ∨ CutTopic t₃) := by
  by_cases hlen : 4 ≤ topics.length
  swap
  · refine iff_of_false (fun h => ?_) ?_
    · rw [decodeInitialize, Outcome.reject, if_pos (by omega)] at h
      cases h
    · rintro ⟨-, t₃, -, h₃, -⟩
      exact hlen (List.getElem?_eq_some_iff.mp h₃).1
  have h₂ : topics[2]? = some topics[2] := List.getElem?_eq_getElem (by omega)
  have h₃ : topics[3]? = some topics[3] := List.getElem?_eq_getElem (by omega)
  rw [decodeInitialize, Outcome.reject, if_neg (by omega), Outcome.ok_bind, h₂, h₃]
  show (sliceFrom (strip0x topics[2]) 24 >>= fun currency0 => sliceFrom (strip0x topics[3]) 24 >>= fun currency1 =>
    poolOf hex ("0x" ++ currency0) ("0x" ++ currency1) data) = .panic ↔ _
  simp only [Outcome.bind_eq_panic, sliceFrom_panic_iff, poolOf_ne_panic, and_false, exists_false, or_false,
    Option.some.injEq, exists_and_left, exists_eq_left']
  constructor
  · rintro (hcut | ⟨-, -, hcut⟩)
    · exact .inl hcut
    · exact .inr hcut
  · rintro (hcut | hcut)
    · exact .inl hcut
    · by_cases hfirst : CutTopic topics[2]
      · exact .inl hfirst
      · obtain ⟨parts, hparts⟩ := Option.isSome_iff_exists.mp (not_not.mp hfirst)
        exact .inr ⟨.ofList parts.2, by rw [sliceFrom, hparts]; rfl, hcut⟩

/-- **No other panics.** For every reply, exactly the length words near `2^64` and the
topics that byte 24 does not cut panic a reader, overflow checks or not. -/
theorem readers_panic_iff (hex : HexDecode) (checks : Bool) :
    (∀ ret, decodeString checks ret ≠ .panic ↔ ¬ HugeLength ret) ∧
      (∀ data, decodeRevertReason hex checks data ≠ .panic ↔ ¬ ∃ raw, fromHex hex data = .ok raw ∧
        raw.take 4 = [0x08, 0xc3, 0x79, 0xa0] ∧ HugeLength (raw.drop 4)) ∧
      (∀ topics data, decodeInitialize hex topics data ≠ .panic ↔
        ¬ ∃ t₂ t₃, topics[2]? = some t₂ ∧ topics[3]? = some t₃ ∧ (CutTopic t₂ ∨ CutTopic t₃)) ∧
      ∀ (log : RpcLog) (i : ℕ), log.topicAddress i ≠ .panic ↔
        ¬ ∃ t, log.topics[i]? = some t ∧ Utf8.byteLen (strip0x t).toList = 64 ∧ CutTopic t :=
  ⟨fun ret => not_congr (decodeString_panic_iff checks ret),
    fun data => not_congr (decodeRevertReason_panic_iff hex checks data),
    fun topics data => not_congr (decodeInitialize_panic_iff hex topics data),
    fun log i => not_congr (topicAddress_panic_iff log i)⟩

/-- A string whose length word is `2^64 - 1`. -/
def hugeString : List UInt8 := List.replicate 56 0 ++ List.replicate 8 0xff ++ List.replicate 32 0

/-- A topic of 64 bytes with a two-byte character at byte 23. -/
def accentedTopic : String := "0x" ++ .ofList (List.replicate 23 '0' ++ ['é'] ++ List.replicate 39 '0')

theorem strip0x_toList {text : String} {cs : List Char} (h : text.toList = '0' :: 'x' :: cs) :
    (strip0x text).toList = cs := by
  rw [strip0x, h]
  exact String.toList_ofList

theorem fromHex_hexDecode {text : String} {cs : List Char} {raw : List UInt8} (h : text.toList = '0' :: 'x' :: cs)
    (hraw : Dex.hexBytes? cs = some raw) : fromHex Dex.hexDecode text = .ok raw := by
  rw [fromHex, Dex.hexDecode, strip0x_toList h, hraw]
  rfl

theorem accentedTopic_toList : (strip0x accentedTopic).toList =
    List.replicate 23 '0' ++ ['é'] ++ List.replicate 39 '0' := by
  refine strip0x_toList ?_
  rw [accentedTopic, String.toList_append, String.toList_ofList]
  rfl

/-- Each reader panics on a reply a node can send, overflow checks or not. -/
theorem readers_panic :
    decodeString true hugeString = .panic ∧ decodeString false hugeString = .panic ∧
      decodeRevertReason Dex.hexDecode true ("0x08c379a0" ++ hex hugeString) = .panic ∧
      decodeRevertReason Dex.hexDecode false ("0x08c379a0" ++ hex hugeString) = .panic ∧
      decodeInitialize Dex.hexDecode ["0x", "0x", "0x", "0x"] "0x" = .panic ∧
      RpcLog.topicAddress ⟨"0x", [accentedTopic], "0x", 0⟩ 0 = .panic := by
  have hhuge : HugeLength hugeString := ⟨by decide +kernel, by decide +kernel, by decide +kernel⟩
  have hreason (checks : Bool) :
      decodeRevertReason Dex.hexDecode checks ("0x08c379a0" ++ hex hugeString) = .panic := by
    rw [decodeRevertReason_panic_iff]
    have htext : ("0x08c379a0" ++ hex hugeString).toList =
        '0' :: 'x' :: (['0', '8', 'c', '3', '7', '9', 'a', '0'] ++ hugeString.flatMap hexByte) := by
      rw [hex, String.toList_append, String.toList_ofList, String.toList_ofList, List.cons_append, List.cons_append]
    have hdrop : ([0x08, 0xc3, 0x79, 0xa0] ++ hugeString).drop 4 = hugeString := List.drop_left' rfl
    refine ⟨[0x08, 0xc3, 0x79, 0xa0] ++ hugeString, fromHex_hexDecode htext (by decide +kernel), rfl, ?_⟩
    rw [hdrop]
    exact hhuge
  refine ⟨(decodeString_panic_iff _ _).mpr hhuge, (decodeString_panic_iff _ _).mpr hhuge, hreason true, hreason false,
    ?_, ?_⟩
  · exact (decodeInitialize_panic_iff _ _ _).mpr ⟨"0x", "0x", rfl, rfl, .inl (by decide +kernel)⟩
  · refine (topicAddress_panic_iff _ _).mpr ⟨accentedTopic, rfl, ?_, ?_⟩
    · rw [accentedTopic_toList]
      decide +kernel
    · rw [CutTopic, accentedTopic_toList]
      decide +kernel

end Sherwood.Chain
