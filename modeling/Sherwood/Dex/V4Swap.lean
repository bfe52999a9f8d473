/-
# The calldata of a swap

The `execute` call of the router for a swap of one pool, as `sherwood-dex`
builds it: a selector and three arguments, one of them an array with one
input, which holds the actions and their parameters.

Over it, what the router reads: `readExecute` decodes the arguments, the input
and the parameters of its three actions, with offsets relative to the tuple
they stand in and no read out of bounds. It recovers the swap and the deadline,
so two calls are the same only for the same swap (`executeCalldata_sound`).

Key definitions: `Dex.ExactInputSingleSwap.executeCalldata`, `Dex.readExecute`.
Key theorems: `Dex.readExecute_arguments`, `Dex.executeCalldata_sound`.
-/
import Sherwood.Dex.AbiDyn

namespace Sherwood.Dex

open Abi (Val Ty)
open Chain (HexDecode IsAddress)

structure PoolKey where
  currency0 : String
  currency1 : String
  fee : UInt32
  tickSpacing : Int32
  hooks : String

structure ExactInputSingleSwap where
  pool : PoolKey
  zeroForOne : Bool
  amountIn : BitVec 128
  amountOutMinimum : BitVec 128

inductive DexError
  | invalidSlippage (bps : UInt32)
  | overflow
  | chain (e : Chain.ChainError)

def cmdV4Swap : UInt8 := 0x10
def actionSwapExactInSingle : UInt8 := 0x06
def actionSettleAll : UInt8 := 0x0c
def actionTakeAll : UInt8 := 0x0f

/-- `selector` of `chain::keccak`, over the hash. -/
def selector (keccak256 : List UInt8 → Vector UInt8 32) (signature : String) : List UInt8 :=
  (keccak256 signature.toUTF8.toList).toList.take 4

namespace ExactInputSingleSwap

variable (hex : HexDecode) (s : ExactInputSingleSwap)

def tokenIn : String := if s.zeroForOne then s.pool.currency0 else s.pool.currency1

def tokenOut : String := if s.zeroForOne then s.pool.currency1 else s.pool.currency0

/-- `abi::address_word(..)?`. -/
def address (addr : String) : Except DexError (List UInt8) := (Chain.addressWord hex addr).mapError .chain

def exactInputSingleParamsBody : Except DexError (List UInt8) := do
  let currency0 ← address hex s.pool.currency0
  let currency1 ← address hex s.pool.currency1
  let hooks ← address hex s.pool.hooks
  return currency0 ++ currency1 ++ Chain.uintWord (.ofNat 128 s.pool.fee.toNat) ++
    Chain.intWord (s.pool.tickSpacing.toBitVec.signExtend 128) ++ hooks ++ wordBool s.zeroForOne ++
    wordUint s.amountIn ++ wordUint s.amountOutMinimum ++ wordUint 0 ++ wordUint (.ofNat 128 (10 * 32)) ++
    wordUint 0

def settleAllParams : Except DexError (List UInt8) := do
  return (← address hex s.tokenIn) ++ wordUint s.amountIn

def takeAllParams : Except DexError (List UInt8) := do
  return (← address hex s.tokenOut) ++ wordUint s.amountOutMinimum

def v4SwapInput : Except DexError (List UInt8) := do
  let actions := [actionSwapExactInSingle, actionSettleAll, actionTakeAll]
  let body ← s.exactInputSingleParamsBody hex
  let settle ← s.settleAllParams hex
  let take ← s.takeAllParams hex
  return encodeBytesAndBytesArray actions [encodeSingleDynamicStruct body, settle, take]

def executeCalldata (keccak256 : List UInt8 → Vector UInt8 32) (deadline : UInt64) :
    Except DexError (List UInt8) := do
  let commands := [cmdV4Swap]
  let inputs := [← s.v4SwapInput hex]
  let encCommands := encodeBytes commands
  let headAndTail := wordUint (.ofNat 128 (3 * 32)) ++ wordUint (.ofNat 128 (3 * 32 + encCommands.length)) ++
    wordUint (.ofNat 128 deadline.toNat) ++ encCommands ++ encodeBytesArray inputs
  return selector keccak256 "execute(bytes,bytes[],uint256)" ++ headAndTail

end ExactInputSingleSwap

/-! ## What the router reads -/

/-- A call, read: currencies and hooks as the numbers of their addresses. -/
@[ext] structure SwapCall where
  commands : List UInt8
  deadline : ℕ
  actions : List UInt8
  currency0 : ℕ
  currency1 : ℕ
  fee : ℕ
  tickSpacing : ℤ
  hooks : ℕ
  zeroForOne : ℕ
  amountIn : ℕ
  amountOutMinimum : ℕ
  minHopPriceX36 : ℕ
  hookData : List UInt8
  settle : ℕ × ℕ
  take : ℕ × ℕ
deriving DecidableEq

/-- The arguments of `execute(bytes,bytes[],uint256)`. -/
def executeTy : Ty := .tuple [.bytes, .array .bytes, .uint 256]

/-- The actions and their parameters. -/
def inputTy : Ty := .tuple [.bytes, .array .bytes]

def poolKeyTy : Ty := .tuple [.uint 160, .uint 160, .uint 24, .int 24, .uint 160]

/-- `ExactInputSingleParams`: pool key, direction, amounts, minimum hop price, hook data. -/
def swapParamsTy : Ty := .tuple [poolKeyTy, .uint 1, .uint 128, .uint 128, .uint 256, .bytes]

/-- A currency and an amount. -/
def currencyAmountTy : Ty := .tuple [.uint 160, .uint 256]

/-- The parameters of the three actions of a swap. -/
def readActions (actions : List UInt8) (params : List Val) : Option SwapCall :=
  match params with
  | [.bytes swap, .bytes settle, .bytes take] =>
    match Abi.decode (.tuple [swapParamsTy]) swap, Abi.decode currencyAmountTy settle,
      Abi.decode currencyAmountTy take with
    | some (.tuple [.tuple [.tuple [.uint _ currency0, .uint _ currency1, .uint _ fee, .int _ tickSpacing,
        .uint _ hooks], .uint _ zeroForOne, .uint _ amountIn, .uint _ amountOutMinimum,
        .uint _ minHopPriceX36, .bytes hookData]]),
      some (.tuple [.uint _ settleCurrency, .uint _ settleAmount]),
      some (.tuple [.uint _ takeCurrency, .uint _ takeAmount]) =>
      some {
        commands := [], deadline := 0, actions, currency0, currency1, fee, tickSpacing, hooks, zeroForOne,
        amountIn, amountOutMinimum, minHopPriceX36, hookData, settle := (settleCurrency, settleAmount),
        take := (takeCurrency, takeAmount) }
    | _, _, _ => none
  | _ => none

/-- The swap that the arguments of `execute` ask for. -/
def readExecute (args : List UInt8) : Option SwapCall :=
  match Abi.decode executeTy args with
  | some (.tuple [.bytes commands, .array _ [.bytes input], .uint _ deadline]) =>
    match Abi.decode inputTy input with
    | some (.tuple [.bytes actions, .array _ params]) =>
      (readActions actions params).map fun call => { call with commands, deadline }
    | _ => none
  | _ => none

/-! ## Round trip -/

def poolKeyVal (currency0 currency1 fee : ℕ) (tickSpacing : ℤ) (hooks : ℕ) : Val :=
  .tuple [.uint 160 currency0, .uint 160 currency1, .uint 24 fee, .int 24 tickSpacing, .uint 160 hooks]

/-- The structure by itself, as the one component of a tuple. -/
def swapParamsVal (poolKey : Val) (zeroForOne amountIn amountOutMinimum : ℕ) : Val :=
  .tuple [.tuple [poolKey, .uint 1 zeroForOne, .uint 128 amountIn, .uint 128 amountOutMinimum, .uint 256 0,
    .bytes []]]

def currencyAmountVal (currency amount : ℕ) : Val := .tuple [.uint 160 currency, .uint 256 amount]

def executeVal (input : List UInt8) (deadline : ℕ) : Val :=
  .tuple [.bytes [cmdV4Swap], .array .bytes (bytesVals [input]), .uint 256 deadline]

theorem poolKeyVal_encode (c0 c1 fee : ℕ) (tick : ℤ) (hooks : ℕ) : (poolKeyVal c0 c1 fee tick hooks).encode =
    Abi.word c0 ++ Abi.word c1 ++ Abi.word fee ++ Abi.word (tick % 2 ^ 256).toNat ++ Abi.word hooks := by
  simp [poolKeyVal, Val.encode, Abi.parts, Abi.layout, Abi.heads, Abi.tails, Val.ty, Ty.dynamic]

theorem swapParamsVal_encode {c0 c1 fee hooks : ℕ} {tick : ℤ} (z i o : ℕ) :
    (swapParamsVal (poolKeyVal c0 c1 fee tick hooks) z i o).encode =
      Abi.word 32 ++ ((poolKeyVal c0 c1 fee tick hooks).encode ++ Abi.word z ++ Abi.word i ++ Abi.word o ++
        Abi.word 0 ++ Abi.word (10 * 32) ++ Abi.word 0) := by
  have hty : (poolKeyVal c0 c1 fee tick hooks).ty.dynamic = false := rfl
  have hlen : (poolKeyVal c0 c1 fee tick hooks).encode.length = 160 := by
    simp [poolKeyVal_encode]
  simp [swapParamsVal, Val.encode, Abi.parts, Abi.layout, Abi.headLength, Abi.heads, Abi.tails, Val.ty,
    Ty.dynamic, Abi.tys, Abi.anyDynamic, hty, hlen, Abi.pad, Abi.padding]

theorem currencyAmountVal_encode (currency amount : ℕ) :
    (currencyAmountVal currency amount).encode = Abi.word currency ++ Abi.word amount := by
  simp [currencyAmountVal, Val.encode, Abi.parts, Abi.layout, Abi.heads, Abi.tails, Val.ty, Ty.dynamic]

theorem bytes_encode_length (bs : List UInt8) :
    (Val.bytes bs).encode.length = 32 + bs.length + Abi.padding bs.length := by
  simp [Val.encode, Abi.pad]
  omega

theorem padding_lt (n : ℕ) : Abi.padding n < 32 := Nat.mod_lt _ (by decide)

theorem bytesAndArray_length (a : List UInt8) (b : List (List UInt8)) :
    (bytesAndArray a b).encode.length =
      64 + (Val.bytes a).encode.length + (Val.array .bytes (bytesVals b)).encode.length := by
  simp [bytesAndArray, Val.encode, Abi.parts, Abi.layout, Abi.headLength, Abi.heads, Abi.tails, Val.ty,
    Ty.dynamic]
  omega

theorem bytesArray_length (b : List (List UInt8)) : (Val.array .bytes (bytesVals b)).encode.length =
    32 + b.length * 32 + (b.map fun bs => (Val.bytes bs).encode.length).sum := by
  rw [Val.encode, Abi.parts_eq_map, List.length_append, Abi.word_length, Abi.layout_length,
    headLength_bytesVals, tails_bytesVals, List.length_flatten, bytesVals, List.map_map, List.map_map,
    Nat.add_assoc]
  simp only [Function.comp_def]

/-- The call of an input: selector, offsets, deadline and the two tails. -/
theorem executeVal_encode (input : List UInt8) (deadline : ℕ) : (executeVal input deadline).encode =
    Abi.word 96 ++ Abi.word (96 + (Val.bytes [cmdV4Swap]).encode.length) ++ Abi.word deadline ++
      (Val.bytes [cmdV4Swap]).encode ++ (Val.array .bytes (bytesVals [input])).encode := by
  simp [executeVal, Val.encode, Abi.parts, Abi.layout, Abi.headLength, Abi.heads, Abi.tails, Val.ty,
    Ty.dynamic]

section Swap

variable {hex : HexDecode} {s : ExactInputSingleSwap} {c0 c1 hooks : List UInt8}
  (h0 : IsAddress hex s.pool.currency0 c0) (h1 : IsAddress hex s.pool.currency1 c1)
  (hh : IsAddress hex s.pool.hooks hooks)

include h0 h1 in
theorem tokenIn_isAddress : IsAddress hex s.tokenIn (if s.zeroForOne then c0 else c1) := by
  unfold ExactInputSingleSwap.tokenIn
  by_cases hz : s.zeroForOne
  · simpa only [hz, if_true] using h0
  · simpa only [hz, if_false, Bool.false_eq_true] using h1

include h0 h1 in
theorem tokenOut_isAddress : IsAddress hex s.tokenOut (if s.zeroForOne then c1 else c0) := by
  unfold ExactInputSingleSwap.tokenOut
  by_cases hz : s.zeroForOne
  · simpa only [hz, if_true] using h1
  · simpa only [hz, if_false, Bool.false_eq_true] using h0

theorem address_eq {addr : String} {raw : List UInt8} (h : IsAddress hex addr raw) :
    ExactInputSingleSwap.address hex addr = .ok (Abi.word (BigEndian.value raw)) := by
  rw [ExactInputSingleSwap.address, Chain.addressWord_eq h]
  rfl

/-- The parameters of the swap, by what they say. -/
def swapVal (s : ExactInputSingleSwap) (c0 c1 hooks : List UInt8) : Val :=
  swapParamsVal (poolKeyVal (BigEndian.value c0) (BigEndian.value c1) s.pool.fee.toNat
    s.pool.tickSpacing.toInt (BigEndian.value hooks)) (if s.zeroForOne then 1 else 0) s.amountIn.toNat
    s.amountOutMinimum.toNat

/-- The parameters of the three actions. -/
def actionParams (s : ExactInputSingleSwap) (c0 c1 hooks : List UInt8) : List (List UInt8) :=
  [(swapVal s c0 c1 hooks).encode,
    (currencyAmountVal (BigEndian.value (if s.zeroForOne then c0 else c1)) s.amountIn.toNat).encode,
    (currencyAmountVal (BigEndian.value (if s.zeroForOne then c1 else c0)) s.amountOutMinimum.toNat).encode]

def swapActions : List UInt8 := [actionSwapExactInSingle, actionSettleAll, actionTakeAll]

/-- The input of the call, by what it says. -/
def swapInput (s : ExactInputSingleSwap) (c0 c1 hooks : List UInt8) : List UInt8 :=
  (bytesAndArray swapActions (actionParams s c0 c1 hooks)).encode

variable (s c0 c1 hooks) in
theorem swapInput_length : (swapInput s c0 c1 hooks).length < 2000 := by
  have hpad := padding_lt
  rw [swapInput, bytesAndArray_length, bytesArray_length]
  simp only [actionParams, List.map_cons, List.map_nil, List.sum_cons, List.sum_nil, bytes_encode_length,
    swapVal, swapParamsVal_encode, poolKeyVal_encode, currencyAmountVal_encode, List.length_append, Abi.word_length,
    swapActions, List.length_cons, List.length_nil]
  have hactions := hpad (0 + 1 + 1 + 1)
  have hswap := hpad (32 + (32 + 32 + 32 + 32 + 32 + 32 + 32 + 32 + 32 + 32 + 32))
  have hamount := hpad (32 + 32)
  omega

include h0 h1 hh in
theorem body_eq : ∃ body, s.exactInputSingleParamsBody hex = .ok body ∧
    encodeSingleDynamicStruct body = (swapVal s c0 c1 hooks).encode := by
  have hfee : Chain.uintWord (.ofNat 128 s.pool.fee.toNat) = Abi.word s.pool.fee.toNat := by
    have := s.pool.fee.toNat_lt
    exact wordUint_ofNat (by omega)
  have htick : Chain.intWord (s.pool.tickSpacing.toBitVec.signExtend 128) =
      Abi.word (s.pool.tickSpacing.toInt % 2 ^ 256).toNat := by
    rw [Chain.intWord_eq, BitVec.toInt_signExtend_of_le (by decide)]
    rfl
  refine ⟨_, by rw [ExactInputSingleSwap.exactInputSingleParamsBody, address_eq h0, address_eq h1,
    address_eq hh]; rfl, ?_⟩
  rw [encodeSingleDynamicStruct, swapVal, swapParamsVal_encode, poolKeyVal_encode, hfee, htick, wordBool_eq]
  simp only [wordUint_eq]
  rfl

include h0 h1 hh in
theorem v4SwapInput_eq : s.v4SwapInput hex = .ok (swapInput s c0 c1 hooks) := by
  obtain ⟨body, hbody, hstruct⟩ := body_eq h0 h1 hh
  have hsettle : s.settleAllParams hex = .ok (currencyAmountVal
      (BigEndian.value (if s.zeroForOne then c0 else c1)) s.amountIn.toNat).encode := by
    rw [ExactInputSingleSwap.settleAllParams, address_eq (tokenIn_isAddress h0 h1), wordUint_eq,
      currencyAmountVal_encode]
    rfl
  have htake : s.takeAllParams hex = .ok (currencyAmountVal
      (BigEndian.value (if s.zeroForOne then c1 else c0)) s.amountOutMinimum.toNat).encode := by
    rw [ExactInputSingleSwap.takeAllParams, address_eq (tokenOut_isAddress h0 h1), wordUint_eq,
      currencyAmountVal_encode]
    rfl
  have hlen := swapInput_length s c0 c1 hooks
  have hpair := encodeBytesAndBytesArray_eq (a := swapActions) (b := actionParams s c0 c1 hooks)
    (by rw [← swapInput]; omega)
  rw [ExactInputSingleSwap.v4SwapInput, hbody, hsettle, htake, swapInput, ← hpair, actionParams, ← hstruct]
  rfl

include h0 h1 hh in
theorem executeCalldata_eq (keccak256 : List UInt8 → Vector UInt8 32) (deadline : UInt64) :
    s.executeCalldata hex keccak256 deadline = .ok (selector keccak256 "execute(bytes,bytes[],uint256)" ++
      (executeVal (swapInput s c0 c1 hooks) deadline.toNat).encode) := by
  have hlen := swapInput_length s c0 c1 hooks
  have hdeadline := deadline.toNat_lt
  have hcommand : (Val.bytes [cmdV4Swap]).encode.length = 64 := by rw [bytes_encode_length]; rfl
  have hpad := padding_lt (swapInput s c0 c1 hooks).length
  have harray := @encodeBytesArray_eq [swapInput s c0 c1 hooks] (by
    rw [bytesArray_length]
    simp only [List.map_cons, List.map_nil, List.sum_cons, List.sum_nil, bytes_encode_length,
      List.length_cons, List.length_nil]
    omega)
  have hsecond : wordUint (.ofNat 128 (3 * 32 + (encodeBytes [cmdV4Swap]).length)) =
      Abi.word (96 + (Val.bytes [cmdV4Swap]).encode.length) := by
    rw [encodeBytes_eq (by decide), wordUint_ofNat (by omega)]
  have hthird : wordUint (.ofNat 128 deadline.toNat) = Abi.word deadline.toNat := wordUint_ofNat (by omega)
  rw [executeVal_encode, ← harray, ← hsecond, ← hthird, ← encodeBytes_eq (by decide),
    ExactInputSingleSwap.executeCalldata, v4SwapInput_eq h0 h1 hh]
  rfl

/-- What the call says, the addresses by their bytes. -/
def callOf (s : ExactInputSingleSwap) (c0 c1 hooks : List UInt8) (deadline : UInt64) : SwapCall where
  commands := [cmdV4Swap]
  deadline := deadline.toNat
  actions := [actionSwapExactInSingle, actionSettleAll, actionTakeAll]
  currency0 := BigEndian.value c0
  currency1 := BigEndian.value c1
  fee := s.pool.fee.toNat
  tickSpacing := s.pool.tickSpacing.toInt
  hooks := BigEndian.value hooks
  zeroForOne := if s.zeroForOne then 1 else 0
  amountIn := s.amountIn.toNat
  amountOutMinimum := s.amountOutMinimum.toNat
  minHopPriceX36 := 0
  hookData := []
  settle := (BigEndian.value (if s.zeroForOne then c0 else c1), s.amountIn.toNat)
  take := (BigEndian.value (if s.zeroForOne then c1 else c0), s.amountOutMinimum.toNat)

theorem currencyAmount_reads {currency : ℕ} (hc : currency < 2 ^ 160) (amount : BitVec 128) :
    Abi.decode currencyAmountTy (currencyAmountVal currency amount.toNat).encode =
      some (currencyAmountVal currency amount.toNat) := by
  have hamount := amount.isLt
  have hwf : (currencyAmountVal currency amount.toNat).WellFormed :=
    ⟨⟨by omega, hc⟩, ⟨by omega, by omega⟩, trivial⟩
  exact Abi.decode_encode_self rfl hwf (by simp [currencyAmountVal_encode])

variable (hfee : s.pool.fee.toNat < 2 ^ 24)
  (htick : -2 ^ 23 ≤ s.pool.tickSpacing.toInt ∧ s.pool.tickSpacing.toInt < 2 ^ 23)

include h0 h1 hh hfee htick in
theorem swapVal_wellFormed : (swapVal s c0 c1 hooks).WellFormed := by
  have hin := s.amountIn.isLt
  have hout := s.amountOutMinimum.isLt
  have hbool : (if s.zeroForOne then 1 else 0) < 2 ^ 1 := by split <;> decide
  have hkey : (poolKeyVal (BigEndian.value c0) (BigEndian.value c1) s.pool.fee.toNat
      s.pool.tickSpacing.toInt (BigEndian.value hooks)).WellFormed :=
    ⟨⟨by omega, h0.lt⟩, ⟨by omega, h1.lt⟩, ⟨by omega, hfee⟩, ⟨by omega, by omega, by simpa using htick⟩,
      ⟨by omega, hh.lt⟩, trivial⟩
  exact ⟨⟨hkey, ⟨by omega, hbool⟩, ⟨by omega, hin⟩, ⟨by omega, hout⟩, ⟨by omega, by omega⟩, trivial, trivial⟩,
    trivial⟩

include h0 h1 hh hfee htick in
theorem swapVal_reads : Abi.decode (.tuple [swapParamsTy]) (swapVal s c0 c1 hooks).encode =
    some (swapVal s c0 c1 hooks) := by
  have hlen : (swapVal s c0 c1 hooks).encode.length < 2 ^ 256 := by
    simp [swapVal, swapParamsVal_encode, poolKeyVal_encode]
  exact Abi.decode_encode_self rfl (swapVal_wellFormed h0 h1 hh hfee htick) hlen

include h0 h1 hh hfee htick in
theorem readActions_eq : readActions swapActions (bytesVals (actionParams s c0 c1 hooks)) =
    some { callOf s c0 c1 hooks 0 with commands := [], deadline := 0 } := by
  have hswap := swapVal_reads h0 h1 hh hfee htick
  have hsettle := currencyAmount_reads (tokenIn_isAddress h0 h1).lt s.amountIn
  have htake := currencyAmount_reads (tokenOut_isAddress h0 h1).lt s.amountOutMinimum
  simp only [readActions, bytesVals, actionParams, List.map_cons, List.map_nil]
  rw [hswap, hsettle, htake]
  rfl

theorem bytesVals_wellFormed (items : List (List UInt8)) : Abi.AllWellFormed (bytesVals items) := by
  induction items with
  | nil => trivial
  | cons data items ih => exact ⟨trivial, ih⟩

theorem bytesArray_wellFormed {items : List (List UInt8)} (h : items.length < 2 ^ 256) :
    (Val.array .bytes (bytesVals items)).WellFormed := by
  refine ⟨by simpa [bytesVals] using h, fun v hv => ?_, bytesVals_wellFormed items⟩
  obtain ⟨data, -, rfl⟩ := List.mem_map.mp hv
  rfl

variable (s c0 c1 hooks) in
theorem swapInput_reads : Abi.decode inputTy (swapInput s c0 c1 hooks) =
    some (bytesAndArray swapActions (actionParams s c0 c1 hooks)) := by
  have hlen := swapInput_length s c0 c1 hooks
  have harray := @bytesArray_wellFormed (actionParams s c0 c1 hooks) (by simp [actionParams])
  exact Abi.decode_encode_self (v := bytesAndArray swapActions (actionParams s c0 c1 hooks)) rfl
    ⟨trivial, harray, trivial⟩ (by rw [← swapInput]; omega)

variable (s c0 c1 hooks) in
theorem executeVal_reads (deadline : UInt64) :
    Abi.decode executeTy (executeVal (swapInput s c0 c1 hooks) deadline.toNat).encode =
      some (executeVal (swapInput s c0 c1 hooks) deadline.toNat) := by
  have hlen := swapInput_length s c0 c1 hooks
  have hpad := padding_lt (swapInput s c0 c1 hooks).length
  have hpad1 := padding_lt [cmdV4Swap].length
  have hdeadline := deadline.toNat_lt
  have harray := @bytesArray_wellFormed [swapInput s c0 c1 hooks] (by simp)
  refine Abi.decode_encode_self (v := executeVal _ _) rfl ⟨trivial, harray, ⟨by omega, by omega⟩, trivial⟩ ?_
  simp only [executeVal_encode, bytesArray_length, List.map_cons, List.map_nil, List.sum_cons, List.sum_nil,
    bytes_encode_length, List.length_append, Abi.word_length, List.length_cons, List.length_nil] at hpad1 ⊢
  omega

include h0 h1 hh hfee htick in
theorem readExecute_arguments (deadline : UInt64) :
    readExecute (executeVal (swapInput s c0 c1 hooks) deadline.toNat).encode =
      some (callOf s c0 c1 hooks deadline) := by
  have hexec := executeVal_reads s c0 c1 hooks deadline
  have hinput := swapInput_reads s c0 c1 hooks
  have hactions := readActions_eq h0 h1 hh hfee htick
  rw [readExecute, hexec]
  simp only [executeVal, bytesVals, List.map_cons, List.map_nil]
  rw [hinput]
  simp only [bytesAndArray, hactions]
  rfl

end Swap

/-- The swap's addresses are the hex of these bytes, and its fee and tick
spacing are in the ranges of `uint24` and `int24`. -/
structure ExactInputSingleSwap.Valid (hex : HexDecode) (s : ExactInputSingleSwap)
    (c0 c1 hooks : List UInt8) : Prop where
  currency0 : IsAddress hex s.pool.currency0 c0
  currency1 : IsAddress hex s.pool.currency1 c1
  hooks : IsAddress hex s.pool.hooks hooks
  fee : s.pool.fee.toNat < 2 ^ 24
  tickSpacing : -2 ^ 23 ≤ s.pool.tickSpacing.toInt ∧ s.pool.tickSpacing.toInt < 2 ^ 23

theorem value_injective {as bs : List UInt8} (hlen : as.length = bs.length)
    (h : BigEndian.value as = BigEndian.value bs) : as = bs := by
  rw [← BigEndian.bytes_value as, ← BigEndian.bytes_value bs, hlen, h]

theorem callOf_injective {hex hex' : HexDecode} {s s' : ExactInputSingleSwap}
    {c0 c1 hooks c0' c1' hooks' : List UInt8} {deadline deadline' : UInt64}
    (hs : s.Valid hex c0 c1 hooks) (hs' : s'.Valid hex' c0' c1' hooks')
    (h : callOf s c0 c1 hooks deadline = callOf s' c0' c1' hooks' deadline') :
    c0 = c0' ∧ c1 = c1' ∧ hooks = hooks' ∧ s.pool.fee = s'.pool.fee ∧
      s.pool.tickSpacing = s'.pool.tickSpacing ∧ s.zeroForOne = s'.zeroForOne ∧
      s.amountIn = s'.amountIn ∧ s.amountOutMinimum = s'.amountOutMinimum ∧ deadline = deadline' := by
  simp only [callOf, SwapCall.mk.injEq, true_and] at h
  obtain ⟨hdeadline, h0, h1, hfee, htick, hh, hdir, hin, hout, -⟩ := h
  refine ⟨value_injective ?_ h0, value_injective ?_ h1, value_injective ?_ hh, UInt32.toNat_inj.mp hfee,
    Int32.toInt_inj.mp htick, ?_, BitVec.eq_of_toNat_eq hin, BitVec.eq_of_toNat_eq hout,
    UInt64.toNat_inj.mp hdeadline⟩
  · rw [hs.currency0.length, hs'.currency0.length]
  · rw [hs.currency1.length, hs'.currency1.length]
  · rw [hs.hooks.length, hs'.hooks.length]
  · revert hdir
    cases s.zeroForOne <;> cases s'.zeroForOne <;> decide

theorem readExecute_executeCalldata {hex : HexDecode} {s : ExactInputSingleSwap} {c0 c1 hooks : List UInt8}
    (hs : s.Valid hex c0 c1 hooks) (keccak256 : List UInt8 → Vector UInt8 32) (deadline : UInt64) :
    ∃ calldata, s.executeCalldata hex keccak256 deadline = .ok calldata ∧
      calldata.take 4 = selector keccak256 "execute(bytes,bytes[],uint256)" ∧
      readExecute (calldata.drop 4) = some (callOf s c0 c1 hooks deadline) := by
  have hfour : (selector keccak256 "execute(bytes,bytes[],uint256)").length = 4 := by simp [selector]
  refine ⟨_, executeCalldata_eq hs.currency0 hs.currency1 hs.hooks keccak256 deadline, List.take_left' hfour, ?_⟩
  rw [List.drop_left' hfour]
  exact readExecute_arguments hs.currency0 hs.currency1 hs.hooks hs.fee hs.tickSpacing deadline

/-- **Calldata says what the swap says.** After the selector, the arguments are
read as the one command, the deadline, the three actions and their parameters:
the pool key, direction and amounts of the swap, what is settled in the token
spent and what is taken in the token received. So calldata determines these. -/
theorem executeCalldata_sound (hex : HexDecode) (keccak256 : List UInt8 → Vector UInt8 32)
    (s : ExactInputSingleSwap) (deadline : UInt64) {c0 c1 hooks : List UInt8}
    (hs : s.Valid hex c0 c1 hooks) :
    (∃ calldata, s.executeCalldata hex keccak256 deadline = .ok calldata ∧
      calldata.take 4 = selector keccak256 "execute(bytes,bytes[],uint256)" ∧
      readExecute (calldata.drop 4) = some (callOf s c0 c1 hooks deadline)) ∧
    ∀ (s' : ExactInputSingleSwap) (deadline' : UInt64) (c0' c1' hooks' : List UInt8),
      s'.Valid hex c0' c1' hooks' →
      s'.executeCalldata hex keccak256 deadline' = s.executeCalldata hex keccak256 deadline →
      c0 = c0' ∧ c1 = c1' ∧ hooks = hooks' ∧ s.pool.fee = s'.pool.fee ∧
        s.pool.tickSpacing = s'.pool.tickSpacing ∧ s.zeroForOne = s'.zeroForOne ∧
        s.amountIn = s'.amountIn ∧ s.amountOutMinimum = s'.amountOutMinimum ∧ deadline = deadline' := by
  obtain ⟨calldata, hdata, hselector, hread⟩ := readExecute_executeCalldata hs keccak256 deadline
  refine ⟨⟨calldata, hdata, hselector, hread⟩, ?_⟩
  intro s' deadline' c0' c1' hooks' hs' heq
  obtain ⟨calldata', hdata', -, hread'⟩ := readExecute_executeCalldata hs' keccak256 deadline'
  obtain rfl : calldata' = calldata := Except.ok.inj (hdata'.symm.trans (heq.trans hdata))
  exact callOf_injective hs hs' (Option.some.inj (hread.symm.trans hread'))

/-- The value of a hex digit. -/
def hexDigit? (c : Char) : Option ℕ :=
  if '0' ≤ c ∧ c ≤ '9' then some (c.toNat - 48)
  else if 'a' ≤ c ∧ c ≤ 'f' then some (c.toNat - 87)
  else if 'A' ≤ c ∧ c ≤ 'F' then some (c.toNat - 55)
  else none

/-- Pairs of hex digits, as bytes. -/
def hexBytes? : List Char → Option (List UInt8)
  | [] => some []
  | [_] => none
  | c :: d :: cs => (hexDigit? c).bind fun hi => (hexDigit? d).bind fun lo =>
      (hexBytes? cs).map (.ofNat (16 * hi + lo) :: ·)

/-- USDG for NVDA, the pool of the crate's tests. -/
def usdgForNvda : ExactInputSingleSwap where
  pool := {
    currency0 := "0x5fc5360d0400a0fd4f2af552add042d716f1d168"
    currency1 := "0xd0601ce157db5bdc3162bbac2a2c8af5320d9eec"
    fee := 3000
    tickSpacing := 60
    hooks := "0x0000000000000000000000000000000000000000" }
  zeroForOne := true
  amountIn := 200000000
  amountOutMinimum := 900000000000000000

/-- Hex as the crate reads it, up to the error's text. -/
def hexDecode : HexDecode := fun text => (hexBytes? text.toList).elim (.error "not hex") .ok

/-- The hash of the text of the signature. -/
def executeHash : Vector UInt8 32 :=
  #v[0x35, 0x93, 0x56, 0x4c, 0x0e, 0x03, 0x85, 0x48, 0x74, 0x91, 0x50, 0x63, 0x08, 0x1d, 0x27, 0x4d, 0x42,
    0xc1, 0x2a, 0x43, 0x4f, 0x54, 0x08, 0x44, 0x0e, 0x6c, 0x17, 0xba, 0xe3, 0x54, 0xee, 0x79]

theorem executeCalldata_sound_usdgForNvda :
    ∃ calldata, usdgForNvda.executeCalldata hexDecode (fun _ => executeHash) 1700000000 = .ok calldata ∧
      calldata.take 4 = [0x35, 0x93, 0x56, 0x4c] ∧
      (readExecute (calldata.drop 4)).map (fun call => (call.fee, call.settle.2, call.take.2)) =
        some (3000, 200000000, 900000000000000000) := by
  have hvalid : usdgForNvda.Valid hexDecode
      [0x5f, 0xc5, 0x36, 0x0d, 0x04, 0x00, 0xa0, 0xfd, 0x4f, 0x2a, 0xf5, 0x52, 0xad, 0xd0, 0x42, 0xd7, 0x16, 0xf1,
        0xd1, 0x68]
      [0xd0, 0x60, 0x1c, 0xe1, 0x57, 0xdb, 0x5b, 0xdc, 0x31, 0x62, 0xbb, 0xac, 0x2a, 0x2c, 0x8a, 0xf5, 0x32, 0x0d,
        0x9e, 0xec]
      (List.replicate 20 0) :=
    ⟨⟨by decide, rfl⟩, ⟨by decide, rfl⟩, ⟨by decide, rfl⟩, by decide, by decide⟩
  obtain ⟨calldata, hdata, hselector, hread⟩ := (executeCalldata_sound hexDecode (fun _ => executeHash)
    usdgForNvda 1700000000 hvalid).1
  exact ⟨calldata, hdata, by rw [hselector]; rfl, by rw [hread]; rfl⟩

end Sherwood.Dex
