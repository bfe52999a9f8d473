/-
# The deepest pool of a pair, and its price

Pools are found in the logs of their creation, for a token and a currency in either order. Those
whose liquidity can be read are ranked by it, and the deepest is priced: its `Slot0` holds the root of
currency 1 per currency 0, which is inverted where the token is currency 1.

Which of the two it is, is a comparison of texts. The logs are asked for by the bytes of the address, in
any spelling, but a pool's currencies are spelled with `0x` (`findBestPool_currency0`). An address spelled
without one is the same pool's and never its currency 0 (`isCurrency0_iff`): the price is then not
inverted where it should be, or the reverse.

Key definitions: `getSlot0`, `discoverPoolsForPair`, `rankByLiquidity`, `findBestPool`, `quotePool`.
Key theorems: `findBestPool_currency0`, `findBestPool_congr`, `isCurrency0_iff`.
-/
import Mathlib.Data.List.Destutter
import Sherwood.Chain.PoolKey
import Sherwood.Chain.Price
import Sherwood.Chain.Probe
import Sherwood.Chain.Tokens

namespace Sherwood.Dex

deriving instance DecidableEq for PoolKey

end Sherwood.Dex

namespace Sherwood.Chain

open Dex (PoolKey)

variable (crates : Crates)

/-! ### `StateView` -/

structure Slot0 where
  sqrtPriceX96 : BitVec 128
  tick : Int32
  protocolFee : UInt32
  lpFee : UInt32

/-- A handle to the periphery contract. -/
structure StateView where
  address : String

/-- Bind to an address; its `to_lowercase`, for what is hex. -/
def StateView.new (address : String) : StateView := ⟨toAsciiLowercase address⟩

/-- `u32::try_from(v)`. -/
def u32TryFrom (v : BitVec 128) (e : ChainError) : Outcome ChainError UInt32 :=
  if v.toNat < 2 ^ 32 then .ok (.ofNat v.toNat) else .err e

def decodeSlot0 (ret : List UInt8) : Outcome ChainError Slot0 := do
  .reject (ret.length < 128) (.decode s!"getSlot0 returned {ret.length} bytes, expected 128")
  let sqrtPriceX96 ← decodeU128 (← slice ret 0 32)
  let tick ← decodeI32 (← slice ret 32 64)
  let protocolFee ← u32TryFrom (← decodeU128 (← slice ret 64 96)) (.decode "protocolFee out of range")
  let lpFee ← u32TryFrom (← decodeU128 (← slice ret 96 128)) (.decode "lpFee out of range")
  return { sqrtPriceX96, tick, protocolFee, lpFee }

def StateView.getSlot0 (view : StateView) (poolId : Vector UInt8 32) : Rpc Slot0 := do
  let ret ← call crates view.address (calldata crates "getSlot0(bytes32)" [poolId.toList])
  .done (decodeSlot0 ret)

def StateView.getLiquidity (view : StateView) (poolId : Vector UInt8 32) : Rpc (BitVec 128) := do
  let ret ← call crates view.address (calldata crates "getLiquidity(bytes32)" [poolId.toList])
  .done (decodeU128 ret)

/-! ### The pools of a pair -/

/-- The keys of the logs that are of a pool's creation. -/
def decodeAll : List RpcLog → Outcome ChainError (List PoolKey)
  | [] => .ok []
  | log :: logs =>
    match decodeInitialize crates.hexDecode log.topics log.data with
    | .ok key => do return key :: (← decodeAll logs)
    | .err _ => decodeAll logs
    | .panic => .panic

/-- The filter for pools of these two currencies, in this order. -/
def pairFilter (poolManager currency0 currency1 : String) (fromBlock toBlock : UInt64) : LogFilter where
  address := some (toAsciiLowercase poolManager)
  topics := [some initializeTopic, none, some currency0, some currency1]
  fromBlock
  toBlock

def discoverPoolsForPair (poolManager token denom : String) (fromBlock toBlock : UInt64) : Rpc (List PoolKey) := do
  let tokenTopic ← .done (.ofExcept (topicFromAddress crates.hexDecode token))
  let denomTopic ← .done (.ofExcept (topicFromAddress crates.hexDecode denom))
  let tokenIsC0 ← getLogs crates (pairFilter poolManager tokenTopic denomTopic fromBlock toBlock)
  let keys0 ← .done (decodeAll crates tokenIsC0)
  let tokenIsC1 ← getLogs crates (pairFilter poolManager denomTopic tokenTopic fromBlock toBlock)
  let keys1 ← .done (decodeAll crates tokenIsC1)
  return (keys0 ++ keys1).destutter (· ≠ ·)

structure RankedPool where
  key : PoolKey
  liquidity : BitVec 128

/-- The candidates whose liquidity is read and not zero. -/
def liquidPools (view : StateView) : List PoolKey → Rpc (List RankedPool)
  | [] => return []
  | key :: keys =>
    match key.poolId crates.hexDecode crates.keccak256 with
    | .error _ => liquidPools view keys
    | .ok id => do
      match ← (view.getLiquidity crates id).attempt with
      | .ok liquidity =>
        let rest ← liquidPools view keys
        return if liquidity.toNat > 0 then ⟨key, liquidity⟩ :: rest else rest
      | .error _ => liquidPools view keys

/-- Deepest first; pools of one depth stay in their order. -/
def rankByLiquidity (stateView : String) (candidates : List PoolKey) : Rpc (List RankedPool) := do
  let pools ← liquidPools crates (.new stateView) candidates
  return pools.mergeSort fun p q => q.liquidity.toNat ≤ p.liquidity.toNat

/-- The two contracts a price read needs. -/
structure Deployment where
  poolManager : String
  stateView : String

def findBestPool (deployment : Deployment) (token denom : String) (fromBlock toBlock : UInt64) : Rpc RankedPool := do
  let candidates ← discoverPoolsForPair crates deployment.poolManager token denom fromBlock toBlock
  if candidates = [] then .done (.err (.notFound s!"no {token}/{denom} pool found"))
  else do
    let ranked ← rankByLiquidity crates deployment.stateView candidates
    .done (.okOr ranked.head? (.notFound s!"no liquid {token}/{denom} pool found"))

/-! ### The price -/

/-- Decimals for the two sides of a price read. -/
structure Decimals where
  token : UInt8
  denominator : UInt8

def quotePool (stateView : String) (pool : PoolKey) (token : String) (decimals : Decimals) : Rpc ℚ := do
  let id ← .done (.ofExcept (pool.poolId crates.hexDecode crates.keccak256))
  let slot0 ← (StateView.new stateView).getSlot0 crates id
  let tokenIsCurrency0 := eqIgnoreAsciiCase pool.currency0 token
  let price1Per0 ← .done (priceFromSqrtPriceX96 slot0.sqrtPriceX96
    (if tokenIsCurrency0 then decimals.token else decimals.denominator)
    (if tokenIsCurrency0 then decimals.denominator else decimals.token))
  .done (orient tokenIsCurrency0 price1Per0)

/-! ### The currencies of a discovered pool -/

variable {crates} {node : Node} {key : PoolKey}

/-- A currency is cut out of a topic and spelled with `0x`. -/
theorem decodeInitialize_prefixed {decode : HexDecode} {topics : List String} {data : String}
    (h : decodeInitialize decode topics data = .ok key) : Prefixed key.currency0 := by
  rw [decodeInitialize] at h
  simp only [Outcome.bind_eq_ok, poolOf, Outcome.pure_eq_ok, Outcome.ok.injEq] at h
  obtain ⟨-, -, t2, -, currency0, -, t3, -, currency1, -, raw, -, -, -, -, -, fee, -, -, -, -, -, tick, -, -, -, hooks,
    -, rfl⟩ := h
  exact prefixed_append currency0

theorem decodeAll_prefixed {logs : List RpcLog} {keys : List PoolKey} (h : decodeAll crates logs = .ok keys)
    (hkey : key ∈ keys) : Prefixed key.currency0 := by
  induction logs generalizing keys with
  | nil =>
    obtain rfl := Outcome.ok.inj h
    cases hkey
  | cons log logs ih =>
    rw [decodeAll] at h
    cases hlog : decodeInitialize crates.hexDecode log.topics log.data with
    | ok first =>
      rw [hlog] at h
      obtain ⟨rest, hrest, hkeys⟩ := Outcome.bind_eq_ok.mp h
      obtain rfl := Outcome.ok.inj hkeys
      rcases List.mem_cons.mp hkey with rfl | hkey
      · exact decodeInitialize_prefixed hlog
      · exact ih hrest hkey
    | err e =>
      rw [hlog] at h
      exact ih h hkey
    | panic =>
      rw [hlog] at h
      cases h

theorem discoverPoolsForPair_ensures (poolManager token denom : String) (fromBlock toBlock : UInt64) :
    (discoverPoolsForPair crates poolManager token denom fromBlock toBlock).Ensures node
      fun keys => ∀ key ∈ keys, Prefixed key.currency0 := by
  have hdecoded (logs : List RpcLog) : (Dialogue.done (decodeAll crates logs) : Rpc _).Ensures node
      fun keys => ∀ key ∈ keys, Prefixed key.currency0 :=
    Dialogue.ensures_done fun keys hkeys key hkey => decodeAll_prefixed hkeys hkey
  refine Dialogue.ensures_bind fun tokenTopic => Dialogue.ensures_bind fun denomTopic =>
    Dialogue.ensures_bind fun logs0 => (hdecoded logs0).bind fun keys0 hkeys0 => Dialogue.ensures_bind fun logs1 =>
    (hdecoded logs1).bind fun keys1 hkeys1 => Dialogue.ensures_pure fun key hkey => ?_
  rcases List.mem_append.mp ((List.destutter_sublist (· ≠ ·) (keys0 ++ keys1)).subset hkey) with hkey | hkey
  · exact hkeys0 key hkey
  · exact hkeys1 key hkey

/-- A pool is ranked if it is a candidate with an id. -/
def Ranked (crates : Crates) (candidates : List PoolKey) (pool : RankedPool) : Prop :=
  pool.key ∈ candidates ∧ ∃ id, pool.key.poolId crates.hexDecode crates.keccak256 = .ok id

theorem liquidPools_ensures (view : StateView) (keys : List PoolKey) :
    (liquidPools crates view keys).Ensures node fun pools => ∀ pool ∈ pools, Ranked crates keys pool := by
  induction keys with
  | nil => exact Dialogue.ensures_pure (by simp)
  | cons key keys ih =>
    have hrest : (liquidPools crates view keys).Ensures node
        fun pools => ∀ pool ∈ pools, Ranked crates (key :: keys) pool :=
      fun asked asked' pools hrun pool hpool =>
        ⟨List.mem_cons_of_mem _ (ih _ _ _ hrun pool hpool).1, (ih _ _ _ hrun pool hpool).2⟩
    rw [liquidPools]
    cases hid : key.poolId crates.hexDecode crates.keccak256 with
    | error e => exact hrest
    | ok id =>
      refine Dialogue.ensures_bind fun liquidity => ?_
      cases liquidity with
      | error e => exact hrest
      | ok liquidity =>
        refine hrest.bind fun rest hrest => Dialogue.ensures_pure fun pool hpool => ?_
        split at hpool
        · rcases List.mem_cons.mp hpool with rfl | hpool
          · exact ⟨List.mem_cons_self, id, hid⟩
          · exact hrest pool hpool
        · exact hrest pool hpool

theorem isAddress_of_poolId {id : Vector UInt8 32} (h : key.poolId crates.hexDecode crates.keccak256 = .ok id) :
    ∃ raw0 raw1 rawHooks, IsAddress crates.hexDecode key.currency0 raw0 ∧
      IsAddress crates.hexDecode key.currency1 raw1 ∧ IsAddress crates.hexDecode key.hooks rawHooks := by
  rw [PoolKey.poolId] at h
  cases hpre : key.preimage crates.hexDecode with
  | error e =>
    rw [hpre] at h
    cases h
  | ok bytes =>
    obtain ⟨wa, wb, wh, hwa, hwb, hwh, -⟩ := PoolKey.preimage_eq_ok.mp hpre
    obtain ⟨raw0, h0, -⟩ := addressWord_eq_ok.mp hwa
    obtain ⟨raw1, h1, -⟩ := addressWord_eq_ok.mp hwb
    obtain ⟨rawHooks, hh, -⟩ := addressWord_eq_ok.mp hwh
    exact ⟨raw0, raw1, rawHooks, h0, h1, hh⟩

/-- **The currency of a pool.** The best pool's currency 0 is an address, spelled with `0x`. -/
theorem findBestPool_currency0 {deployment : Deployment} {token denom : String} {fromBlock toBlock : UInt64}
    {asked asked' : List Request} {best : RankedPool}
    (h : (findBestPool crates deployment token denom fromBlock toBlock).run node asked = (.ok best, asked')) :
    Prefixed best.key.currency0 ∧ ∃ raw, IsAddress crates.hexDecode best.key.currency0 raw := by
  have hensures : (findBestPool crates deployment token denom fromBlock toBlock).Ensures node fun best =>
      Prefixed best.key.currency0 ∧ ∃ raw, IsAddress crates.hexDecode best.key.currency0 raw := by
    refine (discoverPoolsForPair_ensures _ _ _ _ _).bind fun candidates hcandidates => ?_
    split
    · exact Dialogue.ensures_done fun best hbest => by cases hbest
    · have hranked : (rankByLiquidity crates deployment.stateView candidates).Ensures node
          fun ranked => ∀ pool ∈ ranked, Ranked crates candidates pool :=
        (liquidPools_ensures _ candidates).bind fun pools hpools =>
          Dialogue.ensures_pure fun pool hpool => hpools pool (List.mem_mergeSort.mp hpool)
      refine hranked.bind fun ranked hranked => Dialogue.ensures_done fun best hbest => ?_
      obtain ⟨hmem, id, hid⟩ := hranked best (List.mem_of_mem_head? (Outcome.okOr_eq_ok.mp hbest))
      obtain ⟨raw0, -, -, h0, -⟩ := isAddress_of_poolId hid
      exact ⟨hcandidates _ hmem, raw0, h0⟩
  exact hensures _ _ _ h

/-! ### Which currency the token is -/

theorem findBestPool_congr {token token' : String}
    (h : addressWord crates.hexDecode token = addressWord crates.hexDecode token') (deployment : Deployment)
    (denom : String) (fromBlock toBlock : UInt64) (asked asked' : List Request) (best : RankedPool) :
    (findBestPool crates deployment token denom fromBlock toBlock).run node asked = (.ok best, asked') ↔
      (findBestPool crates deployment token' denom fromBlock toBlock).run node asked = (.ok best, asked') := by
  have hdiscover : discoverPoolsForPair crates deployment.poolManager token denom fromBlock toBlock =
      discoverPoolsForPair crates deployment.poolManager token' denom fromBlock toBlock := by
    have htopic : topicFromAddress crates.hexDecode token = topicFromAddress crates.hexDecode token' :=
      congrArg (Except.map toHex) h
    rw [discoverPoolsForPair, discoverPoolsForPair, htopic]
  rw [findBestPool, findBestPool, hdiscover, Dialogue.run_bind_eq_ok, Dialogue.run_bind_eq_ok]
  refine exists_congr fun candidates => exists_congr fun mid => and_congr_right fun _ => ?_
  -- the errors name the token as it is spelled
  split
  · simp
  · rw [Dialogue.run_bind_done_eq_ok, Dialogue.run_bind_done_eq_ok]
    simp only [Outcome.okOr_eq_ok]

/-- The price depends on the token only by which currency it is. -/
theorem quotePool_congr {token token' : String}
    (h : eqIgnoreAsciiCase key.currency0 token = eqIgnoreAsciiCase key.currency0 token') (stateView : String)
    (decimals : Decimals) : quotePool crates stateView key token decimals =
      quotePool crates stateView key token' decimals := by
  rw [quotePool, quotePool, h]

/-- **What a quote is.** A price that is returned is that of a pool with an id, and not negative. -/
theorem quotePool_spec {stateView token : String} {decimals : Decimals} {asked asked' : List Request} {price : ℚ}
    (h : (quotePool crates stateView key token decimals).run node asked = (.ok price, asked')) :
    (∃ id, key.poolId crates.hexDecode crates.keccak256 = .ok id) ∧ 0 ≤ price := by
  simp only [quotePool, Dialogue.run_bind_eq_ok, Dialogue.run_done, Prod.mk.injEq, Outcome.ofExcept_eq_ok] at h
  obtain ⟨id, -, ⟨hid, -⟩, slot0, -, -, price1Per0, -, ⟨hprice, -⟩, horient, -⟩ := h
  exact ⟨⟨id, hid⟩, orient_nonneg (shiftedPrice_nonneg (shiftedPrice_of_price hprice)) horient⟩

section Orientation

variable (hdecode : ReadsHex crates.hexDecode)

include hdecode

/-- **Which currency.** A token is taken for currency 0 exactly if it is, and is spelled with a
prefix. -/
theorem isCurrency0_iff {currency0 token : String} {raw0 raw : List UInt8} (hpre : Prefixed currency0)
    (h0 : IsAddress crates.hexDecode currency0 raw0) (ht : IsAddress crates.hexDecode token raw) :
    eqIgnoreAsciiCase currency0 token = true ↔ raw = raw0 ∧ Prefixed token := by
  rw [eqIgnoreAsciiCase, decide_eq_true_iff, h0.toAsciiLowercase_eq hdecode hpre]
  by_cases hbare : Prefixed token
  · rw [ht.toAsciiLowercase_eq hdecode hbare, toHex, toHex]
    constructor
    · intro h
      have hhex : hex raw0 = hex raw := by
        rw [← String.toList_inj, String.toList_append, String.toList_append] at h
        exact String.toList_inj.mp (List.append_cancel_left h)
      exact ⟨(hex_injective hhex).symm, hbare⟩
    · rintro ⟨rfl, -⟩
      rfl
  · refine iff_of_false (fun h => ?_) fun h => hbare h.2
    rw [ht.toAsciiLowercase_bare hdecode hbare] at h
    have hlen := congrArg (fun text => text.toList.length) h
    simp only [toHex, String.toList_append, List.length_append, hex_length, h0.length, ht.length] at hlen
    exact absurd hlen (by decide)

end Orientation

end Sherwood.Chain
