/-
# The preview of a swap

`dex_preview::build` finds the deepest pool of two tokens, quotes it, and builds the calldata of a swap
that gives the token up: from currency 0 if the token is the pool's, from currency 1 if not. How little may
come out is what the quote promises less the slippage.

Quote and direction ask for the same thing, whether the token is currency 0, and both compare texts. A pool is
found by any spelling of an address and its currencies are spelled with `0x`, so currency 0 spelled without it is
taken for currency 1: the price is inverted and the swap goes the wrong way. Every other
spelling is read right (`orientation_iff`, `bare_spelling_inverts`).

Key definitions: `amountOutMinimum`, `build`, `zeroForOne`, `SpellingFree`.
Key theorems: `build_swap`, `orientation_iff`.
-/
import Sherwood.Chain.Logs
import Sherwood.Chain.Univ4

namespace Sherwood

open Chain Dex

/-! ### Bounds -/

/-- `Display` of an error. -/
def Dex.DexError.text : DexError → String
  | .invalidSlippage bps => s!"slippage_bps must be < 10_000, got {bps.toNat}"
  | .overflow => "amount overflow"
  | .chain e => e.text

def amountOutMinimum (expectedAmountOut : BitVec 128) (slippageBps : UInt32) : Except DexError (BitVec 128) := do
  if slippageBps ≥ 10000 then throw (.invalidSlippage slippageBps)
  let keep := (10000 - slippageBps).toNat
  if expectedAmountOut.toNat * keep ≥ 2 ^ 128 then throw .overflow
  return .ofNat 128 (expectedAmountOut.toNat * keep / 10000)

/-- A deadline so many seconds from `now`, both in seconds since the epoch. -/
def deadlineFromNow (now secondsFromNow : UInt64) : UInt64 :=
  if now.toNat + secondsFromNow.toNat < 2 ^ 64 then now + secondsFromNow else .ofNat (2 ^ 64 - 1)

/-- `10u128.pow(exp)`. -/
def u128Pow10 {ε : Type} (checks : Bool) (exp : UInt8) : Outcome ε ℕ :=
  if 10 ^ exp.toNat < 2 ^ 128 then .ok (10 ^ exp.toNat)
  else if checks then .panic else .ok (10 ^ exp.toNat % 2 ^ 128)

/-- `Decimal::from` of a `u128`. -/
def Decimal.fromU128 {ε : Type} (v : ℕ) : Outcome ε ℚ := if (v : ℤ) ≤ maxMantissa then .ok v else .panic

/-- `u128::try_from` of a `Decimal`: its whole part. -/
def Decimal.toU128 (d : ℚ) : Option (BitVec 128) := if 0 ≤ d then some (.ofNat 128 ⌊d⌋₊) else none

namespace DexPreview

/-- A built swap, and what `dex-simulate` prints of it. -/
structure Preview where
  head : UInt64
  tokenSymbol : String
  denomSymbol : String
  poolFee : UInt32
  poolTickSpacing : Int32
  poolLiquidity : BitVec 128
  amountIn : BitVec 128
  amountOutMinimum : BitVec 128
  slippageBps : UInt32
  calldata : List UInt8

/-- A program that asks a node; its error is the text of one and of what led to it. -/
abbrev Task (α : Type) := Dialogue Request (Outcome ChainError Json) String α

/-- `context` of a read. -/
def context {α : Type} (text : String) (x : Rpc α) : Task α := x.mapErr fun e => s!"{text}: {e.text}"

/-- The pool's currency 0 is given up for its currency 1. -/
def zeroForOne (pool : PoolKey) (tokenAddr : String) : Bool := eqIgnoreAsciiCase pool.currency0 tokenAddr

/-- What the price promises for an amount, in base units; `unfit` is the text of a conversion that
fails. -/
def expectedOutRaw (checks : Bool) (unfit : String) (amountIn : BitVec 128) (tokenDec denomDec : UInt8)
    (spotPrice : ℚ) : Outcome String (BitVec 128) := do
  let scale ← u128Pow10 checks denomDec
  let amount ← Arith.dec96.div (← Decimal.fromU128 amountIn.toNat) (← Decimal.fromU128 (← u128Pow10 checks tokenDec))
  let expectedOutHuman ← Arith.dec96.mul amount spotPrice
  let scaled ← Arith.dec96.mul expectedOutHuman (← Decimal.fromU128 scale)
  .okOr (Decimal.toU128 scaled) s!"expected output does not fit u128: {unfit}"

variable (crates : Crates) (unfit : String) (now : UInt64)

/-- Find the pool, quote it, and build the swap. `now` is the clock when the reads are done. -/
def build (tokenArg : String) (amountIn : BitVec 128) (denomArg : String) (slippageBps : UInt32) : Task Preview := do
  let token := resolve tokenArg
  let denom := resolve denomArg
  let head ← context "connecting to the RPC" (blockNumber crates)
  let best ← context s!"finding a {token.symbol}/{denom.symbol} pool"
    (findBestPool crates ⟨poolManager, stateView⟩ token.address denom.address 0 head)
  let spotPrice ← context "reading the spot price"
    (quotePool crates stateView best.key token.address ⟨token.decimals, denom.decimals⟩)
  let expected ← .done (expectedOutRaw crates.checks unfit amountIn token.decimals denom.decimals spotPrice)
  let amountOutMinimum ← .done (.ofExcept ((amountOutMinimum expected slippageBps).mapError DexError.text))
  let swap : ExactInputSingleSwap := ⟨best.key, zeroForOne best.key token.address, amountIn, amountOutMinimum⟩
  let calldata ← .done (.ofExcept
    ((swap.executeCalldata crates.hexDecode crates.keccak256 (deadlineFromNow now 1800)).mapError DexError.text))
  return {
    head, tokenSymbol := token.symbol, denomSymbol := denom.symbol, poolFee := swap.pool.fee,
    poolTickSpacing := swap.pool.tickSpacing, poolLiquidity := best.liquidity, amountIn, amountOutMinimum,
    slippageBps, calldata }

variable {crates unfit now} {node : Node}

theorem run_context_eq_ok {α : Type} {text : String} {x : Rpc α} {asked asked' : List Request} {a : α} :
    (context text x).run node asked = (.ok a, asked') ↔ x.run node asked = (.ok a, asked') :=
  Dialogue.run_mapErr_eq_ok

/-- **The swap of a preview.** The calldata is that of a swap of the best pool, in the direction of the
resolved token. -/
theorem build_swap {tokenArg denomArg : String} {amountIn : BitVec 128} {slippageBps : UInt32} {preview : Preview}
    {asked asked' : List Request}
    (h : (build crates unfit now tokenArg amountIn denomArg slippageBps).run node asked = (.ok preview, asked')) :
    ∃ best asked₁ asked₂, (findBestPool crates ⟨poolManager, stateView⟩ (resolve tokenArg).address
        (resolve denomArg).address 0 preview.head).run node asked₁ = (.ok best, asked₂) ∧
      (ExactInputSingleSwap.mk best.key (zeroForOne best.key (resolve tokenArg).address) amountIn
        preview.amountOutMinimum).executeCalldata crates.hexDecode crates.keccak256 (deadlineFromNow now 1800) =
          .ok preview.calldata := by
  simp only [build, Dialogue.run_bind_eq_ok, run_context_eq_ok, Dialogue.run_done, Prod.mk.injEq,
    Outcome.ofExcept_mapError_eq_ok, Dialogue.run_pure, Outcome.ok.injEq] at h
  obtain ⟨head, asked₁, -, best, asked₂, hbest, spotPrice, -, -, expected, -, -, minimum, -, -, data, -, ⟨hdata, -⟩,
    rfl, -⟩ := h
  exact ⟨best, asked₁, asked₂, hbest, hdata⟩

/-! ### Spellings of the token -/

/-- Price and direction are one for two spellings of a token, and the direction is right: currency 0
is given up exactly if it is the token. -/
structure SpellingFree (crates : Crates) (pool : PoolKey) (t1 t2 : String) (word : List UInt8) : Prop where
  price : ∀ (node : Node) (stateView : String) (decimals : Decimals) (asked : List Request),
    (quotePool crates stateView pool t1 decimals).run node asked =
      (quotePool crates stateView pool t2 decimals).run node asked
  direction : ∀ t, t = t1 ∨ t = t2 →
    (zeroForOne pool (resolve t).address = true ↔ addressWord crates.hexDecode pool.currency0 = .ok word)

section Orientation

variable (hdecode : ReadsHex crates.hexDecode)

include hdecode

/-- A token is given up as currency 0 exactly if it is, and is spelled with a prefix. -/
theorem zeroForOne_iff {pool : PoolKey} {raw0 : List UInt8} (hpre : Prefixed pool.currency0)
    (h0 : IsAddress crates.hexDecode pool.currency0 raw0) {t : String} {word : List UInt8}
    (ht : addressWord crates.hexDecode t = .ok word) : zeroForOne pool (resolve t).address = true ↔
      addressWord crates.hexDecode pool.currency0 = .ok word ∧ Prefixed t := by
  obtain ⟨raw, hraw, rfl⟩ := addressWord_eq_ok.mp ht
  rw [resolve_of_isAddress hdecode hraw, zeroForOne, isCurrency0_iff hdecode hpre h0 hraw]
  refine and_congr_left fun _ => ?_
  constructor
  · rintro rfl
    exact addressWord_eq_ok.mpr ⟨raw, h0, rfl⟩
  · intro h
    obtain ⟨raw', hraw', hword⟩ := addressWord_eq_ok.mp h
    rw [List.append_cancel_left hword]
    exact Except.ok.inj (hraw'.decodes.symm.trans h0.decodes)

/-- **Orientation.** Price and direction of a pool that was found do not depend on how the token is spelled,
exactly if both spellings have their prefix or the token is not the pool's currency 0. -/
theorem orientation_iff {deployment : Deployment} {token denom : String} {fromBlock toBlock : UInt64}
    {asked asked' : List Request} {best : RankedPool}
    (hbest : (findBestPool crates deployment token denom fromBlock toBlock).run node asked = (.ok best, asked'))
    {t1 t2 : String} {word : List UInt8} (h1 : addressWord crates.hexDecode t1 = .ok word)
    (h2 : addressWord crates.hexDecode t2 = .ok word) : SpellingFree crates best.key t1 t2 word ↔
      (Prefixed t1 ∧ Prefixed t2) ∨ addressWord crates.hexDecode best.key.currency0 ≠ .ok word := by
  obtain ⟨hpre, raw0, h0⟩ := findBestPool_currency0 hbest
  have hdir1 := zeroForOne_iff hdecode hpre h0 h1
  have hdir2 := zeroForOne_iff hdecode hpre h0 h2
  constructor
  · intro hfree
    by_cases hword : addressWord crates.hexDecode best.key.currency0 = .ok word
    · exact .inl ⟨(hdir1.mp ((hfree.direction t1 (.inl rfl)).mpr hword)).2,
        (hdir2.mp ((hfree.direction t2 (.inr rfl)).mpr hword)).2⟩
    · exact .inr hword
  · intro hcond
    have hdirection {t : String} (hcond : Prefixed t ∨ addressWord crates.hexDecode best.key.currency0 ≠ .ok word) :
        addressWord crates.hexDecode best.key.currency0 = .ok word ∧ Prefixed t ↔
          addressWord crates.hexDecode best.key.currency0 = .ok word :=
      ⟨And.left, fun hword => ⟨hword, hcond.resolve_right (not_not_intro hword)⟩⟩
    have hfree1 := hdir1.trans (hdirection (hcond.imp_left And.left))
    have hfree2 := hdir2.trans (hdirection (hcond.imp_left And.right))
    refine ⟨fun node stateView decimals asked => ?_, ?_⟩
    · obtain ⟨raw, hraw, -⟩ := addressWord_eq_ok.mp h1
      obtain ⟨raw', hraw', -⟩ := addressWord_eq_ok.mp h2
      have heq : eqIgnoreAsciiCase best.key.currency0 t1 = eqIgnoreAsciiCase best.key.currency0 t2 := by
        rw [resolve_of_isAddress hdecode hraw] at hfree1
        rw [resolve_of_isAddress hdecode hraw'] at hfree2
        exact Bool.eq_iff_iff.mpr (hfree1.trans hfree2.symm)
      rw [quotePool_congr heq]
    · rintro t (rfl | rfl)
      · exact hfree1
      · exact hfree2

end Orientation

/-! ### A pool of WETH and USDG -/

/-- The hashes of a signature and of the pool's key. -/
def poolHashes : List (List UInt8 × ℕ) := [
  (utf8 "getLiquidity(bytes32)", 0xfa6793d575f01068b05cbe3eb77939ddb105d9c831e42af72b691295b7d5f209),
  (PoolKey.words (BigEndian.bytes 32 0x0bd7d308f8e1639fab988df18a8011f41eacad73)
    (BigEndian.bytes 32 0x5fc5360d0400a0fd4f2af552add042d716f1d168) 3000 60 (BigEndian.bytes 32 0),
    0x77c25b9386d47de62e0155c393696e9f43f7e6d036c6ca52f66735ccbb8808a7)]

/-- The crates as far as finding the pool sees them. -/
def poolCrates : Crates where
  hexDecode := Dex.hexDecode
  keccak256 bytes :=
    let hash := (poolHashes.find? fun h => h.1 = bytes).map Prod.snd
    ⟨⟨BigEndian.bytes 32 (hash.getD 0)⟩, by simp⟩
  rawLogs := rawLogsOf
  debug := Json.quote
  checks := false

def wethPool : PoolKey where
  currency0 := "0x0bd7d308f8e1639fab988df18a8011f41eacad73"
  currency1 := "0x5fc5360d0400a0fd4f2af552add042d716f1d168"
  fee := 3000
  tickSpacing := 60
  hooks := "0x0000000000000000000000000000000000000000"

/-- The log of the pool's creation, no other log, and its liquidity. -/
def wethReplies : List Json :=
  let log := initializeLog Dex.hexDecode wethPool "0x" 79228162514264337593543950336 0
  [.arr (log.toOption.map fun log => RpcLog.json ⟨poolManager, log.1, log.2, 16⟩).toList, .arr [],
    .str (toHex (uintWord 1))]

def wethNode : Node := fun asked _ => .ok (wethReplies.getD asked.length .null)

theorem addressWord_weth {t : String} (h : IsAddress Dex.hexDecode t
    (BigEndian.bytes 20 0x0bd7d308f8e1639fab988df18a8011f41eacad73)) : addressWord poolCrates.hexDecode t =
      .ok (Abi.word 0x0bd7d308f8e1639fab988df18a8011f41eacad73) := by
  have hword : addressWord poolCrates.hexDecode t = _ := addressWord_eq h
  rwa [BigEndian.value_bytes_of_lt (by decide)] at hword

theorem isAddress_weth : IsAddress Dex.hexDecode "0x0Bd7D308f8E1639FAb988df18A8011f41EAcAD73"
    (BigEndian.bytes 20 0x0bd7d308f8e1639fab988df18a8011f41eacad73) :=
  ⟨by decide +kernel, by decide⟩

theorem isAddress_usdg : IsAddress Dex.hexDecode "0x5fc5360D0400a0Fd4f2af552ADD042D716F1d168"
    (BigEndian.bytes 20 0x5fc5360d0400a0fd4f2af552add042d716f1d168) :=
  ⟨by decide +kernel, by decide⟩

theorem canonical_weth : Canonical wethPool (BigEndian.bytes 20 0x0bd7d308f8e1639fab988df18a8011f41eacad73)
    (BigEndian.bytes 20 0x5fc5360d0400a0fd4f2af552add042d716f1d168) (BigEndian.bytes 20 0) := by
  constructor <;> decide +kernel

theorem poolId_weth : ∃ id, wethPool.poolId poolCrates.hexDecode poolCrates.keccak256 = .ok id := by
  have h0 := addressWord_eq_ok.mpr ⟨_, isAddress_toHex readsHex_hexDecode canonical_weth.length0, rfl⟩
  have h1 := addressWord_eq_ok.mpr ⟨_, isAddress_toHex readsHex_hexDecode canonical_weth.length1, rfl⟩
  have hh := addressWord_eq_ok.mpr ⟨_, isAddress_toHex readsHex_hexDecode canonical_weth.lengthHooks, rfl⟩
  rw [← canonical_weth.currency0] at h0
  rw [← canonical_weth.currency1] at h1
  rw [← canonical_weth.hooks] at hh
  exact ⟨_, congrArg (Except.map _) (PoolKey.preimage_eq_ok.mpr ⟨_, _, _, h0, h1, hh, rfl⟩)⟩

section Weth

variable {node : Node} {asked : List Request} (hnode : ∀ (i : ℕ) (asked' : List Request) (q : Request), i < 3 →
  asked'.length = asked.length + i → node asked' q = .ok (wethReplies.getD i .null))

include hnode

theorem discoverPools_weth : ∃ asked', asked'.length = asked.length + 2 ∧ (discoverPoolsForPair poolCrates poolManager
    "0x0Bd7D308f8E1639FAb988df18A8011f41EAcAD73" "0x5fc5360D0400a0Fd4f2af552ADD042D716F1d168" 0 16).run node asked =
      (.ok [wethPool], asked') := by
  obtain ⟨log, hlog, hread⟩ := decodeInitialize_initializeLog readsHex_hexDecode canonical_weth "0x"
    79228162514264337593543950336 0
  have hreplies : wethReplies = [.arr ([⟨poolManager, log.1, log.2, 16⟩].map RpcLog.json), .arr ([].map RpcLog.json),
      .str (toHex (uintWord 1))] := by
    rw [wethReplies, hlog]
    rfl
  have hkeys : decodeAll poolCrates [⟨poolManager, log.1, log.2, 16⟩] = .ok [wethPool] := by
    have hread' : decodeInitialize poolCrates.hexDecode log.1 log.2 = .ok wethPool := hread
    rw [decodeAll, hread']
    rfl
  have htopic {t : String} {raw : List UInt8} (h : IsAddress Dex.hexDecode t raw) :
      topicFromAddress poolCrates.hexDecode t = .ok (toHex (Abi.word (BigEndian.value raw))) :=
    congrArg (Except.map toHex) (addressWord_eq h)
  have hlogs (i : ℕ) (hi : i < 3) (filter : LogFilter) (hle : filter.fromBlock ≤ filter.toBlock)
      (asked' : List Request) (hlen : asked'.length = asked.length + i) (logs : List RpcLog)
      (h : wethReplies.getD i .null = .arr (logs.map RpcLog.json)) :=
    @run_getLogs_of_ok poolCrates filter rfl hle node asked' logs
      ((hnode i asked' _ hi hlen).trans (congrArg Outcome.ok h))
  rw [discoverPoolsForPair, htopic isAddress_weth, htopic isAddress_usdg]
  refine ⟨_, ?_, Dialogue.run_bind_eq_ok.mpr ⟨_, _, rfl, Dialogue.run_bind_eq_ok.mpr ⟨_, _, rfl,
    Dialogue.run_bind_eq_ok.mpr ⟨_, _, hlogs 0 (by decide) _ (by decide) asked rfl _ (by rw [hreplies]; rfl),
      Dialogue.run_bind_eq_ok.mpr ⟨_, _, congrArg (·, _) hkeys,
        Dialogue.run_bind_eq_ok.mpr ⟨_, _, hlogs 1 (by decide) _ (by decide) _ (by simp) [] (by rw [hreplies]; rfl),
          rfl⟩⟩⟩⟩⟩⟩
  simp

theorem liquidPools_weth {asked' : List Request} (hasked : asked'.length = asked.length + 2) :
    ∃ asked'', asked''.length = asked.length + 3 ∧
      (liquidPools poolCrates (.new stateView) [wethPool]).run node asked' = (.ok [⟨wethPool, 1⟩], asked'') := by
  obtain ⟨id, hid⟩ := poolId_weth
  have hcall (data : String) : (call poolCrates (toAsciiLowercase stateView) data).run node asked' =
      (.ok (uintWord 1), asked' ++ [callRequest none (toAsciiLowercase stateView) data]) := by
    have hreply : node asked' (callRequest none (toAsciiLowercase stateView) data) =
        .ok (.str (toHex (uintWord 1))) := hnode 2 asked' _ (by decide) hasked
    have hbytes : bytesOf poolCrates (.str (toHex (uintWord 1))) = .ok (uintWord 1) :=
      congrArg Outcome.ofExcept (fromHex_toHex readsHex_hexDecode _)
    rw [call, run_callInner, hreply, Outcome.ok_bind, hbytes]
  have hread := decodeU128_uintWord 1 []
  rw [List.append_nil] at hread
  have hliquidity : ((StateView.new stateView).getLiquidity poolCrates id).run node asked' = (.ok 1, _) :=
    Dialogue.run_bind_done_eq_ok.mpr ⟨_, hcall _, hread⟩
  have hattempt : (((StateView.new stateView).getLiquidity poolCrates id).attempt : Rpc _).run node asked' = _ :=
    Dialogue.run_attempt _ asked'
  rw [hliquidity] at hattempt
  rw [liquidPools, hid]
  exact ⟨_, by simp [hasked], Dialogue.run_bind_eq_ok.mpr ⟨.ok 1, _, hattempt, rfl⟩⟩

theorem findBestPool_weth : ∃ best asked', best.key = wethPool ∧ asked'.length = asked.length + 3 ∧
    (findBestPool poolCrates ⟨poolManager, stateView⟩ "0x0Bd7D308f8E1639FAb988df18A8011f41EAcAD73"
      "0x5fc5360D0400a0Fd4f2af552ADD042D716F1d168" 0 16).run node asked = (.ok best, asked') := by
  obtain ⟨mid, hmid, hdiscover⟩ := discoverPools_weth hnode
  obtain ⟨asked', hasked', hliquid⟩ := liquidPools_weth hnode hmid
  have hranked : (rankByLiquidity poolCrates stateView [wethPool]).run node mid = (.ok [⟨wethPool, 1⟩], asked') := by
    refine Dialogue.run_bind_eq_ok.mpr ⟨_, _, hliquid, ?_⟩
    rw [List.mergeSort_singleton, Dialogue.run_pure]
  refine ⟨⟨wethPool, 1⟩, asked', rfl, hasked', Dialogue.run_bind_eq_ok.mpr ⟨_, _, hdiscover, ?_⟩⟩
  rw [if_neg (List.cons_ne_nil _ _)]
  exact Dialogue.run_bind_eq_ok.mpr ⟨_, _, hranked, rfl⟩

end Weth

theorem wethNode_reply (i : ℕ) (asked : List Request) (q : Request) (_ : i < 3)
    (hlen : asked.length = ([] : List Request).length + i) : wethNode asked q = .ok (wethReplies.getD i .null) := by
  rw [wethNode, hlen, List.length_nil, Nat.zero_add]

/-- Two spellings with a prefix. -/
theorem orientation_iff_weth : SpellingFree poolCrates wethPool "0x0Bd7D308f8E1639FAb988df18A8011f41EAcAD73"
    "0X0BD7D308F8E1639FAB988DF18A8011F41EACAD73" (Abi.word 0x0bd7d308f8e1639fab988df18a8011f41eacad73) := by
  obtain ⟨best, asked', hkey, -, hbest⟩ := findBestPool_weth wethNode_reply
  rw [← hkey]
  exact (orientation_iff readsHex_hexDecode hbest (addressWord_weth isAddress_weth)
    (addressWord_weth ⟨by decide +kernel, by decide +kernel⟩)).mpr (.inl ⟨by decide, by decide⟩)

/-- Without a prefix, WETH is taken for the pool's other currency. -/
theorem bare_spelling_inverts : ¬ ∀ (crates : Crates) (node : Node) (deployment : Deployment) (token denom : String)
    (fromBlock toBlock : UInt64) (asked asked' : List Request) (best : RankedPool) (t1 t2 : String) (word : List UInt8),
    ReadsHex crates.hexDecode →
    (findBestPool crates deployment token denom fromBlock toBlock).run node asked = (.ok best, asked') →
    addressWord crates.hexDecode t1 = .ok word → addressWord crates.hexDecode t2 = .ok word →
      SpellingFree crates best.key t1 t2 word := by
  intro hclaim
  obtain ⟨best, asked', hkey, -, hbest⟩ := findBestPool_weth wethNode_reply
  have hfree := hclaim _ _ _ _ _ _ _ _ _ best "0x0Bd7D308f8E1639FAb988df18A8011f41EAcAD73"
    "0Bd7D308f8E1639FAb988df18A8011f41EAcAD73" _ readsHex_hexDecode hbest
    (addressWord_weth isAddress_weth) (addressWord_weth ⟨by decide +kernel, by decide +kernel⟩)
  rw [hkey] at hfree
  have hdirection := hfree.direction _ (.inr rfl)
  have hother : zeroForOne wethPool (resolve "0Bd7D308f8E1639FAb988df18A8011f41EAcAD73").address = false := by
    decide +kernel
  rw [hother] at hdirection
  exact absurd (hdirection.mpr (addressWord_weth ⟨by decide +kernel, by decide +kernel⟩)) (by decide)

end DexPreview

end Sherwood
