/-
# Nothing but reads

Whatever a node replies, the read helpers of `EvmClient` and what is built on them, up to
the probe and the price of a pool, ask for nothing but a handful of reading methods
(`Only`). There is no sending one among them.

The work is bounded where the ranges are: the halving of a range of logs asks no more than
`2 ^ 13 - 1` requests (`getLogs_asksAtMost`), so the probe of a token no more than 8202 and one for each
holder that its options let it scan (`probe_asksAtMost`), whatever the node does.

Key definitions: `readMethods`, `Only`.
Key theorems: `only_checkTransferOpen`, `only_findBestPool`, `only_quotePool`, `getLogs_asksAtMost`,
`probe_asksAtMost`.
-/
import Sherwood.Chain.Univ4
import Sherwood.Lib.Relay

namespace Sherwood.Chain

/-- The methods of `EvmClient`'s helpers. -/
def readMethods : List String :=
  ["eth_chainId", "eth_blockNumber", "web3_clientVersion", "eth_call", "eth_getCode", "eth_getStorageAt",
    "eth_getLogs", "eth_getTransactionReceipt"]

variable {ε α : Type}

/-- Whatever is replied, only these methods are asked for. -/
def Only (methods : List String) (x : Dialogue Request (Outcome ChainError Json) ε α) : Prop :=
  x.Asks fun q => q.method ∈ methods

variable (crates : Crates)

/-- `eth_chainId`. -/
def chainId : Rpc UInt64 := do
  let ret ← request "eth_chainId" (.arr [])
  .done (parseQuantity crates ret)

/-- `read_price`. -/
def readPrice (deployment : Deployment) (token denom : String) (decimals : Decimals) (fromBlock toBlock : UInt64) :
    Rpc (ℚ × RankedPool) := do
  let best ← findBestPool crates deployment token denom fromBlock toBlock
  let price ← quotePool crates deployment.stateView best.key token decimals
  return (price, best)

variable {crates} {methods : List String}

theorem Only.mono {methods' : List String} {x : Dialogue Request (Outcome ChainError Json) ε α} (hx : Only methods x)
    (h : ∀ m ∈ methods, m ∈ methods') : Only methods' x :=
  Dialogue.Asks.mono hx fun q hq => h q.method hq

theorem only_request {method : String} (h : method ∈ methods) (params : Json) : Only methods (request method params) :=
  ⟨h, fun _ => trivial⟩

theorem only_request_bind {method : String} (h : method ∈ methods) (params : Json) (f : Json → Outcome ChainError α) :
    Only methods (request method params >>= fun ret => .done (f ret)) :=
  Dialogue.Asks.bind (only_request h params) fun _ => trivial

section Calls

variable (hcall : "eth_call" ∈ methods)

include hcall

theorem only_callInner (caller : Option String) (callee data : String) :
    Only methods (callInner crates caller callee data) :=
  only_request_bind hcall _ _

theorem only_call_bind (callee data : String) (f : List UInt8 → Outcome ChainError α) :
    Only methods (call crates callee data >>= fun ret => .done (f ret)) :=
  Dialogue.Asks.bind (only_callInner hcall _ _ _) fun _ => trivial

theorem only_decimals (token : Erc20) : Only methods (token.decimals crates) := by
  refine Dialogue.Asks.bind (only_callInner hcall _ _ _) fun ret => ?_
  refine Dialogue.Asks.bind (Dialogue.asks_done _) fun v => ?_
  split_ifs
  · exact trivial
  · exact trivial

theorem only_tokenMeta (token : Erc20) : Only methods (token.tokenMeta crates) := by
  refine Dialogue.Asks.bind (only_call_bind hcall _ _ _) fun _ => ?_
  refine Dialogue.Asks.bind (only_call_bind hcall _ _ _) fun _ => ?_
  exact Dialogue.Asks.bind (only_decimals hcall token) fun _ => trivial

theorem only_balanceOfRaw (token : Erc20) (account : String) : Only methods (token.balanceOfRaw crates account) :=
  Dialogue.Asks.bind (Dialogue.asks_done _) fun _ => only_call_bind hcall _ _ _

theorem only_simulateTransfer (token sender recipient : String) (amount : BitVec 128) :
    Only methods (simulateTransfer crates token sender recipient amount) := by
  unfold simulateTransfer
  split
  · exact Dialogue.Asks.bind (Dialogue.Asks.attempt (only_callInner hcall _ _ _)) fun _ => trivial
  · exact trivial

theorem only_bestHolder (token : Erc20) : ∀ (accounts : List String) (best : Option (String × BitVec 128)),
    Only methods (bestHolder crates token accounts best)
  | [], _ => trivial
  | a :: as, best => by
    refine Dialogue.Asks.bind (Dialogue.Asks.attempt (only_balanceOfRaw hcall token a)) fun r => ?_
    cases r with
    | ok bal => exact only_bestHolder token as _
    | error e => exact only_bestHolder token as _

theorem only_testTransfers (tokenAddress : String) (opts : ProbeOptions) (holder : Option String) :
    Only methods (testTransfers crates tokenAddress opts holder) := by
  cases holder with
  | none => exact trivial
  | some h =>
    refine Dialogue.Asks.bind (only_simulateTransfer hcall _ _ _ _) fun _ => ?_
    exact Dialogue.Asks.bind (only_simulateTransfer hcall _ _ _ _) fun _ => trivial

theorem only_liquidPools (view : StateView) : ∀ keys : List Dex.PoolKey, Only methods (liquidPools crates view keys)
  | [] => trivial
  | key :: keys => by
    unfold liquidPools
    split
    · exact only_liquidPools view keys
    · refine Dialogue.Asks.bind (Dialogue.Asks.attempt (only_call_bind hcall _ _ _)) fun r => ?_
      cases r with
      | ok liquidity => exact Dialogue.Asks.bind (only_liquidPools view keys) fun _ => trivial
      | error e => exact only_liquidPools view keys

/-- The price of a pool that is known takes calls only. -/
theorem only_quotePool (stateView : String) (pool : Dex.PoolKey) (token : String) (decimals : Decimals) :
    Only methods (quotePool crates stateView pool token decimals) := by
  refine Dialogue.Asks.bind (Dialogue.asks_done _) fun _ => ?_
  refine Dialogue.Asks.bind (only_call_bind hcall _ _ _) fun _ => ?_
  exact Dialogue.Asks.bind (Dialogue.asks_done _) fun _ => trivial

end Calls

theorem only_getStorageAt (h : "eth_getStorageAt" ∈ methods) (address slot : String) :
    Only methods (getStorageAt crates address slot) := by
  refine Dialogue.Asks.bind (only_request h _) fun _ => ?_
  refine Dialogue.Asks.bind (Dialogue.asks_done _) fun _ => ?_
  split_ifs
  · exact trivial
  · exact trivial
  · exact trivial

theorem only_getLogsBisecting (h : "eth_getLogs" ∈ methods) : ∀ (splits : ℕ) (filter : LogFilter),
    Only methods (getLogsBisecting crates splits filter)
  | 0, filter => by
    rw [getLogsBisecting]
    refine Dialogue.Asks.bind (Dialogue.Asks.attempt (only_request h _)) fun r => ?_
    cases r with
    | ok ret => exact trivial
    | error e => exact trivial
  | splits + 1, filter => by
    rw [getLogsBisecting]
    refine Dialogue.Asks.bind (Dialogue.Asks.attempt (only_request h _)) fun r => ?_
    cases r with
    | ok ret => exact trivial
    | error e =>
      dsimp only
      split_ifs
      · refine Dialogue.Asks.bind (only_getLogsBisecting h splits _) fun _ => ?_
        exact Dialogue.Asks.bind (only_getLogsBisecting h splits _) fun _ => trivial
      · exact trivial

theorem only_detectProxy (hstorage : "eth_getStorageAt" ∈ methods) (hcall : "eth_call" ∈ methods) (token : String) :
    Only methods (detectProxy crates token) := by
  refine Dialogue.Asks.bind (only_getStorageAt hstorage _ _) fun _ => ?_
  refine Dialogue.Asks.bind (Dialogue.asks_done _) fun impl => ?_
  cases impl with
  | some a => exact trivial
  | none =>
    refine Dialogue.Asks.bind (only_getStorageAt hstorage _ _) fun _ => ?_
    refine Dialogue.Asks.bind (Dialogue.asks_done _) fun beacon => ?_
    cases beacon with
    | some b => exact Dialogue.Asks.bind (Dialogue.Asks.attempt (only_call_bind hcall _ _ _)) fun _ => trivial
    | none => exact trivial

/-- **The probe reads.** -/
theorem only_checkTransferOpen (tokenAddress : String) (opts : ProbeOptions) :
    Only readMethods (checkTransferOpen crates tokenAddress opts) := by
  have hcall : "eth_call" ∈ readMethods := by decide
  refine Dialogue.Asks.bind (Dialogue.asks_done _) fun token => ?_
  refine Dialogue.Asks.bind (only_tokenMeta hcall token) fun _ => ?_
  refine Dialogue.Asks.bind (Dialogue.Asks.attempt (only_call_bind hcall _ _ _)) fun _ => ?_
  refine Dialogue.Asks.bind (only_detectProxy (by decide) hcall tokenAddress) fun _ => ?_
  refine Dialogue.Asks.bind (Dialogue.Asks.bind (Dialogue.Asks.attempt (only_call_bind hcall _ _ _)) fun _ => trivial)
    fun _ => ?_
  refine Dialogue.Asks.bind (only_request_bind (by decide) _ _) fun head => ?_
  refine Dialogue.Asks.bind (only_getLogsBisecting (by decide) _ _) fun logs => ?_
  refine Dialogue.Asks.bind (Dialogue.asks_done _) fun traffic => ?_
  refine Dialogue.Asks.bind (Dialogue.Asks.bind (only_bestHolder hcall token _ none) fun _ => trivial) fun holder => ?_
  exact Dialogue.Asks.bind (only_testTransfers hcall tokenAddress opts holder) fun _ => trivial

theorem only_discoverPools (poolManager token denom : String) (fromBlock toBlock : UInt64) :
    Only readMethods (discoverPoolsForPair crates poolManager token denom fromBlock toBlock) := by
  have hlogs (filter : LogFilter) : Only readMethods (getLogs crates filter) :=
    only_getLogsBisecting (by decide) maxSplitDepth filter
  refine Dialogue.Asks.bind (Dialogue.asks_done _) fun _ => ?_
  refine Dialogue.Asks.bind (Dialogue.asks_done _) fun _ => ?_
  refine Dialogue.Asks.bind (hlogs _) fun _ => ?_
  refine Dialogue.Asks.bind (Dialogue.asks_done _) fun _ => ?_
  refine Dialogue.Asks.bind (hlogs _) fun _ => ?_
  exact Dialogue.Asks.bind (Dialogue.asks_done _) fun _ => trivial

/-- **The search for a pool reads.** -/
theorem only_findBestPool (deployment : Deployment) (token denom : String) (fromBlock toBlock : UInt64) :
    Only readMethods (findBestPool crates deployment token denom fromBlock toBlock) := by
  refine Dialogue.Asks.bind (only_discoverPools _ _ _ _ _) fun candidates => ?_
  split_ifs
  · exact trivial
  · exact Dialogue.Asks.bind
      (Dialogue.Asks.bind (only_liquidPools (by decide) _ candidates) fun _ => trivial) fun _ => trivial

theorem only_readPrice (deployment : Deployment) (token denom : String) (decimals : Decimals)
    (fromBlock toBlock : UInt64) :
    Only readMethods (readPrice crates deployment token denom decimals fromBlock toBlock) := by
  refine Dialogue.Asks.bind (only_findBestPool _ _ _ _ _) fun best => ?_
  exact Dialogue.Asks.bind (only_quotePool (by decide) _ _ _ _) fun _ => trivial

/-! ### How much is asked -/

theorem request_asksAtMost (method : String) (params : Json) : (request method params).AsksAtMost 1 :=
  ⟨0, rfl, fun _ => trivial⟩

/-- One request for the whole range, and two times as many as for one half. -/
theorem getLogsBisecting_asksAtMost : ∀ (splits : ℕ) (filter : LogFilter),
    (getLogsBisecting crates splits filter).AsksAtMost (2 ^ (splits + 1) - 1)
  | 0, filter => by
    rw [getLogsBisecting]
    refine Dialogue.AsksAtMost.bind (m := 0) (Dialogue.AsksAtMost.attempt (request_asksAtMost _ _)) fun r => ?_
    cases r with
    | ok ret => exact trivial
    | error e => exact trivial
  | splits + 1, filter => by
    have hsum : 2 ^ (splits + 1 + 1) - 1 = 1 + ((2 ^ (splits + 1) - 1) + ((2 ^ (splits + 1) - 1) + 0)) := by
      have : 0 < 2 ^ (splits + 1) := Nat.pow_pos (by decide)
      rw [pow_succ 2 (splits + 1)]
      omega
    rw [hsum, getLogsBisecting]
    refine Dialogue.AsksAtMost.bind (Dialogue.AsksAtMost.attempt (request_asksAtMost _ _)) fun r => ?_
    cases r with
    | ok ret => exact trivial
    | error e =>
      dsimp only
      split_ifs
      · refine Dialogue.AsksAtMost.bind (getLogsBisecting_asksAtMost splits _) fun _ => ?_
        exact Dialogue.AsksAtMost.bind (getLogsBisecting_asksAtMost splits _) fun _ => trivial
      · exact trivial

theorem getLogs_asksAtMost (filter : LogFilter) : (getLogs crates filter).AsksAtMost (2 ^ 13 - 1) :=
  getLogsBisecting_asksAtMost maxSplitDepth filter

theorem call_bind_asksAtMost (caller : Option String) (callee data : String) (f : List UInt8 → Outcome ChainError α) :
    (callInner crates caller callee data >>= fun ret => Dialogue.done (f ret)).AsksAtMost 1 :=
  Dialogue.AsksAtMost.bind (n := 1) (m := 0)
    (Dialogue.AsksAtMost.bind (n := 1) (m := 0) (request_asksAtMost _ _) fun _ => trivial) fun _ => trivial

theorem bestHolder_asksAtMost (token : Erc20) : ∀ (accounts : List String) (best : Option (String × BitVec 128)),
    (bestHolder crates token accounts best).AsksAtMost accounts.length
  | [], _ => trivial
  | a :: as, best => by
    rw [List.length_cons, Nat.add_comm]
    refine Dialogue.AsksAtMost.bind (n := 1) (Dialogue.AsksAtMost.attempt
      (Dialogue.AsksAtMost.bind (n := 0) (Dialogue.asksAtMost_done _ 0) fun _ => call_bind_asksAtMost _ _ _ _))
      fun r => ?_
    cases r with
    | ok bal => exact bestHolder_asksAtMost token as _
    | error e => exact bestHolder_asksAtMost token as _

theorem simulateTransfer_asksAtMost (token sender recipient : String) (amount : BitVec 128) :
    (simulateTransfer crates token sender recipient amount).AsksAtMost 1 := by
  unfold simulateTransfer
  split
  · exact Dialogue.AsksAtMost.bind (n := 1) (m := 0) (Dialogue.AsksAtMost.attempt
      (Dialogue.AsksAtMost.bind (n := 1) (m := 0) (request_asksAtMost _ _) fun _ => trivial)) fun _ => trivial
  · exact trivial

theorem testTransfers_asksAtMost (tokenAddress : String) (opts : ProbeOptions) (holder : Option String) :
    (testTransfers crates tokenAddress opts holder).AsksAtMost 2 := by
  cases holder with
  | none => exact trivial
  | some h =>
    refine Dialogue.AsksAtMost.bind (n := 1) (m := 1) (simulateTransfer_asksAtMost _ _ _ _) fun _ => ?_
    exact Dialogue.AsksAtMost.bind (n := 1) (m := 0) (simulateTransfer_asksAtMost _ _ _ _) fun _ => trivial

theorem getStorageAt_asksAtMost (address slot : String) : (getStorageAt crates address slot).AsksAtMost 1 := by
  refine Dialogue.AsksAtMost.bind (n := 1) (m := 0) (request_asksAtMost _ _) fun _ => ?_
  refine Dialogue.AsksAtMost.bind (n := 0) (m := 0) (Dialogue.asksAtMost_done _ 0) fun _ => ?_
  split_ifs
  · exact trivial
  · exact trivial
  · exact trivial

theorem detectProxy_asksAtMost (token : String) : (detectProxy crates token).AsksAtMost 3 := by
  refine Dialogue.AsksAtMost.bind (n := 1) (m := 2) (getStorageAt_asksAtMost _ _) fun _ => ?_
  refine Dialogue.AsksAtMost.bind (n := 0) (m := 2) (Dialogue.asksAtMost_done _ 0) fun impl => ?_
  cases impl with
  | some a => exact trivial
  | none =>
    refine Dialogue.AsksAtMost.bind (n := 1) (m := 1) (getStorageAt_asksAtMost _ _) fun _ => ?_
    refine Dialogue.AsksAtMost.bind (n := 0) (m := 1) (Dialogue.asksAtMost_done _ 0) fun beacon => ?_
    cases beacon with
    | some b =>
      exact Dialogue.AsksAtMost.bind (n := 1) (m := 0)
        (Dialogue.AsksAtMost.attempt (call_bind_asksAtMost _ _ _ _)) fun _ => trivial
    | none => exact trivial

theorem tokenMeta_asksAtMost (token : Erc20) : (token.tokenMeta crates).AsksAtMost 3 := by
  refine Dialogue.AsksAtMost.bind (n := 1) (m := 2) (call_bind_asksAtMost _ _ _ _) fun _ => ?_
  refine Dialogue.AsksAtMost.bind (n := 1) (m := 1) (call_bind_asksAtMost _ _ _ _) fun _ => ?_
  refine Dialogue.AsksAtMost.bind (n := 1) (m := 0) ?_ fun _ => trivial
  refine Dialogue.AsksAtMost.bind (n := 1) (m := 0)
    (Dialogue.AsksAtMost.bind (n := 1) (m := 0) (request_asksAtMost _ _) fun _ => trivial) fun _ => ?_
  refine Dialogue.AsksAtMost.bind (n := 0) (m := 0) (Dialogue.asksAtMost_done _ 0) fun v => ?_
  split_ifs
  · exact trivial
  · exact trivial

/-- **The work of a probe.** Three requests for what the token says of itself, one for its
supply, three for its proxy, one each for its pause and for the height; then the logs, a
balance for each holder that is scanned, and two transfers. -/
theorem probe_asksAtMost (tokenAddress : String) (opts : ProbeOptions) :
    (checkTransferOpen crates tokenAddress opts).AsksAtMost (8202 + opts.maxHoldersScanned) := by
  have hsum : 8202 + opts.maxHoldersScanned =
      0 + (3 + (1 + (3 + (1 + (1 + ((2 ^ 13 - 1) + (0 + (opts.maxHoldersScanned + (2 + 0))))))))) := by omega
  rw [hsum]
  refine Dialogue.AsksAtMost.bind (Dialogue.asksAtMost_done _ 0) fun token => ?_
  refine Dialogue.AsksAtMost.bind (tokenMeta_asksAtMost token) fun _ => ?_
  refine Dialogue.AsksAtMost.bind (Dialogue.AsksAtMost.attempt (call_bind_asksAtMost _ _ _ _)) fun _ => ?_
  refine Dialogue.AsksAtMost.bind (detectProxy_asksAtMost tokenAddress) fun _ => ?_
  refine Dialogue.AsksAtMost.bind (n := 1) (Dialogue.AsksAtMost.bind (n := 1) (m := 0)
    (Dialogue.AsksAtMost.attempt (call_bind_asksAtMost _ _ _ _)) fun _ => trivial) fun _ => ?_
  refine Dialogue.AsksAtMost.bind (n := 1) (Dialogue.AsksAtMost.bind (n := 1) (m := 0)
    (request_asksAtMost _ _) fun _ => trivial) fun head => ?_
  refine Dialogue.AsksAtMost.bind (getLogs_asksAtMost _) fun logs => ?_
  refine Dialogue.AsksAtMost.bind (Dialogue.asksAtMost_done _ 0) fun traffic => ?_
  have hscan (accounts : List String) : (bestHolder crates token (accounts.take opts.maxHoldersScanned) none).AsksAtMost
      opts.maxHoldersScanned := (bestHolder_asksAtMost token _ none).mono (List.length_take_le _ _)
  refine Dialogue.AsksAtMost.bind (Dialogue.AsksAtMost.bind (m := 0) (hscan _) fun _ => trivial) fun holder => ?_
  exact Dialogue.AsksAtMost.bind (testTransfers_asksAtMost tokenAddress opts holder) fun _ => trivial

end Sherwood.Chain
