/-
# The transfer probe

`check_transfer_open` of `sherwood-chain`: from a holder found in recent logs, a
transfer to a fresh address is simulated, and one back. The token is
permissionless where the first succeeds and the second fails for balance only.

Some reads are informational: an error of the total supply, of `paused`, of a
beacon's implementation or of one holder's balance does not stop the probe.

Key definitions: `Verdict`, `ProbeReport`, `checkTransferOpen`.
Key theorem: `checkTransferOpen_permissionless`.
-/
import Mathlib.Data.List.Sort
import Mathlib.Data.String.Basic
import Sherwood.Chain.Rpc

namespace Sherwood.Chain

open Dex (selector)

variable (crates : Crates)

/-- A selector and its words, as hex. -/
def calldata (sig : String) (words : List (List UInt8)) : String :=
  toHex (selector crates.keccak256 sig ++ words.flatten)

/-- `topic_hex`. -/
def topicHex (sig : String) : String := toHex (crates.keccak256 sig.toUTF8.toList).toList

/-! ### The token -/

structure TokenMeta where
  address : String
  name : String
  symbol : String
  decimals : UInt8

/-- A handle to one contract. -/
structure Erc20 where
  address : String

namespace Erc20

/-- Bind to an address; its `to_lowercase`, for what is hex. -/
def new (address : String) : Outcome ChainError Erc20 := do
  let _ ← .ofExcept (addressWord crates.hexDecode address)
  return ⟨toAsciiLowercase address⟩

variable (token : Erc20)

def call0 (sig : String) : Rpc (List UInt8) := call crates token.address (calldata crates sig [])

def name : Rpc String := do
  let ret ← token.call0 crates "name()"
  .done (decodeString crates.checks ret)

def symbol : Rpc String := do
  let ret ← token.call0 crates "symbol()"
  .done (decodeString crates.checks ret)

def decimals : Rpc UInt8 := do
  let ret ← token.call0 crates "decimals()"
  let v ← .done (decodeU128 ret)
  if v.toNat < 2 ^ 8 then return .ofNat v.toNat
  else .done (.err (.decode s!"decimals() = {v.toNat}, out of range"))

/-- `meta`. -/
def tokenMeta : Rpc TokenMeta := do
  let name ← token.name crates
  let symbol ← token.symbol crates
  let decimals ← token.decimals crates
  return ⟨token.address, name, symbol, decimals⟩

def totalSupplyRaw : Rpc (BitVec 128) := do
  let ret ← token.call0 crates "totalSupply()"
  .done (decodeU128 ret)

def balanceOfRaw (account : String) : Rpc (BitVec 128) := do
  let word ← .done (.ofExcept (addressWord crates.hexDecode account))
  let ret ← call crates token.address (calldata crates "balanceOf(address)" [word])
  .done (decodeU128 ret)

end Erc20

/-! ### What the probe observes -/

/-- EIP-1967 implementation slot. -/
def slotImpl : String := "0x360894a13ba1a3210667c828492db98dca3e2076cc3735a920a3ca505d382bbc"

/-- EIP-1967 beacon slot. -/
def slotBeacon : String := "0xa3f0ad74e5423aebfd80d3ef4346578335a9a72aeaee59ff6cb3582b35133d50"

def errInsufficientBalance : String := "0xe450d38c"
def errInsufficientAllowance : String := "0xfb8f41b2"
def zeroAddr : String := "0x0000000000000000000000000000000000000000"

/-- An address with no code and no history. -/
def freshAddress : String := "0x1111111111111111111111111111111111111112"

/-- How the token's logic is deployed. -/
inductive ProxyModel where
  | none
  | eip1967 (implementation : String)
  | beacon (beacon : String) (implementation : Option String)

inductive Verdict where
  | permissionless
  | restricted (why : String)
  | inconclusive (why : String)
  deriving DecidableEq

structure ProbeReport where
  token : TokenMeta
  totalSupplyRaw : BitVec 128
  proxy : ProxyModel
  paused : Option Bool
  sampledBlocks : UInt64
  transferEvents : ℕ
  walletToWallet : ℕ
  distinctSenders : ℕ
  distinctRecipients : ℕ
  holderProbed : Option String
  transferToFreshOk : Bool
  reverseIsBalanceGated : Bool
  verdict : Verdict

structure ProbeOptions where
  sampleBlocks : UInt64
  maxHoldersScanned : ℕ
  freshAddress : String

def ProbeOptions.default : ProbeOptions := ⟨1500, 25, Chain.freshAddress⟩

def nonzeroAddress (word : List UInt8) : Outcome ChainError (Option String) := do
  let low ← slice word 12 32
  return if ∃ b ∈ low, b ≠ 0 then some (toHex low) else none

def detectProxy (token : String) : Rpc ProxyModel := do
  let implSlot ← getStorageAt crates token slotImpl
  match ← .done (nonzeroAddress implSlot) with
  | some a => return .eip1967 a
  | none =>
    let beaconSlot ← getStorageAt crates token slotBeacon
    match ← .done (nonzeroAddress beaconSlot) with
    | some beacon =>
      let implementation ← (do
        let ret ← call crates beacon (calldata crates "implementation()" [])
        Dialogue.done (decodeAddress ret) : Rpc String).attempt
      return .beacon beacon (implementation.toOption.filter (· ≠ zeroAddr))
    | none => return .none

def readPaused (token : String) : Rpc (Option Bool) := do
  let paused ← (do
    let ret ← call crates token (calldata crates "paused()" [])
    Dialogue.done (decodeU128 ret) : Rpc (BitVec 128)).attempt
  return paused.toOption.map (· ≠ 0)

/-! ### The traffic -/

/-- `BTreeSet::insert`: a list in order, without repetition. -/
def setInsert (a : String) (set : List String) : List String :=
  if a ∈ set then set else set.orderedInsert (· ≤ ·) a

structure Traffic where
  senders : List String
  recipients : List String
  walletToWallet : ℕ

/-- One log of the sampled window; one without both addresses is skipped. -/
def Traffic.observe (traffic : Traffic) (log : RpcLog) : Outcome ChainError Traffic :=
  match log.topicAddress 1, log.topicAddress 2 with
  | .panic, _ => .panic
  | _, .panic => .panic
  | .ok f, .ok t => .ok {
      senders := setInsert f traffic.senders
      recipients := setInsert t traffic.recipients
      walletToWallet := traffic.walletToWallet + if f ≠ zeroAddr ∧ t ≠ zeroAddr then 1 else 0 }
  | _, _ => .ok traffic

def observeAll : List RpcLog → Traffic → Outcome ChainError Traffic
  | [], traffic => .ok traffic
  | log :: logs, traffic => do observeAll logs (← traffic.observe log)

/-! ### The test -/

inductive SimResult where
  | ok
  | revertSelector (s : String)
  | revertReason (r : String)
  | err (e : String)

/-- What the simulated call says of the transfer. -/
def simResult : Except ChainError (List UInt8) → Outcome ChainError SimResult
  | .ok ret =>
    if ret = [] then .ok .ok
    else match decodeU128 ret with
      | .ok v => .ok (if v = 1 then .ok else .revertReason "transfer() returned false")
      | .err _ => .ok (.revertReason "transfer() returned false")
      | .panic => .panic
  | .error (.reverted (some r) _) => .ok (.revertReason r)
  | .error (.reverted none data) =>
    match revertSelector crates.hexDecode data with
    | .ok s => .ok (.revertSelector s)
    | .err _ => .ok (.revertSelector "0x")
    | .panic => .panic
  | .error e => .ok (.err e.text)

def simulateTransfer (token sender recipient : String) (amount : BitVec 128) : Rpc SimResult :=
  match addressWord crates.hexDecode recipient, addressWord crates.hexDecode sender with
  | .ok word, .ok _ => do
    let data := calldata crates "transfer(address,uint256)" [word, uintWord amount]
    let ret ← (callFrom crates sender token data).attempt
    .done (simResult crates ret)
  | _, _ => return .err "bad address"

/-- The scan of the holders: the first of the largest positive balance. One whose
balance cannot be read is skipped. -/
def bestHolder (token : Erc20) : List String → Option (String × BitVec 128) → Rpc (Option (String × BitVec 128))
  | [], best => return best
  | a :: as, best => do
    match ← (token.balanceOfRaw crates a).attempt with
    | .ok bal =>
      let improves := best.all fun b => bal > b.2
      bestHolder token as (if bal > 0 ∧ improves then some (a, bal) else best)
    | .error _ => bestHolder token as best

def pickHolder (token : Erc20) (senders : List String) (maxScan : ℕ) : Rpc (Option String) := do
  let best ← bestHolder crates token ((senders.filter (· ≠ zeroAddr)).take maxScan) none
  return best.map Prod.fst

/-- The reverse transfer failed for want of balance or allowance. -/
def SimResult.balanceGated : SimResult → Bool
  | .revertSelector s => s = errInsufficientBalance || s = errInsufficientAllowance
  | _ => false

def verdictOf (toFresh : SimResult) (balanceGated : Bool) : Verdict :=
  match toFresh with
  | .ok =>
    if balanceGated then .permissionless
    else .inconclusive
      "transfer to a fresh address succeeded but the reverse did not fail cleanly for balance — re-run"
  | .revertSelector s => .restricted s!"transfer to a fresh address reverts ({s})"
  | .revertReason r => .restricted s!"transfer to a fresh address reverts: {r}"
  | .err e => .inconclusive e

/-- What a test came to. -/
structure Tested where
  holderProbed : Option String
  transferToFreshOk : Bool
  reverseIsBalanceGated : Bool
  verdict : Verdict

/-- The two transfers, from a holder if there is one. -/
def testTransfers (tokenAddress : String) (opts : ProbeOptions) : Option String → Rpc Tested
  | none => return ⟨none, false, false, .inconclusive "no funded holder in the sampled window"⟩
  | some h => do
    let toFresh ← simulateTransfer crates tokenAddress h opts.freshAddress 1000
    let fromFresh ← simulateTransfer crates tokenAddress opts.freshAddress h 1
    let ok := match toFresh with
      | .ok => true
      | _ => false
    return ⟨some h, ok, fromFresh.balanceGated, verdictOf toFresh fromFresh.balanceGated⟩

/-- `check_transfer_open`. -/
def checkTransferOpen (tokenAddress : String) (opts : ProbeOptions) : Rpc ProbeReport := do
  let token ← .done (Erc20.new crates tokenAddress)
  let tokenMeta ← token.tokenMeta crates
  let supply ← (token.totalSupplyRaw crates).attempt
  let proxy ← detectProxy crates tokenAddress
  let paused ← readPaused crates tokenAddress
  let head ← blockNumber crates
  let fromBlock := if opts.sampleBlocks ≤ head then head - opts.sampleBlocks else 0
  let logs ← getLogs crates {
    address := some (toAsciiLowercase tokenAddress)
    topics := [some (topicHex crates "Transfer(address,address,uint256)")]
    fromBlock
    toBlock := head }
  let traffic ← .done (observeAll logs ⟨[], [], 0⟩)
  let holder ← pickHolder crates token traffic.senders opts.maxHoldersScanned
  let tested ← testTransfers crates tokenAddress opts holder
  return {
    token := tokenMeta
    totalSupplyRaw := supply.toOption.getD 0
    proxy
    paused
    sampledBlocks := head - fromBlock
    transferEvents := logs.length
    walletToWallet := traffic.walletToWallet
    distinctSenders := traffic.senders.length
    distinctRecipients := traffic.recipients.length
    holderProbed := tested.holderProbed
    transferToFreshOk := tested.transferToFreshOk
    reverseIsBalanceGated := tested.reverseIsBalanceGated
    verdict := tested.verdict }

/-! ### What permissionless means -/

section

variable {crates} {node : Node} {asked asked' : List Request} {address : String} {opts : ProbeOptions}

theorem verdictOf_permissionless {toFresh : SimResult} {gated : Bool} :
    verdictOf toFresh gated = .permissionless ↔ toFresh = .ok ∧ gated = true := by
  unfold verdictOf
  cases toFresh <;> cases gated <;> simp

/-- The verdict and the two answers of a test agree. -/
def Tested.Agrees (tested : Tested) : Prop :=
  tested.verdict = .permissionless ↔ tested.transferToFreshOk = true ∧ tested.reverseIsBalanceGated = true

theorem testTransfers_agrees (holder : Option String) :
    (testTransfers crates address opts holder).Ensures node Tested.Agrees := by
  cases holder with
  | none => exact Dialogue.ensures_pure (by simp [Tested.Agrees])
  | some holder =>
    refine Dialogue.ensures_bind fun toFresh => Dialogue.ensures_bind fun fromFresh => Dialogue.ensures_pure ?_
    rw [Tested.Agrees, verdictOf_permissionless]
    cases toFresh <;> simp

/-- **Permissionless.** A report says so exactly if a fresh address could receive and could
not send back for want of balance only. -/
theorem checkTransferOpen_permissionless {report : ProbeReport}
    (h : (checkTransferOpen crates address opts).run node asked = (.ok report, asked')) :
    report.verdict = .permissionless ↔
      report.transferToFreshOk = true ∧ report.reverseIsBalanceGated = true := by
  have hensures : (checkTransferOpen crates address opts).Ensures node fun report =>
      report.verdict = .permissionless ↔
        report.transferToFreshOk = true ∧ report.reverseIsBalanceGated = true := by
    unfold checkTransferOpen
    refine Dialogue.ensures_bind fun token => Dialogue.ensures_bind fun tokenMeta => Dialogue.ensures_bind fun supply =>
      Dialogue.ensures_bind fun proxy => Dialogue.ensures_bind fun paused => Dialogue.ensures_bind fun head =>
      Dialogue.ensures_bind fun logs => Dialogue.ensures_bind fun traffic => Dialogue.ensures_bind fun holder =>
      (testTransfers_agrees holder).bind fun tested htested => Dialogue.ensures_pure htested
  exact hensures _ _ _ h

end

end Sherwood.Chain
