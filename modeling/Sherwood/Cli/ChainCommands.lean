/-
# The commands that ask a node

`chain-probe`, `chain-price` and `dex-simulate`, the simulator and the pre-flight of
`sherwood serve`, the reconciler's polling and the live feed. What is signed is broadcast
with other tools: over HTTP, whatever the server replies, a command posts nothing but
reads (`no_broadcast`).

A simulation that returns ran what it shows: its last request is the one call of the
calldata in the outcome, as the sender it was asked for, and the outcome is good exactly if
that call was (`simulated_is_shown`).

Key definitions: `chainProbe`, `chainPrice`, `DexSimulator.simulate`, `ChainCommand`.
Key theorems: `only_program`, `no_broadcast`, `simulated_is_shown`.
-/
import Sherwood.Cli.LiveFeed
import Sherwood.Cli.Preflight
import Sherwood.Reconcile.Polling

namespace Sherwood

open Chain Dex
open DexPreview hiding Task

/-- `DEFAULT_RPC`. -/
def defaultRpc : String := "https://rpc.mainnet.chain.robinhood.com"

def universalRouter : String := "0x8876789976decbfcbbbe364623c63652db8c0904"

/-- The first argument is the endpoint if it looks like one. -/
def splitRpc : List String → String × List String
  | [] => (defaultRpc, [])
  | a :: args =>
    if a.startsWith "http://" ∨ a.startsWith "https://" then (a, args) else (defaultRpc, a :: args)

/-! ### Numbers in requests -/

/-- The digits of `u128::from_str`. -/
def decimalDigits : List Char → (acc : ℕ) → Except String (BitVec 128)
  | [], acc => .ok (.ofNat 128 acc)
  | c :: cs, acc =>
    if c.isDigit then
      if acc * 10 + (c.toNat - '0'.toNat) < 2 ^ 128 then decimalDigits cs (acc * 10 + (c.toNat - '0'.toNat))
      else .error "number too large to fit in target type"
    else .error "invalid digit found in string"

/-- `u128::from_str`, its error as its text. -/
def parseU128 (s : String) : Except String (BitVec 128) :=
  match s.toList with
  | [] => .error "cannot parse integer from empty string"
  | ['+'] => .error "invalid digit found in string"
  | '+' :: cs => decimalDigits cs 0
  | cs => decimalDigits cs 0

section

variable (crates : Crates) (connect : String → Except ChainError Unit)

/-! ### The commands -/

/-- The targets in turn, and whether all are permissionless. -/
def probeAll : List String → DexPreview.Task Bool
  | [] => return true
  | t :: ts => do
    let report ← (checkTransferOpen crates (resolve t).address .default).attempt
    let rest ← probeAll ts
    match report with
    | .ok report => return report.verdict = .permissionless && rest
    | .error _ => return false

/-- The `run` of `chain-probe`; `connect` is how building a client for an endpoint ends. -/
def chainProbe (args : List String) : DexPreview.Task Unit := do
  let (rpc, positional) := splitRpc args
  let targets := if positional = [] then ["NVDA"] else positional
  .done ((Outcome.ofExcept (connect rpc)).mapErr ChainError.text)
  let _ ← context "connecting to the RPC" (chainId crates)
  let _ ← (blockNumber crates).mapErr ChainError.text
  let allPermissionless ← probeAll crates targets
  if allPermissionless then return ()
  else .done (.err "a probed token is restricted or the probe was inconclusive (see above)")

/-- The `run` of `chain-price`. -/
def chainPrice (args : List String) : DexPreview.Task (ℚ × RankedPool) := do
  let (rpc, positional) := splitRpc args
  let token := resolve (positional.getD 0 "NVDA")
  let denom := resolve (positional.getD 1 "USDG")
  .done ((Outcome.ofExcept (connect rpc)).mapErr ChainError.text)
  let head ← context "connecting to the RPC" (blockNumber crates)
  context s!"reading {token.symbol}/{denom.symbol} price"
    (readPrice crates ⟨poolManager, stateView⟩ token.address denom.address ⟨token.decimals, denom.decimals⟩ 0 head)

/-- `dex_preview::simulate`. -/
def simulate (sender : String) (preview : Preview) : Rpc (List UInt8) :=
  callFrom crates sender universalRouter (toHex preview.calldata)

/-- What a simulation is asked for. -/
structure DexSimulateRequest where
  sender : String
  token : String
  amountInRaw : String
  denom : Option String
  slippageBps : Option UInt32

structure DexSimulateOutcome where
  tokenSymbol : String
  denomSymbol : String
  poolFee : UInt32
  poolTickSpacing : Int32
  poolLiquidity : String
  amountOutMinimum : String
  calldataHex : String
  ok : Bool
  detail : String

/-- What is shown of a preview and of what its simulation returned. -/
def DexSimulateOutcome.ofPreview (preview : Preview) (ret : Except ChainError (List UInt8)) : DexSimulateOutcome where
  tokenSymbol := preview.tokenSymbol
  denomSymbol := preview.denomSymbol
  poolFee := preview.poolFee
  poolTickSpacing := preview.poolTickSpacing
  poolLiquidity := toString preview.poolLiquidity.toNat
  amountOutMinimum := toString preview.amountOutMinimum.toNat
  calldataHex := toHex preview.calldata
  ok := ret.isOk
  detail := match ret with
    | .ok ret => s!"eth_call succeeded — {ret.length} bytes returned"
    | .error e => s!"eth_call reverted: {e.text}"

/-- `ChainDexSimulator`, with the text of an output that does not fit and the clock. -/
structure DexSimulator where
  rpcUrl : String
  unfit : String
  now : UInt64

def DexSimulator.simulate (simulator : DexSimulator) (req : DexSimulateRequest) : DexPreview.Task DexSimulateOutcome := do
  let amountIn ← .done (.ofExcept ((parseU128 req.amountInRaw).mapError fun e =>
    s!"amount_in_raw must be an integer (base units): {e}"))
  .done ((Outcome.ofExcept (connect simulator.rpcUrl)).mapErr fun e => s!"connecting to {simulator.rpcUrl}: {e.text}")
  let preview ← build crates simulator.unfit simulator.now req.token amountIn (req.denom.getD "USDG")
    (req.slippageBps.getD 50)
  let ret ← (Sherwood.simulate crates req.sender preview).attempt
  return .ofPreview preview ret

/-- The commands that ask at once; what is printed is left out. -/
inductive ChainCommand where
  | probe (args : List String)
  | price (args : List String)
  | simulate (simulator : DexSimulator) (req : DexSimulateRequest)
  | preflight (rpcUrl : String) (symbols : List String) (denom : String)

def ChainCommand.program : ChainCommand → DexPreview.Task Unit
  | .probe args => chainProbe crates connect args
  | .price args => chainPrice crates connect args >>= fun _ => return ()
  | .simulate simulator req => simulator.simulate crates connect req >>= fun _ => return ()
  | .preflight rpcUrl symbols denom => livePreflight crates (connect rpcUrl) rpcUrl symbols denom

variable {crates connect}

/-! ### Reads only -/

theorem only_context {α : Type} {methods : List String} {x : Rpc α} (text : String) (h : Only methods x) :
    Only methods (context text x) :=
  Dialogue.Asks.mapErr h _

theorem only_probeAll : ∀ targets : List String, Only readMethods (probeAll crates targets)
  | [] => trivial
  | t :: ts => by
    refine Dialogue.Asks.bind (Dialogue.Asks.attempt (only_checkTransferOpen _ _)) fun report => ?_
    refine Dialogue.Asks.bind (only_probeAll ts) fun rest => ?_
    cases report with
    | ok report => exact trivial
    | error e => exact trivial

theorem only_blockNumber : Only readMethods (blockNumber crates) := only_request_bind (by decide) _ _

theorem only_chainProbe (args : List String) : Only readMethods (chainProbe crates connect args) := by
  unfold chainProbe
  refine Dialogue.Asks.bind (Dialogue.asks_done _) fun _ => ?_
  refine Dialogue.Asks.bind (only_context _ (only_request_bind (by decide) _ _)) fun _ => ?_
  refine Dialogue.Asks.bind (Dialogue.Asks.mapErr only_blockNumber _) fun _ => ?_
  refine Dialogue.Asks.bind (only_probeAll _) fun all => ?_
  cases all with
  | true => exact trivial
  | false => exact trivial

theorem only_chainPrice (args : List String) : Only readMethods (chainPrice crates connect args) := by
  unfold chainPrice
  refine Dialogue.Asks.bind (Dialogue.asks_done _) fun _ => ?_
  refine Dialogue.Asks.bind (only_context _ only_blockNumber) fun head => ?_
  exact only_context _ (only_readPrice _ _ _ _ _ _)

theorem only_build (unfit : String) (now : UInt64) (tokenArg : String) (amountIn : BitVec 128) (denomArg : String)
    (slippageBps : UInt32) : Only readMethods (build crates unfit now tokenArg amountIn denomArg slippageBps) := by
  unfold build
  refine Dialogue.Asks.bind (only_context _ only_blockNumber) fun head => ?_
  refine Dialogue.Asks.bind (only_context _ (only_findBestPool _ _ _ _ _)) fun best => ?_
  refine Dialogue.Asks.bind (only_context _ (only_quotePool (by decide) _ _ _ _)) fun spotPrice => ?_
  refine Dialogue.Asks.bind (Dialogue.asks_done _) fun _ => ?_
  refine Dialogue.Asks.bind (Dialogue.asks_done _) fun _ => ?_
  exact Dialogue.Asks.bind (Dialogue.asks_done _) fun _ => trivial

theorem only_simulator (simulator : DexSimulator) (req : DexSimulateRequest) :
    Only readMethods (simulator.simulate crates connect req) := by
  unfold DexSimulator.simulate
  refine Dialogue.Asks.bind (Dialogue.asks_done _) fun _ => ?_
  refine Dialogue.Asks.bind (Dialogue.asks_done _) fun _ => ?_
  refine Dialogue.Asks.bind (only_build _ _ _ _ _ _) fun preview => ?_
  exact Dialogue.Asks.bind (Dialogue.Asks.attempt (only_callInner (by decide) _ _ _)) fun _ => trivial

theorem only_checkToken (raw : String) : Only readMethods (checkToken crates raw) := by
  unfold checkToken
  refine Dialogue.Asks.bind (Dialogue.Asks.mapErr (only_checkTransferOpen _ _) _) fun report => ?_
  cases report.verdict with
  | permissionless => exact trivial
  | restricted why => exact trivial
  | inconclusive why => exact trivial

theorem only_livePreflight (connect : Except ChainError Unit) (rpcUrl : String) (symbols : List String)
    (denom : String) : Only readMethods (livePreflight crates connect rpcUrl symbols denom) := by
  unfold livePreflight ChainLivePreflight.check
  split_ifs
  · exact trivial
  · exact Dialogue.Asks.bind (Dialogue.asks_done _) fun _ => Dialogue.Asks.forM only_checkToken _

theorem only_program (command : ChainCommand) : Only readMethods (command.program crates connect) := by
  cases command with
  | probe args => exact only_chainProbe args
  | price args => exact Dialogue.Asks.bind (only_chainPrice args) fun _ => trivial
  | simulate simulator req => exact Dialogue.Asks.bind (only_simulator simulator req) fun _ => trivial
  | preflight rpcUrl symbols denom => exact only_livePreflight _ _ _ _

/-! ### On the wire -/

/-- What a post may say. -/
def PostsRead (w : Wire) : Prop := ∀ body, w = .post body → ∃ id q, body = requestBody id q ∧ q.method ∈ readMethods

theorem asks_postRetrying {P : Wire → Prop} {body : Json} (hpost : P (.post body)) (hsleep : ∀ d, P (.sleep d)) :
    ∀ retries, (postRetrying body retries).Asks P
  | 0 => ⟨hpost, fun _ => trivial⟩
  | retries + 1 => by
    unfold postRetrying
    refine Dialogue.Asks.bind ⟨hpost, fun _ => trivial⟩ fun resp => ?_
    split_ifs
    · exact Dialogue.Asks.bind ⟨hsleep _, fun _ => trivial⟩ fun _ => asks_postRetrying hpost hsleep retries
    · exact trivial

theorem asks_request {id : UInt64} {q : Request} (h : q.method ∈ readMethods) :
    (HttpClient.request crates id q).Asks PostsRead := by
  have hpost : PostsRead (.post (requestBody id q)) := fun body heq => ⟨id, q, (Wire.post.inj heq).symm, h⟩
  have hsleep (d : ℕ) : PostsRead (.sleep d) := fun body heq => absurd heq Wire.noConfusion
  exact Dialogue.Asks.bind (asks_postRetrying hpost hsleep _) fun _ => trivial

theorem asks_overHttp {ε α : Type} {x : Dialogue Request (Outcome ChainError Json) ε α} (h : Only readMethods x) :
    (overHttp crates x).Asks PostsRead := by
  have hclient (n : ℕ) (q : Request) (hq : q.method ∈ readMethods) :
      ((HttpClient.request crates (.ofNat (n + 1)) q).outcome : Dialogue Wire _ ε _).Asks PostsRead :=
    Dialogue.Asks.outcome (asks_request hq)
  exact Dialogue.Asks.through hclient h 0

/-! ### In time -/

/-- What an effect may ask for. -/
def Effect.Asks (P : Request → Prop) (e : Effect) : Prop := ∀ q, e = .request q → P q

theorem asks_now {ε : Type} {P : Request → Prop} : (Live.now : Live ε ℕ).Asks (Effect.Asks P) :=
  ⟨fun _ heq => absurd heq Effect.noConfusion, fun _ => trivial⟩

theorem asks_sleep {ε : Type} {P : Request → Prop} (d : ℕ) : (Live.sleep d : Live ε Unit).Asks (Effect.Asks P) :=
  ⟨fun _ heq => absurd heq Effect.noConfusion, fun _ => trivial⟩

theorem asks_polling (p : Polling) (deadline : ℕ) : ∀ turns,
    (p.polling deadline turns).Asks (Effect.Asks (· = p.receiptRequest))
  | 0 => trivial
  | turns + 1 => by
    have hread : p.getTransactionReceipt.Asks (· = p.receiptRequest) :=
      Dialogue.Asks.bind ⟨rfl, fun _ => trivial⟩ fun _ => trivial
    have honce : p.reconcileOnce.Asks (Effect.Asks (· = p.receiptRequest)) :=
      Dialogue.Asks.bind (LiveFeed.asks_live hread) fun _ => trivial
    unfold Polling.polling
    refine Dialogue.Asks.bind honce fun outcome => ?_
    cases outcome with
    | notFound =>
      refine Dialogue.Asks.bind asks_now fun now => ?_
      split_ifs
      · exact Dialogue.Asks.bind (asks_sleep _) fun _ => asks_polling p deadline turns
      · exact trivial
    | reverted receipt => exact trivial
    | confirmed receipt fill => exact trivial

theorem asks_nextTick (turns : ℕ) (utc : DateTime) (feed : ChainFeed) :
    (feed.nextTick crates turns utc : Live ChainError _).Asks (Effect.Asks (·.method ∈ readMethods)) := by
  have hsleepOver : ∀ deadline, (ChainFeed.sleepOver deadline : Live ChainError Unit).Asks
      (Effect.Asks (·.method ∈ readMethods)) := by
    intro deadline
    cases deadline with
    | none => exact trivial
    | some t =>
      refine Dialogue.Asks.bind asks_now fun now => ?_
      split_ifs
      · exact ⟨fun _ heq => absurd heq Effect.noConfusion, fun _ => trivial⟩
      · exact trivial
  have hread (feed : ChainFeed) : (feed.readTick crates turns utc : Live ChainError _).Asks
      (Effect.Asks (·.method ∈ readMethods)) := by
    unfold ChainFeed.readTick
    cases feed.symbols[feed.idx]? with
    | none => exact trivial
    | some sym =>
      refine Dialogue.Asks.bind (LiveFeed.asks_readOne LiveFeed.only_attemptRead_reads turns 0) fun r => ?_
      cases r with
      | none => exact trivial
      | some result => exact trivial
  unfold ChainFeed.nextTick
  split_ifs
  · exact trivial
  · refine Dialogue.Asks.bind (Dialogue.Asks.bind (hsleepOver _) fun _ => ?_) hread
    exact Dialogue.Asks.bind asks_now fun _ => trivial
  · exact hread feed

/-- **Nothing is broadcast.** Whatever is replied: over HTTP every post of a command is of a
reading method, the reconciler asks for nothing but its receipt, and the feed for nothing
but reads. -/
theorem no_broadcast (crates : Crates) (connect : String → Except ChainError Unit) :
    (∀ (command : ChainCommand) (server : HttpServer),
      ∀ w ∈ ((overHttp crates (command.program crates connect)).run server []).2, PostsRead w) ∧
    (∀ (p : Polling) (turns : ℕ) (world : World), ∀ e ∈ ((p.waitAndReconcile turns).run world []).2,
      ∀ q, e = .request q → q = p.receiptRequest) ∧
    ∀ (feed : ChainFeed) (turns : ℕ) (utc : DateTime) (world : World),
      ∀ e ∈ ((feed.nextTick crates turns utc : Live ChainError _).run world []).2,
        ∀ q, e = .request q → q.method ∈ readMethods := by
  refine ⟨fun command server w hw => ?_, fun p turns world e he => ?_, fun feed turns utc world e he => ?_⟩
  · exact Dialogue.Asks.of_mem_run (asks_overHttp (only_program command)) hw
  · have hwhole : (p.waitAndReconcile turns).Asks (Effect.Asks (· = p.receiptRequest)) :=
      Dialogue.Asks.bind asks_now fun start => asks_polling p _ turns
    exact hwhole.of_mem_run he
  · exact (asks_nextTick turns utc feed).of_mem_run he

end

/-! ### What is simulated -/

/-- **A simulation is of what it shows.** What comes before the last request is the preview's;
that one calls the router with the calldata that is shown, a swap of the best pool for the
whole amount, as the sender that was asked for. The outcome is good exactly if bytes come
back. -/
theorem simulated_is_shown (crates : Crates) (connect : String → Except ChainError Unit) (simulator : DexSimulator)
    (req : DexSimulateRequest) (node : Node) (asked : List Request) {asked' : List Request} {outcome : DexSimulateOutcome}
    (h : (simulator.simulate crates connect req).run node asked = (.ok outcome, asked')) :
    ∃ amountIn preview mid, parseU128 req.amountInRaw = .ok amountIn ∧
      (build crates simulator.unfit simulator.now req.token amountIn (req.denom.getD "USDG")
        (req.slippageBps.getD 50)).run node asked = (.ok preview, mid) ∧
      asked' = mid ++ [callRequest (some req.sender) universalRouter outcome.calldataHex] ∧
      (outcome.ok = true ↔ ∃ ret,
        node mid (callRequest (some req.sender) universalRouter outcome.calldataHex) >>= bytesOf crates = .ok ret) ∧
      ∃ best asked₁ asked₂ data, (findBestPool crates ⟨poolManager, stateView⟩ (resolve req.token).address
          (resolve (req.denom.getD "USDG")).address 0 preview.head).run node asked₁ = (.ok best, asked₂) ∧
        (ExactInputSingleSwap.mk best.key (zeroForOne best.key (resolve req.token).address) amountIn
          preview.amountOutMinimum).executeCalldata crates.hexDecode crates.keccak256
            (deadlineFromNow simulator.now 1800) = .ok data ∧ outcome.calldataHex = toHex data := by
  obtain ⟨amountIn, mid₀, hamount, hrest⟩ := Dialogue.run_bind_eq_ok.mp h
  obtain ⟨connected, mid₁, hconnect, hrest⟩ := Dialogue.run_bind_eq_ok.mp hrest
  obtain ⟨preview, mid, hbuild, hrest⟩ := Dialogue.run_bind_eq_ok.mp hrest
  obtain ⟨ret, mid₂, hcall, hend⟩ := Dialogue.run_bind_eq_ok.mp hrest
  obtain ⟨hparsed, rfl⟩ := Prod.mk.inj hamount
  obtain ⟨-, rfl⟩ := Prod.mk.inj hconnect
  obtain ⟨houtcome, rfl⟩ := Prod.mk.inj hend
  obtain rfl := Outcome.ok.inj houtcome
  rw [Dialogue.run_attempt, simulate, callFrom, run_callInner] at hcall
  obtain ⟨hret, hasked⟩ := Prod.mk.inj hcall
  refine ⟨amountIn, preview, mid, Outcome.ofExcept_mapError_eq_ok.mp hparsed, hbuild, hasked.symm, ?_, ?_⟩
  · show ret.isOk = true ↔ ∃ bytes, node mid (callRequest (some req.sender) universalRouter (toHex preview.calldata)) >>=
      bytesOf crates = .ok bytes
    cases hreply : node mid (callRequest (some req.sender) universalRouter (toHex preview.calldata)) >>=
        bytesOf crates with
    | ok bytes =>
      rw [hreply] at hret
      obtain rfl := Outcome.ok.inj hret
      exact iff_of_true rfl ⟨bytes, rfl⟩
    | err e =>
      rw [hreply] at hret
      obtain rfl := Outcome.ok.inj hret
      exact iff_of_false Bool.false_ne_true (by simp)
    | panic =>
      rw [hreply] at hret
      cases hret
  · obtain ⟨best, asked₁, asked₂, hbest, hdata⟩ := build_swap hbuild
    exact ⟨best, asked₁, asked₂, _, hbest, hdata, rfl⟩

/-- With the reads of a preview and an amount that can be had, the preview is there. -/
theorem build_of_quotes {crates : Crates} {unfit : String} {now : UInt64} {node : Node} {tokenArg denomArg : String}
    {amountIn expected minimum : BitVec 128} {slippageBps : UInt32} {asked : List Request} {best : RankedPool}
    {spotPrice : ℚ} (h : Quotes crates node tokenArg denomArg asked best spotPrice)
    (hexpected : expectedOutRaw crates.checks unfit amountIn (resolve tokenArg).decimals (resolve denomArg).decimals
      spotPrice = .ok expected)
    (hminimum : amountOutMinimum expected slippageBps = .ok minimum) : ∃ preview asked',
      (build crates unfit now tokenArg amountIn denomArg slippageBps).run node asked = (.ok preview, asked') ∧
      preview.amountOutMinimum = minimum := by
  obtain ⟨head, asked₁, asked₂, asked₃, hhead, hbest, hprice⟩ := h
  obtain ⟨⟨id, hid⟩, -⟩ := quotePool_spec hprice
  obtain ⟨raw0, raw1, rawHooks, h0, h1, hh⟩ := isAddress_of_poolId hid
  have hdata := executeCalldata_eq
    (s := ⟨best.key, zeroForOne best.key (resolve tokenArg).address, amountIn, minimum⟩) h0 h1 hh crates.keccak256
    (deadlineFromNow now 1800)
  refine ⟨_, _, Dialogue.run_bind_eq_ok.mpr ⟨_, _, run_context_eq_ok.mpr hhead,
    Dialogue.run_bind_eq_ok.mpr ⟨_, _, run_context_eq_ok.mpr hbest,
    Dialogue.run_bind_eq_ok.mpr ⟨_, _, run_context_eq_ok.mpr hprice,
    Dialogue.run_bind_eq_ok.mpr ⟨_, _, congrArg (·, _) hexpected,
    Dialogue.run_bind_eq_ok.mpr ⟨_, _, congrArg (·, _) (Outcome.ofExcept_mapError_eq_ok.mpr hminimum),
    Dialogue.run_bind_eq_ok.mpr ⟨_, _, congrArg (·, _) (Outcome.ofExcept_mapError_eq_ok.mpr hdata), rfl⟩⟩⟩⟩⟩⟩, rfl⟩

/-- A thousand units of WETH, as nobody in particular. -/
def wethRequest : DexSimulateRequest := ⟨"0x0000000000000000000000000000000000000001", "WETH", "1000", none, none⟩

theorem exists_bytes_quoted (n : ℕ) : ∃ ret, bytesOf poolCrates (quotedReplies.getD n .null) = .ok ret := by
  have hhex (bytes : List UInt8) : bytesOf poolCrates (.str (toHex bytes)) = .ok bytes :=
    congrArg Outcome.ofExcept (fromHex_toHex readsHex_hexDecode bytes)
  by_cases hlate : 5 ≤ n
  · have hlength : quotedReplies.length = 5 := by decide +kernel
    rw [List.getD_eq_getElem?_getD, List.getElem?_eq_none (hlength ▸ hlate)]
    exact ⟨[], rfl⟩
  · match n, hlate with
    | 0, _ => exact ⟨[16], rfl⟩
    | 1, _ => exact ⟨[], rfl⟩
    | 2, _ => exact ⟨[], rfl⟩
    | 3, _ => exact ⟨_, hhex _⟩
    | 4, _ => exact ⟨_, hhex _⟩
    | m + 5, hlate => exact absurd (Nat.le_add_left 5 m) hlate

theorem simulated_is_shown_weth : ∃ outcome mid, ((DexSimulator.mk "" "" 0).simulate poolCrates (fun _ => .ok ())
      wethRequest).run quotedNode [] =
        (.ok outcome, mid ++ [callRequest (some wethRequest.sender) universalRouter outcome.calldataHex]) ∧
    outcome.amountOutMinimum = "995" ∧ outcome.ok = true := by
  obtain ⟨best, hquotes⟩ := quotes_weth
  have hexpected : expectedOutRaw poolCrates.checks "" 1000 (resolve "WETH").decimals (resolve "USDG").decimals (10 ^ 12) =
      .ok 1000 := Outcome.value_eq_some.mp (by decide +kernel)
  have hminimum : amountOutMinimum 1000 50 = .ok 995 := by rfl
  obtain ⟨preview, mid, hbuild, hpreview⟩ := @build_of_quotes _ _ 0 _ _ _ _ _ _ 50 _ _ _ hquotes hexpected hminimum
  obtain ⟨ret, hret⟩ := exists_bytes_quoted mid.length
  have hcall : ((simulate poolCrates wethRequest.sender preview).attempt : DexPreview.Task _).run quotedNode mid =
      (.ok (.ok ret), mid ++ [callRequest (some wethRequest.sender) universalRouter (toHex preview.calldata)]) := by
    rw [Dialogue.run_attempt, simulate, callFrom, run_callInner, quotedNode, Outcome.ok_bind, hret]
  have hrun : ((DexSimulator.mk "" "" 0).simulate poolCrates (fun _ => .ok ()) wethRequest).run quotedNode [] =
      (.ok (.ofPreview preview (.ok ret)), mid ++ [callRequest (some wethRequest.sender) universalRouter
        (toHex preview.calldata)]) :=
    Dialogue.run_bind_eq_ok.mpr ⟨1000, [], rfl, Dialogue.run_bind_eq_ok.mpr ⟨(), [], rfl,
      Dialogue.run_bind_eq_ok.mpr ⟨preview, mid, hbuild, Dialogue.run_bind_eq_ok.mpr ⟨.ok ret, _, hcall, rfl⟩⟩⟩⟩
  obtain ⟨_, preview', mid', _, _, hasked, hok, -⟩ := simulated_is_shown _ _ _ _ _ _ hrun
  refine ⟨_, mid', hrun.trans (congrArg (Prod.mk _) hasked), ?_, rfl⟩
  show toString preview.amountOutMinimum.toNat = "995"
  rw [hpreview]
  rfl

end Sherwood
