/-
# The configuration

`crates/config/src/lib.rs`: the sections of `config.toml`, their defaults, and
`AppConfig::validate`, which runs the check of each section in turn after the
file is parsed. Not every section has one: the `[ai]` section is checked where
the decider is `ai` only, and `[hook]` never is. What the checks promise is in
the lemmas named after them (`AiSection.validate_ok`, `RiskSection.validate_ok`,
`ServerSection.validate_ok`, `WalletEntry.validate_ok`).

The parser of TOML and the one of socket addresses are parameters, as is
whether the dashboard that `[server]` names is built.

Key definitions: `AppConfig`, `AppConfig.validate`, `HookSection.toAllowlist`,
`RiskSection.toCore`, `AppConfig.format`.
Key theorems: `AppConfig.validate_ok`, `hasDuplicate_iff`, `default_valid`.
-/
import Mathlib.Data.List.Nodup
import Mathlib.Data.List.Sort
import Mathlib.Data.String.Basic
import Sherwood.Router.Router
import Sherwood.Server.Api

namespace Sherwood

/-! ### Errors -/

/-- Why a config is rejected. -/
inductive ConfigError where
  | notInHalfOpen (name : String) (low high value : ℚ)
  | notInClosed (name : String) (low high value : ℚ)
  | notAtLeast (name : String) (low value : ℚ)
  | zero (name : String)
  | mode (mode : String)
  | decider (other : String)
  | required (name : String)
  | notHttp (baseUrl : String)
  | literalApiKey
  | sharedSymbols (overlap : Finset String)
  | noDashboard (dir : String)
  | approvalMode (mode : String)
  | badBind (bind : String)
  | notLoopback (addr : String)
  | notReference (name : String)
  | noSymbols
  | noRpcUrl
  | noPollInterval
  | router (e : RouterError)
  | unnamedWallet
  | noKeyRef (name : String)
  | duplicateWallet
  deriving DecidableEq

/-- The error's `Display`. `listed` is the order in which a set of symbols is
iterated. -/
def ConfigError.text (listed : Finset String → List String) : ConfigError → String
  | .notInHalfOpen name low high value =>
    s!"{name} must be in ({Decimal.display low}, {Decimal.display high}] — got {Decimal.display value}"
  | .notInClosed name low high value =>
    s!"{name} must be in [{Decimal.display low}, {Decimal.display high}] — got {Decimal.display value}"
  | .notAtLeast name low value => s!"{name} must be >= {Decimal.display low} — got {Decimal.display value}"
  | .zero name => s!"{name} must be at least 1"
  | .mode m => s!"general.mode = {m.quote} is not supported. This runner is paper-only; " ++
      "build your own binary with a real Executor for live trading."
  | .decider d => s!"general.decider = {d.quote} is not \"rule\" or \"ai\""
  | .required name => s!"{name} is required when general.decider = \"ai\""
  | .notHttp baseUrl => s!"ai.base_url must be an http(s) URL — got {baseUrl.quote}"
  | .literalApiKey => "ai.api_key must be a vault reference like \"vault:nvidia\", never a literal " ++
      "key — store the key with `sherwood secrets set`"
  | .sharedSymbols overlap =>
    "risk.allowlist and risk.denylist share symbols: [" ++
      ", ".intercalate ((listed overlap).map String.quote) ++ "]"
  | .noDashboard dir => s!"server.static_dir {dir.quote} has no index.html — point it at `frontend/dist` " ++
      "after `npm run build`"
  | .approvalMode m => s!"server.approval_mode must be \"auto\" or \"manual\", got {m.quote}"
  | .badBind bind => s!"server.bind {bind.quote} is not a valid ip:port"
  | .notLoopback addr => s!"server.bind {addr} is not loopback; a public bind needs TLS and is refused"
  | .notReference name => s!"{name} must be a vault reference like \"vault:api_token\""
  | .noSymbols => "chain.enabled = true needs at least one symbol in chain.symbols"
  | .noRpcUrl => "chain.rpc_url must not be empty"
  | .noPollInterval => "chain.poll_interval_secs must be > 0"
  | .router e => s!"[router]: {e.text}"
  | .unnamedWallet => "every [[wallets]] entry needs a name"
  | .noKeyRef name => s!"wallets.{name}: key_ref must not be empty"
  | .duplicateWallet => "duplicate wallet name in [[wallets]]"

/-- `Decimal::MAX`. -/
def Decimal.MAX : ℚ := maxMantissa

/-- `require_in_half_open`: `value` lies in `(low, high]`. -/
def requireInHalfOpen (name : String) (value low high : ℚ) : Outcome ConfigError Unit :=
  .reject (value ≤ low ∨ value > high) (.notInHalfOpen name low high value)

/-- `require_in_closed`: `value` lies in `[low, high]`. -/
def requireInClosed (name : String) (value low high : ℚ) : Outcome ConfigError Unit :=
  .reject (value < low ∨ value > high) (.notInClosed name low high value)

/-- `require_at_least`. -/
def requireAtLeast (name : String) (value low : ℚ) : Outcome ConfigError Unit :=
  .reject (value < low) (.notAtLeast name low value)

section

variable {name : String} {value low high : ℚ} {u : Unit}

@[simp] theorem requireInHalfOpen_eq_ok : requireInHalfOpen name value low high = .ok u ↔
    low < value ∧ value ≤ high := by
  simp [requireInHalfOpen]

@[simp] theorem requireInClosed_eq_ok : requireInClosed name value low high = .ok u ↔
    low ≤ value ∧ value ≤ high := by
  simp [requireInClosed]

@[simp] theorem requireAtLeast_eq_ok : requireAtLeast name value low = .ok u ↔ low ≤ value := by
  simp [requireAtLeast]

end

/-- A reference to an entry of the vault: `starts_with("vault:")`. -/
def IsVaultRef (s : String) : Prop := "vault:".toList <+: s.toList

instance (s : String) : Decidable (IsVaultRef s) := inferInstanceAs (Decidable (_ <+: _))

/-! ### The sections -/

/-- `[general]`. -/
structure General where
  startingCash : ℚ := 1000
  mode : String := "paper"
  statePath : Option String := none
  feedPath : Option String := none
  decider : String := "rule"

/-- `[chain]`. -/
structure ChainSection where
  enabled : Bool := false
  rpcUrl : String := "https://rpc.mainnet.chain.robinhood.com"
  symbols : List String := []
  pollIntervalSecs : UInt64 := 15

def ChainSection.validate (s : ChainSection) : Outcome ConfigError Unit :=
  if s.enabled then do
    .reject (s.symbols = []) .noSymbols
    .reject (s.rpcUrl = "") .noRpcUrl
    .reject (s.pollIntervalSecs = 0) .noPollInterval
  else .ok ()

/-- `[ai]`. The temperature is what `Decimal::try_from` makes of the `f64`. -/
structure AiSection where
  baseUrl : String := ""
  model : String := ""
  apiKey : String := ""
  temperature : Option ℚ := some (2 / 10)
  maxTokens : UInt32 := 300
  requestTimeoutSecs : UInt64 := 20

/-- The fields that the decider cannot do without. -/
def AiSection.requiredFields (s : AiSection) : List (String × String) :=
  [("ai.base_url", s.baseUrl), ("ai.model", s.model), ("ai.api_key", s.apiKey)]

def AiSection.validate (s : AiSection) : Outcome ConfigError Unit := do
  s.requiredFields.forM fun (name, v) => .reject (trimStr v = "") (.required name)
  .reject (¬ "http://".toList <+: s.baseUrl.toList ∧ ¬ "https://".toList <+: s.baseUrl.toList)
    (.notHttp s.baseUrl)
  .reject (¬ IsVaultRef s.apiKey) .literalApiKey
  requireInClosed "ai.temperature" (s.temperature.getD 0) 0 2
  .reject (s.maxTokens = 0) (.zero "ai.max_tokens")
  .reject (s.requestTimeoutSecs = 0) (.zero "ai.request_timeout_secs")

/-- `[risk]`. -/
structure RiskSection where
  maxOrderNotional : ℚ := RiskConfig.default.maxOrderNotional
  maxPositionFraction : ℚ := RiskConfig.default.maxPositionFraction
  maxDailyLoss : ℚ := RiskConfig.default.maxDailyLoss
  maxUnrealizedLoss : ℚ := RiskConfig.default.maxUnrealizedLoss
  maxOpenPositions : ℕ := RiskConfig.default.maxOpenPositions
  orderCooldownSecs : UInt64 := RiskConfig.default.orderCooldownSecs
  maxSlippage : ℚ := RiskConfig.default.maxSlippage
  allowlist : Finset String := RiskConfig.default.allowlist
  denylist : Finset String := RiskConfig.default.denylist
  killSwitch : Bool := RiskConfig.default.killSwitch

/-- `RiskSection::to_core`. -/
def RiskSection.toCore (s : RiskSection) : RiskConfig where
  maxOrderNotional := s.maxOrderNotional
  maxPositionFraction := s.maxPositionFraction
  maxDailyLoss := s.maxDailyLoss
  maxUnrealizedLoss := s.maxUnrealizedLoss
  maxOpenPositions := s.maxOpenPositions
  orderCooldownSecs := s.orderCooldownSecs
  maxSlippage := s.maxSlippage
  allowlist := s.allowlist
  denylist := s.denylist
  killSwitch := s.killSwitch

def RiskSection.validate (s : RiskSection) : Outcome ConfigError Unit := do
  requireInHalfOpen "risk.max_order_notional" s.maxOrderNotional 0 Decimal.MAX
  requireInHalfOpen "risk.max_position_fraction" s.maxPositionFraction 0 1
  requireAtLeast "risk.max_daily_loss" s.maxDailyLoss 0
  requireAtLeast "risk.max_unrealized_loss" s.maxUnrealizedLoss 0
  .reject (s.maxOpenPositions = 0) (.zero "risk.max_open_positions")
  requireInClosed "risk.max_slippage" s.maxSlippage 0 1
  .reject (s.allowlist ∩ s.denylist ≠ ∅) (.sharedSymbols (s.allowlist ∩ s.denylist))

/-- `[copytrade]`. -/
structure CopySection where
  leaders : List String := []
  fixedFraction : Option ℚ := none
  minLeaderNotional : Option ℚ := none
  maxMirrorNotional : Option ℚ := none
  slippage : Option ℚ := none

/-- The checks of `[copytrade]`, where somebody is followed. -/
def CopySection.validate (s : CopySection) : Outcome ConfigError Unit :=
  if s.leaders ≠ [] then do
    s.fixedFraction.forM fun f => requireInHalfOpen "copytrade.fixed_fraction" f 0 1
    [("copytrade.min_leader_notional", s.minLeaderNotional),
        ("copytrade.max_mirror_notional", s.maxMirrorNotional)].forM fun (name, v) =>
      v.forM fun v => requireAtLeast name v 0
    s.slippage.forM fun slip => requireInClosed "copytrade.slippage" slip 0 1
  else .ok ()

/-- `[sniper]`. -/
structure SniperSection where
  enabled : Bool := false
  minInitialLiquidity : Option ℚ := none
  entryNotional : Option ℚ := none

/-- The checks of `[sniper]`, where it is enabled. -/
def SniperSection.validate (s : SniperSection) : Outcome ConfigError Unit :=
  if s.enabled then
    [("sniper.min_initial_liquidity", s.minInitialLiquidity),
        ("sniper.entry_notional", s.entryNotional)].forM fun (name, v) =>
      v.forM fun v => requireInHalfOpen name v 0 Decimal.MAX
  else .ok ()

/-- What the server's check reads of a `std::net::SocketAddr`. -/
structure SocketAddr where
  text : String
  loopback : Bool

/-- `[server]`. -/
structure ServerSection where
  bind : String := "127.0.0.1:8787"
  tokenRef : String := "vault:api_token"
  operatorTokenRef : Option String := none
  viewerTokenRef : Option String := none
  staticDir : Option String := none
  approvalMode : String := "auto"

/-- The token references and their names. -/
def ServerSection.tokenRefs (s : ServerSection) : List (String × Option String) :=
  [("server.token_ref", some s.tokenRef), ("server.operator_token_ref", s.operatorTokenRef),
    ("server.viewer_token_ref", s.viewerTokenRef)]

def ServerSection.validate (readAddr : String → Option SocketAddr) (dashboardBuilt : Bool) (s : ServerSection) :
    Outcome ConfigError Unit := do
  s.staticDir.forM fun dir => .reject (dashboardBuilt = false) (.noDashboard dir)
  .reject (s.approvalMode ≠ "auto" ∧ s.approvalMode ≠ "manual") (.approvalMode s.approvalMode)
  let addr ← .okOr (readAddr s.bind) (.badBind s.bind)
  .reject (addr.loopback = false) (.notLoopback addr.text)
  s.tokenRefs.forM fun (name, r) => r.forM fun r => .reject (¬ IsVaultRef r) (.notReference name)

/-- `[hook]`. -/
structure HookSection where
  readTools : List String := []
  placeTools : List String := []
  cancelTools : List String := []

/-- The tools of a list, all of one class, are added to the allowlist. -/
def ToolAllowlist.allowAll (a : ToolAllowlist) (tools : List String) (toolClass : ToolClass) : ToolAllowlist :=
  tools.foldl (fun a t => a.allow t toolClass) a

/-- `HookSection::to_allowlist`: the reads, then the orders, then the cancels. -/
def HookSection.toAllowlist (s : HookSection) : ToolAllowlist :=
  let a := (⟨∅⟩ : ToolAllowlist).allowAll s.readTools .readOnly
  let a := a.allowAll s.placeTools .placeOrder
  a.allowAll s.cancelTools .cancelOrder

/-- An entry of `[[wallets]]`. -/
structure WalletEntry where
  name : String := ""
  keyRef : String := ""
  allowedSymbols : List String := []
  maxTxCount : UInt32 := 0
  maxNotional : ℚ := 0
  maxDurationSecs : UInt64 := 0

def WalletEntry.validate (w : WalletEntry) : Outcome ConfigError Unit := do
  .reject (w.name = "") .unnamedWallet
  .reject (w.keyRef = "") (.noKeyRef w.name)
  requireAtLeast s!"wallets.{w.name}.max_notional" w.maxNotional 0

/-- `[router]`. -/
structure RouterSection where
  rfqMinNotional : Option ℚ := none
  rfqAvailable : Bool := false

/-- `RouterSection::to_core`. -/
def RouterSection.toCore (s : RouterSection) : RouterConfig := ⟨s.rfqMinNotional, s.rfqAvailable⟩

def RouterSection.validate (s : RouterSection) : Outcome ConfigError Unit :=
  match Router.new s.toCore with
  | .ok _ => .ok ()
  | .error e => .err (.router e)

/-- `config.toml`. -/
structure AppConfig where
  general : General := {}
  risk : RiskSection := {}
  ai : AiSection := {}
  copytrade : CopySection := {}
  sniper : SniperSection := {}
  server : ServerSection := {}
  hook : HookSection := {}
  chain : ChainSection := {}
  wallets : List WalletEntry := []
  router : RouterSection := {}

/-- Whether two of `names` are the same: sorted, two neighbours are. -/
def hasDuplicate (names : List String) : Bool :=
  let sorted := names.mergeSort (· ≤ ·)
  (sorted.zip sorted.tail).any fun pair => pair.1 == pair.2

namespace AppConfig

/-- The check of `[ai]`, if it is the decider. -/
def validateDecider (c : AppConfig) : Outcome ConfigError Unit :=
  match c.general.decider with
  | "rule" => .ok ()
  | "ai" => c.ai.validate
  | other => .err (.decider other)

/-- `AppConfig::validate`. -/
def validate (readAddr : String → Option SocketAddr) (dashboardBuilt : Bool) (c : AppConfig) :
    Outcome ConfigError Unit := do
  .reject (c.general.mode ≠ "paper") (.mode c.general.mode)
  requireInHalfOpen "general.starting_cash" c.general.startingCash 0 Decimal.MAX
  c.validateDecider
  c.risk.validate
  c.server.validate readAddr dashboardBuilt
  c.chain.validate
  c.router.validate
  c.wallets.forM WalletEntry.validate
  .reject (hasDuplicate (c.wallets.map WalletEntry.name)) .duplicateWallet
  c.copytrade.validate
  c.sniper.validate

/-- What the server needs of the config, of a text that `fromStr` reads
(`toml::from_str`). -/
def format (fromStr : String → Except String AppConfig) (readAddr : String → Option SocketAddr)
    (listed : Finset String → List String) : ConfigFormat AppConfig where
  parse := fromStr
  validate c dashboardBuilt :=
    match c.validate readAddr dashboardBuilt with
    | .ok () => .ok ()
    | .err e => .error (e.text listed)
    | .panic => .error "unreachable"
  toReloaded c := {
    risk := c.risk.toCore
    allowlist := c.hook.toAllowlist
    approvalMode := if c.server.approvalMode = "manual" then .manual else .auto }

end AppConfig

/-! ### What the checks promise -/

theorem AiSection.validate_ok {s : AiSection} (h : s.validate = .ok ()) :
    (∀ f ∈ s.requiredFields, trimStr f.2 ≠ "") ∧ IsVaultRef s.apiKey := by
  unfold AiSection.validate at h
  simp only [Outcome.check_eq_ok, Outcome.forM_eq_ok, Outcome.reject_eq_ok, not_not] at h
  obtain ⟨hfields, -, href, -⟩ := h
  exact ⟨hfields, href⟩

theorem RiskSection.validate_ok {s : RiskSection} (h : s.validate = .ok ()) :
    0 < s.maxOrderNotional ∧ 0 < s.maxPositionFraction ∧ 0 ≤ s.maxDailyLoss ∧ 0 ≤ s.maxUnrealizedLoss ∧
      s.maxOpenPositions ≠ 0 ∧ 0 ≤ s.maxSlippage ∧ Disjoint s.allowlist s.denylist := by
  unfold RiskSection.validate at h
  simp only [Outcome.check_eq_ok, requireInHalfOpen_eq_ok, requireInClosed_eq_ok, requireAtLeast_eq_ok,
    Outcome.reject_eq_ok, not_not] at h
  obtain ⟨hnotional, hfraction, hdaily, hunrealized, hopen, hslip, hlists⟩ := h
  exact ⟨hnotional.1, hfraction.1, hdaily, hunrealized, hopen, hslip.1, Finset.disjoint_iff_inter_eq_empty.mpr hlists⟩

theorem ServerSection.validate_ok {s : ServerSection} {readAddr : String → Option SocketAddr} {dashboardBuilt : Bool}
    (h : s.validate readAddr dashboardBuilt = .ok ()) :
    (s.approvalMode = "auto" ∨ s.approvalMode = "manual") ∧
      (∃ addr, readAddr s.bind = some addr ∧ addr.loopback = true) ∧
      ∀ f ∈ s.tokenRefs, ∀ r ∈ f.2, IsVaultRef r := by
  unfold ServerSection.validate at h
  simp only [Outcome.bind_eq_ok, Outcome.forM_eq_ok, Outcome.option_forM_eq_ok, Outcome.okOr_eq_ok,
    Outcome.reject_eq_ok, not_not] at h
  obtain ⟨-, -, -, hmode, addr, haddr, -, hloop, hrefs⟩ := h
  exact ⟨by tauto, ⟨addr, haddr, by simpa using hloop⟩, hrefs⟩

theorem WalletEntry.validate_ok {w : WalletEntry} (h : w.validate = .ok ()) :
    w.name ≠ "" ∧ w.keyRef ≠ "" ∧ 0 ≤ w.maxNotional := by
  unfold WalletEntry.validate at h
  simpa only [Outcome.check_eq_ok, requireAtLeast_eq_ok, Outcome.reject_eq_ok] using h

theorem neighbours_eq_iff {names : List String} (h : names.Pairwise (· ≤ ·)) :
    (names.zip names.tail).any (fun pair => pair.1 == pair.2) = true ↔ ¬ names.Nodup := by
  induction names with
  | nil => simp
  | cons a names ih =>
    obtain ⟨hle, hrest⟩ := List.pairwise_cons.mp h
    cases names with
    | nil => simp
    | cons b names =>
      have hzip : ((a :: b :: names).zip (a :: b :: names).tail).any (fun pair => pair.1 == pair.2) =
          (a == b || ((b :: names).zip (b :: names).tail).any fun pair => pair.1 == pair.2) := rfl
      rw [hzip, Bool.or_eq_true, beq_iff_eq, ih hrest, List.nodup_cons (a := a), not_and_or, not_not]
      refine or_congr_left' fun _ => ⟨fun hab => hab ▸ List.mem_cons_self, fun hmem => ?_⟩
      rcases List.mem_cons.mp hmem with hab | hmem
      · exact hab
      · exact le_antisymm (hle b List.mem_cons_self) ((List.pairwise_cons.mp hrest).1 a hmem)

/-- Two of the names are the same where two neighbours of the sorted names are. -/
theorem hasDuplicate_iff {names : List String} : hasDuplicate names = true ↔ ¬ names.Nodup := by
  unfold hasDuplicate
  rw [neighbours_eq_iff (List.pairwise_mergeSort' _ names), List.nodup_mergeSort]

section

variable {c : AppConfig} {readAddr : String → Option SocketAddr} {dashboardBuilt : Bool}

/-- **What a valid config is.** The sections that are checked pass, and no two
wallets share a name. -/
theorem AppConfig.validate_ok (h : c.validate readAddr dashboardBuilt = .ok ()) :
    c.general.mode = "paper" ∧ 0 < c.general.startingCash ∧ c.validateDecider = .ok () ∧
      c.risk.validate = .ok () ∧ c.server.validate readAddr dashboardBuilt = .ok () ∧
      (∀ w ∈ c.wallets, w.validate = .ok ()) ∧ (c.wallets.map WalletEntry.name).Nodup := by
  unfold AppConfig.validate at h
  simp only [Outcome.check_eq_ok, Outcome.forM_eq_ok, requireInHalfOpen_eq_ok, Outcome.reject_eq_ok,
    hasDuplicate_iff, not_not] at h
  obtain ⟨hmode, hcash, hdecider, hrisk, hserver, -, -, hwallets, hnames, -⟩ := h
  exact ⟨hmode, hcash.1, hdecider, hrisk, hserver, hwallets, hnames⟩

theorem AppConfig.validateDecider_ok (h : c.validateDecider = .ok ()) :
    c.general.decider = "rule" ∨ c.general.decider = "ai" ∧ c.ai.validate = .ok () := by
  unfold AppConfig.validateDecider at h
  split at h
  next hd => exact .inl hd
  next hd => exact .inr ⟨hd, h⟩
  next => cases h

/-- A host that knows the address of the default config. -/
def loopbackAddr (s : String) : Option SocketAddr := if s = "127.0.0.1:8787" then some ⟨s, true⟩ else none

/-- **The defaults.** A config that says nothing is valid. -/
theorem default_valid : AppConfig.validate loopbackAddr dashboardBuilt {} = .ok () := by
  cases dashboardBuilt <;> decide +kernel

end

section

variable {fromStr : String → Except String AppConfig} {readAddr : String → Option SocketAddr}
  {listed : Finset String → List String} {dashboardBuilt : Bool} {toml : String}

theorem AppConfig.format_check_ok_iff :
    (AppConfig.format fromStr readAddr listed).check toml dashboardBuilt = .ok () ↔
      ∃ c, fromStr toml = .ok c ∧ c.validate readAddr dashboardBuilt = .ok () := by
  unfold ConfigFormat.check AppConfig.format
  cases hparse : fromStr toml with
  | error e => simp [hparse]
  | ok c => cases hvalid : c.validate readAddr dashboardBuilt <;> simp [hparse, hvalid]

theorem AppConfig.format_load_ok_iff {path : String} {fresh : Reloaded} :
    (AppConfig.format fromStr readAddr listed).load path toml dashboardBuilt = .ok fresh ↔
      ∃ c, fromStr toml = .ok c ∧ c.validate readAddr dashboardBuilt = .ok () ∧
        (AppConfig.format fromStr readAddr listed).toReloaded c = fresh := by
  unfold ConfigFormat.load AppConfig.format
  cases hparse : fromStr toml with
  | error e => simp [hparse]
  | ok c => cases hvalid : c.validate readAddr dashboardBuilt <;> simp [hparse, hvalid]

end

/-! ### The classes of the tools -/

theorem ToolAllowlist.classify_allow {a : ToolAllowlist} {name tool : String} {cls : ToolClass} :
    (a.allow name cls).classify tool = if tool = name then some cls else a.classify tool := by
  unfold ToolAllowlist.allow ToolAllowlist.classify
  split_ifs with h
  · rw [h, AList.lookup_insert]
  · exact AList.lookup_insert_ne h

theorem ToolAllowlist.classify_allowAll {a : ToolAllowlist} {tools : List String} {tool : String} {cls : ToolClass} :
    (a.allowAll tools cls).classify tool = if tool ∈ tools then some cls else a.classify tool := by
  induction tools generalizing a with
  | nil => rfl
  | cons t tools ih =>
    show ((a.allow t cls).allowAll tools cls).classify tool = _
    rw [ih, classify_allow]
    by_cases hmem : tool ∈ tools
    · simp [hmem]
    · simp [hmem]

/-- **The class of a tool.** A tool of several lists has the class of the last
one: a cancel before an order before a read. -/
theorem HookSection.classify_toAllowlist {s : HookSection} {tool : String} :
    s.toAllowlist.classify tool =
      if tool ∈ s.cancelTools then some .cancelOrder
      else if tool ∈ s.placeTools then some .placeOrder
      else if tool ∈ s.readTools then some .readOnly else none := by
  unfold HookSection.toAllowlist
  simp only [ToolAllowlist.classify_allowAll]
  rfl

theorem HookSection.classify_eq_placeOrder {s : HookSection} {tool : String} :
    s.toAllowlist.classify tool = some .placeOrder ↔ tool ∈ s.placeTools ∧ tool ∉ s.cancelTools := by
  rw [classify_toAllowlist]
  by_cases hcancel : tool ∈ s.cancelTools
  · simp [hcancel]
  · by_cases hplace : tool ∈ s.placeTools
    · simp [hcancel, hplace]
    · simp [hcancel, hplace]

end Sherwood
