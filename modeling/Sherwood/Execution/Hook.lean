/-
# The hook gate

`HookGate::evaluate` of `crates/execution/src/hook.rs`, which answers every
tool call of the agent: a tool that is not listed is denied, reads and
cancels are allowed, and an order is read, checked by the risk gate and
allowed if both succeed. `none` is a panic.

What an allowed order satisfies is less than the limits say
(`hook_sound_iff`): its price may be negative, and then it satisfies every
cap, however large; and the cap on the position's fraction is not applied
where equity is not positive. What the gate computes before it rejects an
order may not fit a `Decimal`, and panics (`hook_panics_iff`). Both hold whatever
`Decimal::from_str` makes of the texts in the arguments.

Key definitions: `ToolAllowlist`, `HookGate.evaluate`, `evaluatePayload`,
`OrderLimits`.
Key theorems: `evaluate_place_allow_iff`, `hook_sound_iff`,
`hook_panics_iff`.
-/
import Sherwood.Core.Risk
import Sherwood.Execution.OrderParse

namespace Sherwood

/-- One pending tool call. -/
structure ToolCall where
  name : String
  arguments : Json

/-- How a permitted tool is treated. -/
inductive ToolClass where
  | readOnly
  | placeOrder
  | cancelOrder
  deriving DecidableEq, Repr

/-- The tools the agent may call, and their classes. -/
structure ToolAllowlist where
  tools : Table String ToolClass

namespace ToolAllowlist

/-- `ToolAllowlist::allow`: add or replace one entry. -/
def allow (t : ToolAllowlist) (name : String) (toolClass : ToolClass) : ToolAllowlist :=
  ⟨t.tools.insert name toolClass⟩

/-- `ToolAllowlist::from_pairs`. -/
def fromPairs (pairs : List (String × ToolClass)) : ToolAllowlist :=
  pairs.foldl (fun t e => t.allow e.1 e.2) ⟨∅⟩

/-- `ToolAllowlist::classify`: the class of a tool, if it is listed. -/
def classify (t : ToolAllowlist) (name : String) : Option ToolClass := t.tools.lookup name

end ToolAllowlist

/-- The answer to a tool call. -/
inductive HookOutcome where
  | allow
  | deny (reason : String)
  deriving DecidableEq, Repr

/-- The list of tools, the limits, and the slippage of orders that name none. -/
structure HookGate where
  allowlist : ToolAllowlist
  gate : RiskConfig
  defaultMaxSlippage : ℚ

namespace HookGate

/-- `HookGate::new`. -/
def new (allowlist : ToolAllowlist) (gate : RiskConfig) : HookGate := ⟨allowlist, gate, 0⟩

/-- `evaluate_order`: read the order at `parsedAt` and check it. -/
def evaluateOrder (A : Arith) (g : HookGate) (call : ToolCall) (ctx : GateContext) (parsedAt : DateTime) :
    Option HookOutcome :=
  match parseOrder A call.name call.arguments g.defaultMaxSlippage parsedAt with
  | .err e => some (.deny s!"rejected order tool call: {e.text}")
  | .panic => none
  | .ok order =>
    match RiskGate.check A g.gate order ctx with
    | .ok () => some .allow
    | .err reject => some (.deny s!"risk gate: {reject.text}")
    | .panic => none

/-- `HookGate::evaluate`. -/
def evaluate (A : Arith) (g : HookGate) (call : ToolCall) (ctx : GateContext) (parsedAt : DateTime) :
    Option HookOutcome :=
  match g.allowlist.classify call.name with
  | none => some (.deny s!"tool `{call.name}` is not on the allowlist")
  | some .readOnly | some .cancelOrder => some .allow
  | some .placeOrder => g.evaluateOrder A call ctx parsedAt

end HookGate

/-- `evaluate_payload`: evaluate a JSON payload, which `fromStr` reads
(`serde_json::from_str`). -/
def evaluatePayload (A : Arith) (fromStr : String → Except String ToolCall) (payload : String)
    (allowlist : ToolAllowlist) (gate : RiskConfig) (ctx : GateContext) (parsedAt : DateTime) :
    Option HookOutcome :=
  match fromStr payload with
  | .ok call => (HookGate.new allowlist gate).evaluate A call ctx parsedAt
  | .error e => some (.deny s!"unparseable hook payload: {e}")

section

variable {A : Arith} {g : HookGate} {call : ToolCall} {ctx : GateContext} {t : DateTime}

theorem evaluate_place_allow_iff (h : g.allowlist.classify call.name = some .placeOrder) :
    g.evaluate A call ctx t = some .allow ↔
      ∃ order, parseOrder A call.name call.arguments g.defaultMaxSlippage t = .ok order ∧
        RiskGate.check A g.gate order ctx = .ok () := by
  unfold HookGate.evaluate HookGate.evaluateOrder
  simp only [h]
  cases hp : parseOrder A call.name call.arguments g.defaultMaxSlippage t with
  | ok order => cases hc : RiskGate.check A g.gate order ctx <;> simp [hc]
  | err e => simp
  | panic => simp

/-- The gate panics on an order tool only, when its reader or the risk gate
does. -/
theorem evaluate_eq_none_iff : g.evaluate A call ctx t = none ↔
    g.allowlist.classify call.name = some .placeOrder ∧ (SizeOverflows A call.arguments ∨
      ∃ order, parseOrder A call.name call.arguments g.defaultMaxSlippage t = .ok order ∧
        RiskGate.Overflows A g.gate order ctx) := by
  have hpanic : parseOrder A call.name call.arguments g.defaultMaxSlippage t = .panic ↔
      SizeOverflows A call.arguments := parseOrder_panic_iff
  unfold HookGate.evaluate
  cases hcls : g.allowlist.classify call.name with
  | none => simp
  | some cls =>
    cases cls
    · simp
    · rw [← hpanic]
      simp only [HookGate.evaluateOrder, true_and]
      cases hp : parseOrder A call.name call.arguments g.defaultMaxSlippage t with
      | ok order =>
        have hcheck : RiskGate.check A g.gate order ctx = .panic ↔ RiskGate.Overflows A g.gate order ctx :=
          RiskGate.check_panic_iff
        cases hc : RiskGate.check A g.gate order ctx <;> simp [hc, ← hcheck]
      | err e => simp
      | panic => simp
    · simp

theorem fits_of_answer (h : g.allowlist.classify call.name = some .placeOrder) {outcome : HookOutcome}
    (hanswer : g.evaluate A call ctx t = some outcome) : ¬ SizeOverflows A call.arguments := by
  intro hover
  rw [evaluate_eq_none_iff.mpr ⟨h, .inl hover⟩] at hanswer
  cases hanswer

theorem evaluate_deny (h : g.allowlist.classify call.name = some .placeOrder) (hfit : ¬ SizeOverflows A call.arguments)
    (hno : ∀ order, parseOrder A call.name call.arguments g.defaultMaxSlippage t = .ok order →
      ¬ Permitted g.gate order ctx) : ∃ reason, g.evaluate A call ctx t = some (.deny reason) := by
  cases heval : g.evaluate A call ctx t with
  | none =>
    obtain ⟨-, hover | ⟨order, hparse, hover⟩⟩ := evaluate_eq_none_iff.mp heval
    · exact absurd hover hfit
    · exact absurd hover.permitted (hno order hparse)
  | some outcome =>
    cases outcome with
    | deny reason => exact ⟨reason, rfl⟩
    | allow =>
      obtain ⟨order, hparse, hcheck⟩ := (evaluate_place_allow_iff h).mp heval
      exact absurd (RiskGate.check_ok_priced hcheck).1 (hno order hparse)

end

/-! ### What is allowed -/

/-- The limits, for an order at `price`. -/
structure OrderLimits (cfg : RiskConfig) (order : Order) (ctx : GateContext) (price : ℚ) : Prop where
  notional_pos : 0 < order.qty * price
  notional_le : order.qty * price ≤ cfg.maxOrderNotional ∨
    order.side = .sell ∧ order.qty ≤ ctx.portfolio.position order.asset.symbol
  permitted : Permitted cfg order ctx
  cash : order.side = .buy → order.qty * price ≤ ctx.portfolio.cash
  unrealized : order.side = .buy → -cfg.maxUnrealizedLoss < ctx.unrealizedPnl
  slot : order.side = .buy → ctx.portfolio.position order.asset.symbol = 0 →
    ctx.portfolio.openPositionCount < cfg.maxOpenPositions
  cooled : order.side = .buy → CooledDown cfg ctx
  fraction : order.side = .buy → order.resultingQty ctx * price ≤ cfg.maxPositionFraction * ctx.equity

/-- **What is allowed.** An allowed order was read, is of a positive quantity
and has a price. It is within the limits exactly if that price is positive
and, for a buy, the cooldown is one the gate can compare and equity is
positive, or not so but the position is within its fraction. -/
theorem hook_sound_iff (readText : List Char → Option ℚ) (g : HookGate) (call : ToolCall) (ctx : GateContext)
    (t : DateTime) (hplace : g.allowlist.classify call.name = some .placeOrder)
    (hallow : g.evaluate (.reading .exact readText) call ctx t = some .allow) :
    ∃ order price,
      parseOrder (.reading .exact readText) call.name call.arguments g.defaultMaxSlippage t = .ok order ∧
      0 < order.qty ∧ order.mark ctx = some price ∧
      (OrderLimits g.gate order ctx price ↔ 0 < price ∧ (order.side = .buy →
        (g.gate.orderCooldownSecs.toNat < 2 ^ 63 ∨ ctx.lastOrderAt = none) ∧
        (0 < ctx.equity ∨
          order.resultingQty ctx * price ≤ g.gate.maxPositionFraction * ctx.equity))) := by
  obtain ⟨order, hparse, hcheck⟩ := (evaluate_place_allow_iff hplace).mp hallow
  obtain ⟨-, -, -, -, hqty, -⟩ := parseOrder_ok hparse
  rw [RiskGate.check_reading] at hcheck
  obtain ⟨hperm, price, hmark, hcap, -⟩ := RiskGate.check_exact_ok_iff.mp hcheck
  refine ⟨order, price, hparse, hqty, hmark, ?_⟩
  constructor
  · intro h
    refine ⟨(mul_pos_iff_of_pos_left hqty).mp h.notional_pos, fun hb => ?_⟩
    obtain ⟨hg, -⟩ := buy_limits hb hmark hcheck
    exact ⟨(cooledDown_iff hg.cooled).mp (h.cooled hb), .inr (h.fraction hb)⟩
  · rintro ⟨hprice, hbuy⟩
    refine ⟨mul_pos hqty hprice, .inl hcap, hperm, ?_, ?_, ?_, ?_, ?_⟩ <;> intro hb <;>
      obtain ⟨hg, hfrac⟩ := buy_limits hb hmark hcheck
    · exact hg.cash
    · exact hg.unrealized
    · exact hg.slot
    · exact (cooledDown_iff hg.cooled).mpr (hbuy hb).1
    · exact (hbuy hb).2.elim hfrac id

/-- A tool to place orders and one to read positions. -/
def someTools : ToolAllowlist := .fromPairs [("get_positions", .readOnly), ("place_order", .placeOrder)]

/-- A call to buy `quantity` of `ROAR` at `price`. -/
def buyCall (quantity price : Json) : ToolCall :=
  ⟨"place_order", .obj [("symbol", .str " roar "), ("side", .str "buy"), ("quantity", quantity), ("price", price)]⟩

/-- The order of such a call. -/
def buyOrder (qty price : ℚ) : Order :=
  ⟨⟨"hook-0"⟩, .ofSymbol "ROAR", .buy, qty, some price, 0, .robinhoodMcp, "agent tool call: place_order"⟩

theorem hook_sound_buy : OrderLimits .default (buyOrder (3 / 2) 10) (contextOf (.new 1000) 10) 10 := by
  obtain ⟨order, price, hparse, -, hmark, hiff⟩ := hook_sound_iff Decimal.scan (.new someTools .default)
    (buyCall (.str "1.5") (.str "$10")) (contextOf (.new 1000) 10) .epoch (by decide) (by decide +kernel)
  have horder : order = buyOrder (3 / 2) 10 := by
    rw [← Outcome.value_eq_some] at hparse
    exact Option.some.inj (hparse.symm.trans (by decide +kernel))
  obtain rfl : price = 10 := by
    rw [horder] at hmark
    exact Option.some.inj hmark.symm
  rw [horder] at hiff
  exact hiff.mpr ⟨by decide +kernel, fun _ => ⟨.inl (by decide), .inl (by decide +kernel)⟩⟩

/-- A buy of a thousand at minus five is allowed, with 1000 of cash and a cap
of 100 an order. -/
theorem negative_price_allowed :
    let call := buyCall (.num (.posInt 1000)) (.num (.negInt (-5)))
    let ctx := contextOf (.new 1000) 10
    someTools.classify call.name = some .placeOrder ∧
      (HookGate.new someTools .default).evaluate .exact call ctx .epoch = some .allow ∧
      parseOrder .exact call.name call.arguments 0 .epoch = .ok (buyOrder 1000 (-5)) ∧
      (buyOrder 1000 (-5)).mark ctx = some (-5) ∧ ¬ OrderLimits .default (buyOrder 1000 (-5)) ctx (-5) := by
  refine ⟨by decide, by decide +kernel, ?_, rfl, fun h => ?_⟩
  · rw [← Outcome.value_eq_some]
    decide +kernel
  · have hpos := h.notional_pos
    revert hpos
    decide +kernel

/-! ### Panics -/

/-- **Panics.** The hook panics on a payload exactly when it is a call of an
order tool whose quantity does not fit, being a notional at a price, or one
whose order reaches an operation of the risk gate that does not fit; and what
does not fit a `Decimal` is at least `2^96 - 1/2` in size. -/
theorem hook_panics_iff (readText : List Char → Option ℚ) (fromStr : String → Except String ToolCall)
    (payload : String) (allowlist : ToolAllowlist) (cfg : RiskConfig) (ctx : GateContext) (t : DateTime) :
    (evaluatePayload (.reading .dec96 readText) fromStr payload allowlist cfg ctx t = none ↔
      ∃ call, fromStr payload = .ok call ∧ allowlist.classify call.name = some .placeOrder ∧
        (SizeOverflows (.reading .dec96 readText) call.arguments ∨
          ∃ order, parseOrder (.reading .dec96 readText) call.name call.arguments 0 t = .ok order ∧
            RiskGate.Overflows .dec96 cfg order ctx)) ∧
    ∀ q, Arith.dec96.fit q = none ↔ 2 ^ 96 - 1 / 2 ≤ |q| := by
  refine ⟨?_, fun q => dec96_fit_eq_none_iff⟩
  unfold evaluatePayload
  cases hf : fromStr payload with
  | ok call =>
    have hiff := @evaluate_eq_none_iff (.reading .dec96 readText) (.new allowlist cfg) call ctx t
    simp only [Except.ok.injEq, exists_eq_left']
    rw [hiff]
    constructor
    · rintro ⟨hplace, hsize | ⟨order, hparse, hover⟩⟩
      · exact ⟨hplace, .inl hsize⟩
      · exact ⟨hplace, .inr ⟨order, hparse, (RiskGate.overflows_reading_iff readText).mp hover⟩⟩
    · rintro ⟨hplace, hsize | ⟨order, hparse, hover⟩⟩
      · exact ⟨hplace, .inl hsize⟩
      · exact ⟨hplace, .inr ⟨order, hparse, (RiskGate.overflows_reading_iff readText).mpr hover⟩⟩
  | error e => simp

/-- A payload that buys the largest `Decimal` there is, at ten each. -/
def hugePayload : String :=
  "\x7b\"name\":\"place_order\",\"arguments\":\x7b\"symbol\":\" roar \",\"side\":\"buy\"," ++
    "\"quantity\":\"79228162514264337593543950335\",\"price\":10\x7d\x7d"

/-- The call in it. -/
def hugeCall : ToolCall := buyCall (.str "79228162514264337593543950335") (.num (.posInt 10))

/-- The hook panics on it, before any cap is compared. -/
theorem hugePayload_panics :
    let fromStr := fun s => if s = hugePayload then Except.ok hugeCall else .error "unsupported"
    evaluatePayload .dec96 fromStr hugePayload someTools .default (contextOf (.new 1000) 10) .epoch = none := by
  decide +kernel

end Sherwood
