/-
# The risk gate

`RiskGate::check` of `crates/core/src/risk.rs`, the one function every order
goes through before it is executed. Hard stops, lists and the slippage cap
come first (`Permitted`), then the order is priced and capped by its
notional, and a buy has the entry limits to meet. Over exact arithmetic the
gate accepts exactly the orders that meet them (`check_exact_ok_iff`); over
`rust_decimal` it also panics, where the notional, the resulting position,
its value or its share of equity do not fit (`check_panic_iff`).

One thing the gate does is not what its documentation says of it: the
notional cap stands before the sells leave, so it binds a sell that only
reduces a position (`derisking_sell_ok_iff`).

Key definitions: `RiskConfig`, `GateContext`, `RiskGate.check`, `Permitted`,
`EntryGuards`.
Key theorems: `check_exact_ok_iff`, `check_panic_iff`,
`derisking_sell_ok_iff`.
-/
import Mathlib.Data.Finset.Empty
import Mathlib.Tactic.FieldSimp
import Sherwood.Core.Ledger

namespace Sherwood

/-- The operator's limits. -/
structure RiskConfig where
  maxOrderNotional : ℚ
  maxPositionFraction : ℚ
  maxDailyLoss : ℚ
  maxUnrealizedLoss : ℚ
  maxOpenPositions : ℕ
  orderCooldownSecs : UInt64
  maxSlippage : ℚ
  allowlist : Finset String
  denylist : Finset String
  killSwitch : Bool
  deriving DecidableEq

def defaultMaxUnrealizedLoss : ℚ := 100

def defaultMaxOpenPositions : ℕ := 10

/-- `RiskConfig::default`. -/
def RiskConfig.default : RiskConfig where
  maxOrderNotional := 100
  maxPositionFraction := 1 / 10
  maxDailyLoss := 50
  maxUnrealizedLoss := defaultMaxUnrealizedLoss
  maxOpenPositions := defaultMaxOpenPositions
  orderCooldownSecs := 0
  maxSlippage := 2 / 100
  allowlist := ∅
  denylist := ∅
  killSwitch := false

/-- `order_cooldown_secs as i64`, which wraps from `2^63` on. -/
def RiskConfig.cooldown (cfg : RiskConfig) : ℤ := cfg.orderCooldownSecs.toBitVec.toInt

/-- Why the gate rejects an order. -/
inductive RiskReject where
  | killSwitch
  | denylisted (symbol : String)
  | notAllowlisted (symbol : String)
  | notionalCap (got cap : ℚ)
  | positionCap (got cap : ℚ)
  | slippageCap (got cap : ℚ)
  | dailyLoss (realized limit : ℚ)
  | unrealizedLoss (unrealized limit : ℚ)
  | tooManyOpenPositions (isOpen limit : ℕ)
  | cooldown (symbol : String) (remainingSecs : Int64)
  | noReferencePrice
  | insufficientCash (need available : ℚ)
  deriving DecidableEq

/-- `RiskReject`'s `Display`. -/
def RiskReject.text : RiskReject → String
  | .killSwitch => "kill switch is engaged"
  | .denylisted symbol => s!"{symbol} is on the denylist"
  | .notAllowlisted symbol => s!"{symbol} is not on the allowlist"
  | .notionalCap got cap => s!"order notional {Decimal.display got} exceeds cap {Decimal.display cap}"
  | .positionCap got cap =>
    s!"resulting position fraction {Decimal.display got} exceeds cap {Decimal.display cap}"
  | .slippageCap got cap => s!"order slippage {Decimal.display got} exceeds cap {Decimal.display cap}"
  | .dailyLoss realized limit =>
    s!"daily loss limit hit (realized {Decimal.display realized}, limit {Decimal.display limit})"
  | .unrealizedLoss unrealized limit =>
    s!"unrealized loss limit hit ({Decimal.display unrealized}, limit {Decimal.display limit})"
  | .tooManyOpenPositions isOpen limit => s!"already holding {isOpen} positions (limit {limit})"
  | .cooldown symbol remainingSecs => s!"{symbol} is in cooldown for another {remainingSecs.toInt}s"
  | .noReferencePrice => "cannot size order: no reference price available"
  | .insufficientCash need available =>
    s!"insufficient cash: need {Decimal.display need}, have {Decimal.display available}"

/-- What the gate needs to know besides its limits. -/
structure GateContext where
  portfolio : Portfolio
  refPrice : Option ℚ
  equity : ℚ
  unrealizedPnl : ℚ
  lastOrderAt : Option DateTime
  now : DateTime

namespace RiskGate

/-- The cooldown of `check`: a buy too soon after the last order of its symbol is
rejected, unless the cooldown is disabled. -/
def checkCooldown (cfg : RiskConfig) (symbol : String) (ctx : GateContext) : Outcome RiskReject Unit :=
  match ctx.lastOrderAt with
  | some last =>
    let elapsed := ctx.now.secondsSince last
    .reject (cfg.orderCooldownSecs > 0 ∧ elapsed < cfg.cooldown)
      (.cooldown symbol (.ofInt (cfg.cooldown - elapsed)))
  | none => .ok ()

/-- The share of equity of a resulting position, none where equity is not
positive. -/
def positionFraction (A : Arith) (ctx : GateContext) (resulting : ℚ) : Outcome RiskReject ℚ :=
  if ctx.equity > 0 then A.div resulting ctx.equity else .ok 0

/-- The entry limits of `check`, met by buys only. -/
def checkEntry (A : Arith) (cfg : RiskConfig) (order : Order) (ctx : GateContext) (price notional : ℚ) :
    Outcome RiskReject Unit := do
  .reject (notional > ctx.portfolio.cash) (.insufficientCash notional ctx.portfolio.cash)
  .reject (ctx.unrealizedPnl ≤ -cfg.maxUnrealizedLoss)
    (.unrealizedLoss ctx.unrealizedPnl cfg.maxUnrealizedLoss)
  .reject (ctx.portfolio.position order.asset.symbol = 0 ∧
      ctx.portfolio.openPositionCount ≥ cfg.maxOpenPositions)
    (.tooManyOpenPositions ctx.portfolio.openPositionCount cfg.maxOpenPositions)
  checkCooldown cfg order.asset.symbol ctx
  let size ← A.add (ctx.portfolio.position order.asset.symbol) order.qty
  let resulting ← A.mul size price
  let frac ← positionFraction A ctx resulting
  .reject (frac > cfg.maxPositionFraction) (.positionCap frac cfg.maxPositionFraction)

/-- `RiskGate::check`: `order` against the limits in the context. -/
def check (A : Arith) (cfg : RiskConfig) (order : Order) (ctx : GateContext) : Outcome RiskReject Unit := do
  let sym := order.asset.symbol
  .reject cfg.killSwitch .killSwitch
  .reject (sym ∈ cfg.denylist) (.denylisted sym)
  .reject (cfg.allowlist ≠ ∅ ∧ sym ∉ cfg.allowlist) (.notAllowlisted sym)
  .reject (order.maxSlippage > cfg.maxSlippage) (.slippageCap order.maxSlippage cfg.maxSlippage)
  .reject (ctx.portfolio.realizedPnl ≤ -cfg.maxDailyLoss)
    (.dailyLoss ctx.portfolio.realizedPnl cfg.maxDailyLoss)
  let price ← .okOr (order.limitPrice.or ctx.refPrice) .noReferencePrice
  let notional ← A.mul order.qty price
  .reject (notional > cfg.maxOrderNotional) (.notionalCap notional cfg.maxOrderNotional)
  -- sells always pass from here
  match order.side with
  | .sell => pure ()
  | .buy => checkEntry A cfg order ctx price notional

end RiskGate

/-! ### What the gate asks -/

/-- What the gate asks of every order before it prices it. -/
structure Permitted (cfg : RiskConfig) (order : Order) (ctx : GateContext) : Prop where
  running : cfg.killSwitch = false
  notDenied : order.asset.symbol ∉ cfg.denylist
  allowed : cfg.allowlist ≠ ∅ → order.asset.symbol ∈ cfg.allowlist
  slippage : order.maxSlippage ≤ cfg.maxSlippage
  dailyLoss : -cfg.maxDailyLoss < ctx.portfolio.realizedPnl

/-- The price an order is sized at: its limit, or else the reference. -/
def Order.mark (order : Order) (ctx : GateContext) : Option ℚ := order.limitPrice.or ctx.refPrice

/-- The position a buy would leave. -/
def Order.resultingQty (order : Order) (ctx : GateContext) : ℚ :=
  ctx.portfolio.position order.asset.symbol + order.qty

/-- What the gate asks of a buy before it computes the resulting position. -/
structure EntryGuards (cfg : RiskConfig) (order : Order) (ctx : GateContext) (notional : ℚ) : Prop where
  cash : notional ≤ ctx.portfolio.cash
  unrealized : -cfg.maxUnrealizedLoss < ctx.unrealizedPnl
  slot : ctx.portfolio.position order.asset.symbol = 0 →
    ctx.portfolio.openPositionCount < cfg.maxOpenPositions
  cooled : 0 < cfg.orderCooldownSecs → ∀ last ∈ ctx.lastOrderAt, cfg.cooldown ≤ ctx.now.secondsSince last

/-- `positionFraction`, over exact arithmetic. -/
def GateContext.share (ctx : GateContext) (value : ℚ) : ℚ :=
  if 0 < ctx.equity then value / ctx.equity else 0

namespace RiskGate

variable {A : Arith} {cfg : RiskConfig} {order : Order} {ctx : GateContext} {price notional : ℚ}

@[simp] theorem checkCooldown_eq_ok {sym : String} {u : Unit} : checkCooldown cfg sym ctx = .ok u ↔
    (0 < cfg.orderCooldownSecs → ∀ last ∈ ctx.lastOrderAt, cfg.cooldown ≤ ctx.now.secondsSince last) := by
  unfold checkCooldown
  cases ctx.lastOrderAt <;> simp

@[simp] theorem checkCooldown_ne_panic {sym : String} : checkCooldown cfg sym ctx ≠ .panic := by
  unfold checkCooldown
  cases ctx.lastOrderAt <;> simp

theorem entryGuards_iff : EntryGuards cfg order ctx notional ↔
    ¬ notional > ctx.portfolio.cash ∧ ¬ ctx.unrealizedPnl ≤ -cfg.maxUnrealizedLoss ∧
      ¬ (ctx.portfolio.position order.asset.symbol = 0 ∧
        ctx.portfolio.openPositionCount ≥ cfg.maxOpenPositions) ∧
      (0 < cfg.orderCooldownSecs → ∀ last ∈ ctx.lastOrderAt, cfg.cooldown ≤ ctx.now.secondsSince last) := by
  constructor
  · rintro ⟨h1, h2, h3, h4⟩
    exact ⟨not_lt.mpr h1, not_le.mpr h2, fun h => absurd (h3 h.1) (not_lt.mpr h.2), h4⟩
  · rintro ⟨h1, h2, h3, h4⟩
    exact ⟨not_lt.mp h1, not_le.mp h2, fun h => not_le.mp fun hle => h3 ⟨h, hle⟩, h4⟩

@[simp] theorem positionFraction_exact (v : ℚ) : positionFraction .exact ctx v = .ok (ctx.share v) := by
  unfold positionFraction GateContext.share
  split_ifs with h
  · exact Arith.exact_div h.ne'
  · rfl

theorem checkEntry_exact_ok_iff : checkEntry .exact cfg order ctx price notional = .ok () ↔
    EntryGuards cfg order ctx notional ∧
      ctx.share (order.resultingQty ctx * price) ≤ cfg.maxPositionFraction := by
  rw [entryGuards_iff]
  unfold checkEntry Order.resultingQty
  simp only [Outcome.bind_eq_ok, Arith.exact_add, Arith.exact_mul, Outcome.ok_bind, positionFraction_exact,
    checkCooldown_eq_ok, Outcome.reject_eq_ok, exists_const, and_assoc, not_lt, gt_iff_lt]

theorem permitted_iff : Permitted cfg order ctx ↔
    ¬ cfg.killSwitch = true ∧ ¬ order.asset.symbol ∈ cfg.denylist ∧
      ¬ (cfg.allowlist ≠ ∅ ∧ order.asset.symbol ∉ cfg.allowlist) ∧
      ¬ order.maxSlippage > cfg.maxSlippage ∧ ¬ ctx.portfolio.realizedPnl ≤ -cfg.maxDailyLoss := by
  constructor
  · rintro ⟨h1, h2, h3, h4, h5⟩
    exact ⟨by simp [h1], h2, fun h => h.2 (h3 h.1), not_lt.mpr h4, not_le.mpr h5⟩
  · rintro ⟨h1, h2, h3, h4, h5⟩
    refine ⟨by simpa using h1, h2, fun h => ?_, not_lt.mp h4, not_le.mp h5⟩
    by_contra hn
    exact h3 ⟨h, hn⟩

/-- **Acceptance.** Over exact arithmetic the gate accepts the orders that are
permitted, have a price, are within the notional cap, and as buys within the
entry limits. -/
theorem check_exact_ok_iff : check .exact cfg order ctx = .ok () ↔
    Permitted cfg order ctx ∧ ∃ price, order.mark ctx = some price ∧
      order.qty * price ≤ cfg.maxOrderNotional ∧
      (order.side = .buy → EntryGuards cfg order ctx (order.qty * price) ∧
        ctx.share (order.resultingQty ctx * price) ≤ cfg.maxPositionFraction) := by
  rw [permitted_iff]
  unfold check Order.mark
  cases hs : order.side <;>
    simp only [Outcome.bind_eq_ok, Arith.exact_mul, Outcome.ok_bind, Outcome.okOr_eq_ok, Outcome.pure_eq_ok,
      Outcome.reject_eq_ok, exists_const, and_assoc, not_lt, gt_iff_lt, checkEntry_exact_ok_iff,
      reduceCtorEq, false_imp_iff, true_imp_iff, and_true]

/-- An accepted order is permitted, and has a price and a notional. -/
theorem check_ok_priced (h : check A cfg order ctx = .ok ()) :
    Permitted cfg order ctx ∧ ∃ price notional, order.mark ctx = some price ∧
      A.fit (order.qty * price) = some notional := by
  rw [permitted_iff]
  unfold check Arith.mul at h
  simp only [Outcome.bind_eq_ok, Outcome.okOr_eq_ok, Outcome.unwrap_eq_ok, Outcome.reject_eq_ok, exists_const,
    not_lt, gt_iff_lt] at h
  obtain ⟨hkill, hdeny, hallow, hslip, hloss, price, hmark, notional, hfit, -⟩ := h
  exact ⟨⟨hkill, hdeny, hallow, not_lt.mpr hslip, hloss⟩, price, notional, hmark, hfit⟩

@[simp] theorem checkCooldown_ne_notAllowlisted {sym symbol : String} :
    checkCooldown cfg sym ctx ≠ .err (.notAllowlisted symbol) := by
  unfold checkCooldown
  cases ctx.lastOrderAt <;> simp

@[simp] theorem positionFraction_ne_err {v : ℚ} {e : RiskReject} : positionFraction A ctx v ≠ .err e := by
  unfold positionFraction Arith.div
  split_ifs <;> simp

/-- An order that is rejected for the allowlist has come to it, and is not on it. -/
theorem check_notAllowlisted {symbol : String} (h : check A cfg order ctx = .err (.notAllowlisted symbol)) :
    cfg.killSwitch = false ∧ order.asset.symbol ∉ cfg.denylist ∧ cfg.allowlist ≠ ∅ ∧
      order.asset.symbol ∉ cfg.allowlist := by
  unfold check checkEntry Arith.mul Arith.add at h
  cases hs : order.side <;>
    simp [hs, Outcome.bind_eq_err] at h <;>
    exact ⟨h.1, h.2.1, h.2.2.1.1, h.2.2.1.2⟩

/-! ### Panics -/

/-- A buy that the gate prices and whose resulting position it computes. -/
structure ReachesEntry (A : Arith) (cfg : RiskConfig) (order : Order) (ctx : GateContext) (price : ℚ) :
    Prop where
  permitted : Permitted cfg order ctx
  mark : order.mark ctx = some price
  buy : order.side = .buy
  guards : ∃ notional, A.fit (order.qty * price) = some notional ∧ notional ≤ cfg.maxOrderNotional ∧
    EntryGuards cfg order ctx notional

/-- An operation of the gate that is reached and whose result does not fit. -/
inductive Overflows (A : Arith) (cfg : RiskConfig) (order : Order) (ctx : GateContext) : Prop
  | notional {price : ℚ} : Permitted cfg order ctx → order.mark ctx = some price →
      A.fit (order.qty * price) = none → Overflows A cfg order ctx
  | size {price : ℚ} : ReachesEntry A cfg order ctx price →
      A.fit (order.resultingQty ctx) = none → Overflows A cfg order ctx
  | value {price size : ℚ} : ReachesEntry A cfg order ctx price →
      A.fit (order.resultingQty ctx) = some size → A.fit (size * price) = none → Overflows A cfg order ctx
  | fraction {price size value : ℚ} : ReachesEntry A cfg order ctx price →
      A.fit (order.resultingQty ctx) = some size → A.fit (size * price) = some value →
      0 < ctx.equity → A.fit (value / ctx.equity) = none → Overflows A cfg order ctx

theorem Overflows.permitted (h : Overflows A cfg order ctx) : Permitted cfg order ctx := by
  rcases h with ⟨hperm, -, -⟩ | ⟨hentry, -⟩ | ⟨hentry, -, -⟩ | ⟨hentry, -, -, -, -⟩
  · exact hperm
  all_goals exact hentry.permitted

theorem positionFraction_panic_iff {v : ℚ} : positionFraction A ctx v = .panic ↔
    0 < ctx.equity ∧ A.fit (v / ctx.equity) = none := by
  unfold positionFraction Arith.div
  split_ifs with h h0
  · exact absurd h0 h.ne'
  · simp [h]
  · simp [h]

theorem checkEntry_panic_iff : checkEntry A cfg order ctx price notional = .panic ↔
    EntryGuards cfg order ctx notional ∧ (A.fit (order.resultingQty ctx) = none ∨
      ∃ size, A.fit (order.resultingQty ctx) = some size ∧ (A.fit (size * price) = none ∨
        ∃ value, A.fit (size * price) = some value ∧ 0 < ctx.equity ∧ A.fit (value / ctx.equity) = none)) := by
  rw [entryGuards_iff]
  unfold checkEntry Order.resultingQty Arith.add Arith.mul
  simp only [Outcome.bind_eq_panic, Outcome.reject_ne_panic, Outcome.reject_eq_ok, checkCooldown_ne_panic,
    checkCooldown_eq_ok, Outcome.unwrap_eq_panic, Outcome.unwrap_eq_ok, positionFraction_panic_iff, false_or,
    exists_const, and_assoc, and_false, or_false, gt_iff_lt]

/-- **Panics.** The gate panics when an operation it reaches does not fit. -/
theorem check_panic_iff : check A cfg order ctx = .panic ↔ Overflows A cfg order ctx := by
  have h : check A cfg order ctx = .panic ↔ Permitted cfg order ctx ∧ ∃ price, order.mark ctx = some price ∧
      (A.fit (order.qty * price) = none ∨ ∃ notional, A.fit (order.qty * price) = some notional ∧
        notional ≤ cfg.maxOrderNotional ∧ order.side = .buy ∧
          checkEntry A cfg order ctx price notional = .panic) := by
    rw [permitted_iff]
    unfold check Order.mark Arith.mul
    cases hs : order.side <;>
      simp only [Outcome.bind_eq_panic, Outcome.reject_ne_panic, Outcome.reject_eq_ok, Outcome.okOr_ne_panic,
        Outcome.okOr_eq_ok, Outcome.unwrap_eq_panic, Outcome.unwrap_eq_ok, Outcome.pure_eq_ok, false_or,
        exists_const, and_assoc, reduceCtorEq, and_false, or_false, not_lt, gt_iff_lt, true_and,
        false_and]
  rw [h]
  constructor
  · rintro ⟨hp, price, hm, hn | ⟨notional, hfit, hcap, hbuy, hpanic⟩⟩
    · exact .notional hp hm hn
    · obtain ⟨hg, hpanic⟩ := checkEntry_panic_iff.mp hpanic
      have hr : ReachesEntry A cfg order ctx price := ⟨hp, hm, hbuy, notional, hfit, hcap, hg⟩
      rcases hpanic with hs | ⟨size, hs, hv | ⟨value, hv, he, hf⟩⟩
      · exact .size hr hs
      · exact .value hr hs hv
      · exact .fraction hr hs hv he hf
  · rintro (⟨hp, hm, hn⟩ | ⟨hr, hs⟩ | ⟨hr, hs, hv⟩ | ⟨hr, hs, hv, he, hf⟩)
    · exact ⟨hp, _, hm, .inl hn⟩
    all_goals
      obtain ⟨hp, hm, hbuy, notional, hfit, hcap, hg⟩ := hr
      refine ⟨hp, _, hm, .inr ⟨notional, hfit, hcap, hbuy, checkEntry_panic_iff.mpr ⟨hg, ?_⟩⟩⟩
    · exact .inl hs
    · exact .inr ⟨_, hs, .inl hv⟩
    · exact .inr ⟨_, hs, .inr ⟨_, hv, he, hf⟩⟩

theorem check_reading (A : Arith) (read : List Char → Option ℚ) (cfg : RiskConfig) (order : Order) (ctx : GateContext) :
    check (A.reading read) cfg order ctx = check A cfg order ctx := rfl

theorem overflows_reading_iff (read : List Char → Option ℚ) :
    Overflows (A.reading read) cfg order ctx ↔ Overflows A cfg order ctx := by
  rw [← check_panic_iff, ← check_panic_iff, check_reading]

/-! ### Sells -/

/-- A sell is accepted when it is permitted, has a price and is within the
notional cap. None of the entry limits is looked at. -/
theorem check_sell_ok_iff (hs : order.side = .sell) : check A cfg order ctx = .ok () ↔
    Permitted cfg order ctx ∧ ∃ price, order.mark ctx = some price ∧
      ∃ notional, A.fit (order.qty * price) = some notional ∧ notional ≤ cfg.maxOrderNotional := by
  rw [permitted_iff]
  unfold check Order.mark Arith.mul
  simp only [hs, Outcome.bind_eq_ok, Outcome.okOr_eq_ok, Outcome.unwrap_eq_ok, Outcome.pure_eq_ok,
    Outcome.reject_eq_ok, exists_const, and_assoc, not_lt, gt_iff_lt, and_true]

end RiskGate

/-- A sell of no more than is held, with the hard stops clear, its symbol and
slippage permitted and a price known. -/
structure DeRisking (cfg : RiskConfig) (order : Order) (ctx : GateContext) : Prop where
  sell : order.side = .sell
  qty_pos : 0 < order.qty
  held : order.qty ≤ ctx.portfolio.position order.asset.symbol
  permitted : Permitted cfg order ctx
  priced : (order.mark ctx).isSome

/-- **De-risking.** A sell that only reduces a position is accepted exactly if
its notional is a decimal within the order cap, whatever the other limits. -/
theorem derisking_sell_ok_iff (A : Arith) {cfg : RiskConfig} {order : Order} {ctx : GateContext}
    (h : DeRisking cfg order ctx) : RiskGate.check A cfg order ctx = .ok () ↔
      ∀ price ∈ order.mark ctx, ∃ notional ∈ A.fit (order.qty * price), notional ≤ cfg.maxOrderNotional := by
  obtain ⟨price, hm⟩ := Option.isSome_iff_exists.mp h.priced
  rw [RiskGate.check_sell_ok_iff h.sell]
  simp only [hm, Option.some.injEq, forall_eq', h.permitted, true_and,
    exists_eq_left', Option.mem_def]

/-- An order for `qty` of `sym` at the limit `price`. -/
def orderOf (side : Side) (sym : String) (qty price : ℚ) : Order :=
  ⟨⟨"t"⟩, .ofSymbol sym, side, qty, some price, 2 / 100, .paper, "t"⟩

/-- The context of a ledger all of whose prices are `price`, with no order
before. -/
def contextOf (p : Portfolio) (price : ℚ) : GateContext where
  portfolio := p
  refPrice := some price
  equity := p.equity fun _ => some price
  unrealizedPnl := p.unrealizedPnl fun _ => some price
  lastOrderAt := none
  now := .epoch

/-- The ledger after ten bought at ten, with 1000 of cash before. -/
def tenHeld : Portfolio := (Portfolio.new 1000).apply (fillOf .buy "ROAR" 10 10 0)

theorem derisking_tenHeld :
    RiskGate.check .exact .default (orderOf .sell "ROAR" 10 10) (contextOf tenHeld 10) = .ok () :=
  (derisking_sell_ok_iff .exact ⟨rfl, by decide +kernel, by decide +kernel,
    ⟨rfl, by decide, fun h => absurd rfl h, by decide +kernel, by decide +kernel⟩, rfl⟩).mpr
    fun price hp => ⟨10 * price, rfl, by cases hp; decide +kernel⟩

/-- At the default limits ten may be bought at ten, and once the price is twenty
all of it may not be sold. -/
theorem grown_position_stuck :
    RiskGate.check .exact .default (orderOf .buy "ROAR" 10 10) (contextOf (.new 1000) 10) = .ok () ∧
      DeRisking .default (orderOf .sell "ROAR" 10 20) (contextOf tenHeld 20) ∧
      RiskGate.check .exact .default (orderOf .sell "ROAR" 10 20) (contextOf tenHeld 20) =
        .err (.notionalCap 200 100) :=
  ⟨by decide +kernel, ⟨rfl, by decide +kernel, by decide +kernel,
    ⟨rfl, by decide, fun h => absurd rfl h, by decide +kernel, by decide +kernel⟩, rfl⟩, by decide +kernel⟩

/-! ### Buys -/

/-- The order cooldown has passed, over the `u64` of the configuration. -/
def CooledDown (cfg : RiskConfig) (ctx : GateContext) : Prop :=
  0 < cfg.orderCooldownSecs → ∀ last ∈ ctx.lastOrderAt,
    (cfg.orderCooldownSecs.toNat : ℤ) ≤ ctx.now.secondsSince last

theorem RiskConfig.cooldown_eq (cfg : RiskConfig) : cfg.cooldown =
    if cfg.orderCooldownSecs.toNat < 2 ^ 63 then (cfg.orderCooldownSecs.toNat : ℤ)
    else cfg.orderCooldownSecs.toNat - 2 ^ 64 := by
  have h := BitVec.toInt_eq_toNat_cond cfg.orderCooldownSecs.toBitVec
  rw [UInt64.toNat_toBitVec] at h
  unfold cooldown
  split_ifs <;> omega

/-- A cooldown that fits an `i64` is enforced; one that does not is negative
there, and passes with the cooldown not over. -/
theorem cooledDown_iff {cfg : RiskConfig} {ctx : GateContext}
    (h : 0 < cfg.orderCooldownSecs → ∀ last ∈ ctx.lastOrderAt, cfg.cooldown ≤ ctx.now.secondsSince last) :
    CooledDown cfg ctx ↔ cfg.orderCooldownSecs.toNat < 2 ^ 63 ∨ ctx.lastOrderAt = none := by
  unfold CooledDown
  rw [RiskConfig.cooldown_eq] at h
  by_cases hlt : cfg.orderCooldownSecs.toNat < 2 ^ 63
  · simpa only [hlt, if_true, true_or, iff_true] using h
  · have hpos : 0 < cfg.orderCooldownSecs := by
      rw [UInt64.lt_iff_toNat_lt]
      exact lt_of_lt_of_le (by decide) (not_lt.mp hlt)
    simp only [hpos, true_imp_iff, hlt, false_or]
    constructor
    · intro hcool
      by_contra hne
      obtain ⟨last, hl⟩ := Option.ne_none_iff_exists'.mp hne
      have h1 := hcool last hl
      have h2 := ctx.now.secondsSince_lt last
      omega
    · intro hnone last hl
      simp [hnone] at hl

/-- The share of equity the gate compares is the limit's where equity is
positive. -/
theorem share_le_iff {ctx : GateContext} (h : 0 < ctx.equity) {value frac : ℚ} :
    ctx.share value ≤ frac ↔ value ≤ frac * ctx.equity := by
  rw [GateContext.share, if_pos h, div_le_iff₀ h]

theorem buy_limits {cfg : RiskConfig} {order : Order} {ctx : GateContext} {price : ℚ}
    (hb : order.side = .buy) (hm : order.mark ctx = some price)
    (hok : RiskGate.check .exact cfg order ctx = .ok ()) :
    EntryGuards cfg order ctx (order.qty * price) ∧
      (0 < ctx.equity → order.resultingQty ctx * price ≤ cfg.maxPositionFraction * ctx.equity) := by
  obtain ⟨-, price', hm', -, hentry⟩ := RiskGate.check_exact_ok_iff.mp hok
  obtain rfl : price' = price := Option.some.inj (hm'.symm.trans hm)
  obtain ⟨hg, hs⟩ := hentry hb
  exact ⟨hg, fun he => (share_le_iff he).mp hs⟩

end Sherwood
