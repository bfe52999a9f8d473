/-
# The rule decider

`RuleDecider` of `crates/decision/src/lib.rs`, over exact arithmetic: it holds in a thin
market; with a position it takes a profit, stops a loss, or holds; and without one
it buys on momentum.

Key definitions: `RuleConfig`, `RuleDecider.decide`, `RuleDecider.Liquid`.
Key theorems: `manage_cases`, `decide_buy`, `decide_sell`.
-/
import Sherwood.Cli.Runner

namespace Sherwood

/-- Momentum, take-profit and stop-loss, as fractions. -/
structure RuleConfig where
  entryMomentum : ℚ
  entryFraction : ℚ
  takeProfit : ℚ
  stopLoss : ℚ
  minLiquidity : Option ℚ

def RuleConfig.default : RuleConfig := ⟨5 / 100, 5 / 100, 20 / 100, -10 / 100, some 25000⟩

/-- `{:+}`. -/
def Decimal.displaySigned (q : ℚ) : String := (if 0 ≤ q then "+" else "") ++ Decimal.display q

namespace RuleDecider

variable (cfg : RuleConfig)

/-- The liquidity and its floor, where it is below. -/
def belowFloor (s : MarketSnapshot) : Option (ℚ × ℚ) := do
  let floor ← cfg.minLiquidity
  let liq ← s.liquidity
  if liq < floor then some (liq, floor) else none

/-- What a position has made since it was bought at `cost`. -/
def unrealizedReturn (price cost : ℚ) : ℚ := (price - cost) / cost

/-- An exit from an open position, if one is due. -/
def exit? (price cost : ℚ) : Option Decision :=
  let ret := unrealizedReturn price cost
  if ret ≥ cfg.takeProfit then
    some (.sell 1 s!"take-profit hit ({Decimal.displaySigned ret} >= {Decimal.display cfg.takeProfit})")
  else if ret ≤ cfg.stopLoss then
    some (.sell 1 s!"stop-loss hit ({Decimal.displaySigned ret} <= {Decimal.display cfg.stopLoss})")
  else none

/-- The decision on an open position. -/
def manage (price : ℚ) (avgCost : Option ℚ) : Decision :=
  let exit := do
    let cost ← avgCost
    if cost > 0 then exit? cfg price cost else none
  exit.getD (.hold "holding open position")

/-- `decide`. -/
def decide (ctx : DecisionContext) : Decision :=
  let s := ctx.snapshot
  match belowFloor cfg s with
  | some (liq, floor) => .hold s!"liquidity {Decimal.display liq} below floor {Decimal.display floor}"
  | none =>
    if ctx.position > 0 then manage cfg s.price ctx.avgCost
    else if s.change24h ≥ cfg.entryMomentum then
      .buy cfg.entryFraction
        s!"24h momentum {Decimal.displaySigned s.change24h} >= {Decimal.display cfg.entryMomentum}"
    else .hold s!"no signal (24h {Decimal.displaySigned s.change24h})"

/-- The market is not known to be below the floor. -/
def Liquid (s : MarketSnapshot) : Prop := ∀ floor ∈ cfg.minLiquidity, ∀ liq ∈ s.liquidity, floor ≤ liq

/-- An exit is due at a price: the profit is to be taken or the loss to be stopped. -/
structure ExitDue (price cost : ℚ) : Prop where
  cost_pos : 0 < cost
  hit : cfg.takeProfit ≤ unrealizedReturn price cost ∨ unrealizedReturn price cost ≤ cfg.stopLoss

variable {cfg} {ctx : DecisionContext} {fraction : ℚ} {reason : String}

/-- An open position is sold or held: sold when an exit is due, and then all of it. -/
theorem manage_cases (price : ℚ) (avgCost : Option ℚ) : (∃ why, manage cfg price avgCost = .hold why) ∨
    ∃ cost why, manage cfg price avgCost = .sell 1 why ∧ avgCost = some cost ∧ ExitDue cfg price cost := by
  cases avgCost with
  | none => exact .inl ⟨_, rfl⟩
  | some cost =>
    by_cases hcost : cost > 0
    · have hmanage : manage cfg price (some cost) = (exit? cfg price cost).getD (.hold "holding open position") := by
        simp [manage, hcost]
      rw [hmanage, exit?]
      by_cases htake : unrealizedReturn price cost ≥ cfg.takeProfit
      · rw [if_pos htake]
        exact .inr ⟨cost, _, rfl, rfl, hcost, .inl htake⟩
      · rw [if_neg htake]
        by_cases hstop : unrealizedReturn price cost ≤ cfg.stopLoss
        · rw [if_pos hstop]
          exact .inr ⟨cost, _, rfl, rfl, hcost, .inr hstop⟩
        · rw [if_neg hstop]
          exact .inl ⟨_, rfl⟩
    · refine .inl ⟨"holding open position", ?_⟩
      simp [manage, hcost]

theorem belowFloor_eq_none {s : MarketSnapshot} (h : belowFloor cfg s = none) : Liquid cfg s := by
  intro floor hfloor liq hliq
  rw [Option.mem_def] at hfloor hliq
  simpa [belowFloor, hfloor, hliq] using h

theorem decide_buy (h : decide cfg ctx = .buy fraction reason) : Liquid cfg ctx.snapshot ∧
    ctx.position ≤ 0 ∧ cfg.entryMomentum ≤ ctx.snapshot.change24h ∧ fraction = cfg.entryFraction := by
  cases hfloor : belowFloor cfg ctx.snapshot with
  | some b => simp [decide, hfloor] at h
  | none =>
    simp only [decide, hfloor] at h
    by_cases hpos : ctx.position > 0
    · rw [if_pos hpos] at h
      rcases @manage_cases cfg ctx.snapshot.price ctx.avgCost with ⟨_, hm⟩ | ⟨_, _, hm, -⟩ <;>
        rw [hm] at h <;> cases h
    · rw [if_neg hpos] at h
      split_ifs at h with hmom
      exact ⟨belowFloor_eq_none hfloor, not_lt.mp hpos, hmom, (Decision.buy.inj h).1.symm⟩

theorem decide_sell (h : decide cfg ctx = .sell fraction reason) : Liquid cfg ctx.snapshot ∧
    0 < ctx.position ∧ fraction = 1 ∧ ∃ cost, ctx.avgCost = some cost ∧ ExitDue cfg ctx.snapshot.price cost := by
  cases hfloor : belowFloor cfg ctx.snapshot with
  | some b => simp [decide, hfloor] at h
  | none =>
    simp only [decide, hfloor] at h
    by_cases hpos : ctx.position > 0
    · rw [if_pos hpos] at h
      rcases @manage_cases cfg ctx.snapshot.price ctx.avgCost with ⟨_, hm⟩ | ⟨cost, _, hm, hcost, hexit⟩
      · rw [hm] at h
        cases h
      · rw [hm] at h
        exact ⟨belowFloor_eq_none hfloor, hpos, (Decision.sell.inj h).1.symm, cost, hcost, hexit⟩
    · rw [if_neg hpos] at h
      split_ifs at h

end RuleDecider

end Sherwood
