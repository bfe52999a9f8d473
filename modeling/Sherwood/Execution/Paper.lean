/-
# The paper executor

`PaperExecutor` of `crates/execution/src/lib.rs`, over exact arithmetic: a buy
fills a spread above the price of its symbol and a sell a spread below, and a
fee is charged on what is traded. An order with a limit is refused where the
fill would be further from it than the order tolerates; with a limit of zero
the comparison divides by it and panics.

Key definitions: `PaperExecutor`, `PaperExecutor.execute`.
Key theorem: `PaperExecutor.execute_ok`.
-/
import Sherwood.Core.Types
import Sherwood.Lib.Table

namespace Sherwood

/-- Why an executor makes no fill. -/
inductive ExecError where
  | noPrice (symbol : String)
  | slippageExceeded (got tol : ℚ)
  deriving DecidableEq

/-- The price of each symbol, how many fills were made, and what they cost. -/
structure PaperExecutor where
  prices : Table String ℚ
  seq : UInt64
  spreadBps : ℚ
  feeBps : ℚ

namespace PaperExecutor

/-- `PaperExecutor::new`. -/
def new (spreadBps feeBps : ℚ) : PaperExecutor := ⟨∅, 0, spreadBps, feeBps⟩

/-- `PaperExecutor::default`: 10 basis points of spread, 5 of fee. -/
def default : PaperExecutor := new (10 / 10000) (5 / 10000)

/-- `PaperExecutor::set_price`. -/
def setPrice (ex : PaperExecutor) (symbol : String) (price : ℚ) : PaperExecutor :=
  { ex with prices := ex.prices.insert symbol price }

/-- The price a fill is made at, the mid price being `mid`. -/
def execPrice (ex : PaperExecutor) (side : Side) (mid : ℚ) : ℚ :=
  match side with
  | .buy => mid * (1 + ex.spreadBps)
  | .sell => mid * (1 - ex.spreadBps)

/-- The slippage test of `execute`. -/
def checkSlippage (order : Order) (price : ℚ) : Outcome ExecError Unit :=
  match order.limitPrice with
  | some limit =>
    if limit = 0 then .panic
    else .reject (|(price - limit) / limit| > order.maxSlippage)
      (.slippageExceeded |(price - limit) / limit| order.maxSlippage)
  | none => .ok ()

/-- `execute`, at the time `now`: the fill, and the executor after it. -/
def execute (ex : PaperExecutor) (order : Order) (now : DateTime) :
    Outcome ExecError (Fill × PaperExecutor) := do
  let mid ← .okOr (ex.prices.lookup order.asset.symbol) (.noPrice order.asset.symbol)
  let price := ex.execPrice order.side mid
  checkSlippage order price
  let fee := order.qty * price * ex.feeBps
  pure (⟨order.id, order.asset, order.side, order.qty, price, fee, .paper, now⟩, { ex with seq := ex.seq + 1 })

theorem execute_ok {ex ex' : PaperExecutor} {order : Order} {now : DateTime} {fill : Fill}
    (h : ex.execute order now = .ok (fill, ex')) : ∃ mid, ex.prices.lookup order.asset.symbol = some mid ∧
      fill = ⟨order.id, order.asset, order.side, order.qty, ex.execPrice order.side mid,
        order.qty * ex.execPrice order.side mid * ex.feeBps, .paper, now⟩ ∧
      ex' = { ex with seq := ex.seq + 1 } := by
  unfold execute at h
  simp only [Outcome.bind_eq_ok, Outcome.okOr_eq_ok, Outcome.pure_eq_ok, Outcome.ok.injEq, Prod.mk.injEq] at h
  obtain ⟨mid, hmid, -, -, rfl, rfl⟩ := h
  exact ⟨mid, hmid, rfl, rfl⟩

end PaperExecutor

end Sherwood
