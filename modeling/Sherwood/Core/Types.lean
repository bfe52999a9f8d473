/-
# Value types

The assets, orders, fills and decisions of `crates/core/src/types.rs`, and
the time they are stamped with. Prices and quantities are rationals
(`Sherwood/Decimal.lean`).

Key definitions: `Order`, `Fill`, `Fill.cashDelta`, `Decision`.
-/
import Sherwood.Decimal

namespace Sherwood

/-- `DateTime<Utc>`: nanoseconds since the epoch, within the some 262 thousand
years either way that `chrono` can tell. -/
structure DateTime where
  nanos : ℤ
  inRange : |nanos| ≤ 10 ^ 22
  deriving DecidableEq

namespace DateTime

/-- So many seconds since the epoch. -/
def ofSecs (secs : ℤ) (h : |secs| ≤ 10 ^ 13) : DateTime :=
  ⟨secs * 10 ^ 9, by rw [abs_mul, abs_of_pos (by norm_num : (0 : ℤ) < 10 ^ 9)]; linarith⟩

/-- The start of time. -/
def epoch : DateTime := ⟨0, by norm_num⟩

instance : Preorder DateTime where
  le s t := s.nanos ≤ t.nanos
  le_refl s := Int.le_refl s.nanos
  le_trans _ _ _ := Int.le_trans

instance : DecidableLE DateTime := fun s t => inferInstanceAs (Decidable (s.nanos ≤ t.nanos))

/-- `(now - last).num_seconds()`: whole seconds, cut towards zero. -/
def secondsSince (now last : DateTime) : ℤ := (now.nanos - last.nanos).tdiv (10 ^ 9)

/-- `timestamp_nanos_opt().unwrap_or_default()`: the nanoseconds where an `i64`
holds them. -/
def nanosOrZero (now : DateTime) : ℤ := if -2 ^ 63 ≤ now.nanos ∧ now.nanos < 2 ^ 63 then now.nanos else 0

theorem secondsSince_lt (now last : DateTime) : now.secondsSince last < 2 ^ 63 := by
  have h1 := abs_le.mp now.inRange
  have h2 := abs_le.mp last.inRange
  have hle : (now.nanos - last.nanos).tdiv (10 ^ 9) ≤ (2 * 10 ^ 13 * 10 ^ 9 : ℤ).tdiv (10 ^ 9) :=
    Int.tdiv_le_tdiv (by norm_num) (by linarith)
  rw [Int.mul_tdiv_cancel _ (by norm_num)] at hle
  exact hle.trans_lt (by norm_num)

/-- Seconds count up with the later time and down with the earlier one. -/
theorem secondsSince_le {now now' last last' : DateTime} (h : now ≤ now') (hl : last' ≤ last) :
    now.secondsSince last ≤ now'.secondsSince last' := by
  have h1 : now.nanos ≤ now'.nanos := h
  have h2 : last'.nanos ≤ last.nanos := hl
  exact Int.tdiv_le_tdiv (by norm_num) (by omega)

theorem secondsSince_nonneg {now last : DateTime} (h : last ≤ now) : 0 ≤ now.secondsSince last := by
  have h' : last.nanos ≤ now.nanos := h
  exact Int.tdiv_nonneg (by omega) (by norm_num)

end DateTime

/-- A tradable asset: a symbol, and an address on chain if it has one. -/
structure Asset where
  symbol : String
  address : Option String
  deriving DecidableEq, Repr

/-- `Asset::symbol`. -/
def Asset.ofSymbol (s : String) : Asset := ⟨s, none⟩

/-- Where an order is routed. -/
inductive Venue where
  | paper
  | robinhoodMcp
  | dexRouter
  deriving DecidableEq, Repr

inductive Side where
  | buy
  | sell
  deriving DecidableEq, Repr

/-- A client-generated order identifier. -/
structure OrderId where
  val : String
  deriving DecidableEq, Repr

/-- An intent to trade, not yet risk-checked. Without a limit price it is a
market order. -/
structure Order where
  id : OrderId
  asset : Asset
  side : Side
  qty : ℚ
  limitPrice : Option ℚ
  maxSlippage : ℚ
  venue : Venue
  reason : String
  deriving DecidableEq

/-- What an executor made of an order. -/
structure Fill where
  orderId : OrderId
  asset : Asset
  side : Side
  qty : ℚ
  price : ℚ
  fee : ℚ
  venue : Venue
  filledAt : DateTime
  deriving DecidableEq

/-- The signed cash delta of a fill, fee included: negative for buys. -/
def Fill.cashDelta (fill : Fill) : ℚ :=
  let gross := fill.qty * fill.price
  match fill.side with
  | .buy => -(gross + fill.fee)
  | .sell => gross - fill.fee

/-- A point-in-time view of a market, fed to the decision layer. -/
structure MarketSnapshot where
  asset : Asset
  price : ℚ
  change24h : ℚ
  liquidity : Option ℚ
  takenAt : DateTime

/-- The decision layer's verdict: a buy is sized as a fraction of equity, a
sell as a fraction of the holding. -/
inductive Decision where
  | buy (fraction : ℚ) (reason : String)
  | sell (fraction : ℚ) (reason : String)
  | hold (reason : String)

/-- One observation of a feed. -/
structure Tick where
  takenAt : DateTime
  symbol : String
  price : ℚ

/-- `Tick::asset`. -/
def Tick.asset (t : Tick) : Asset := .ofSymbol t.symbol

end Sherwood
