/-
# What a new position meets

The entry limits of `RiskGate::check` are there for orders that enlarge a position. A sell
leaves before them whether it reduces a position or opens a short, so the gate accepts it
whatever the limits are. A buy comes to them, and they hold for what is booked of it unless
the cooldown is beyond an `i64`, equity is not positive, or the share of equity is rounded
down to the cap (`exposure_limits_iff`).

Key definitions: `ExposureLimits`, `GateContext.shareIn`, `Limited`.
Key theorems: `RiskGate.check_buy_ok`, `exposure_limits_iff`.
-/
import Sherwood.Core.Risk
import Sherwood.Core.Rounding

namespace Sherwood

/-- The entry limits for a position that would be `resulting` at `price`. -/
structure ExposureLimits (cfg : RiskConfig) (order : Order) (ctx : GateContext) (resulting price : ℚ) :
    Prop where
  unrealized : -cfg.maxUnrealizedLoss < ctx.unrealizedPnl
  slot : ctx.portfolio.position order.asset.symbol = 0 →
    ctx.portfolio.openPositionCount < cfg.maxOpenPositions
  cooled : CooledDown cfg ctx
  fraction : |resulting| * price ≤ cfg.maxPositionFraction * ctx.equity

/-- A fill of an order, at whatever price and fee. -/
structure Fill.Fills (fill : Fill) (order : Order) : Prop where
  asset : fill.asset = order.asset
  side : fill.side = order.side
  qty : fill.qty = order.qty

/-- The share of equity of a value, as the gate computes it: rounded twice. -/
def GateContext.shareIn (A : Arith) (ctx : GateContext) (value : ℚ) : Option ℚ :=
  (A.fit value).bind fun v => A.fit (v / ctx.equity)

/-- A cooldown that the gate can compare, and equity of which the share is not rounded down, or a
position that is within its fraction anyway. -/
structure Limited (cfg : RiskConfig) (ctx : GateContext) (resulting price : ℚ) : Prop where
  cooldown : cfg.orderCooldownSecs.toNat < 2 ^ 63 ∨ ctx.lastOrderAt = none
  fraction : (0 < ctx.equity ∧ ∀ share ∈ ctx.shareIn .dec96 (resulting * price), resulting * price ≤ share * ctx.equity) ∨
    resulting * price ≤ cfg.maxPositionFraction * ctx.equity

section

variable {A : Arith} {cfg : RiskConfig} {order : Order} {ctx : GateContext} {fill : Fill} {p' : Portfolio} {price : ℚ}

namespace RiskGate

/-- **An accepted buy** has passed the guards, and its share of equity, as it is computed, is within the cap. -/
theorem check_buy_ok (hb : order.side = .buy) (hm : order.mark ctx = some price)
    (hok : check A cfg order ctx = .ok ()) :
    (∃ notional, EntryGuards cfg order ctx notional) ∧
      ∃ size, A.fit (order.resultingQty ctx) = some size ∧
        (0 < ctx.equity → ∃ share, ctx.shareIn A (size * price) = some share ∧ share ≤ cfg.maxPositionFraction) := by
  unfold check at hok
  simp only [hb, Outcome.bind_eq_ok, Outcome.okOr_eq_ok, Outcome.reject_eq_ok, exists_const] at hok
  obtain ⟨-, -, -, -, -, price', hm', notional, -, -, hentry⟩ := hok
  obtain rfl : price' = price := Option.some.inj (hm'.symm.trans hm)
  unfold checkEntry Arith.add Arith.mul at hentry
  simp only [Outcome.bind_eq_ok, Outcome.unwrap_eq_ok, Outcome.reject_eq_ok, checkCooldown_eq_ok, exists_const]
    at hentry
  obtain ⟨hcash, hloss, hslot, hcool, size, hsize, value, hvalue, share, hshare, hcap⟩ := hentry
  refine ⟨⟨notional, entryGuards_iff.mpr ⟨hcash, hloss, hslot, hcool⟩⟩, size, hsize, fun hequity => ⟨share, ?_, ?_⟩⟩
  · rw [positionFraction, if_pos hequity, Arith.div, if_neg hequity.ne', Outcome.unwrap_eq_ok] at hshare
    rw [GateContext.shareIn, hvalue, Option.bind_some, hshare]
  · exact not_lt.mp hcap

end RiskGate

/-- What is booked of a buy that enlarges a position is a long one. -/
theorem nonneg_of_enlarges {pos qty size : ℚ} (hpos : IsDecimal pos) (hq : 0 < qty)
    (hfit : Arith.dec96.fit (pos + qty) = some size) (h : |pos| < |size|) : 0 ≤ size := by
  have hle : pos ≤ size := hpos.le_fit (by linarith) hfit
  by_contra hneg
  rw [abs_of_neg (not_le.mp hneg), abs_of_neg (by linarith)] at h
  linarith

/-- Of an accepted buy that enlarges a position the entry limits hold exactly if it is limited. -/
theorem exposureLimits_buy_iff (hpos : IsDecimal (ctx.portfolio.position order.asset.symbol)) (hq : 0 < order.qty)
    (hok : RiskGate.check .dec96 cfg order ctx = .ok ()) (hb : order.side = .buy) (hm : order.mark ctx = some price)
    {size : ℚ} (hsize : Arith.dec96.fit (order.resultingQty ctx) = some size)
    (hinc : |ctx.portfolio.position order.asset.symbol| < |size|) :
    ExposureLimits cfg order ctx size price ↔ Limited cfg ctx size price := by
  obtain ⟨⟨_, hguards⟩, size', hsize', hshare⟩ := RiskGate.check_buy_ok hb hm hok
  obtain rfl : size' = size := Option.some.inj (hsize'.symm.trans hsize)
  have habs : |size'| = size' := abs_of_nonneg (nonneg_of_enlarges hpos hq hsize hinc)
  constructor
  · rintro ⟨-, -, hcool, hfraction⟩
    rw [habs] at hfraction
    exact ⟨(cooledDown_iff hguards.cooled).mp hcool, .inr hfraction⟩
  · rintro ⟨hcool, hfraction⟩
    refine ⟨hguards.unrealized, hguards.slot, (cooledDown_iff hguards.cooled).mpr hcool, ?_⟩
    rw [habs]
    rcases hfraction with ⟨hequity, hdown⟩ | hwithin
    · obtain ⟨share, hcomputed, hcap⟩ := hshare hequity
      exact (hdown share hcomputed).trans (mul_le_mul_of_nonneg_right hcap hequity.le)
    · exact hwithin

theorem check_sell_whatever (hs : order.side = .sell) (hok : RiskGate.check A cfg order ctx = .ok ())
    (fraction loss : ℚ) (count : ℕ) (cooldown : UInt64) : RiskGate.check A
      { cfg with maxPositionFraction := fraction, maxUnrealizedLoss := loss, maxOpenPositions := count,
                 orderCooldownSecs := cooldown } order ctx = .ok () := by
  obtain ⟨⟨h1, h2, h3, h4, h5⟩, hrest⟩ := (RiskGate.check_sell_ok_iff hs).mp hok
  exact (RiskGate.check_sell_ok_iff hs).mpr ⟨⟨h1, h2, h3, h4, h5⟩, hrest⟩

end

/-- **Exposure.** Of an accepted order that enlarges a position, booked as `Portfolio::apply` books it:
the entry limits hold for a buy exactly if it is limited. They hold whatever limit the operator sets on the
open loss, of the settings that the order is accepted with, exactly if it is a buy and is limited: a sell is
accepted under every choice of the four limits, also with the open loss at its limit. -/
theorem exposure_limits_iff {cfg : RiskConfig} {order : Order} {ctx : GateContext} {fill : Fill} {p' : Portfolio}
    {price : ℚ} (hpos : IsDecimal (ctx.portfolio.position order.asset.symbol)) (hq : 0 < order.qty)
    (hok : RiskGate.check .dec96 cfg order ctx = .ok ()) (hf : fill.Fills order)
    (hbook : ctx.portfolio.applyIn .dec96 fill = some p')
    (hinc : |ctx.portfolio.position order.asset.symbol| < |p'.position order.asset.symbol|)
    (hm : order.mark ctx = some price) :
    (order.side = .buy → (ExposureLimits cfg order ctx (p'.position order.asset.symbol) price ↔
      Limited cfg ctx (p'.position order.asset.symbol) price)) ∧
    ((∀ loss, RiskGate.check .dec96 { cfg with maxUnrealizedLoss := loss } order ctx = .ok () →
      ExposureLimits { cfg with maxUnrealizedLoss := loss } order ctx (p'.position order.asset.symbol) price) ↔
        order.side = .buy ∧ Limited cfg ctx (p'.position order.asset.symbol) price) ∧
    (order.side = .sell → ∀ fraction loss count cooldown, RiskGate.check .dec96
      { cfg with maxPositionFraction := fraction, maxUnrealizedLoss := loss, maxOpenPositions := count,
                 orderCooldownSecs := cooldown } order ctx = .ok ()) := by
  have hbooked := (Portfolio.applyIn_eq_some hbook).2
  rw [hf.asset, hf.side, hf.qty] at hbooked
  refine ⟨fun hb => ?_, ?_, fun hs fraction loss count cooldown => check_sell_whatever hs hok fraction loss count cooldown⟩
  · rw [hb] at hbooked
    exact exposureLimits_buy_iff hpos hq hok hb hm hbooked hinc
  cases hs : order.side with
  | buy =>
    rw [hs] at hbooked
    have hiff := exposureLimits_buy_iff hpos hq hok hs hm hbooked hinc
    simp only [true_and]
    constructor
    · intro h
      exact hiff.mp (h cfg.maxUnrealizedLoss hok)
    · intro hlimited loss hloss
      have hlimited' : Limited { cfg with maxUnrealizedLoss := loss } ctx (p'.position order.asset.symbol) price :=
        ⟨hlimited.cooldown, hlimited.fraction⟩
      exact (exposureLimits_buy_iff hpos hq hloss hs hm hbooked hinc).mpr hlimited'
  | sell =>
    refine iff_of_false (fun h => ?_) fun h => by simp at h
    have haccepted := check_sell_whatever hs hok cfg.maxPositionFraction (-ctx.unrealizedPnl) cfg.maxOpenPositions
      cfg.orderCooldownSecs
    have hlimit := (h (-ctx.unrealizedPnl) haccepted).unrealized
    rw [neg_neg] at hlimit
    exact lt_irrefl _ hlimit

theorem exposure_limits_buy : ∃ p', (Portfolio.new 1000).applyIn .dec96 (fillOf .buy "ROAR" 10 10 0) = some p' ∧
    ExposureLimits .default (orderOf .buy "ROAR" 10 10) (contextOf (.new 1000) 10) (p'.position "ROAR") 10 := by
  have hbooked : ((Portfolio.new 1000).applyIn .dec96 (fillOf .buy "ROAR" 10 10 0)).map (·.position "ROAR") =
      some 10 := by
    decide +kernel
  obtain ⟨p', hbook, hqty⟩ := Option.map_eq_some_iff.mp hbooked
  obtain ⟨ctx, hctx⟩ : ∃ ctx, ctx = contextOf (.new 1000) 10 := ⟨_, rfl⟩
  obtain ⟨order, horder⟩ : ∃ order, order = orderOf .buy "ROAR" 10 10 := ⟨_, rfl⟩
  have hsymbol : order.asset.symbol = "ROAR" := by rw [horder]; rfl
  have hnone : ctx.portfolio.position order.asset.symbol = 0 := by rw [hsymbol, hctx]; decide +kernel
  have hok : RiskGate.check .dec96 .default order ctx = .ok () := by rw [horder, hctx]; decide +kernel
  have hfills : (fillOf .buy "ROAR" 10 10 0).Fills order := horder ▸ ⟨rfl, rfl, rfl⟩
  have hbook' : ctx.portfolio.applyIn .dec96 (fillOf .buy "ROAR" 10 10 0) = some p' := hctx ▸ hbook
  have hinc : |ctx.portfolio.position order.asset.symbol| < |p'.position order.asset.symbol| := by
    rw [hnone, hsymbol, hqty]
    decide +kernel
  have hlimited : Limited .default ctx (p'.position order.asset.symbol) 10 := by
    rw [hsymbol, hqty, hctx]
    exact ⟨.inl (by decide), .inr (by decide +kernel)⟩
  have hiff := (exposure_limits_iff (hnone ▸ isDecimal_zero) (by rw [horder]; decide +kernel) hok hfills hbook' hinc
    (by rw [horder]; rfl)).1 (by rw [horder]; rfl)
  rw [hsymbol] at hiff hlimited
  refine ⟨p', hbook, ?_⟩
  rw [← horder, ← hctx]
  exact hiff.mpr hlimited

/-- With 100 of cash and nothing held, ten may be sold short at ten: a position
as large as the equity, under a cap of a tenth of it. -/
theorem short_not_limited :
    let order := orderOf .sell "ROAR" 10 10
    let ctx := contextOf (.new 100) 10
    let fill := fillOf .sell "ROAR" 10 10 0
    0 < order.qty ∧ RiskGate.check .dec96 .default order ctx = .ok () ∧ fill.Fills order ∧
      order.mark ctx = some 10 ∧
      ∃ p', ctx.portfolio.applyIn .dec96 fill = some p' ∧
        |ctx.portfolio.position "ROAR"| < |p'.position "ROAR"| ∧
        ¬ ExposureLimits .default order ctx (p'.position "ROAR") 10 := by
  have hbooked : ((Portfolio.new 100).applyIn .dec96 (fillOf .sell "ROAR" 10 10 0)).map (·.position "ROAR") =
      some (-10) := by
    decide +kernel
  obtain ⟨p', hbook, hqty⟩ := Option.map_eq_some_iff.mp hbooked
  refine ⟨by decide +kernel, by decide +kernel, ⟨rfl, rfl, rfl⟩, rfl, p', hbook, ?_, fun h => ?_⟩
  · rw [hqty]
    decide +kernel
  · have hfraction := h.fraction
    rw [hqty] at hfraction
    revert hfraction
    decide +kernel

end Sherwood
