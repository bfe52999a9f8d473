/-
# The gate is monotone

What the risk gate accepts it also accepts under looser limits, and in a context
with more cash, more profit or more time passed. That holds over any arithmetic,
for the same numbers are compared (`check_loosens`, `check_improves`).

A smaller quantity gives smaller numbers, also after rounding. Over exact
arithmetic the smaller order is accepted too. Over `rust_decimal` the position it
leaves may be too large a short for its value or its share of equity to fit, and
then the gate panics; that is the only exception (`check_smaller_iff`).

Key definitions: `RiskConfig.Loosens`, `GateContext.Improves`, `Order.withQty`.
Key theorems: `check_ok_iff`, `check_loosens`, `check_improves`, `check_smaller_iff`,
`check_smaller_exact`, `gate_monotone`, `smaller_order_panics`.
-/
import Sherwood.Core.Risk

namespace Sherwood

/-- The limits of `c₂` are at least as permissive. -/
structure RiskConfig.Loosens (c₁ c₂ : RiskConfig) : Prop where
  maxOrderNotional : c₁.maxOrderNotional ≤ c₂.maxOrderNotional
  maxPositionFraction : c₁.maxPositionFraction ≤ c₂.maxPositionFraction
  maxDailyLoss : c₁.maxDailyLoss ≤ c₂.maxDailyLoss
  maxUnrealizedLoss : c₁.maxUnrealizedLoss ≤ c₂.maxUnrealizedLoss
  maxOpenPositions : c₁.maxOpenPositions ≤ c₂.maxOpenPositions
  orderCooldownSecs : c₂.orderCooldownSecs ≤ c₁.orderCooldownSecs
  fits : c₁.orderCooldownSecs.toNat < 2 ^ 63
  maxSlippage : c₁.maxSlippage ≤ c₂.maxSlippage
  denylist : c₂.denylist ⊆ c₁.denylist
  allowlist : c₂.allowlist = ∅ ∨ c₁.allowlist ≠ ∅ ∧ c₁.allowlist ⊆ c₂.allowlist
  killSwitch : c₂.killSwitch = true → c₁.killSwitch = true

/-- `ctx'` differs from `ctx` only in more cash, more profit or a later time. -/
structure GateContext.Improves (ctx ctx' : GateContext) : Prop where
  cash : ctx.portfolio.cash ≤ ctx'.portfolio.cash
  realizedPnl : ctx.portfolio.realizedPnl ≤ ctx'.portfolio.realizedPnl
  positions : ctx'.portfolio.positions = ctx.portfolio.positions
  avgCosts : ctx'.portfolio.avgCosts = ctx.portfolio.avgCosts
  refPrice : ctx'.refPrice = ctx.refPrice
  equity : ctx'.equity = ctx.equity
  unrealizedPnl : ctx.unrealizedPnl ≤ ctx'.unrealizedPnl
  lastOrderAt : ctx'.lastOrderAt = ctx.lastOrderAt
  now : ctx.now ≤ ctx'.now

/-- Results keep the order of what they round, and what is no larger than a number
that fits does too. -/
structure Arith.Ordered (A : Arith) : Prop where
  zero : A.fit 0 = some 0
  mono {q q' v v' : ℚ} : q ≤ q' → A.fit q = some v → A.fit q' = some v' → v ≤ v'
  fits {q q' : ℚ} : |q| ≤ |q'| → (A.fit q').isSome → (A.fit q).isSome

theorem Arith.ordered_exact : Arith.exact.Ordered where
  zero := rfl
  mono h hv hv' := by
    cases hv
    cases hv'
    exact h
  fits _ _ := rfl

theorem Arith.ordered_dec96 : Arith.dec96.Ordered where
  zero := by decide +kernel
  mono := dec96_fit_mono
  fits {q q'} h hfit := by
    rw [Option.isSome_iff_ne_none, Ne, dec96_fit_eq_none_iff, not_le] at hfit ⊢
    exact h.trans_lt hfit

/-- The order for another quantity. -/
def Order.withQty (order : Order) (qty : ℚ) : Order := { order with qty }

namespace RiskGate

variable {A : Arith} {cfg cfg' : RiskConfig} {order : Order} {ctx ctx' : GateContext} {price notional : ℚ}

/-- The resulting position is within its share of equity. -/
def WithinShare (A : Arith) (cfg : RiskConfig) (order : Order) (ctx : GateContext) (price : ℚ) : Prop :=
  ∃ size value frac, A.fit (order.resultingQty ctx) = some size ∧ A.fit (size * price) = some value ∧
    positionFraction A ctx value = .ok frac ∧ frac ≤ cfg.maxPositionFraction

theorem checkEntry_ok_iff : checkEntry A cfg order ctx price notional = .ok () ↔
    EntryGuards cfg order ctx notional ∧ WithinShare A cfg order ctx price := by
  rw [entryGuards_iff]
  unfold checkEntry WithinShare Order.resultingQty Arith.add Arith.mul
  simp only [Outcome.bind_eq_ok, Outcome.unwrap_eq_ok, checkCooldown_eq_ok, Outcome.reject_eq_ok, exists_const,
    and_assoc, not_lt, gt_iff_lt]
  simp only [exists_and_left]

/-- **Acceptance**, over any arithmetic. -/
theorem check_ok_iff : check A cfg order ctx = .ok () ↔
    Permitted cfg order ctx ∧ ∃ price notional, order.mark ctx = some price ∧
      A.fit (order.qty * price) = some notional ∧ notional ≤ cfg.maxOrderNotional ∧
      (order.side = .buy → EntryGuards cfg order ctx notional ∧ WithinShare A cfg order ctx price) := by
  rw [permitted_iff]
  unfold check Order.mark Arith.mul
  cases hs : order.side <;>
    simp only [Outcome.bind_eq_ok, Outcome.unwrap_eq_ok, Outcome.okOr_eq_ok, Outcome.pure_eq_ok,
      Outcome.reject_eq_ok, exists_const, and_assoc, not_lt, gt_iff_lt, checkEntry_ok_iff,
      reduceCtorEq, false_imp_iff, true_imp_iff, and_true] <;>
    simp only [exists_and_left]

/-! ### Looser limits -/

theorem cooled_loosens (h : cfg.Loosens cfg')
    (hc : 0 < cfg.orderCooldownSecs → ∀ last ∈ ctx.lastOrderAt, cfg.cooldown ≤ ctx.now.secondsSince last) :
    0 < cfg'.orderCooldownSecs → ∀ last ∈ ctx.lastOrderAt, cfg'.cooldown ≤ ctx.now.secondsSince last := by
  intro hpos last hl
  have hle : cfg'.orderCooldownSecs.toNat ≤ cfg.orderCooldownSecs.toNat := h.orderCooldownSecs
  have hc := hc (UInt64.lt_of_lt_of_le hpos h.orderCooldownSecs) last hl
  have hfits := h.fits
  rw [RiskConfig.cooldown_eq, if_pos hfits] at hc
  rw [RiskConfig.cooldown_eq, if_pos (by omega)]
  omega

theorem permitted_loosens (h : cfg.Loosens cfg') (hp : Permitted cfg order ctx) : Permitted cfg' order ctx where
  running := by
    by_contra hk
    have := h.killSwitch (by simpa using hk)
    exact absurd hp.running (by simp [this])
  notDenied hd := hp.notDenied (h.denylist hd)
  allowed hne := by
    obtain ⟨hne', hsub⟩ := h.allowlist.resolve_left hne
    exact hsub (hp.allowed hne')
  slippage := hp.slippage.trans h.maxSlippage
  dailyLoss := (neg_le_neg h.maxDailyLoss).trans_lt hp.dailyLoss

theorem entryGuards_loosens (h : cfg.Loosens cfg') (hg : EntryGuards cfg order ctx notional) :
    EntryGuards cfg' order ctx notional where
  cash := hg.cash
  unrealized := (neg_le_neg h.maxUnrealizedLoss).trans_lt hg.unrealized
  slot hflat := (hg.slot hflat).trans_le h.maxOpenPositions
  cooled := cooled_loosens h hg.cooled

/-- **Looser limits** accept what the tighter ones do. -/
theorem check_loosens (h : cfg.Loosens cfg') (hok : check A cfg order ctx = .ok ()) :
    check A cfg' order ctx = .ok () := by
  obtain ⟨hp, price, notional, hm, hn, hcap, hentry⟩ := check_ok_iff.mp hok
  refine check_ok_iff.mpr ⟨permitted_loosens h hp, price, notional, hm, hn, hcap.trans h.maxOrderNotional, ?_⟩
  intro hbuy
  obtain ⟨hg, size, value, frac, hsize, hvalue, hfrac, hle⟩ := hentry hbuy
  exact ⟨entryGuards_loosens h hg, size, value, frac, hsize, hvalue, hfrac, hle.trans h.maxPositionFraction⟩

/-! ### A better context -/

section Improves

variable (h : ctx.Improves ctx')
include h

theorem position_improves (sym : String) : ctx'.portfolio.position sym = ctx.portfolio.position sym := by
  unfold Portfolio.position
  rw [h.positions]

theorem openPositionCount_improves : ctx'.portfolio.openPositionCount = ctx.portfolio.openPositionCount := by
  unfold Portfolio.openPositionCount Portfolio.openPositions
  rw [h.positions]

theorem mark_improves : order.mark ctx' = order.mark ctx := by
  unfold Order.mark
  rw [h.refPrice]

theorem resultingQty_improves : order.resultingQty ctx' = order.resultingQty ctx := by
  unfold Order.resultingQty
  rw [position_improves h]

theorem positionFraction_improves (v : ℚ) : positionFraction A ctx' v = positionFraction A ctx v := by
  unfold positionFraction
  rw [h.equity]

theorem permitted_improves (hp : Permitted cfg order ctx) : Permitted cfg order ctx' where
  running := hp.running
  notDenied := hp.notDenied
  allowed := hp.allowed
  slippage := hp.slippage
  dailyLoss := hp.dailyLoss.trans_le h.realizedPnl

theorem entryGuards_improves (hg : EntryGuards cfg order ctx notional) : EntryGuards cfg order ctx' notional where
  cash := hg.cash.trans h.cash
  unrealized := hg.unrealized.trans_le h.unrealizedPnl
  slot hflat := by
    rw [position_improves h] at hflat
    rw [openPositionCount_improves h]
    exact hg.slot hflat
  cooled hpos last hl := by
    rw [h.lastOrderAt] at hl
    exact (hg.cooled hpos last hl).trans (DateTime.secondsSince_le h.now le_rfl)

/-- **A better context** is one in which what was accepted still is. -/
theorem check_improves (hok : check A cfg order ctx = .ok ()) : check A cfg order ctx' = .ok () := by
  obtain ⟨hp, price, notional, hm, hn, hcap, hentry⟩ := check_ok_iff.mp hok
  refine check_ok_iff.mpr ⟨permitted_improves h hp, price, notional, (mark_improves h).trans hm, hn, hcap, ?_⟩
  intro hbuy
  obtain ⟨hg, size, value, frac, hsize, hvalue, hfrac, hle⟩ := hentry hbuy
  refine ⟨entryGuards_improves h hg, size, value, frac, ?_, hvalue, ?_, hle⟩
  · rw [resultingQty_improves h]
    exact hsize
  · rw [positionFraction_improves h]
    exact hfrac

end Improves

/-! ### A smaller order -/

/-- The position a buy leaves, its value and its share of equity fit. -/
def ShareFits (A : Arith) (order : Order) (ctx : GateContext) (price : ℚ) : Prop :=
  ∃ size value, A.fit (order.resultingQty ctx) = some size ∧ A.fit (size * price) = some value ∧
    (0 < ctx.equity → (A.fit (value / ctx.equity)).isSome)

theorem positionFraction_isOk_iff {v : ℚ} : (∃ frac, positionFraction A ctx v = .ok frac) ↔
    (0 < ctx.equity → (A.fit (v / ctx.equity)).isSome) := by
  unfold positionFraction Arith.div
  split_ifs with hpos hzero
  · exact absurd hzero hpos.ne'
  · simp only [Outcome.unwrap_eq_ok, hpos, true_imp_iff, Option.isSome_iff_exists]
  · simp [hpos]

theorem WithinShare.fits (h : WithinShare A cfg order ctx price) : ShareFits A order ctx price := by
  obtain ⟨size, value, frac, hsize, hvalue, hfrac, -⟩ := h
  exact ⟨size, value, hsize, hvalue, positionFraction_isOk_iff.mp ⟨frac, hfrac⟩⟩

theorem positionFraction_mono (hA : A.Ordered) {v v' frac frac' : ℚ} (hle : v ≤ v')
    (h : positionFraction A ctx v = .ok frac) (h' : positionFraction A ctx v' = .ok frac') : frac ≤ frac' := by
  unfold positionFraction Arith.div at h h'
  split_ifs at h h' with hpos hzero
  · exact hA.mono (div_le_div_of_nonneg_right hle hpos.le) (Outcome.unwrap_eq_ok.mp h) (Outcome.unwrap_eq_ok.mp h')
  · cases h
    cases h'
    exact le_rfl

section Smaller

variable (hA : A.Ordered) {qty : ℚ} (hqty : qty ≤ order.qty)

include hqty in
theorem resultingQty_smaller : (order.withQty qty).resultingQty ctx ≤ order.resultingQty ctx := by
  show ctx.portfolio.position order.asset.symbol + qty ≤ ctx.portfolio.position order.asset.symbol + order.qty
  linarith

theorem entryGuards_smaller {notional' : ℚ} (hle : notional' ≤ notional)
    (hg : EntryGuards cfg order ctx notional) : EntryGuards cfg (order.withQty qty) ctx notional' where
  cash := hle.trans hg.cash
  unrealized := hg.unrealized
  slot := hg.slot
  cooled := hg.cooled

include hA hqty

/-- The smaller buy is within the share the larger one is, where its numbers fit. -/
theorem withinShare_smaller (hprice : 0 ≤ price) (h : WithinShare A cfg order ctx price) :
    WithinShare A cfg (order.withQty qty) ctx price ↔ ShareFits A (order.withQty qty) ctx price := by
  refine ⟨WithinShare.fits, ?_⟩
  rintro ⟨size, value, hsize, hvalue, hfits⟩
  obtain ⟨frac, hfrac⟩ := positionFraction_isOk_iff.mpr hfits
  obtain ⟨size', value', frac', hsize', hvalue', hfrac', hle⟩ := h
  have hs : size ≤ size' := hA.mono (resultingQty_smaller hqty) hsize hsize'
  have hv : value ≤ value' := hA.mono (mul_le_mul_of_nonneg_right hs hprice) hvalue hvalue'
  exact ⟨size, value, frac, hsize, hvalue, hfrac, (positionFraction_mono hA hv hfrac hfrac').trans hle⟩

theorem notional_smaller (hpos : 0 ≤ qty) (hprice : 0 ≤ price) (hn : A.fit (order.qty * price) = some notional) :
    ∃ notional' ≤ notional, A.fit (qty * price) = some notional' := by
  have hle : qty * price ≤ order.qty * price := mul_le_mul_of_nonneg_right hqty hprice
  have habs : |qty * price| ≤ |order.qty * price| := abs_le_abs_of_nonneg (mul_nonneg hpos hprice) hle
  obtain ⟨notional', hn'⟩ := Option.isSome_iff_exists.mp (hA.fits habs (by simp [hn]))
  exact ⟨notional', hA.mono hle hn' hn, hn'⟩

/-- **A smaller order** of an accepted one is accepted, unless it is a buy and the
position it leaves overflows. -/
theorem check_smaller_iff (hpos : 0 ≤ qty) (hprice : ∀ price ∈ order.mark ctx, 0 ≤ price)
    (hok : check A cfg order ctx = .ok ()) : check A cfg (order.withQty qty) ctx = .ok () ↔
      (order.side = .buy → ∀ price ∈ order.mark ctx, ShareFits A (order.withQty qty) ctx price) := by
  obtain ⟨hp, price, notional, hm, hn, hcap, hentry⟩ := check_ok_iff.mp hok
  have hprice := hprice price hm
  rw [check_ok_iff]
  constructor
  · rintro ⟨-, price', notional', hm', -, -, hentry'⟩ hbuy p hmark
    obtain rfl : price' = p := Option.some.inj (hm'.symm.trans hmark)
    exact (hentry' hbuy).2.fits
  · intro hfits
    obtain ⟨notional', hle, hn'⟩ := notional_smaller hA hqty hpos hprice hn
    have hperm : Permitted cfg (order.withQty qty) ctx := ⟨hp.1, hp.2, hp.3, hp.4, hp.5⟩
    refine ⟨hperm, price, notional', hm, hn', hle.trans hcap, fun hbuy => ?_⟩
    obtain ⟨hg, hshare⟩ := hentry hbuy
    exact ⟨entryGuards_smaller hle hg, (withinShare_smaller hA hqty hprice hshare).mpr (hfits hbuy price hm)⟩

/-- A buy that leaves no short overflows only if the larger one did. -/
theorem shareFits_of_nonneg (hprice : 0 ≤ price) (hlong : 0 ≤ (order.withQty qty).resultingQty ctx)
    (h : ShareFits A order ctx price) : ShareFits A (order.withQty qty) ctx price := by
  obtain ⟨size, value, hsize, hvalue, hfits⟩ := h
  have hle : (order.withQty qty).resultingQty ctx ≤ order.resultingQty ctx := resultingQty_smaller hqty
  obtain ⟨size', hsize'⟩ := Option.isSome_iff_exists.mp
    (hA.fits (abs_le_abs_of_nonneg hlong hle) (by simp [hsize]))
  have hs0 : 0 ≤ size' := hA.mono hlong hA.zero hsize'
  have hv : size' * price ≤ size * price := mul_le_mul_of_nonneg_right (hA.mono hle hsize' hsize) hprice
  obtain ⟨value', hvalue'⟩ := Option.isSome_iff_exists.mp
    (hA.fits (abs_le_abs_of_nonneg (mul_nonneg hs0 hprice) hv) (by simp [hvalue]))
  have hv0 : 0 ≤ value' := hA.mono (mul_nonneg hs0 hprice) hA.zero hvalue'
  refine ⟨size', value', hsize', hvalue', fun hequity => hA.fits ?_ (hfits hequity)⟩
  exact abs_le_abs_of_nonneg (div_nonneg hv0 hequity.le)
    (div_le_div_of_nonneg_right (hA.mono hv hvalue' hvalue) hequity.le)

end Smaller

theorem check_smaller_exact {qty : ℚ} (hqty : qty ≤ order.qty) (hpos : 0 ≤ qty)
    (hprice : ∀ price ∈ order.mark ctx, 0 ≤ price) (hok : check .exact cfg order ctx = .ok ()) :
    check .exact cfg (order.withQty qty) ctx = .ok () :=
  (check_smaller_iff Arith.ordered_exact hqty hpos hprice hok).mpr
    fun _ _ _ => ⟨_, _, rfl, rfl, fun _ => rfl⟩

end RiskGate

/-- **The gate is monotone** in its limits and in its context, and in the quantity
except where the position a smaller buy leaves overflows. -/
theorem gate_monotone {cfg : RiskConfig} {order : Order} {ctx : GateContext}
    (hprice : ∀ price ∈ order.mark ctx, 0 < price) (hok : RiskGate.check .dec96 cfg order ctx = .ok ()) :
    (∀ cfg', cfg.Loosens cfg' → RiskGate.check .dec96 cfg' order ctx = .ok ()) ∧
      (∀ ctx', ctx.Improves ctx' → RiskGate.check .dec96 cfg order ctx' = .ok ()) ∧
      ∀ qty, 0 < qty → qty < order.qty → (RiskGate.check .dec96 cfg (order.withQty qty) ctx = .ok () ↔
        (order.side = .buy → ∀ price ∈ order.mark ctx, RiskGate.ShareFits .dec96 (order.withQty qty) ctx price)) := by
  refine ⟨fun cfg' h => RiskGate.check_loosens h hok, fun ctx' h => RiskGate.check_improves h hok, ?_⟩
  intro qty hpos hlt
  exact RiskGate.check_smaller_iff Arith.ordered_dec96 hlt.le hpos.le (fun price hm => (hprice price hm).le) hok

theorem gate_monotone_halfOrder :
    RiskGate.check .dec96 .default ((orderOf .buy "ROAR" 10 10).withQty 5) (contextOf (.new 1000) 10) = .ok () :=
  ((gate_monotone (fun price hm => by cases hm; norm_num) (by decide +kernel)).2.2 5 (by norm_num)
    (by decide +kernel)).mpr fun _ price hm => ⟨5, price * 5, by decide +kernel, by cases hm; decide +kernel,
      fun _ => by cases hm; decide +kernel⟩

/-- A ledger that sold 8000 short at an eighth and is worth next to nothing. -/
def thinLedger : Portfolio := (Portfolio.new (1 / 10 ^ 25)).apply (fillOf .sell "ROAR" 8000 (1 / 8) 0)

/-- It may buy 1000 back at one. With one bought back the short left is a larger
multiple of its equity than a decimal holds. -/
theorem smaller_order_panics :
    let cfg := { RiskConfig.default with maxOrderNotional := 1000 }
    let order := orderOf .buy "ROAR" 1000 1
    let ctx := contextOf thinLedger (1 / 8)
    order.mark ctx = some 1 ∧ RiskGate.check .dec96 cfg order ctx = .ok () ∧
      RiskGate.check .dec96 cfg (order.withQty 1) ctx = .panic := by
  decide +kernel

end Sherwood
