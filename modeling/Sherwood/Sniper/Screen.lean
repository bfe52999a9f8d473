/-
# The sniper's screen

`RugScreen` of `crates/sniper/src/lib.rs`: a new pool is checked against the operator's bounds, and an entry is
ordered only where no check fails. What is flagged is exactly the checks that fail, in their order
(`screen_eq_filter`), so stricter bounds flag no less.

A safer pool is no safer to the screen: the length of the lock is checked only of a pool that is locked, so where no
lock is asked for, an unlocked pool passes and one with a short lock does not. Screening is monotone exactly if a lock
is required or may be of any length (`screen_monotone_iff`). An order that is made is for the configured notional,
whatever the price, and the gate looks at nothing else of it (`snipe_gated_iff`); the slippage of the default screen is
above what the default gate permits.

Key definitions: `SniperConfig`, `RugFlag`, `RugScreen.screen`, `RugScreen.entryOrder`, `NewPoolEvent.Safer`.
Key theorems: `screen_eq_filter`, `entryOrder_ok_iff`, `screen_monotone_iff`, `snipe_gated_iff`.
-/
import Sherwood.Core.Risk

namespace Sherwood

/-- A newly observed pool. -/
structure NewPoolEvent where
  asset : Asset
  initialLiquidity : ℚ
  /-- The share of the supply its deployer holds. -/
  deployerSupplyFraction : ℚ
  lpLocked : Bool
  lpLockSecs : UInt64
  mintEnabled : Bool
  canFreeze : Bool
  buyTax : Option ℚ
  sellTax : Option ℚ
  createdAt : DateTime

structure SniperConfig where
  minInitialLiquidity : ℚ
  maxDeployerSupplyFraction : ℚ
  requireLpLocked : Bool
  minLpLockSecs : UInt64
  rejectIfMintable : Bool
  rejectIfFreezable : Bool
  maxTax : ℚ
  entryNotional : ℚ
  slippage : ℚ

/-- `SniperConfig::default`. -/
def SniperConfig.default : SniperConfig where
  minInitialLiquidity := 5000
  maxDeployerSupplyFraction := 15 / 100
  requireLpLocked := true
  minLpLockSecs := 60 * 60 * 24 * 30
  rejectIfMintable := true
  rejectIfFreezable := true
  maxTax := 10 / 100
  entryNotional := 50
  slippage := 15 / 100

inductive RugFlag where
  | lowLiquidity
  | deployerHoldsTooMuch
  | lpNotLocked
  | lpLockTooShort
  | mintable
  | freezable
  | taxTooHigh
  deriving DecidableEq, Repr

structure RugScreen where
  cfg : SniperConfig

/-- The higher of the taxes that are known. -/
def NewPoolEvent.tax (ev : NewPoolEvent) : ℚ := max (ev.buyTax.getD 0) (ev.sellTax.getD 0)

namespace RugScreen

def new (cfg : SniperConfig) : RugScreen := ⟨cfg⟩

/-- All the checks that fail. -/
def screen (s : RugScreen) (ev : NewPoolEvent) : List RugFlag :=
  (if ev.initialLiquidity < s.cfg.minInitialLiquidity then [.lowLiquidity] else []) ++
  (if ev.deployerSupplyFraction > s.cfg.maxDeployerSupplyFraction then [.deployerHoldsTooMuch] else []) ++
  (if s.cfg.requireLpLocked && !ev.lpLocked then [.lpNotLocked] else []) ++
  (if ev.lpLocked && decide (ev.lpLockSecs < s.cfg.minLpLockSecs) then [.lpLockTooShort] else []) ++
  (if s.cfg.rejectIfMintable && ev.mintEnabled then [.mintable] else []) ++
  (if s.cfg.rejectIfFreezable && ev.canFreeze then [.freezable] else []) ++
  (if ev.tax > s.cfg.maxTax then [.taxTooHigh] else [])

/-- The entry, if the screen is clean. -/
def entryOrder (A : Arith) (s : RugScreen) (ev : NewPoolEvent) (refPrice : ℚ) : Outcome (List RugFlag) Order := do
  let flags := s.screen ev
  .reject (flags ≠ []) flags
  .reject (refPrice ≤ 0) [.lowLiquidity]
  let qty ← A.div s.cfg.entryNotional refPrice
  let liq := Decimal.display ev.initialLiquidity
  pure {
    id := ⟨s!"snipe-{ev.asset.symbol}"⟩
    asset := ev.asset
    side := .buy
    qty := qty
    limitPrice := some refPrice
    maxSlippage := s.cfg.slippage
    venue := .paper
    reason := s!"sniper:new_pool liq={liq}" }

end RugScreen

/-! ### What is flagged -/

/-- The check of a flag fails. -/
def RugFlag.Raised (c : SniperConfig) (ev : NewPoolEvent) : RugFlag → Bool
  | .lowLiquidity => ev.initialLiquidity < c.minInitialLiquidity
  | .deployerHoldsTooMuch => c.maxDeployerSupplyFraction < ev.deployerSupplyFraction
  | .lpNotLocked => c.requireLpLocked && !ev.lpLocked
  | .lpLockTooShort => ev.lpLocked && decide (ev.lpLockSecs < c.minLpLockSecs)
  | .mintable => c.rejectIfMintable && ev.mintEnabled
  | .freezable => c.rejectIfFreezable && ev.canFreeze
  | .taxTooHigh => c.maxTax < ev.tax

/-- The flags, in the order of the checks. -/
def RugFlag.all : List RugFlag :=
  [.lowLiquidity, .deployerHoldsTooMuch, .lpNotLocked, .lpLockTooShort, .mintable, .freezable, .taxTooHigh]

theorem RugFlag.mem_all (flag : RugFlag) : flag ∈ RugFlag.all := by cases flag <;> decide

/-- The bounds of `c` ask for at least what those of `c'` do. -/
structure SniperConfig.Stricter (c c' : SniperConfig) : Prop where
  liquidity : c'.minInitialLiquidity ≤ c.minInitialLiquidity
  deployer : c.maxDeployerSupplyFraction ≤ c'.maxDeployerSupplyFraction
  locked : c'.requireLpLocked → c.requireLpLocked
  lock : c'.minLpLockSecs ≤ c.minLpLockSecs
  mint : c'.rejectIfMintable → c.rejectIfMintable
  freeze : c'.rejectIfFreezable → c.rejectIfFreezable
  tax : c.maxTax ≤ c'.maxTax

/-- There is no reading in which `ev` is the riskier pool. -/
structure NewPoolEvent.Safer (ev ev' : NewPoolEvent) : Prop where
  liquidity : ev'.initialLiquidity ≤ ev.initialLiquidity
  deployer : ev.deployerSupplyFraction ≤ ev'.deployerSupplyFraction
  locked : ev'.lpLocked → ev.lpLocked
  lock : ev'.lpLockSecs ≤ ev.lpLockSecs
  mint : ev.mintEnabled → ev'.mintEnabled
  freeze : ev.canFreeze → ev'.canFreeze
  buyTax : ev.buyTax.getD 0 ≤ ev'.buyTax.getD 0
  sellTax : ev.sellTax.getD 0 ≤ ev'.sellTax.getD 0

theorem SniperConfig.Stricter.refl (c : SniperConfig) : c.Stricter c :=
  ⟨le_refl _, le_refl _, id, UInt64.le_refl _, id, id, le_refl _⟩

/-- Stricter bounds fail no fewer checks of the same pool. -/
theorem SniperConfig.Stricter.raised {c c' : SniperConfig} (h : c.Stricter c') {ev : NewPoolEvent} {flag : RugFlag}
    (hraised : flag.Raised c' ev) : flag.Raised c ev := by
  cases flag <;> simp only [RugFlag.Raised, Bool.and_eq_true, decide_eq_true_eq] at hraised ⊢
  · exact hraised.trans_le h.liquidity
  · exact h.deployer.trans_lt hraised
  · exact ⟨h.locked hraised.1, hraised.2⟩
  · exact ⟨hraised.1, UInt64.lt_of_lt_of_le hraised.2 h.lock⟩
  · exact ⟨h.mint hraised.1, hraised.2⟩
  · exact ⟨h.freeze hraised.1, hraised.2⟩
  · exact h.tax.trans_lt hraised

/-- A safer pool fails no check that the other one passes, unless it is locked and the other one is not. -/
theorem NewPoolEvent.Safer.raised {c : SniperConfig} {ev ev' : NewPoolEvent} (h : ev.Safer ev') {flag : RugFlag}
    (hlock : flag = .lpLockTooShort → ev'.lpLocked) (hraised : flag.Raised c ev) : flag.Raised c ev' := by
  cases flag <;> simp only [RugFlag.Raised, Bool.and_eq_true, decide_eq_true_eq, Bool.not_eq_true'] at hraised ⊢
  · exact h.liquidity.trans_lt hraised
  · exact hraised.trans_le h.deployer
  · refine ⟨hraised.1, ?_⟩
    by_contra hlocked
    rw [Bool.not_eq_false] at hlocked
    rw [h.locked hlocked] at hraised
    cases hraised.2
  · exact ⟨hlock rfl, UInt64.lt_of_le_of_lt h.lock hraised.2⟩
  · exact ⟨hraised.1, h.mint hraised.2⟩
  · exact ⟨hraised.1, h.freeze hraised.2⟩
  · exact hraised.trans_le (max_le_max h.buyTax h.sellTax)

namespace RugScreen

variable {s : RugScreen} {ev : NewPoolEvent}

theorem filter_cons_eq {α : Type} (p : α → Bool) (a : α) (l : List α) :
    (a :: l).filter p = (if p a then [a] else []) ++ l.filter p := by
  rw [List.filter_cons]
  split
  · rfl
  · rfl

theorem screen_eq_filter (s : RugScreen) (ev : NewPoolEvent) :
    s.screen ev = RugFlag.all.filter (RugFlag.Raised s.cfg ev) := by
  unfold screen
  simp only [RugFlag.all, filter_cons_eq, List.filter_nil, List.append_nil, RugFlag.Raised, decide_eq_true_eq,
    List.append_assoc, gt_iff_lt]
  congr!

theorem screen_eq_nil : s.screen ev = [] ↔ ∀ flag : RugFlag, flag.Raised s.cfg ev = false := by
  rw [screen_eq_filter, List.filter_eq_nil_iff]
  constructor
  · intro h flag
    exact Bool.eq_false_of_not_eq_true (h flag flag.mem_all)
  · intro h flag _
    simp [h flag]

theorem screen_sublist {c c' : SniperConfig} (h : c.Stricter c') (ev : NewPoolEvent) :
    List.Sublist ((new c').screen ev) ((new c).screen ev) := by
  rw [screen_eq_filter, screen_eq_filter]
  exact List.monotone_filter_right _ fun flag hraised => h.raised hraised

theorem entryOrder_ok_iff {A : Arith} {refPrice : ℚ} {order : Order} :
    s.entryOrder A ev refPrice = .ok order ↔ s.screen ev = [] ∧ 0 < refPrice ∧
      ∃ qty, A.fit (s.cfg.entryNotional / refPrice) = some qty ∧
        order = ⟨⟨"snipe-" ++ ev.asset.symbol⟩, ev.asset, .buy, qty, some refPrice, s.cfg.slippage, .paper,
          "sniper:new_pool liq=" ++ Decimal.display ev.initialLiquidity⟩ := by
  have hdiv : 0 < refPrice → ∀ qty, (A.div s.cfg.entryNotional refPrice : Outcome (List RugFlag) ℚ) = .ok qty ↔
      A.fit (s.cfg.entryNotional / refPrice) = some qty := by
    intro hpos qty
    rw [Arith.div, if_neg hpos.ne', Outcome.unwrap_eq_ok]
  unfold entryOrder
  simp only [Outcome.bind_eq_ok, Outcome.reject_eq_ok, not_not, not_le, Outcome.pure_eq_ok, Outcome.ok.injEq,
    exists_const]
  constructor
  · rintro ⟨hclean, hpos, qty, hqty, rfl⟩
    exact ⟨hclean, hpos, qty, (hdiv hpos qty).mp hqty, rfl⟩
  · rintro ⟨hclean, hpos, qty, hqty, rfl⟩
    exact ⟨hclean, hpos, qty, (hdiv hpos qty).mpr hqty, rfl⟩

end RugScreen

/-! ### Safer pools -/

/-- A pool that passes every bound that is not asked of the lock. -/
def NewPoolEvent.within (c : SniperConfig) (lpLocked : Bool) : NewPoolEvent where
  asset := .ofSymbol "PONS"
  initialLiquidity := c.minInitialLiquidity
  deployerSupplyFraction := c.maxDeployerSupplyFraction
  lpLocked := lpLocked
  lpLockSecs := 0
  mintEnabled := false
  canFreeze := false
  buyTax := some c.maxTax
  sellTax := some c.maxTax
  createdAt := .epoch

/-- **Safer pools and the lock.** What is flagged is the checks that fail, and stricter bounds flag every one that
fails with the looser ones, in the same order. A pool that is no riskier in any reading passes wherever the riskier one does exactly if the screen requires
a lock or lets one be of any length. -/
theorem screen_monotone_iff (c : SniperConfig) :
    (∀ ev, (RugScreen.new c).screen ev = RugFlag.all.filter (RugFlag.Raised c ev)) ∧
    (∀ (c' : SniperConfig) (ev : NewPoolEvent), c'.Stricter c →
      List.Sublist ((RugScreen.new c).screen ev) ((RugScreen.new c').screen ev)) ∧
    ((∀ (c' : SniperConfig) (ev ev' : NewPoolEvent), c'.Stricter c → ev.Safer ev' →
      (RugScreen.new c').screen ev' = [] → (RugScreen.new c).screen ev = []) ↔
        c.requireLpLocked = true ∨ c.minLpLockSecs = 0) := by
  refine ⟨RugScreen.screen_eq_filter _, fun c' ev h => RugScreen.screen_sublist h ev, ?_, ?_⟩
  · intro hmono
    by_contra hneither
    rw [not_or, Bool.not_eq_true] at hneither
    obtain ⟨hrequire, hmin⟩ := hneither
    -- the unlocked pool passes, and locking it for no time is no riskier
    have hclean := hmono c (.within c true) (.within c false) (.refl c)
      ⟨le_refl _, le_refl _, fun _ => rfl, UInt64.le_refl _, id, id, le_refl _, le_refl _⟩
      (RugScreen.screen_eq_nil.mpr fun flag => by
        cases flag <;> simp [RugFlag.Raised, NewPoolEvent.within, NewPoolEvent.tax, RugScreen.new, hrequire])
    have hshort := RugScreen.screen_eq_nil.mp hclean .lpLockTooShort
    simp only [RugFlag.Raised, NewPoolEvent.within, RugScreen.new, Bool.true_and] at hshort
    exact hmin (UInt64.le_antisymm (UInt64.not_lt.mp (of_decide_eq_false hshort)) UInt64.zero_le)
  · intro hlock c' ev ev' hstricter hsafer hclean
    rw [RugScreen.screen_eq_nil] at hclean ⊢
    intro flag
    by_contra hraised
    rw [Bool.not_eq_false] at hraised
    by_cases hunlocked : flag = .lpLockTooShort ∧ ev'.lpLocked = false
    · obtain ⟨rfl, hfalse⟩ := hunlocked
      rcases hlock with hrequire | hmin
      · have hnot := hclean .lpNotLocked
        simp [RugFlag.Raised, RugScreen.new, hstricter.locked hrequire, hfalse] at hnot
      · simp [RugFlag.Raised, RugScreen.new, hmin] at hraised
    · refine absurd (hstricter.raised (hsafer.raised (fun heq => ?_) hraised)) ?_
      · by_contra hfalse
        exact hunlocked ⟨heq, Bool.eq_false_of_not_eq_true hfalse⟩
      · exact (Bool.not_eq_true _).mpr (hclean flag)

/-! ### Through the gate -/

/-- **A snipe at the gate.** An entry that the screen makes is of a pool that fails no check, and over exact
arithmetic the gate accepts it exactly if it is permitted at all and the configured notional is within the cap, within
the cash, and within what the position may grow by: the price it was made at plays no part beyond the value of what is
held already. The default gate accepts no entry of the default screen. -/
theorem snipe_gated_iff (s : RugScreen) (ev : NewPoolEvent) (refPrice : ℚ) (order : Order)
    (h : s.entryOrder .exact ev refPrice = .ok order) :
    (∀ flag : RugFlag, flag.Raised s.cfg ev = false) ∧
    (∀ cfg ctx, RiskGate.check .exact cfg order ctx = .ok () ↔
      Permitted cfg order ctx ∧ s.cfg.entryNotional ≤ cfg.maxOrderNotional ∧
        EntryGuards cfg order ctx s.cfg.entryNotional ∧
        ctx.share (ctx.portfolio.position ev.asset.symbol * refPrice + s.cfg.entryNotional) ≤
          cfg.maxPositionFraction) ∧
    (s.cfg = .default → ∀ ctx, RiskGate.check .exact .default order ctx ≠ .ok ()) := by
  obtain ⟨hclean, hpos, qty, hqty, rfl⟩ := RugScreen.entryOrder_ok_iff.mp h
  obtain rfl : s.cfg.entryNotional / refPrice = qty := Option.some.inj hqty
  have hnotional : s.cfg.entryNotional / refPrice * refPrice = s.cfg.entryNotional := div_mul_cancel₀ _ hpos.ne'
  refine ⟨RugScreen.screen_eq_nil.mp hclean, fun cfg ctx => ?_, fun hdefault ctx hok => ?_⟩
  · rw [RiskGate.check_exact_ok_iff]
    simp only [Order.mark, Order.resultingQty, Option.some_or, Option.some.injEq, exists_eq_left', true_imp_iff,
      add_mul, hnotional]
  · have hslippage := (RiskGate.check_exact_ok_iff.mp hok).1.slippage
    rw [hdefault] at hslippage
    norm_num [SniperConfig.default, RiskConfig.default] at hslippage

/-- A pool that the default screen passes. -/
def cleanPool : NewPoolEvent where
  asset := ⟨"PONS", some "0xabc"⟩
  initialLiquidity := 20000
  deployerSupplyFraction := 5 / 100
  lpLocked := true
  lpLockSecs := 60 * 60 * 24 * 90
  mintEnabled := false
  canFreeze := false
  buyTax := some (2 / 100)
  sellTax := some (2 / 100)
  createdAt := .epoch

/-- The entry into it, at a thousandth. -/
def ponsEntry : Order :=
  ⟨⟨"snipe-PONS"⟩, ⟨"PONS", some "0xabc"⟩, .buy, 50 / (1 / 1000), some (1 / 1000), 15 / 100, .paper,
    "sniper:new_pool liq=" ++ Decimal.display 20000⟩

/-- It is made. The default gate refuses it, and one that permits its slippage lets it through. -/
theorem snipe_gated_iff_pons :
    RiskGate.check .exact .default ponsEntry (contextOf (.new 1000) (1 / 1000)) ≠ .ok () ∧
      RiskGate.check .exact { RiskConfig.default with maxSlippage := 15 / 100 } ponsEntry
        (contextOf (.new 1000) (1 / 1000)) = .ok () := by
  obtain ⟨-, hiff, hrefused⟩ := snipe_gated_iff (.new .default) cleanPool (1 / 1000) ponsEntry
    (RugScreen.entryOrder_ok_iff.mpr ⟨by decide +kernel, by norm_num, _, rfl, rfl⟩)
  refine ⟨hrefused rfl _, (hiff _ _).mpr ⟨⟨rfl, ?_, ?_, ?_, ?_⟩, ?_, ⟨?_, ?_, ?_, ?_⟩, ?_⟩⟩ <;> decide +kernel

end Sherwood
