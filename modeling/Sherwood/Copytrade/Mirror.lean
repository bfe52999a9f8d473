/-
# Mirrored orders

`CopyTrader::mirror` makes an order of a trade that a leader was seen to make, or says why not. Nothing of the
trade is the trader's own: quantity, price, equity and the hash of the transaction come
off the chain, and the sizing of the configuration may be any number.

What is filtered out is never an order. Of the rest the order is in bounds exactly if each product and quotient
fits a `Decimal`, the sizing makes more than half a digit in the last place, neither the cap's quotient is rounded up
or to nothing nor the notional down onto the cap, and the transaction can be cut after ten bytes (`Orderly`,
`mirror_meets_iff`). A sell never exceeds the holding, since what the cap cuts is less than what was sized. Ids carry
a number, so those of one transaction differ while there are numbers (`mirrored_orders_bounded`).

Key definitions: `mirror`, `Orderly`, `system`, `Bounded`.
Key theorems: `mirror_meets_iff`, `mirror_next`, `mirrored_orders_bounded`, `cap_exceeded`.
-/
import Mathlib.Data.Finset.Basic
import Sherwood.Core.Types
import Sherwood.Json
import Sherwood.Lib.Lts
import Sherwood.Lib.Utf8
import Std.Data.String.ToNat

namespace Sherwood.Copytrade

/-- How an order is sized. -/
inductive Sizing where
  | fixedFraction (fraction : Dec)
  | proportionalToEquity (ourEquity fallback : Dec)
  | fixedNotional (notional : Dec)

structure CopyConfig where
  leaders : Finset String
  sizing : Sizing
  minLeaderNotional : Dec
  maxMirrorNotional : Dec
  slippage : Dec
  mirrorUnheldSells : Bool

/-- A trade of a leader. -/
structure ObservedTrade where
  leader : String
  asset : Asset
  side : Side
  qty : Dec
  price : Dec
  leaderEquity : Option Dec
  tx : String

inductive SkipReason where
  | unknownLeader
  | belowMinNotional
  | unheldSell
  | zeroQuantity
  deriving DecidableEq

/-- The configuration and the number of the last order. -/
structure CopyTrader where
  cfg : CopyConfig
  seq : UInt64

def CopyTrader.new (cfg : CopyConfig) : CopyTrader := ⟨cfg, 0⟩

def Sizing.size (sizing : Sizing) (t : ObservedTrade) : Outcome SkipReason ℚ :=
  match sizing with
  | .fixedFraction f => Arith.dec96.mul t.qty f
  | .fixedNotional n => Arith.dec96.div n t.price
  | .proportionalToEquity ourEquity fallback =>
    match t.leaderEquity with
    | some le =>
      if (0 : ℚ) < le then do
        let leaderWeight ← Arith.dec96.div (← Arith.dec96.mul t.qty t.price) le
        Arith.dec96.div (← Arith.dec96.mul leaderWeight ourEquity) t.price
      else Arith.dec96.mul t.qty fallback
    | none => Arith.dec96.mul t.qty fallback

/-- `&tx[..tx.len().min(10)]`. -/
def txStart? (tx : String) : Option String :=
  (Utf8.splitAt? (min (Utf8.byteLen tx.toList) 10) tx.toList).map fun parts => .ofList parts.1

/-- `seq + 1`; `checks` for overflow checks. -/
def succ (checks : Bool) (seq : UInt64) : Outcome SkipReason UInt64 :=
  if checks ∧ seq.toNat + 1 = 2 ^ 64 then .panic else .ok (seq + 1)

/-- The id of the n-th order. -/
def copyId (start : String) (n : ℕ) : OrderId := ⟨s!"copy-{start}-{n}"⟩

/-- The id of an order, and the trader after it. -/
def CopyTrader.nextId (checks : Bool) (trader : CopyTrader) (tx : String) :
    Outcome SkipReason (OrderId × CopyTrader) := do
  let seq ← succ checks trader.seq
  let start ← .unwrap (txStart? tx)
  return (copyId start seq.toNat, { trader with seq })

/-- Cap the notional. -/
def underCap (cap price qty notional : ℚ) : Outcome SkipReason ℚ :=
  if notional > cap then Arith.dec96.div cap price else .ok qty

/-- The order that is written for a trade. -/
def CopyConfig.order (cfg : CopyConfig) (t : ObservedTrade) (id : OrderId) (qty : ℚ) : Order where
  id
  asset := t.asset
  side := t.side
  qty
  limitPrice := some t.price
  maxSlippage := cfg.slippage
  venue := .paper
  reason := s!"copytrade:{t.leader} tx:{t.tx}"

/-- For sells, never sell more than we hold. -/
def heldOf (side : Side) (heldQty : Dec) (size : ℚ) : ℚ := if side = .sell then min size heldQty else size

/-- `CopyTrader::mirror`, and the trader after it. `toLowercase` is `str::to_lowercase`. -/
def CopyTrader.mirror (toLowercase : String → String) (checks : Bool) (trader : CopyTrader) (t : ObservedTrade)
    (heldQty : Dec) : Outcome SkipReason (Order × CopyTrader) := do
  let cfg := trader.cfg
  .reject (toLowercase t.leader ∉ cfg.leaders) .unknownLeader
  .reject ((t.qty : ℚ) ≤ 0 ∨ (t.price : ℚ) ≤ 0) .zeroQuantity
  let leaderNotional ← Arith.dec96.mul t.qty t.price
  .reject (leaderNotional < cfg.minLeaderNotional) .belowMinNotional
  .reject (t.side = .sell ∧ (heldQty : ℚ) ≤ 0 ∧ ¬ cfg.mirrorUnheldSells) .unheldSell
  let size ← cfg.sizing.size t
  let qty := heldOf t.side heldQty size
  .reject (t.side = .sell ∧ qty ≤ 0) .unheldSell
  let notional ← Arith.dec96.mul qty t.price
  let qty ← underCap cfg.maxMirrorNotional t.price qty notional
  let (id, trader) ← trader.nextId checks t.tx
  return (cfg.order t id qty, trader)

/-! ### What the inputs must be -/

/-- The size before its last rounding, where each step before that fits. -/
def Sizing.unrounded (sizing : Sizing) (t : ObservedTrade) : Option ℚ :=
  match sizing with
  | .fixedFraction f => some (t.qty * f)
  | .fixedNotional n => some (n / t.price)
  | .proportionalToEquity ourEquity fallback =>
    match t.leaderEquity with
    | some le =>
      if (0 : ℚ) < le then
        (Arith.dec96.fit (t.qty * t.price)).bind fun notional => (Arith.dec96.fit (notional / le)).bind fun weight =>
          (Arith.dec96.fit (weight * ourEquity)).map fun share => share / t.price
      else some (t.qty * fallback)
    | none => some (t.qty * fallback)

/-- A quantity is within the cap, or is cut to it as it should be: its notional is above the cap also when it is
rounded, and the cap's share of the price is rounded neither to nothing nor up. -/
def Capped (cap price qty : ℚ) : Prop :=
  ∃ notional, Arith.dec96.fit (qty * price) = some notional ∧
    (qty * price ≤ cap ∨ (cap < notional ∧ halfPlace < cap / price ∧
      ∃ capped, Arith.dec96.fit (cap / price) = some capped ∧ capped ≤ cap / price))

/-- Where a trade is not filtered out, the sizing makes more than nothing of it, and the order is within the cap and
can be written. -/
def Orderly (toLowercase : String → String) (cfg : CopyConfig) (t : ObservedTrade) (heldQty : Dec) : Prop :=
  toLowercase t.leader ∈ cfg.leaders → (0 : ℚ) < t.qty → (0 : ℚ) < t.price →
    ∃ notional, Arith.dec96.fit (t.qty * t.price) = some notional ∧
      ((cfg.minLeaderNotional : ℚ) ≤ notional →
        (t.side = .sell → (heldQty : ℚ) ≤ 0 → cfg.mirrorUnheldSells = true) →
        ∃ exact size, cfg.sizing.unrounded t = some exact ∧ Arith.dec96.fit exact = some size ∧
          ((t.side = .sell → halfPlace < exact ∧ (0 : ℚ) < heldQty) →
            halfPlace < exact ∧ Capped cfg.maxMirrorNotional t.price (heldOf t.side heldQty size) ∧
              (txStart? t.tx).isSome))

/-- The bounds of one order. -/
structure InBounds (toLowercase : String → String) (cfg : CopyConfig) (t : ObservedTrade) (heldQty : Dec)
    (order : Order) : Prop where
  leader : toLowercase t.leader ∈ cfg.leaders
  side : order.side = t.side
  asset : order.asset = t.asset
  positive : 0 < order.qty
  notional : order.qty * t.price ≤ cfg.maxMirrorNotional
  held : t.side = .sell → order.qty ≤ heldQty

/-! ### One order -/

section

variable {toLowercase : String → String} {checks : Bool} {trader : CopyTrader} {t : ObservedTrade} {heldQty : Dec}

theorem Sizing.size_eq (sizing : Sizing) (hprice : (0 : ℚ) < t.price) :
    sizing.size t = .unwrap ((sizing.unrounded t).bind Arith.dec96.fit) := by
  have hdiv (a b : ℚ) (hb : b ≠ 0) : (Arith.dec96.div a b : Outcome SkipReason ℚ) = .unwrap (Arith.dec96.fit (a / b)) :=
    if_neg hb
  have hbind (x : Option ℚ) (f : ℚ → Option ℚ) : ((.unwrap x >>= fun a => .unwrap (f a)) : Outcome SkipReason ℚ) =
      .unwrap (x.bind f) := by
    cases x <;> rfl
  cases sizing with
  | fixedFraction f => rfl
  | fixedNotional n => exact hdiv n t.price hprice.ne'
  | proportionalToEquity ourEquity fallback =>
    unfold Sizing.size Sizing.unrounded
    cases t.leaderEquity with
    | none => rfl
    | some le =>
      dsimp only
      split
      · next hle =>
        simp only [Arith.mul, hdiv _ _ hle.ne', hdiv _ _ hprice.ne', hbind, Option.bind_assoc, Option.bind_map,
          Function.comp_def]
      · rfl

/-- While there is a number left, the id needs a cut only. -/
theorem nextId_meets {tx : String} {P : OrderId × CopyTrader → Prop} (hseq : trader.seq.toNat + 1 < 2 ^ 64) :
    (trader.nextId checks tx).Meets P ↔ ∃ start, txStart? tx = some start ∧
      P (copyId start (trader.seq + 1).toNat, { trader with seq := trader.seq + 1 }) := by
  have hsucc : succ checks trader.seq = .ok (trader.seq + 1) := if_neg (by omega)
  rw [CopyTrader.nextId, hsucc, Outcome.ok_bind, Outcome.meets_bind, Outcome.meets_unwrap]
  rfl

/-- What the cap leaves, where it fits. -/
def underCap? (cap price qty notional : ℚ) : Option ℚ :=
  if cap < notional then Arith.dec96.fit (cap / price) else some qty

theorem underCap_eq {cap price : ℚ} (qty notional : ℚ) (hprice : 0 < price) :
    underCap cap price qty notional = .unwrap (underCap? cap price qty notional) := by
  unfold underCap underCap?
  split
  · exact if_neg hprice.ne'
  · rfl

/-- What the cap cuts is less than what was sized. -/
theorem underCap_le {cap price qty notional mirrored : ℚ} (hcap : IsDecimal cap) (hqty : IsDecimal qty)
    (hprice : 0 < price) (hfit : Arith.dec96.fit (qty * price) = some notional)
    (h : underCap? cap price qty notional = some mirrored) : mirrored ≤ qty := by
  unfold underCap? at h
  split at h
  · next hover =>
    have hexact : cap < qty * price := by
      by_contra hle
      exact absurd (hcap.fit_le (not_lt.mp hle) hfit) (not_le.mpr hover)
    exact hqty.fit_le ((div_lt_iff₀ hprice).mpr hexact).le h
  · exact (Option.some.inj h).ge

/-- What the cap leaves is positive and within it exactly if the quantity is positive and cut as it should be. -/
theorem capped_iff {cap price qty : ℚ} (hcap : IsDecimal cap) (hprice : 0 < price) :
    0 < qty ∧ Capped cap price qty ↔ ∃ notional, Arith.dec96.fit (qty * price) = some notional ∧
      ∃ mirrored, underCap? cap price qty notional = some mirrored ∧ 0 < mirrored ∧ mirrored * price ≤ cap := by
  unfold Capped underCap?
  constructor
  · rintro ⟨hqty, notional, hfit, hle | ⟨hover, hshare, capped, hcapped, hdown⟩⟩
    · refine ⟨notional, hfit, qty, if_neg (not_lt.mpr (hcap.fit_le hle hfit)), hqty, hle⟩
    · refine ⟨notional, hfit, capped, (if_pos hover).trans hcapped, (fit_pos_iff hcapped).mpr hshare, ?_⟩
      exact (le_div_iff₀ hprice).mp hdown
  · rintro ⟨notional, hfit, mirrored, hmirrored, hpos, hle⟩
    split at hmirrored
    · next hover =>
      have hshare := (fit_pos_iff hmirrored).mp hpos
      have hcap0 : 0 < cap := (mul_pos hpos hprice).trans_le hle
      have hqty : 0 < qty := by
        by_contra hneg
        have hbelow := isDecimal_zero.fit_le (mul_nonpos_of_nonpos_of_nonneg (not_lt.mp hneg) hprice.le) hfit
        linarith
      exact ⟨hqty, notional, hfit, .inr ⟨hover, hshare, mirrored, hmirrored, (le_div_iff₀ hprice).mpr hle⟩⟩
    · obtain rfl := Option.some.inj hmirrored
      exact ⟨hpos, notional, hfit, .inl hle⟩

theorem heldOf_le {size : ℚ} (h : t.side = .sell) : heldOf t.side heldQty size ≤ heldQty := by
  rw [heldOf, if_pos h]
  exact min_le_right size heldQty

theorem isDecimal_heldOf {size : ℚ} (h : IsDecimal size) : IsDecimal (heldOf t.side heldQty size) := by
  unfold heldOf
  split
  · rcases min_choice size (heldQty : ℚ) with hmin | hmin
    · rwa [hmin]
    · rw [hmin]
      exact heldQty.2
  · exact h

/-- A sell is left something to sell exactly if it is sized to more than nothing, and something is held. -/
theorem heldOf_pos_of_sell {exact size : ℚ} (hfit : Arith.dec96.fit exact = some size) (hsell : t.side = .sell) :
    0 < heldOf t.side heldQty size ↔ halfPlace < exact ∧ (0 : ℚ) < heldQty := by
  rw [heldOf, if_pos hsell, lt_min_iff, fit_pos_iff hfit]

theorem heldOf_pos_iff {exact size : ℚ} (hfit : Arith.dec96.fit exact = some size)
    (hkept : t.side = .sell → halfPlace < exact ∧ (0 : ℚ) < heldQty) :
    0 < heldOf t.side heldQty size ↔ halfPlace < exact := by
  cases hs : t.side with
  | sell =>
    rw [← hs, heldOf_pos_of_sell hfit hs, and_iff_left (hkept hs).2]
  | buy => exact fit_pos_iff hfit

/-- The last part of the code, from a size that is cut to the holding. -/
theorem capped_meets_iff {qty : ℚ} (hleader : toLowercase t.leader ∈ trader.cfg.leaders) (hprice : (0 : ℚ) < t.price)
    (hqty : IsDecimal qty) (hheld : t.side = .sell → qty ≤ heldQty) (hseq : trader.seq.toNat + 1 < 2 ^ 64) :
    (∃ notional, Arith.dec96.fit (qty * t.price) = some notional ∧
      (underCap trader.cfg.maxMirrorNotional t.price qty notional).Meets fun mirrored =>
        (trader.nextId checks t.tx).Meets fun next =>
          InBounds toLowercase trader.cfg t heldQty (trader.cfg.order t next.1 mirrored)) ↔
      (0 < qty ∧ Capped trader.cfg.maxMirrorNotional t.price qty) ∧ (txStart? t.tx).isSome := by
  rw [capped_iff trader.cfg.maxMirrorNotional.2 hprice, Option.isSome_iff_exists]
  simp only [underCap_eq _ _ hprice, Outcome.meets_unwrap, nextId_meets hseq]
  constructor
  · rintro ⟨notional, hfit, mirrored, hmirrored, start, hstart, hbounds⟩
    exact ⟨⟨notional, hfit, mirrored, hmirrored, hbounds.positive, hbounds.notional⟩, start, hstart⟩
  · rintro ⟨⟨notional, hfit, mirrored, hmirrored, hpos, hcap⟩, start, hstart⟩
    exact ⟨notional, hfit, mirrored, hmirrored, start, hstart, hleader, rfl, rfl, hpos, hcap, fun hsell =>
      (underCap_le trader.cfg.maxMirrorNotional.2 hqty hprice hfit hmirrored).trans (hheld hsell)⟩

theorem sized_meets_iff {exact size : ℚ} (hleader : toLowercase t.leader ∈ trader.cfg.leaders)
    (hprice : (0 : ℚ) < t.price) (hfit : Arith.dec96.fit exact = some size) (hseq : trader.seq.toNat + 1 < 2 ^ 64) :
    ((t.side = .sell → 0 < heldOf t.side heldQty size) →
      ∃ notional, Arith.dec96.fit (heldOf t.side heldQty size * t.price) = some notional ∧
        (underCap trader.cfg.maxMirrorNotional t.price (heldOf t.side heldQty size) notional).Meets fun mirrored =>
          (trader.nextId checks t.tx).Meets fun next =>
            InBounds toLowercase trader.cfg t heldQty (trader.cfg.order t next.1 mirrored)) ↔
      ((t.side = .sell → halfPlace < exact ∧ (0 : ℚ) < heldQty) → halfPlace < exact ∧
        Capped trader.cfg.maxMirrorNotional t.price (heldOf t.side heldQty size) ∧ (txStart? t.tx).isSome) := by
  have hkept : (t.side = .sell → 0 < heldOf t.side heldQty size) ↔
      (t.side = .sell → halfPlace < exact ∧ (0 : ℚ) < heldQty) :=
    forall_congr' fun hsell => heldOf_pos_of_sell hfit hsell
  rw [hkept]
  refine imp_congr_right fun hsell => ?_
  rw [capped_meets_iff hleader hprice (isDecimal_heldOf (isDecimal_fit hfit)) heldOf_le hseq, heldOf_pos_iff hfit hsell,
    and_assoc]

/-- **One order.** A trade makes no panic, and an order only in bounds, exactly if it is orderly. -/
theorem mirror_meets_iff (hseq : trader.seq.toNat + 1 < 2 ^ 64) :
    (trader.mirror toLowercase checks t heldQty).Meets (fun r => InBounds toLowercase trader.cfg t heldQty r.1) ↔
      Orderly toLowercase trader.cfg t heldQty := by
  unfold CopyTrader.mirror Orderly
  simp only [Outcome.meets_bind, Outcome.meets_reject, Arith.mul, Outcome.meets_unwrap, not_not, not_or, not_le, not_lt,
    not_and]
  -- each filter that lets a trade pass is a hypothesis of what follows
  refine imp_congr_right fun hleader => ?_
  rw [and_imp]
  refine imp_congr_right fun hqty => imp_congr_right fun hprice => ?_
  refine exists_congr fun leaderNotional => and_congr_right fun _ => ?_
  refine imp_congr_right fun _ => imp_congr_right fun _ => ?_
  rw [Sizing.size_eq _ hprice, Outcome.meets_unwrap]
  constructor
  · rintro ⟨size, hsize, hmeets⟩
    obtain ⟨exact, hexact, hfit⟩ := Option.bind_eq_some_iff.mp hsize
    exact ⟨exact, size, hexact, hfit, (sized_meets_iff hleader hprice hfit hseq).mp hmeets⟩
  · rintro ⟨exact, size, hexact, hfit, horderly⟩
    exact ⟨size, Option.bind_eq_some_iff.mpr ⟨exact, hexact, hfit⟩,
      (sized_meets_iff hleader hprice hfit hseq).mpr horderly⟩

theorem mirror_next {order : Order} {trader' : CopyTrader}
    (h : trader.mirror toLowercase checks t heldQty = .ok (order, trader')) :
    trader'.cfg = trader.cfg ∧ trader'.seq = trader.seq + 1 ∧ ∃ start, txStart? t.tx = some start ∧
      order.id = copyId start (trader.seq + 1).toNat := by
  simp only [CopyTrader.mirror, Outcome.bind_eq_ok] at h
  obtain ⟨-, -, -, -, -, -, -, -, -, -, -, -, -, -, -, -, mirrored, -, next, hnext, hpair⟩ := h
  obtain ⟨rfl, rfl⟩ := Prod.mk.inj (Outcome.ok.inj hpair)
  simp only [CopyTrader.nextId, Outcome.bind_eq_ok, Outcome.unwrap_eq_ok] at hnext
  obtain ⟨seq, hsucc, start, hstart, hlast⟩ := hnext
  obtain rfl := Outcome.ok.inj hlast
  have hseq : seq = trader.seq + 1 := by
    unfold succ at hsucc
    split at hsucc
    · cases hsucc
    · exact (Outcome.ok.inj hsucc).symm
  exact ⟨rfl, hseq, start, hstart, by rw [← hseq]; rfl⟩

end

/-! ### Runs -/

/-- A call: the number of the last order before it, its arguments, and how it ended. -/
structure Mirrored where
  seq : UInt64
  trade : ObservedTrade
  heldQty : Dec
  outcome : Outcome SkipReason Order

/-- A trader, called with one trade after another; after a panic there is none. -/
def system (toLowercase : String → String) (checks : Bool) :
    Lts (Option CopyTrader) (ObservedTrade × Dec) Mirrored where
  step trader? a := trader?.map fun trader =>
    match trader.mirror toLowercase checks a.1 a.2 with
    | .ok (order, next) => (some next, ⟨trader.seq, a.1, a.2, .ok order⟩)
    | .err e => (some trader, ⟨trader.seq, a.1, a.2, .err e⟩)
    | .panic => (none, ⟨trader.seq, a.1, a.2, .panic⟩)

/-- A call does not panic, and its order is in bounds and has an id that no order for that transaction had
before. -/
def Bounded (toLowercase : String → String) (cfg : CopyConfig) (before : List Mirrored) (o : Mirrored) : Prop :=
  o.outcome.Meets fun order => InBounds toLowercase cfg o.trade o.heldQty order ∧
    ∀ o' ∈ before, ∀ order', o'.outcome = .ok order' → o'.trade.tx = o.trade.tx → order'.id ≠ order.id

/-- There is a number for another order. -/
def Mirrored.Numbered (o : Mirrored) : Prop := o.seq.toNat + 1 < 2 ^ 64

/-- The trader goes on with the configuration it had, and no id had a number above its own. -/
def Inv (cfg : CopyConfig) (os : List Mirrored) (trader? : Option CopyTrader) : Prop :=
  ∃ trader, trader? = some trader ∧ trader.cfg = cfg ∧ ∀ o ∈ os, ∀ order, o.outcome = .ok order →
    ∃ start n, txStart? o.trade.tx = some start ∧ n ≤ trader.seq.toNat ∧ order.id = copyId start n

section

variable {toLowercase : String → String} {checks : Bool} {cfg : CopyConfig} {os : List Mirrored}

theorem copyId_injective {start : String} {n m : ℕ} (h : copyId start n = copyId start m) : n = m := by
  have hlist (k : ℕ) : (copyId start k).val.toList = ("copy-" ++ start ++ "-").toList ++ (toString k).toList :=
    String.toList_append
  have hval := congrArg (fun id => id.val.toList) h
  simp only [hlist] at hval
  exact Nat.repr_inj.mp (String.toList_inj.mp (List.append_cancel_left hval))

theorem inv_step {s s' : Option CopyTrader} {a : ObservedTrade × Dec} {o : Mirrored} (hinv : Inv cfg os s)
    (hstep : (system toLowercase checks).step s a = some (s', o)) :
    (o.Numbered ∧ Bounded toLowercase cfg os o ↔ o.Numbered ∧ Orderly toLowercase cfg o.trade o.heldQty) ∧
      (o.Numbered ∧ Orderly toLowercase cfg o.trade o.heldQty → Inv cfg (os ++ [o]) s') := by
  obtain ⟨trader, rfl, rfl, hids⟩ := hinv
  obtain ⟨t, heldQty⟩ := a
  have hmeets (hseq : trader.seq.toNat + 1 < 2 ^ 64) : (trader.mirror toLowercase checks t heldQty).Meets
      (fun r => InBounds toLowercase trader.cfg t heldQty r.1) ↔ Orderly toLowercase trader.cfg t heldQty :=
    mirror_meets_iff hseq
  have hpair := Option.some.inj hstep
  cases hmirror : trader.mirror toLowercase checks t heldQty with
  | ok next =>
    obtain ⟨order, trader'⟩ := next
    simp only [hmirror] at hpair hmeets
    obtain ⟨rfl, rfl⟩ := Prod.mk.inj hpair
    obtain ⟨hcfg, hnext, start, hstart, hid⟩ := mirror_next hmirror
    have hsucc (hseq : trader.seq.toNat + 1 < 2 ^ 64) : (trader.seq + 1).toNat = trader.seq.toNat + 1 := by
      rw [UInt64.toNat_add]
      exact Nat.mod_eq_of_lt hseq
    refine ⟨and_congr_right fun hseq => ?_, fun hgood => ⟨trader', rfl, hcfg, fun o ho order' horder => ?_⟩⟩
    · rw [← hmeets hseq]
      refine and_iff_left fun o ho order' horder htx heq => ?_
      obtain ⟨start', n, hstart', hle, hid'⟩ := hids o ho order' horder
      rw [htx, hstart] at hstart'
      obtain rfl := Option.some.inj hstart'
      rw [hid', hid] at heq
      have := copyId_injective heq
      have := hsucc hseq
      omega
    · rw [hnext, hsucc hgood.1]
      rcases List.mem_append.mp ho with ho | ho
      · obtain ⟨start', n, hstart', hle, hid'⟩ := hids o ho order' horder
        exact ⟨start', n, hstart', by omega, hid'⟩
      · obtain rfl := List.mem_singleton.mp ho
        obtain rfl := Outcome.ok.inj horder
        exact ⟨start, _, hstart, (hsucc hgood.1).le, hid⟩
  | err e =>
    simp only [hmirror] at hpair hmeets
    obtain ⟨rfl, rfl⟩ := Prod.mk.inj hpair
    refine ⟨and_congr_right fun hseq => hmeets hseq, fun _ => ⟨trader, rfl, rfl, fun o ho order horder => ?_⟩⟩
    rcases List.mem_append.mp ho with ho | ho
    · exact hids o ho order horder
    · obtain rfl := List.mem_singleton.mp ho
      cases horder
  | panic =>
    simp only [hmirror] at hpair hmeets
    obtain ⟨rfl, rfl⟩ := Prod.mk.inj hpair
    exact ⟨and_congr_right fun hseq => hmeets hseq, fun hgood => ((hmeets hgood.1).mpr hgood.2).elim⟩

theorem numbered_of_run {s : Option CopyTrader} (h : (system toLowercase checks).Run (some (.new cfg)) os s)
    (hlen : os.length < 2 ^ 64) : ∀ o ∈ os, o.Numbered := by
  have hseq : (∀ trader, s = some trader → trader.seq.toNat ≤ os.length) ∧ ∀ o ∈ os, o.seq.toNat < os.length := by
    refine Lts.Run.inv (P := fun os s => (∀ trader, s = some trader → trader.seq.toNat ≤ os.length) ∧
      ∀ o ∈ os, o.seq.toNat < os.length) ?_ ?_ h
    · refine ⟨?_, by simp⟩
      rintro trader ⟨⟩
      exact Nat.le_refl 0
    · rintro os (_ | trader) ⟨t, heldQty⟩ s' o - ⟨hle, hlt⟩ hstep
      · cases hstep
      · have hpair := Option.some.inj hstep
        have hle := hle trader rfl
        rw [List.length_append, List.length_singleton]
        have hmem (hseq : o.seq = trader.seq) : ∀ q ∈ os ++ [o], q.seq.toNat < os.length + 1 := by
          intro q hq
          rcases List.mem_append.mp hq with hq | hq
          · exact (hlt q hq).trans (Nat.lt_succ_self _)
          · rw [List.mem_singleton.mp hq, hseq]
            omega
        cases hmirror : trader.mirror toLowercase checks t heldQty with
        | ok next =>
          obtain ⟨order, next⟩ := next
          simp only [hmirror] at hpair
          obtain ⟨rfl, rfl⟩ := Prod.mk.inj hpair
          refine ⟨?_, hmem rfl⟩
          rintro trader' ⟨⟩
          have hadd : (trader.seq + 1).toNat ≤ trader.seq.toNat + 1 := by
            rw [UInt64.toNat_add]
            exact Nat.mod_le _ _
          rw [(mirror_next hmirror).2.1]
          omega
        | err e =>
          simp only [hmirror] at hpair
          obtain ⟨rfl, rfl⟩ := Prod.mk.inj hpair
          refine ⟨?_, hmem rfl⟩
          rintro trader' ⟨⟩
          omega
        | panic =>
          simp only [hmirror] at hpair
          obtain ⟨rfl, rfl⟩ := Prod.mk.inj hpair
          exact ⟨by simp, hmem rfl⟩
  intro o ho
  have := hseq.2 o ho
  unfold Mirrored.Numbered
  omega

/-- **Mirrored orders are bounded**, in a run of fewer calls than there are numbers, exactly if each call is
orderly. -/
theorem mirrored_orders_bounded {s : Option CopyTrader}
    (h : (system toLowercase checks).Run (some (.new cfg)) os s) (hlen : os.length < 2 ^ 64) :
    (∀ pre o post, os = pre ++ o :: post → Bounded toLowercase cfg pre o) ↔
      ∀ o ∈ os, Orderly toLowercase cfg o.trade o.heldQty := by
  have hnumbered := numbered_of_run h hlen
  have hstart : Inv cfg [] (some (CopyTrader.new cfg)) := ⟨_, rfl, rfl, by simp⟩
  have hiff := Lts.Run.forall_iff (P := fun os o => o.Numbered ∧ Bounded toLowercase cfg os o) hstart
    (fun os s a s' o hinv hstep => inv_step hinv hstep) h
  constructor
  · intro hbounded o ho
    exact (hiff.mp (fun pre o post hos => ⟨hnumbered o (by simp [hos]), hbounded pre o post hos⟩) o ho).2
  · intro horderly pre o post hos
    exact (hiff.mpr (fun o ho => ⟨hnumbered o ho, horderly o ho⟩) pre o post hos).2

theorem run_of_mirror {t : ObservedTrade} {heldQty : Dec} {order : Order} {next : CopyTrader}
    (h : (CopyTrader.new cfg).mirror toLowercase checks t heldQty = .ok (order, next)) :
    (system toLowercase checks).Run (some (.new cfg)) [⟨0, t, heldQty, .ok order⟩] (some next) :=
  .snoc (a := (t, heldQty)) .nil (by simp only [system, Option.map_some, h]; rfl)

end

/-! ### A trader of halves -/

def halfConfig : CopyConfig where
  leaders := {"0xleader"}
  sizing := .fixedFraction (.of 5 1 (by decide))
  minLeaderNotional := .of 10 0 (by decide)
  maxMirrorNotional := .of 1000 0 (by decide)
  slippage := .of 1 2 (by decide)
  mirrorUnheldSells := false

/-- The leader buys. -/
def buyAt (qty price : Dec) : ObservedTrade where
  leader := "0xLEADER"
  asset := .ofSymbol "ROAR"
  side := .buy
  qty
  price
  leaderEquity := none
  tx := "0xdeadbeef00"

theorem exists_mirror {t : ObservedTrade} {heldQty : Dec} {qty : ℚ}
    (h : ((CopyTrader.new halfConfig).mirror toAsciiLowercase true t heldQty).value.map (fun r => r.1.qty) = some qty) :
    ∃ order next, (CopyTrader.new halfConfig).mirror toAsciiLowercase true t heldQty = .ok (order, next) ∧
      order.qty = qty := by
  obtain ⟨⟨order, next⟩, hvalue, hqty⟩ := Option.map_eq_some_iff.mp h
  exact ⟨order, next, Outcome.value_eq_some.mp hvalue, hqty⟩

/-- A hundred at five. -/
def hundredAtFive : ObservedTrade := buyAt (.of 100 0 (by decide)) (.of 5 0 (by decide))

/-- A thousand at six. -/
def thousandAtSix : ObservedTrade := buyAt (.of 1000 0 (by decide)) (.of 6 0 (by decide))

def nothingHeld : Dec := .of 0 0 (by decide)

theorem orderly_hundredAtFive : Orderly toAsciiLowercase halfConfig hundredAtFive nothingHeld := by
  have hcapped : Capped halfConfig.maxMirrorNotional hundredAtFive.price
      (heldOf hundredAtFive.side nothingHeld 50) :=
    ⟨250, by decide +kernel, .inl (by decide +kernel)⟩
  exact fun _ _ _ => ⟨500, by decide +kernel, fun _ _ => ⟨50, 50, by decide +kernel, by decide +kernel, fun _ =>
    ⟨by decide +kernel, hcapped, by decide +kernel⟩⟩⟩

/-- Fifty of a hundred are within the cap. -/
theorem mirrored_orders_bounded_half : ∃ o next,
    (system toAsciiLowercase true).Run (some (.new halfConfig)) [o] next ∧
      Bounded toAsciiLowercase halfConfig [] o := by
  obtain ⟨order, next, hmirror, -⟩ := @exists_mirror hundredAtFive nothingHeld 50 (by decide +kernel)
  have hrun := run_of_mirror hmirror
  refine ⟨_, _, hrun, (mirrored_orders_bounded hrun ?_).mpr (fun o ho => ?_) [] _ [] rfl⟩
  · rw [List.length_singleton]
    decide
  · obtain rfl := List.mem_singleton.mp ho
    exact orderly_hundredAtFive

/-- A sixth of the cap is rounded up, and costs more than the cap. -/
theorem cap_exceeded : ¬ ∀ (toLowercase : String → String) (checks : Bool) (cfg : CopyConfig) (os : List Mirrored)
    (s : Option CopyTrader), (system toLowercase checks).Run (some (.new cfg)) os s →
      ∀ pre o post, os = pre ++ o :: post → Bounded toLowercase cfg pre o := by
  intro hclaim
  obtain ⟨order, next, hmirror, hqty⟩ :=
    @exists_mirror thousandAtSix nothingHeld (16666666666666666666666666667 / 10 ^ 26) (by decide +kernel)
  have hbounded := hclaim _ _ _ _ _ (run_of_mirror hmirror) [] _ [] rfl
  have hnotional : order.qty * thousandAtSix.price ≤ halfConfig.maxMirrorNotional := hbounded.1.notional
  rw [hqty] at hnotional
  exact absurd hnotional (by decide +kernel)

end Sherwood.Copytrade
