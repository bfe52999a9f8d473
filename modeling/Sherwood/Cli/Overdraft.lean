/-
# Overdrafts

The gate compares the value of a buy at the tick's price with the cash, and the
executor charges a spread and a fee on top. So the cash stays at or above zero
exactly as long as no buy is accepted that costs more than it, each product
rounded as `rust_decimal` rounds it (`no_overdraft_iff`). A sell brings something
or nothing, whatever the roundings.

Key definition: `Overdraws`.
Key theorems: `cash_onTickIn`, `no_overdraft_iff`.
-/
import Sherwood.Cli.RoundedRun
import Sherwood.Cli.RunInvariants

namespace Sherwood

/-- The tick brings a buy that is accepted and that the cash does not pay for. -/
def Overdraws (gate : RiskConfig) (s : RunState) (a : RoundedInput) : Prop :=
  ∃ order cost, Accepted .dec96 gate s a order ∧ order.side = .buy ∧
    s.exec.costIn .dec96 order.qty a.tick.price = some cost ∧ s.portfolio.cash < cost

section

variable {gate : RiskConfig} {s s' : RunState} {a : RoundedInput} {o : RoundedRecord} {order : Order} {fill : Fill}

/-- A bought fill costs what the executor makes of its quantity. -/
theorem cashDeltaIn_buy (hf : FilledIn .dec96 gate s a s' order fill) (hbuy : order.side = .buy) {delta : ℚ}
    (h : fill.cashDeltaIn .dec96 = some delta) : s.exec.costIn .dec96 order.qty a.tick.price = some (-delta) := by
  have hprice := hf.price
  have hfee := hf.fee
  unfold PaperExecutor.feeIn at hfee
  unfold Fill.cashDeltaIn at h
  simp only [Option.bind_eq_bind, Option.bind_eq_some_iff, hf.qty, hf.side, hbuy, Option.map_eq_some_iff] at h hfee
  obtain ⟨gross, hgross, cost, hcost, rfl⟩ := h
  obtain ⟨gross', hgross', hfee⟩ := hfee
  obtain rfl : gross' = gross := Option.some.inj (hgross'.symm.trans hgross)
  rw [hbuy] at hprice
  simp only [PaperExecutor.costIn, hprice, hgross, hfee, hcost, Option.bind_eq_bind, Option.bind_some, neg_neg]

/-- The fee of a sell is no more than the sell brings. -/
theorem cashDeltaIn_sell (hd : DefaultFees s) (hf : FilledIn .dec96 gate s a s' order fill) (hsell : order.side = .sell)
    {delta : ℚ} (h : fill.cashDeltaIn .dec96 = some delta) : 0 ≤ delta := by
  have hprice := hf.price
  have hfee := hf.fee
  obtain ⟨hmid, hqty, -⟩ := orderIn_eq_some hf.accepted.sized
  unfold PaperExecutor.execPriceIn at hprice
  unfold PaperExecutor.feeIn at hfee
  unfold Fill.cashDeltaIn at h
  simp only [Option.bind_eq_bind, Option.bind_eq_some_iff, hf.qty, hf.side, hsell, hd.spread, hd.fee] at h hprice hfee
  obtain ⟨gross, hgross, hdelta⟩ := h
  obtain ⟨gross', hgross', hfee⟩ := hfee
  obtain ⟨factor, hfactor, hprice⟩ := hprice
  obtain rfl : gross' = gross := Option.some.inj (hgross'.symm.trans hgross)
  have hfactor0 : 0 ≤ factor := fit_nonneg (by norm_num) hfactor
  have hprice0 : 0 ≤ fill.price := fit_nonneg (mul_nonneg hmid.le hfactor0) hprice
  have hgross0 : 0 ≤ gross' := fit_nonneg (mul_nonneg hqty.le hprice0) hgross
  have hle : fill.fee ≤ gross' := (isDecimal_fit hgross).fit_le (by linarith) hfee
  exact fit_nonneg (sub_nonneg.mpr hle) hdelta

/-- **One tick's cash.** From a decimal that is not negative a tick leads to one that is not
negative unless it overdraws. -/
theorem cash_onTickIn (hd : DefaultFees s) (h0 : 0 ≤ s.portfolio.cash) (hdec : IsDecimal s.portfolio.cash)
    (h : s.onTickIn .dec96 gate a = some (s', o)) :
    IsDecimal s'.portfolio.cash ∧ (0 ≤ s'.portfolio.cash ↔ ¬ Overdraws gate s a) := by
  obtain ⟨-, -, ⟨hp, hnone⟩ | ⟨order, fill, hf⟩⟩ := onTickIn_cases h
  · rw [hp]
    refine ⟨hdec, iff_of_true h0 ?_⟩
    rintro ⟨order, _, hacc, -⟩
    exact hnone order hacc
  · obtain ⟨⟨delta, hdelta, hcash⟩, -⟩ := Portfolio.applyIn_eq_some hf.booked
    refine ⟨isDecimal_fit hcash, ?_⟩
    cases hs : order.side with
    | buy =>
      have hcost := cashDeltaIn_buy hf hs hdelta
      have hdecimal : IsDecimal (-delta) := by
        unfold PaperExecutor.costIn at hcost
        simp only [Option.bind_eq_bind, Option.bind_eq_some_iff] at hcost
        obtain ⟨_, -, _, -, _, -, hfit⟩ := hcost
        exact isDecimal_fit hfit
      have hsub : Arith.dec96.fit (s.portfolio.cash - -delta) = some s'.portfolio.cash := by
        rw [sub_neg_eq_add]
        exact hcash
      rw [fit_sub_nonneg_iff hdec hdecimal hsub, ← not_lt]
      refine not_congr ⟨fun hlt => ⟨order, -delta, hf.accepted, hs, hcost, hlt⟩, ?_⟩
      rintro ⟨order', cost, hacc, -, hcost', hlt⟩
      obtain rfl : order' = order := by simpa [hacc.sized] using hf.accepted.sized
      obtain rfl : cost = -delta := Option.some.inj (hcost'.symm.trans hcost)
      exact hlt
    | sell =>
      refine iff_of_true (fit_nonneg (add_nonneg h0 (cashDeltaIn_sell hd hf hs hdelta)) hcash) ?_
      rintro ⟨order', _, hacc, hbuy, -⟩
      obtain rfl : order' = order := by simpa [hacc.sized] using hf.accepted.sized
      exact absurd (hs.symm.trans hbuy) (by simp)

end

/-- **No overdraft.** From a starting cash, the cash of every state that a run reaches is
not negative exactly if no tick of the run overdraws. -/
theorem no_overdraft_iff (gate : RiskConfig) (c : Dec) (hc : 0 < c.val) {os : List RoundedRecord} {s : RunState}
    (h : (Runner.systemIn .dec96 gate).Run (.start (.new c.val)) os s) :
    (∀ o ∈ os, 0 ≤ o.after.portfolio.cash) ↔ ∀ o ∈ os, ¬ Overdraws gate o.before o.input := by
  -- the invariant: the fees are the default ones and the cash is a decimal, not negative
  have hiff := Lts.Run.forall_iff
    (I := fun _ (s : RunState) => DefaultFees s ∧ 0 ≤ s.portfolio.cash ∧ IsDecimal s.portfolio.cash)
    (P := fun _ (o : RoundedRecord) => 0 ≤ o.after.portfolio.cash) (G := fun o => ¬ Overdraws gate o.before o.input)
    ⟨⟨rfl, rfl⟩, hc.le, c.property⟩ (fun os s a s' o ⟨hd, h0, hdec⟩ hs => ?_) h
  · rw [← hiff]
    constructor
    · rintro hall pre o post rfl
      exact hall o (by simp)
    · intro hall o ho
      obtain ⟨pre, post, rfl⟩ := List.append_of_mem ho
      exact hall pre o post rfl
  · obtain ⟨⟨rfl, rfl, rfl⟩, ⟨hspread, hfee⟩, -⟩ := onTickIn_cases hs
    obtain ⟨hdec', hcash⟩ := cash_onTickIn hd h0 hdec hs
    exact ⟨hcash, fun hgood => ⟨⟨hspread.trans hd.spread, hfee.trans hd.fee⟩, hcash.mpr hgood, hdec'⟩⟩

/-- Limits that let all equity go into one order. -/
def wideLimits : RiskConfig := { RiskConfig.default with maxOrderNotional := 10000, maxPositionFraction := 1 }

/-- Half of the cash goes into a buy at 3, of which a third is sold at 7. -/
def thirdTicks : List RoundedInput :=
  [⟨buyTick (1 / 2) 3, .same⟩, ⟨tickOf .epoch 7 (.sell (3333333333333333333333333333 / 10 ^ 28) "t"), .same⟩]

theorem no_overdraft_half : ∃ os s, (Runner.systemIn .dec96 wideLimits).Run (.start (.new 1000)) os s ∧
    os.map (fun o => o.fill.isSome) = [true, true] ∧ ∀ o ∈ os, ¬ Overdraws wideLimits o.before o.input := by
  have hexec : ((Runner.systemIn .dec96 wideLimits).exec (.start (.new 1000)) thirdTicks).map
      (fun r => decide (r.2.map (fun o => o.fill.isSome) = [true, true] ∧ ∀ o ∈ r.2, 0 ≤ o.after.portfolio.cash)) =
        some true := by
    decide +kernel
  obtain ⟨⟨s, os⟩, hrun, hos⟩ := Option.map_eq_some_iff.mp hexec
  obtain ⟨hfills, hcash⟩ := of_decide_eq_true hos
  have hthousand : (Dec.of 1000 0 (by decide)).val = 1000 := by norm_num [Dec.of]
  have hrun' : (Runner.systemIn .dec96 wideLimits).Run (.start (.new (Dec.of 1000 0 (by decide)).val)) os s := by
    rw [hthousand]
    exact .of_exec hrun
  exact ⟨os, s, .of_exec hrun, hfills, (no_overdraft_iff wideLimits (Dec.of 1000 0 (by decide))
    (by rw [hthousand]; norm_num) hrun').mp hcash⟩

/-- A buy for all of 1000, at 100 each, leaves the cash at minus 1.5005. -/
theorem all_in_overdraws : ∃ os s, (Runner.systemIn .dec96 wideLimits).Run (.start (.new 1000)) os s ∧
    (∀ o ∈ os, ∀ ctx, o.input.decide ctx = .buy 1 "t") ∧ s.portfolio.cash = -15005 / 10000 := by
  have hstep : ((Runner.systemIn .dec96 wideLimits).step (.start (.new 1000)) ⟨buyTick 1 100, .same⟩).map
      (fun r => decide (r.1.portfolio.cash = -15005 / 10000)) = some true := by
    decide +kernel
  obtain ⟨⟨s, o⟩, hs, hcash⟩ := Option.map_eq_some_iff.mp hstep
  refine ⟨[o], s, .snoc .nil hs, fun o' ho' ctx => ?_, of_decide_eq_true hcash⟩
  obtain ⟨⟨-, hinput, -⟩, -⟩ := onTickIn_cases hs
  rw [List.mem_singleton.mp ho', hinput]
  rfl

end Sherwood
