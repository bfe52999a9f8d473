/-
# What holds over a run

The invariants of the loop over whole runs, from any feed and any decider.

Positions never go below zero, no more are open than at the start or than the
limit, and a buy of a symbol comes no sooner after another than the cooldown
(`session_invariants`): what is needed for it is that the time noted for a
symbol's last order is never before that of a fill (`Session.noted`).

At the default fees the executor refuses none of the loop's orders
(`checkSlippage_default`).

Key definitions: `DefaultFees`, `Session`.
Key theorem: `session_invariants`.
-/
import Sherwood.Cli.Runner

namespace Sherwood

/-! ### Fees -/

/-- The executor charges the default spread and fee. -/
structure DefaultFees (s : RunState) : Prop where
  spread : s.exec.spreadBps = 10 / 10000
  fee : s.exec.feeBps = 5 / 10000

section

variable {s : RunState} {a : TickInput} {order : Order}

/-- The slippage of a fill at the default spread, a tenth of a percent. -/
theorem checkSlippage_default (hd : DefaultFees s) (horder : (s.observe a.tick).order a = some order) :
    PaperExecutor.checkSlippage order (s.exec.execPrice order.side a.tick.price) = .ok () := by
  obtain ⟨hprice, -, -, hlimit, hslip, -⟩ := size_eq_some horder
  have hratio : |(s.exec.execPrice order.side a.tick.price - a.tick.price) / a.tick.price| = 10 / 10000 := by
    cases hs : order.side
    · have : s.exec.execPrice .buy a.tick.price - a.tick.price = a.tick.price * (10 / 10000) := by
        simp only [PaperExecutor.execPrice, hd.spread]
        ring
      rw [this, mul_div_cancel_left₀ _ hprice.ne']
      norm_num
    · have : s.exec.execPrice .sell a.tick.price - a.tick.price = a.tick.price * (-(10 / 10000)) := by
        simp only [PaperExecutor.execPrice, hd.spread]
        ring
      rw [this, mul_div_cancel_left₀ _ hprice.ne']
      norm_num
  simp only [PaperExecutor.checkSlippage, hlimit, hprice.ne', if_false, hratio, hslip, Outcome.reject_eq_ok]
  norm_num

end

/-- A tick of `ROAR` at `price` and the time `now`, with the decider's answer. -/
def tickOf (now : DateTime) (price : ℚ) (decision : Decision) : TickInput :=
  ⟨⟨now, "ROAR", price⟩, fun _ => decision, now, now, now, now⟩

/-- A tick on which the decider buys for `fraction`. -/
def buyTick (fraction price : ℚ) : TickInput := tickOf .epoch price (.buy fraction "t")

/-! ### Positions, symbols and cooldown -/

/-- A fraction in `(0, 1]`. -/
def Decision.Proper : Decision → Prop
  | .buy fraction _ => 0 < fraction ∧ fraction ≤ 1
  | .sell fraction _ => 0 < fraction ∧ fraction ≤ 1
  | .hold _ => True

/-- The readings of the loop's clock on a tick. -/
def TickRecord.readings (o : TickRecord) : List DateTime := [o.input.checkedAt, o.input.notedAt]

/-- The clock does not go back. -/
def Steady (os : List TickRecord) : Prop := (os.flatMap TickRecord.readings).Pairwise (· ≤ ·)

/-- Two executed buys of a symbol: from the one to the other the clock advances
by the cooldown. -/
def CooledBetween (gate : RiskConfig) (o o' : TickRecord) : Prop :=
  ∀ fill ∈ o.fill, ∀ fill' ∈ o'.fill, fill.side = .buy → fill'.side = .buy →
    fill.asset.symbol = fill'.asset.symbol →
    (gate.orderCooldownSecs.toNat : ℤ) ≤ o'.input.checkedAt.secondsSince o.input.notedAt

/-- What holds in every state of a session that started with `p`. -/
structure Session (gate : RiskConfig) (p : Portfolio) (os : List TickRecord) (s : RunState) : Prop where
  nonneg : ∀ sym, 0 ≤ s.portfolio.position sym
  held : ∀ o ∈ os, ∀ fill ∈ o.fill, fill.side = .sell →
    fill.qty ≤ o.before.portfolio.position fill.asset.symbol
  openCount : s.portfolio.openPositionCount ≤ max p.openPositionCount gate.maxOpenPositions
  noted : ∀ o ∈ os, ∀ fill ∈ o.fill, ∃ last, s.lastOrder.lookup fill.asset.symbol = some last ∧
    o.input.notedAt ≤ last
  past : ∀ sym last, s.lastOrder.lookup sym = some last → ∃ o ∈ os, last = o.input.notedAt
  cooled : os.Pairwise (CooledBetween gate)

section

variable {gate : RiskConfig} {s s' : RunState} {a : TickInput} {o : TickRecord} {order : Order} {fill : Fill}

theorem Filled.entry (hf : Filled gate s a s' order fill) (hb : order.side = .buy) :
    EntryGuards gate order ((s.observe a.tick).gateContext a) (order.qty * a.tick.price) := by
  obtain ⟨-, -, -, hlimit, -, -⟩ := size_eq_some hf.sized
  exact (buy_limits hb (by simp [Order.mark, hlimit]) hf.checked).1

theorem sell_held (hproper : ∀ ctx, (a.decide ctx).Proper) (hpos : ∀ sym, 0 ≤ s.portfolio.position sym)
    (hf : Filled gate s a s' order fill) (hs : fill.side = .sell) :
    fill.qty ≤ s.portfolio.position fill.asset.symbol := by
  obtain ⟨-, -, -, -, -, ⟨_, _, -, hbuy, -⟩ | ⟨fraction, reason, hd, -, hq⟩⟩ := size_eq_some hf.sized
  · rw [hf.side, hbuy] at hs
    exact absurd hs (by simp)
  · have hfrac := hproper ((s.observe a.tick).decisionContext a.tick)
    unfold RunState.decision at hd
    rw [hd] at hfrac
    rw [hf.qty, hq, hf.asset]
    exact mul_le_of_le_one_right (hpos _) hfrac.2

/-- A fill of the loop is covered, so it leaves no short. -/
theorem filled_covered (hproper : ∀ ctx, (a.decide ctx).Proper) (hpos : ∀ sym, 0 ≤ s.portfolio.position sym)
    (hf : Filled gate s a s' order fill) : Covered s.portfolio fill := by
  obtain ⟨-, hq, -⟩ := size_eq_some hf.sized
  exact ⟨by rw [hf.qty]; exact hq, sell_held hproper hpos hf⟩

/-- A fill keeps the number of open positions, or opens one below the limit. -/
theorem openCount_filled (hf : Filled gate s a s' order fill) :
    s'.portfolio.openPositionCount ≤ max s.portfolio.openPositionCount gate.maxOpenPositions := by
  have hcount := Portfolio.openPositionCount_apply s.portfolio fill
  obtain ⟨-, hq, hasset, -, -, -⟩ := size_eq_some hf.sized
  rw [← hf.booked] at hcount
  by_cases hheld : s.portfolio.position fill.asset.symbol = 0
  · cases hs : order.side
    · -- the gate lets a new symbol in below the limit only
      have hlt : s.portfolio.openPositionCount < gate.maxOpenPositions :=
        (hf.entry hs).slot (by rw [hasset, ← hf.asset]; exact hheld)
      rw [if_pos hheld] at hcount
      split_ifs at hcount <;> omega
    · -- there is nothing to sell
      exfalso
      obtain ⟨-, -, -, -, -, ⟨_, _, -, hbuy, -⟩ | ⟨fraction, reason, -, -, hqty⟩⟩ := size_eq_some hf.sized
      · exact absurd (hbuy.symm.trans hs) (by simp)
      · rw [hf.asset] at hheld
        have : order.qty = 0 := by
          rw [hqty]
          exact mul_eq_zero_of_left hheld _
        linarith
  · rw [if_neg hheld] at hcount
    split_ifs at hcount <;> omega

/-- A buy is checked against the time noted for its symbol's last order. -/
theorem cooled_filled (hcool : gate.orderCooldownSecs.toNat < 2 ^ 63) (hf : Filled gate s a s' order fill)
    (hb : fill.side = .buy) {last : DateTime} (hlast : s.lastOrder.lookup fill.asset.symbol = some last)
    (hle : last ≤ a.checkedAt) : (gate.orderCooldownSecs.toNat : ℤ) ≤ a.checkedAt.secondsSince last := by
  have hc := (cooledDown_iff (hf.entry (hf.side.symm.trans hb)).cooled).mpr (.inl hcool)
  by_cases h0 : 0 < gate.orderCooldownSecs
  · rw [hf.asset] at hlast
    exact hc h0 last hlast
  · -- a cooldown of zero is disabled, and the clock is steady
    have hz : gate.orderCooldownSecs.toNat = 0 := by
      rw [UInt64.lt_iff_toNat_lt] at h0
      exact Nat.le_zero.mp (not_lt.mp h0)
    rw [hz]
    exact DateTime.secondsSince_nonneg hle

/-- The reading that checks an order comes after all that were noted before. -/
theorem Steady.snoc {os : List TickRecord} (h : Steady (os ++ [o])) :
    Steady os ∧ o.input.checkedAt ≤ o.input.notedAt ∧ ∀ o' ∈ os, o'.input.notedAt ≤ o.input.checkedAt := by
  unfold Steady at h ⊢
  rw [List.flatMap_append, List.pairwise_append] at h
  obtain ⟨h1, h2, h3⟩ := h
  refine ⟨h1, ?_, fun o' ho' => ?_⟩
  · simpa [TickRecord.readings] using h2
  · exact h3 _ (List.mem_flatMap.mpr ⟨o', ho', by simp [TickRecord.readings]⟩) _
      (by simp [TickRecord.readings])

/-- **One tick of a session.** -/
theorem session_onTick {p : Portfolio} {os : List TickRecord} (hcool : gate.orderCooldownSecs.toNat < 2 ^ 63)
    (hproper : ∀ ctx, (a.decide ctx).Proper) (hsteady : Steady (os ++ [o])) (hI : Session gate p os s)
    (h : s.onTick gate a = some (s', o)) : Session gate p (os ++ [o]) s' := by
  have hpast : ∀ sym last, s.lastOrder.lookup sym = some last →
      ∃ o' ∈ os ++ [o], last = o'.input.notedAt := fun sym last hl =>
    (hI.past sym last hl).imp fun o' ho' => ⟨List.mem_append_left _ ho'.1, ho'.2⟩
  obtain ⟨⟨rfl, rfl, rfl⟩, -, ⟨hnone, hp, hl⟩ | ⟨order, fill, hsome, hf⟩⟩ := onTick_cases h
  · -- nothing was filled
    refine ⟨?_, ?_, ?_, ?_, ?_, ?_⟩
    · rw [hp]
      exact hI.nonneg
    · exact List.forall_mem_append.mpr ⟨hI.held, by simp [hnone]⟩
    · rw [hp]
      exact hI.openCount
    · rw [hl]
      exact List.forall_mem_append.mpr ⟨hI.noted, by simp [hnone]⟩
    · rw [hl]
      exact hpast
    · refine List.pairwise_append.mpr ⟨hI.cooled, List.pairwise_singleton _ _, fun o₁ _ o₂ ho₂ => ?_⟩
      rw [List.mem_singleton.mp ho₂]
      intro _ _ fill' hfill'
      simp [hnone] at hfill'
  · obtain ⟨-, hnow, hbefore⟩ := hsteady.snoc
    refine ⟨?_, ?_, ?_, ?_, ?_, ?_⟩
    · rw [hf.booked]
      exact Portfolio.position_apply_nonneg hI.nonneg (filled_covered hproper hI.nonneg hf)
    · simp only [List.forall_mem_append, List.forall_mem_singleton, hsome, Option.mem_some_iff, forall_eq']
      exact ⟨hI.held, sell_held hproper hI.nonneg hf⟩
    · exact (openCount_filled hf).trans (max_le hI.openCount (le_max_right _ _))
    · -- the time noted is after all that were noted before
      rw [hf.noted]
      simp only [List.forall_mem_append, List.forall_mem_singleton, hsome, Option.mem_some_iff, forall_eq']
      refine ⟨fun o₁ ho₁ fill₁ hfill₁ => ?_, o.input.notedAt, ?_, le_rfl⟩
      · by_cases hsym : fill₁.asset.symbol = o.input.tick.symbol
        · rw [hsym]
          exact ⟨_, AList.lookup_insert _, (hbefore o₁ ho₁).trans hnow⟩
        · rw [AList.lookup_insert_ne hsym]
          exact hI.noted o₁ ho₁ fill₁ hfill₁
      · rw [hf.asset]
        exact AList.lookup_insert _
    · intro sym last hl
      rw [hf.noted] at hl
      by_cases hsym : sym = o.input.tick.symbol
      · rw [hsym, AList.lookup_insert] at hl
        exact ⟨o, by simp, (Option.some.inj hl).symm⟩
      · rw [AList.lookup_insert_ne hsym] at hl
        exact hpast sym last hl
    · refine List.pairwise_append.mpr ⟨hI.cooled, List.pairwise_singleton _ _, fun o₁ ho₁ o₂ ho₂ => ?_⟩
      rw [List.mem_singleton.mp ho₂]
      intro fill₁ hfill₁ fill₂ hfill₂ _ hbuy hsym
      obtain rfl : fill = fill₂ := Option.some.inj (hsome.symm.trans hfill₂)
      obtain ⟨last, hlookup, hle⟩ := hI.noted o₁ ho₁ fill₁ hfill₁
      rw [hsym] at hlookup
      obtain ⟨o₀, ho₀, rfl⟩ := hI.past _ _ hlookup
      exact (cooled_filled hcool hf hbuy hlookup (hbefore o₀ ho₀)).trans
        (DateTime.secondsSince_le le_rfl hle)

end

/-- **A session.** In every state of a run from a ledger without shorts, with a
decider that answers proper fractions and a clock that does not go back, no
position is negative and no sell was of more than was held; no more symbols
are open than at the start or than the limit; and between two executed buys
of a symbol the clock advanced by the cooldown. -/
theorem session_invariants (gate : RiskConfig) (p : Portfolio) (hp : ∀ sym, 0 ≤ p.position sym)
    (hcool : gate.orderCooldownSecs.toNat < 2 ^ 63) {os : List TickRecord} {s : RunState}
    (h : (Runner.system gate).Run (.start p) os s) (hproper : ∀ o ∈ os, ∀ ctx, (o.input.decide ctx).Proper)
    (hsteady : Steady os) :
    (∀ sym, 0 ≤ s.portfolio.position sym) ∧
      (∀ o ∈ os, ∀ fill ∈ o.fill, fill.side = .sell →
        fill.qty ≤ o.before.portfolio.position fill.asset.symbol) ∧
      s.portfolio.openPositionCount ≤ max p.openPositionCount gate.maxOpenPositions ∧
      os.Pairwise (CooledBetween gate) := by
  have hI : Session gate p os s := by
    refine Lts.Run.inv (P := fun os s =>
      (∀ o ∈ os, ∀ ctx, (o.input.decide ctx).Proper) → Steady os → Session gate p os s) ?_ ?_ h hproper hsteady
    · intro _ _
      exact ⟨hp, by simp, le_max_left _ _, by simp, by simp [RunState.start], .nil⟩
    · intro os s a s' o _ ih hs hproper hsteady
      obtain ⟨hpr, hpo⟩ := List.forall_mem_append.mp hproper
      obtain ⟨⟨-, rfl, -⟩, -⟩ := onTick_cases hs
      exact session_onTick hcool (hpo o (List.mem_singleton_self o)) hsteady (ih hpr hsteady.snoc.1) hs
  exact ⟨hI.nonneg, hI.held, hI.openCount, hI.cooled⟩

/-- A buy, a sell of half of it, a buy that comes too soon, and one a minute
after the sell. -/
def minuteTicks : List TickInput :=
  [tickOf .epoch 10 (.buy (1 / 10) "t"), tickOf (.ofSecs 30 (by norm_num)) 11 (.sell (1 / 2) "t"),
    tickOf (.ofSecs 60 (by norm_num)) 10 (.buy (1 / 50) "t"),
    tickOf (.ofSecs 90 (by norm_num)) 10 (.buy (1 / 50) "t")]

theorem session_invariants_minuteTicks :
    let gate := { RiskConfig.default with orderCooldownSecs := 60 }
    ∃ os s, (Runner.system gate).Run (.start (.new 1000)) os s ∧
      os.map (fun o => o.fill.isSome) = [true, true, false, true] ∧ os.Pairwise (CooledBetween gate) := by
  intro gate
  have hexec : ((Runner.system gate).exec (.start (.new 1000)) minuteTicks).map
      (fun r => decide (r.2.map (fun o => o.fill.isSome) = [true, true, false, true])) = some true := by
    decide +kernel
  obtain ⟨⟨s, os⟩, hrun, hfills⟩ := Option.map_eq_some_iff.mp hexec
  have hin := Runner.inputs_of_exec hrun
  have hproper : ∀ o ∈ os, ∀ ctx, (o.input.decide ctx).Proper := by
    intro o ho ctx
    have hmem : o.input ∈ minuteTicks := by
      rw [← hin]
      exact List.mem_map_of_mem ho
    revert hmem
    simp only [minuteTicks, List.mem_cons, List.not_mem_nil, or_false]
    rintro (h | h | h | h) <;> rw [h] <;> constructor <;> norm_num [tickOf]
  have hsteady : Steady os := by
    have hread : os.flatMap TickRecord.readings = minuteTicks.flatMap fun a => [a.checkedAt, a.notedAt] := by
      rw [← hin, List.flatMap_map]
      rfl
    unfold Steady
    rw [hread]
    decide +kernel
  exact ⟨os, s, .of_exec hrun, of_decide_eq_true hfills, (session_invariants gate (.new 1000)
    (fun sym => by simp [Portfolio.new, Portfolio.position]) (by decide) (.of_exec hrun) hproper hsteady).2.2.2⟩

end Sherwood
