/-
# What the rule decider trades

Runs of the loop with the rule decider, over any feed and under any limits. It never
adds to a position and never sells a part of one, so in each symbol entries and exits
take turns, an entry is for the configured share of equity, an exit is of exactly what its
entry bought, and it comes when the tick's price has reached the profit or the loss of the
entry's price (`rule_trades_in_turn`).
The invariant is that a ledger holds for each symbol the fill that was not yet left
(`Holds`).

What an exit realizes is known from the two prices then (`Left.realized`): one that
takes a profit realizes one, where the profit to take is above what the exit costs
(`Left.pays`).

Key definitions: `Entered`, `Left`, `InTurn`, `demoFeed`.
Key theorems: `rule_filled`, `inTurn_onTick`, `rule_trades_in_turn`, `Left.pays`.
-/
import Sherwood.Cli.RunInvariants
import Sherwood.Decision.Rule

namespace Sherwood

open RuleDecider (ExitDue Liquid unrealizedReturn)

/-- What a sale brings at the default spread and fee, for each unit of its value at the
mid price. -/
def paperProceeds : ℚ := (1 - 10 / 10000) * (1 - 5 / 10000)

/-- What was filled of a symbol on a tick. -/
def TickRecord.fillOf (sym : String) (o : TickRecord) : Option Fill := o.fill.filter (·.asset.symbol = sym)

/-- What the decider is told on the tick. -/
def TickRecord.told (o : TickRecord) : DecisionContext := (o.before.observe o.input.tick).decisionContext o.input.tick

/-- A position is entered on momentum, in a liquid market, for the configured share of equity. -/
structure Entered (cfg : RuleConfig) (o : TickRecord) (fill : Fill) : Prop where
  side : fill.side = .buy
  qty_pos : 0 < fill.qty
  price_pos : 0 < fill.price
  liquid : Liquid cfg o.told.snapshot
  momentum : cfg.entryMomentum ≤ o.told.snapshot.change24h
  size : fill.qty * o.input.tick.price = (o.before.observe o.input.tick).equity * cfg.entryFraction

/-- What `held` bought is sold, all of it, when an exit is due. -/
structure Left (cfg : RuleConfig) (held : Fill) (o : TickRecord) (fill : Fill) : Prop where
  side : fill.side = .sell
  liquid : Liquid cfg o.told.snapshot
  qty : fill.qty = held.qty
  due : ExitDue cfg o.input.tick.price held.price
  realized : o.after.portfolio.realizedPnl =
    o.before.portfolio.realizedPnl + held.qty * (o.input.tick.price * paperProceeds - held.price)

/-- The trades of a symbol: entries and exits in turn, with the entry that is not yet
left. -/
inductive InTurn (cfg : RuleConfig) (sym : String) : List TickRecord → Option Fill → Prop
  | flat : InTurn cfg sym [] none
  | idle {os : List TickRecord} {o : TickRecord} {held : Option Fill} (h : InTurn cfg sym os held)
    (hnone : o.fillOf sym = none) : InTurn cfg sym (os ++ [o]) held
  | entry {os : List TickRecord} {o : TickRecord} {fill : Fill} (h : InTurn cfg sym os none)
    (hfill : o.fillOf sym = some fill) (hentered : Entered cfg o fill) : InTurn cfg sym (os ++ [o]) (some fill)
  | exit {os : List TickRecord} {o : TickRecord} {held fill : Fill} (h : InTurn cfg sym os (some held))
    (hfill : o.fillOf sym = some fill) (hleft : Left cfg held o fill) : InTurn cfg sym (os ++ [o]) none

/-- The ledger holds what an entry bought, at its price, or nothing. -/
structure Holds (p : Portfolio) (sym : String) (held : Option Fill) : Prop where
  position : p.position sym = held.elim 0 Fill.qty
  avgCost : p.avgCost sym = held.map Fill.price
  qty_pos : ∀ fill ∈ held, 0 < fill.qty

variable {cfg : RuleConfig} {gate : RiskConfig} {s s' : RunState} {a : TickInput} {o : TickRecord} {order : Order}
  {fill held : Fill} {sym : String}

theorem Left.pays (h : Left cfg held o fill) (hqty : 0 ≤ held.qty)
    (htake : cfg.takeProfit ≤ unrealizedReturn o.input.tick.price held.price) :
    o.before.portfolio.realizedPnl + held.qty * held.price * ((1 + cfg.takeProfit) * paperProceeds - 1) ≤
      o.after.portfolio.realizedPnl := by
  have hcost := h.due.cost_pos
  have hprice : (1 + cfg.takeProfit) * held.price ≤ o.input.tick.price := by
    have := (le_div_iff₀ hcost).mp htake
    linarith
  have hrate : 0 ≤ paperProceeds := by norm_num [paperProceeds]
  calc o.before.portfolio.realizedPnl + held.qty * held.price * ((1 + cfg.takeProfit) * paperProceeds - 1)
      = o.before.portfolio.realizedPnl +
          held.qty * ((1 + cfg.takeProfit) * held.price * paperProceeds - held.price) := by ring
    _ ≤ o.before.portfolio.realizedPnl + held.qty * (o.input.tick.price * paperProceeds - held.price) := by gcongr
    _ = o.after.portfolio.realizedPnl := h.realized.symm

/-! ### One tick -/

/-- What the rule decider makes of a tick on which an order is filled. -/
theorem rule_filled (hrule : a.decide = RuleDecider.decide cfg) (hf : Filled gate s a s' order fill) :
    Liquid cfg ((s.observe a.tick).decisionContext a.tick).snapshot ∧
    ((fill.side = .buy ∧ 0 < fill.qty ∧ s.portfolio.position a.tick.symbol ≤ 0 ∧
        cfg.entryMomentum ≤ ((s.observe a.tick).decisionContext a.tick).snapshot.change24h ∧
        fill.qty * a.tick.price = (s.observe a.tick).equity * cfg.entryFraction) ∨
      (fill.side = .sell ∧ fill.qty = s.portfolio.position a.tick.symbol ∧
        ∃ cost, s.portfolio.avgCost a.tick.symbol = some cost ∧ ExitDue cfg a.tick.price cost)) := by
  obtain ⟨-, hq, -, -, -, ⟨_, _, hd, hs, hsize⟩ | ⟨fraction, _, hd, hs, hqty⟩⟩ := size_eq_some hf.sized
  · rw [RunState.decision, hrule] at hd
    obtain ⟨hliquid, hflat, hmom, rfl⟩ := RuleDecider.decide_buy hd
    exact ⟨hliquid, .inl ⟨hf.side.trans hs, hf.qty ▸ hq, hflat, hmom, hf.qty ▸ hsize⟩⟩
  · rw [RunState.decision, hrule] at hd
    obtain ⟨hliquid, -, rfl, cost, hcost, hdue⟩ := RuleDecider.decide_sell hd
    rw [mul_one] at hqty
    exact ⟨hliquid, .inr ⟨hf.side.trans hs, hf.qty.trans hqty, cost, hcost, hdue⟩⟩

/-- A buy into a flat symbol leaves what it bought, at its price. -/
theorem Holds.buy {p : Portfolio} (h : Holds p fill.asset.symbol none) (hs : fill.side = .buy) (hq : 0 < fill.qty) :
    Holds (p.apply fill) fill.asset.symbol (some fill) := by
  have hzero : (p.positions.lookup fill.asset.symbol).getD 0 = 0 := h.position
  refine ⟨?_, ?_, fun f hf => Option.mem_some_iff.mp hf ▸ hq⟩
  · rw [Portfolio.position_apply, if_pos rfl, h.position, hs]
    exact zero_add _
  · simp only [Portfolio.apply, Portfolio.avgCost, hs, hzero, zero_mul, zero_add, hq.ne', ne_eq, not_false_eq_true,
      if_true, AList.lookup_insert, Option.map_some, mul_div_cancel_left₀ _ hq.ne']

/-- A sale of all that is held leaves nothing, and realizes the difference of the prices
less its fee. -/
theorem Holds.sell {p : Portfolio} (h : Holds p fill.asset.symbol (some held)) (hs : fill.side = .sell)
    (hq : fill.qty = held.qty) : Holds (p.apply fill) fill.asset.symbol none ∧
      (p.apply fill).realizedPnl = p.realizedPnl + (held.qty * (fill.price - held.price) - fill.fee) := by
  have hpos := h.qty_pos held rfl
  have hheld : (p.positions.lookup fill.asset.symbol).getD 0 = held.qty := h.position
  have hcost : (p.avgCosts.lookup fill.asset.symbol).getD 0 = held.price := by
    have := h.avgCost
    rw [Portfolio.avgCost] at this
    rw [this]
    rfl
  refine ⟨⟨?_, ?_, fun f hf => by cases hf⟩, ?_⟩
  · rw [Portfolio.position_apply, if_pos rfl, h.position, hs, hq]
    exact add_neg_cancel _
  · simp only [Portfolio.apply, Portfolio.avgCost, hs, hheld, hq, sub_self, if_true, AList.lookup_erase,
      Option.map_none]
  · simp only [Portfolio.apply, hs, hheld, hcost, hq, max_eq_left hpos.le, min_self]

theorem Holds.other {p : Portfolio} {held : Option Fill} (h : Holds p sym held) (hne : sym ≠ fill.asset.symbol) :
    Holds (p.apply fill) sym held :=
  ⟨(Portfolio.position_apply_of_ne p hne).trans h.position, (Portfolio.avgCost_apply_of_ne p hne).trans h.avgCost,
    h.qty_pos⟩

/-- **One tick.** A symbol's trades go on in turn. -/
theorem inTurn_onTick {os : List TickRecord} {held : Option Fill} (hd : DefaultFees s)
    (hrule : a.decide = RuleDecider.decide cfg) (hturn : InTurn cfg sym os held) (hholds : Holds s.portfolio sym held)
    (h : s.onTick gate a = some (s', o)) :
    ∃ held', InTurn cfg sym (os ++ [o]) held' ∧ Holds s'.portfolio sym held' := by
  obtain ⟨⟨rfl, rfl, rfl⟩, -, ⟨hnone, hp, -⟩ | ⟨order, fill, hsome, hf⟩⟩ := onTick_cases h
  · exact ⟨held, hturn.idle (by simp [TickRecord.fillOf, hnone]), hp ▸ hholds⟩
  · have hsym : fill.asset.symbol = o.input.tick.symbol := congrArg Asset.symbol hf.asset
    by_cases hne : sym = fill.asset.symbol
    · subst hne
      have hfill : o.fillOf fill.asset.symbol = some fill := by simp [TickRecord.fillOf, hsome]
      have hfprice : fill.price = o.before.exec.execPrice fill.side o.input.tick.price := by rw [hf.price, hf.side]
      rw [hf.booked]
      obtain ⟨hliquid, ⟨hs, hq, hflat, hmom, hsize⟩ | ⟨hs, hq, cost, hcost, hdue⟩⟩ := rule_filled hrule hf
      · -- it buys into no position, so there is none
        rw [← hsym] at hflat
        cases held with
        | some held =>
          have := hholds.qty_pos held rfl
          rw [hholds.position] at hflat
          exact absurd hflat (not_le.mpr this)
        | none =>
          obtain ⟨hprice, -⟩ := size_eq_some hf.sized
          have hpaid : 0 < fill.price := by
            rw [hfprice, hs, PaperExecutor.execPrice, hd.spread]
            positivity
          exact ⟨some fill, hturn.entry hfill ⟨hs, hq, hpaid, hliquid, hmom, hsize⟩, hholds.buy hs hq⟩
      · rw [← hsym] at hq hcost
        cases held with
        | none =>
          rw [hholds.avgCost] at hcost
          cases hcost
        | some held =>
          obtain rfl : held.price = cost := Option.some.inj (hholds.avgCost.symm.trans hcost)
          have hall : fill.qty = held.qty := hq.trans hholds.position
          obtain ⟨hafter, hpnl⟩ := hholds.sell hs hall
          refine ⟨none, hturn.exit hfill ⟨hs, hliquid, hall, hdue, ?_⟩, hafter⟩
          rw [hf.booked, hpnl, hf.fee, ← hf.qty, hall, hfprice, hs, PaperExecutor.execPrice, hd.spread, hd.fee,
            paperProceeds]
          ring
    · refine ⟨held, hturn.idle ?_, hf.booked ▸ hholds.other hne⟩
      simp [TickRecord.fillOf, hsome, Ne.symm hne]

/-! ### Runs -/

/-- **The trades of a run.** From cash, with the rule decider, each symbol's entries and
exits take turns, and the ledger holds exactly what was entered and not yet left. -/
theorem rule_trades_in_turn (cfg : RuleConfig) (gate : RiskConfig) (c : ℚ) {os : List TickRecord} {s : RunState}
    (h : (Runner.system gate).Run (.start (.new c)) os s)
    (hrule : ∀ o ∈ os, o.input.decide = RuleDecider.decide cfg) (sym : String) :
    ∃ held, InTurn cfg sym os held ∧ s.portfolio.position sym = held.elim 0 Fill.qty ∧
      s.portfolio.avgCost sym = held.map Fill.price := by
  have hinv : DefaultFees s ∧ ∃ held, InTurn cfg sym os held ∧ Holds s.portfolio sym held := by
    refine Lts.Run.inv (P := fun os s => (∀ o ∈ os, o.input.decide = RuleDecider.decide cfg) →
      DefaultFees s ∧ ∃ held, InTurn cfg sym os held ∧ Holds s.portfolio sym held) ?_ ?_ h hrule
    · exact fun _ => ⟨⟨rfl, rfl⟩, none, .flat, rfl, rfl, fun f hf => by cases hf⟩
    · intro os s a s' o _ ih hstep hall
      obtain ⟨hbefore, hlast⟩ := List.forall_mem_append.mp hall
      obtain ⟨hd, held, hturn, hholds⟩ := ih hbefore
      obtain ⟨⟨-, hinput, -⟩, ⟨hspread, hfee⟩, -⟩ := onTick_cases hstep
      refine ⟨⟨hspread.trans hd.spread, hfee.trans hd.fee⟩, inTurn_onTick hd ?_ hturn hholds hstep⟩
      exact hinput ▸ hlast o (List.mem_singleton_self o)
  obtain ⟨-, held, hturn, hholds⟩ := hinv
  exact ⟨held, hturn, hholds.position, hholds.avgCost⟩

/-- The returns of the two symbols of `demo_feed`, minute by minute. -/
def demoReturns : List (ℚ × ℚ) :=
  [(0, 0), (3 / 100, 1 / 100), (7 / 100, 8 / 100), (12 / 100, 10 / 100), (19 / 100, 12 / 100),
    (24 / 100, 5 / 100), (10 / 100, -5 / 100), (-5 / 100, -15 / 100)]

/-- `demo_feed`: a tick of each symbol, every minute. -/
def demoFeed : List Tick :=
  (demoReturns.zip (List.finRange 8)).flatMap fun ((r, h), i) =>
    let now := DateTime.ofSecs (1700000000 + 60 * i) (by rw [abs_le]; omega)
    [⟨now, "ROAR", 100 * (1 + r)⟩, ⟨now, "HMNI", 10 * (1 + h)⟩]

/-- The limits of the demo. -/
def demoLimits : RiskConfig := { RiskConfig.default with maxOrderNotional := 10000, maxPositionFraction := 1 / 2 }

/-- The demo's ticks, with a decider. -/
def demoInputs (cfg : RuleConfig) : List TickInput :=
  demoFeed.map fun t => ⟨t, RuleDecider.decide cfg, t.takenAt, t.takenAt, t.takenAt, t.takenAt⟩

/-- In the demo each symbol is bought once and sold once. -/
theorem rule_trades_demo : ∃ os s, (Runner.system demoLimits).Run (.start (.new 1000)) os s ∧
    ((os.filterMap TickRecord.fill).map fun f => (f.side, f.asset.symbol)) =
      [(.buy, "HMNI"), (.buy, "ROAR"), (.sell, "HMNI"), (.sell, "ROAR")] ∧
    ∀ sym, ∃ held, InTurn .default sym os held ∧ s.portfolio.position sym = held.elim 0 Fill.qty ∧
      s.portfolio.avgCost sym = held.map Fill.price := by
  have hexec : ((Runner.system demoLimits).exec (.start (.new 1000)) (demoInputs .default)).map
      (fun r => decide (((r.2.filterMap TickRecord.fill).map fun f => (f.side, f.asset.symbol)) =
        [(.buy, "HMNI"), (.buy, "ROAR"), (.sell, "HMNI"), (.sell, "ROAR")])) = some true := by
    decide +kernel
  obtain ⟨⟨s, os⟩, hrun, hfills⟩ := Option.map_eq_some_iff.mp hexec
  have hin := Runner.inputs_of_exec hrun
  have hrule : ∀ o ∈ os, o.input.decide = RuleDecider.decide .default := by
    intro o ho
    have hmem : o.input ∈ demoInputs .default := by
      rw [← hin]
      exact List.mem_map_of_mem ho
    obtain ⟨t, -, ht⟩ := List.mem_map.mp hmem
    rw [← ht]
  exact ⟨os, s, .of_exec hrun, of_decide_eq_true hfills,
    rule_trades_in_turn .default demoLimits 1000 (.of_exec hrun) hrule⟩

end Sherwood
