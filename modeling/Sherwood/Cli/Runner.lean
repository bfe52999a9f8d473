/-
# The run loop

`run_loop` of `crates/cli/src/runner.rs`, over exact arithmetic: for each tick
of the feed it asks the decider, sizes an order, has the risk gate check it
and the paper executor fill it, and books the fill. One tick is one step of a
labelled system (`Runner.system`): what the tick brings from outside is its
input, the decider's answer and the readings of the clock included, so a run
is any prefix of the loop with any feed and any decider.

Key definitions: `size`, `RunState`, `RunState.onTick`, `Runner.system`.
Key theorems: `size_eq_some`, `onTick_cases`, `Runner.inputs_of_exec`.
-/
import Sherwood.Core.Risk
import Sherwood.Events.Bus
import Sherwood.Execution.Paper
import Sherwood.Lib.Lts

namespace Sherwood

/-- What a decider is told of one asset on one tick. -/
structure DecisionContext where
  snapshot : MarketSnapshot
  position : ℚ
  avgCost : Option ℚ
  positionFraction : ℚ

def decisionTag : Decision → String
  | .buy .. => "buy"
  | .sell .. => "sell"
  | .hold .. => "hold"

/-- `size`: the order a decision asks for, at the limit `price`; none to hold,
none without a positive price or a positive quantity. -/
def size (decision : Decision) (asset : Asset) (position equity price : ℚ) (now : DateTime) : Option Order :=
  if price ≤ 0 then none
  else
    let order := fun (side : Side) (qty : ℚ) (reason : String) =>
      if qty > 0 then
        some (⟨⟨s!"d-{asset.symbol}-{now.nanosOrZero}"⟩, asset, side, qty, some price, 2 / 100, .paper,
          s!"decision: {reason}"⟩ : Order)
      else none
    match decision with
    | .hold _ => none
    | .buy fraction reason => order .buy (equity * fraction / price) reason
    | .sell fraction reason => order .sell (position * fraction) reason

/-- The state the loop keeps from tick to tick. -/
structure RunState where
  portfolio : Portfolio
  exec : PaperExecutor
  latest : Table String ℚ
  prev : Table String ℚ
  lastOrder : Table String DateTime
  tickNo : UInt32

/-- What one tick brings: the observation, the decider's answer, and the times
at which the order is sized, checked, filled and noted. -/
structure TickInput where
  tick : Tick
  decide : DecisionContext → Decision
  sizedAt : DateTime
  checkedAt : DateTime
  filledAt : DateTime
  notedAt : DateTime

/-- What one tick did. -/
structure TickRecord where
  before : RunState
  input : TickInput
  after : RunState
  events : List Event
  fill : Option Fill
  equity : ℚ

namespace RunState

/-- The state in which the loop starts with a portfolio. -/
def start (p : Portfolio) : RunState := ⟨p, .default, ∅, ∅, ∅, 0⟩

/-- Take note of the tick's price. -/
def observe (s : RunState) (tick : Tick) : RunState :=
  { s with exec := s.exec.setPrice tick.symbol tick.price
           latest := s.latest.insert tick.symbol tick.price }

/-- Equity, at the latest prices. -/
def equity (s : RunState) : ℚ := s.portfolio.equity fun sym => s.latest.lookup sym

/-- The context of the decider, the tick being observed. -/
def decisionContext (s : RunState) (tick : Tick) : DecisionContext :=
  let lastSeen := (s.prev.lookup tick.symbol).getD tick.price
  { snapshot :=
      { asset := tick.asset
        price := tick.price
        change24h := if lastSeen > 0 then (tick.price - lastSeen) / lastSeen else 0
        liquidity := some 250000
        takenAt := tick.takenAt }
    position := s.portfolio.position tick.asset.symbol
    avgCost := s.portfolio.avgCost tick.asset.symbol
    positionFraction :=
      if s.equity > 0 then s.portfolio.position tick.asset.symbol * tick.price / s.equity else 0 }

/-- The context of the risk gate, the tick being observed. -/
def gateContext (s : RunState) (a : TickInput) : GateContext where
  portfolio := s.portfolio
  refPrice := some a.tick.price
  equity := s.equity
  unrealizedPnl := s.portfolio.unrealizedPnl fun sym => s.latest.lookup sym
  lastOrderAt := s.lastOrder.lookup a.tick.symbol
  now := a.checkedAt

/-- The decision on the tick, once observed. -/
def decision (s : RunState) (a : TickInput) : Decision := a.decide (s.decisionContext a.tick)

/-- The order the decision asks for. -/
def order (s : RunState) (a : TickInput) : Option Order :=
  size (s.decision a) a.tick.asset (s.portfolio.position a.tick.asset.symbol) s.equity a.tick.price a.sizedAt

/-- Check and execute an order: the state after it, what is published, and the
fill. `none` is a panic. -/
def place (s : RunState) (gate : RiskConfig) (a : TickInput) (order : Order) :
    Option (RunState × List Event × Option Fill) :=
  match RiskGate.check .exact gate order (s.gateContext a) with
  | .ok () =>
    match s.exec.execute order a.filledAt with
    | .ok (fill, exec) =>
      some ({ s with portfolio := s.portfolio.apply fill, exec
                     lastOrder := s.lastOrder.insert fill.asset.symbol a.notedAt },
        [.orderFilled fill], some fill)
    | .err _ => some (s, [], none)
    | .panic => none
  | .err e => some (s, [.riskRejected order.id order.asset.symbol e.text], none)
  | .panic => none

/-- One turn of the loop. -/
def onTick (gate : RiskConfig) (s₀ : RunState) (a : TickInput) : Option (RunState × TickRecord) := do
  let s := s₀.observe a.tick
  let decided := match s.decision a with
    | .hold _ => []
    | d => [Event.decided s.tickNo a.tick.price (decisionTag d)]
  let (s', placed, fill) ← (match s.order a with
    | none => some (s, [], none)
    | some order => s.place gate a order)
  let after := { s' with prev := s'.prev.insert a.tick.symbol a.tick.price, tickNo := s'.tickNo + 1 }
  pure (after, ⟨s₀, a, after, decided ++ placed, fill, after.equity⟩)

end RunState

/-- The loop as a system. -/
def Runner.system (gate : RiskConfig) : Lts RunState TickInput TickRecord := ⟨RunState.onTick gate⟩

/-! ### What an order of the loop is -/

/-- The orders the loop makes: at the price of the tick as a limit, a buy for
the value of the fraction of equity and a sell of the fraction of the
position. -/
theorem size_eq_some {decision : Decision} {asset : Asset} {position equity price : ℚ} {now : DateTime}
    {order : Order} (h : size decision asset position equity price now = some order) :
    0 < price ∧ 0 < order.qty ∧ order.asset = asset ∧ order.limitPrice = some price ∧
      order.maxSlippage = 2 / 100 ∧ ((∃ fraction reason, decision = .buy fraction reason ∧ order.side = .buy ∧
          order.qty * price = equity * fraction) ∨
        ∃ fraction reason, decision = .sell fraction reason ∧ order.side = .sell ∧
          order.qty = position * fraction) := by
  unfold size at h
  split_ifs at h with hp
  have hprice : 0 < price := not_le.mp hp
  cases decision with
  | hold reason => simp at h
  | buy fraction reason =>
    simp only [Option.ite_none_right_eq_some, Option.some.injEq] at h
    obtain ⟨hq, rfl⟩ := h
    exact ⟨hprice, hq, rfl, rfl, rfl, .inl ⟨fraction, reason, rfl, rfl, div_mul_cancel₀ _ hprice.ne'⟩⟩
  | sell fraction reason =>
    simp only [Option.ite_none_right_eq_some, Option.some.injEq] at h
    obtain ⟨hq, rfl⟩ := h
    exact ⟨hprice, hq, rfl, rfl, rfl, .inr ⟨fraction, reason, rfl, rfl, rfl⟩⟩

/-- A tick on which an order is filled. -/
structure Filled (gate : RiskConfig) (s : RunState) (a : TickInput) (s' : RunState) (order : Order) (fill : Fill) :
    Prop where
  sized : (s.observe a.tick).order a = some order
  checked : RiskGate.check .exact gate order ((s.observe a.tick).gateContext a) = .ok ()
  asset : fill.asset = a.tick.asset
  side : fill.side = order.side
  qty : fill.qty = order.qty
  price : fill.price = s.exec.execPrice order.side a.tick.price
  fee : fill.fee = order.qty * fill.price * s.exec.feeBps
  booked : s'.portfolio = s.portfolio.apply fill
  noted : s'.lastOrder = s.lastOrder.insert a.tick.symbol a.notedAt

/-- **One tick.** It leaves the ledger and the times of the last orders alone,
or it fills one order. -/
theorem onTick_cases {gate : RiskConfig} {s s' : RunState} {a : TickInput} {o : TickRecord}
    (h : s.onTick gate a = some (s', o)) :
    (o.before = s ∧ o.input = a ∧ o.after = s') ∧
      (s'.exec.spreadBps = s.exec.spreadBps ∧ s'.exec.feeBps = s.exec.feeBps) ∧
      ((o.fill = none ∧ s'.portfolio = s.portfolio ∧ s'.lastOrder = s.lastOrder) ∨
        ∃ order fill, o.fill = some fill ∧ Filled gate s a s' order fill) := by
  unfold RunState.onTick at h
  simp only [Option.bind_eq_bind, Option.bind_eq_some_iff, Option.pure_def, Option.some.injEq, Prod.mk.injEq,
    Prod.exists] at h
  obtain ⟨s₁, placed, fill, hplace, rfl, rfl⟩ := h
  refine ⟨⟨rfl, rfl, rfl⟩, ?_⟩
  cases horder : (s.observe a.tick).order a with
  | none =>
    simp only [horder, Option.some.injEq, Prod.mk.injEq] at hplace
    obtain ⟨rfl, -, rfl⟩ := hplace
    exact ⟨⟨rfl, rfl⟩, .inl ⟨rfl, rfl, rfl⟩⟩
  | some order =>
    simp only [horder] at hplace
    unfold RunState.place at hplace
    cases hcheck : RiskGate.check .exact gate order ((s.observe a.tick).gateContext a) with
    | err e =>
      simp only [hcheck, Option.some.injEq, Prod.mk.injEq] at hplace
      obtain ⟨rfl, -, rfl⟩ := hplace
      exact ⟨⟨rfl, rfl⟩, .inl ⟨rfl, rfl, rfl⟩⟩
    | panic => simp [hcheck] at hplace
    | ok u =>
      cases hexec : (s.observe a.tick).exec.execute order a.filledAt with
      | err e =>
        simp only [hcheck, hexec, Option.some.injEq, Prod.mk.injEq] at hplace
        obtain ⟨rfl, -, rfl⟩ := hplace
        exact ⟨⟨rfl, rfl⟩, .inl ⟨rfl, rfl, rfl⟩⟩
      | panic => simp [hcheck, hexec] at hplace
      | ok r =>
        obtain ⟨f, ex⟩ := r
        simp only [hcheck, hexec, Option.some.injEq, Prod.mk.injEq] at hplace
        obtain ⟨rfl, -, rfl⟩ := hplace
        -- the executor's mid price is the tick's
        obtain ⟨-, -, hasset, -, -, -⟩ := size_eq_some horder
        obtain ⟨mid, hmid, rfl, rfl⟩ := PaperExecutor.execute_ok hexec
        obtain rfl : a.tick.price = mid := by
          rw [hasset] at hmid
          exact Option.some.inj ((AList.lookup_insert _).symm.trans hmid)
        exact ⟨⟨rfl, rfl⟩, .inr ⟨order, _, rfl, horder, hcheck, hasset, rfl, rfl, rfl, rfl, rfl,
          by rw [hasset]; rfl⟩⟩

theorem Runner.inputs_of_exec {gate : RiskConfig} : ∀ {as : List TickInput} {s s' : RunState}
    {os : List TickRecord}, (Runner.system gate).exec s as = some (s', os) → os.map TickRecord.input = as
  | [], s, s', os, h => by
    simp only [Lts.exec, Option.some.injEq, Prod.mk.injEq] at h
    rw [← h.2]
    rfl
  | a :: as, s, s', os, h => by
    simp only [Lts.exec, Option.bind_eq_some_iff, Option.map_eq_some_iff, Prod.mk.injEq] at h
    obtain ⟨⟨s₁, o⟩, hstep, ⟨q, os'⟩, hexec, rfl, rfl⟩ := h
    obtain ⟨⟨-, rfl, -⟩, -⟩ := onTick_cases hstep
    rw [List.map_cons, inputs_of_exec hexec]

end Sherwood
