/-
# The run loop in any arithmetic

`run_loop`, `size` and `PaperExecutor::execute`, with each of their operations
on `Decimal`s in an arithmetic: what does not fit panics, and a turn that
panics is no step. Over exact arithmetic a turn is the one of `Cli.Runner`
(`onTickIn_exact`), in whatever order the positions are iterated.

Key definitions: `PaperExecutor.executeIn`, `sizeIn`, `RunState.onTickIn`,
`Runner.systemIn`, `Accepted`.
Key theorems: `placeIn_cases`, `onTickIn_cases`, `onTickIn_exact`.
-/
import Sherwood.Cli.Runner
import Sherwood.Core.Rounding

namespace Sherwood

namespace PaperExecutor

/-- The price a fill is made at, the mid price being `mid`. -/
def execPriceIn (A : Arith) (ex : PaperExecutor) (side : Side) (mid : ℚ) : Option ℚ := do
  let factor ← A.fit (match side with | .buy => 1 + ex.spreadBps | .sell => 1 - ex.spreadBps)
  A.fit (mid * factor)

/-- The slippage test of `execute`. -/
def checkSlippageIn (A : Arith) (order : Order) (price : ℚ) : Outcome ExecError Unit :=
  match order.limitPrice with
  | some limit => do
    let off ← .unwrap (A.fit (price - limit))
    let slip ← A.div off limit
    .reject (|slip| > order.maxSlippage) (.slippageExceeded |slip| order.maxSlippage)
  | none => .ok ()

/-- The fee on so much at a price. -/
def feeIn (A : Arith) (ex : PaperExecutor) (qty price : ℚ) : Option ℚ := do
  let gross ← A.fit (qty * price)
  A.fit (gross * ex.feeBps)

/-- `execute`, at the time `now`. -/
def executeIn (A : Arith) (ex : PaperExecutor) (order : Order) (now : DateTime) :
    Outcome ExecError (Fill × PaperExecutor) := do
  let mid ← .okOr (ex.prices.lookup order.asset.symbol) (.noPrice order.asset.symbol)
  let price ← .unwrap (ex.execPriceIn A order.side mid)
  checkSlippageIn A order price
  let fee ← .unwrap (ex.feeIn A order.qty price)
  pure (⟨order.id, order.asset, order.side, order.qty, price, fee, .paper, now⟩, { ex with seq := ex.seq + 1 })

/-- What a buy of `qty` costs, the mid price being `mid`. -/
def costIn (A : Arith) (ex : PaperExecutor) (qty mid : ℚ) : Option ℚ := do
  let price ← ex.execPriceIn A .buy mid
  let gross ← A.fit (qty * price)
  let fee ← A.fit (gross * ex.feeBps)
  A.fit (gross + fee)

end PaperExecutor

/-- `size`. -/
def sizeIn (A : Arith) (decision : Decision) (asset : Asset) (position equity price : ℚ) (now : DateTime) :
    Option (Option Order) :=
  if price ≤ 0 then some none
  else
    let order := fun (side : Side) (qty : ℚ) (reason : String) =>
      if qty > 0 then
        some (⟨⟨s!"d-{asset.symbol}-{now.nanosOrZero}"⟩, asset, side, qty, some price, 2 / 100, .paper,
          s!"decision: {reason}"⟩ : Order)
      else none
    match decision with
    | .hold _ => some none
    | .buy fraction reason => do
      let value ← A.fit (equity * fraction)
      let qty ← A.fit (value / price)
      some (order .buy qty reason)
    | .sell fraction reason => do
      let qty ← A.fit (position * fraction)
      some (order .sell qty reason)

/-- What one tick brings, and the order in which the map of positions is iterated on it. -/
structure RoundedInput extends TickInput where
  iterate : Table.Reorder String ℚ

/-- What one tick did. -/
structure RoundedRecord where
  before : RunState
  input : RoundedInput
  after : RunState
  events : List Event
  fill : Option Fill

namespace RunState

/-- Equity, at the latest prices. -/
def equityIn (A : Arith) (s : RunState) (a : RoundedInput) : Option ℚ :=
  s.portfolio.equityIn A a.iterate fun sym => s.latest.lookup sym

/-- The context of the decider, the tick being observed. -/
def decisionContextIn (A : Arith) (s : RunState) (a : RoundedInput) : Option DecisionContext := do
  let tick := a.tick
  let lastSeen := (s.prev.lookup tick.symbol).getD tick.price
  let change24h ← (if lastSeen > 0 then do
    let change ← A.fit (tick.price - lastSeen)
    A.fit (change / lastSeen)
  else some 0)
  let equity ← s.equityIn A a
  let positionFraction ← (if equity > 0 then do
    let value ← A.fit (s.portfolio.position tick.asset.symbol * tick.price)
    A.fit (value / equity)
  else some 0)
  some
    { snapshot :=
        { asset := tick.asset
          price := tick.price
          change24h
          liquidity := some 250000
          takenAt := tick.takenAt }
      position := s.portfolio.position tick.asset.symbol
      avgCost := s.portfolio.avgCost tick.asset.symbol
      positionFraction }

/-- The decision on the tick, once observed. -/
def decisionIn (A : Arith) (s : RunState) (a : RoundedInput) : Option Decision := (s.decisionContextIn A a).map a.decide

/-- The order the decision asks for. -/
def orderIn (A : Arith) (s : RunState) (a : RoundedInput) : Option (Option Order) := do
  let equity ← s.equityIn A a
  let decision ← s.decisionIn A a
  sizeIn A decision a.tick.asset (s.portfolio.position a.tick.asset.symbol) equity a.tick.price a.sizedAt

/-- The context of the risk gate, the tick being observed. -/
def gateContextIn (A : Arith) (s : RunState) (a : RoundedInput) : Option GateContext := do
  let equity ← s.equityIn A a
  let unrealizedPnl ← s.portfolio.unrealizedPnlIn A a.iterate fun sym => s.latest.lookup sym
  some ⟨s.portfolio, some a.tick.price, equity, unrealizedPnl, s.lastOrder.lookup a.tick.symbol, a.checkedAt⟩

/-- Check and execute an order: the state after it, what is published, and the
fill. `none` is a panic. -/
def placeIn (A : Arith) (s : RunState) (gate : RiskConfig) (a : RoundedInput) (order : Order) :
    Option (RunState × List Event × Option Fill) := do
  let ctx ← s.gateContextIn A a
  match RiskGate.check A gate order ctx with
  | .ok () =>
    match s.exec.executeIn A order a.filledAt with
    | .ok (fill, exec) =>
      let portfolio ← s.portfolio.applyIn A fill
      some ({ s with portfolio, exec, lastOrder := s.lastOrder.insert fill.asset.symbol a.notedAt },
        [.orderFilled fill], some fill)
    | .err _ => some (s, [], none)
    | .panic => none
  | .err e => some (s, [.riskRejected order.id order.asset.symbol e.text], none)
  | .panic => none

/-- One turn of the loop. -/
def onTickIn (A : Arith) (gate : RiskConfig) (s₀ : RunState) (a : RoundedInput) :
    Option (RunState × RoundedRecord) := do
  let s := s₀.observe a.tick
  let decision ← s.decisionIn A a
  let decided := match decision with
    | .hold _ => []
    | d => [Event.decided s.tickNo a.tick.price (decisionTag d)]
  let order ← s.orderIn A a
  let (s', placed, fill) ← (match order with
    | none => some (s, [], none)
    | some order => s.placeIn A gate a order)
  let after := { s' with prev := s'.prev.insert a.tick.symbol a.tick.price, tickNo := s'.tickNo + 1 }
  some (after, ⟨s₀, a, after, decided ++ placed, fill⟩)

end RunState

/-- The loop as a system. -/
def Runner.systemIn (A : Arith) (gate : RiskConfig) : Lts RunState RoundedInput RoundedRecord :=
  ⟨RunState.onTickIn A gate⟩

/-! ### What a turn does -/

theorem sizeIn_eq_some {A : Arith} {decision : Decision} {asset : Asset} {position equity price : ℚ} {now : DateTime}
    {order : Order} (h : sizeIn A decision asset position equity price now = some (some order)) :
    0 < price ∧ 0 < order.qty ∧ order.asset = asset := by
  unfold sizeIn at h
  split_ifs at h with hp
  · simp at h
  have hprice : 0 < price := not_le.mp hp
  cases decision with
  | hold reason => simp at h
  | buy fraction reason =>
    simp only [Option.bind_eq_bind, Option.bind_eq_some_iff, Option.some.injEq, Option.ite_none_right_eq_some] at h
    obtain ⟨_, -, _, -, hq, rfl⟩ := h
    exact ⟨hprice, hq, rfl⟩
  | sell fraction reason =>
    simp only [Option.bind_eq_bind, Option.bind_eq_some_iff, Option.some.injEq, Option.ite_none_right_eq_some] at h
    obtain ⟨_, -, hq, rfl⟩ := h
    exact ⟨hprice, hq, rfl⟩

/-- A tick on which the loop asks for an order that the gate accepts, and the executor's test of slippage too. -/
structure Accepted (A : Arith) (gate : RiskConfig) (s : RunState) (a : RoundedInput) (order : Order) : Prop where
  sized : (s.observe a.tick).orderIn A a = some (some order)
  checked : ∃ ctx, (s.observe a.tick).gateContextIn A a = some ctx ∧ RiskGate.check A gate order ctx = .ok ()
  inSlippage : ∃ price, s.exec.execPriceIn A order.side a.tick.price = some price ∧
    PaperExecutor.checkSlippageIn A order price = .ok ()

/-- A tick on which an order is filled. -/
structure FilledIn (A : Arith) (gate : RiskConfig) (s : RunState) (a : RoundedInput) (s' : RunState) (order : Order)
    (fill : Fill) : Prop where
  accepted : Accepted A gate s a order
  side : fill.side = order.side
  qty : fill.qty = order.qty
  price : s.exec.execPriceIn A order.side a.tick.price = some fill.price
  fee : s.exec.feeIn A order.qty fill.price = some fill.fee
  booked : s.portfolio.applyIn A fill = some s'.portfolio

section

variable {A : Arith} {gate : RiskConfig} {s s' : RunState} {a : RoundedInput} {o : RoundedRecord} {order : Order}

theorem PaperExecutor.executeIn_ok {ex ex' : PaperExecutor} {now : DateTime} {fill : Fill}
    (h : ex.executeIn A order now = .ok (fill, ex')) : ∃ mid, ex.prices.lookup order.asset.symbol = some mid ∧
      ex.execPriceIn A order.side mid = some fill.price ∧ checkSlippageIn A order fill.price = .ok () ∧
      ex.feeIn A order.qty fill.price = some fill.fee ∧ fill.side = order.side ∧ fill.qty = order.qty ∧
      ex' = { ex with seq := ex.seq + 1 } := by
  unfold executeIn at h
  simp only [Outcome.bind_eq_ok, Outcome.okOr_eq_ok, Outcome.unwrap_eq_ok, Outcome.pure_eq_ok, Outcome.ok.injEq,
    Prod.mk.injEq] at h
  obtain ⟨mid, hmid, price, hprice, _, hslip, fee, hfee, rfl, rfl⟩ := h
  exact ⟨mid, hmid, hprice, hslip, hfee, rfl, rfl, rfl⟩

theorem orderIn_eq_some (h : s.orderIn A a = some (some order)) :
    0 < a.tick.price ∧ 0 < order.qty ∧ order.asset = a.tick.asset := by
  unfold RunState.orderIn at h
  simp only [Option.bind_eq_bind, Option.bind_eq_some_iff] at h
  obtain ⟨equity, -, decision, -, hsize⟩ := h
  exact sizeIn_eq_some hsize

theorem lookup_order (h : (s.observe a.tick).orderIn A a = some (some order)) :
    (s.observe a.tick).exec.prices.lookup order.asset.symbol = some a.tick.price := by
  rw [(orderIn_eq_some h).2.2]
  exact AList.lookup_insert _

theorem Accepted.executed (hacc : Accepted A gate s a order) (now : DateTime) (e : ExecError) :
    (s.observe a.tick).exec.executeIn A order now ≠ .err e := by
  obtain ⟨price, hprice, hslip⟩ := hacc.inSlippage
  have hmid := lookup_order hacc.sized
  unfold PaperExecutor.executeIn
  simp only [hmid, Outcome.okOr, Option.elim_some, Outcome.ok_bind, ne_eq, Outcome.bind_eq_err, Outcome.unwrap_ne_err,
    Outcome.unwrap_eq_ok, false_or, not_exists, not_and, not_or, Outcome.pure_eq_ok]
  intro price' hprice'
  obtain rfl : price' = price := Option.some.inj (hprice'.symm.trans hprice)
  simp [hslip]

/-- Placing an order leaves the ledger alone, the order not being accepted, or fills it. -/
theorem placeIn_cases {placed : List Event} {fill : Option Fill}
    (hsized : (s.observe a.tick).orderIn A a = some (some order))
    (h : (s.observe a.tick).placeIn A gate a order = some (s', placed, fill)) :
    (s'.exec.spreadBps = s.exec.spreadBps ∧ s'.exec.feeBps = s.exec.feeBps) ∧
      ((s'.portfolio = s.portfolio ∧ ¬ Accepted A gate s a order) ∨ ∃ f, FilledIn A gate s a s' order f) := by
  unfold RunState.placeIn at h
  simp only [Option.bind_eq_bind, Option.bind_eq_some_iff] at h
  obtain ⟨ctx, hctx, h⟩ := h
  cases hcheck : RiskGate.check A gate order ctx with
  | err e =>
    simp only [hcheck, Option.some.injEq, Prod.mk.injEq] at h
    obtain ⟨rfl, -, rfl⟩ := h
    refine ⟨⟨rfl, rfl⟩, .inl ⟨rfl, fun hacc => ?_⟩⟩
    obtain ⟨ctx', hctx', hok⟩ := hacc.checked
    obtain rfl : ctx' = ctx := Option.some.inj (hctx'.symm.trans hctx)
    rw [hok] at hcheck
    exact absurd hcheck (by simp)
  | panic => simp [hcheck] at h
  | ok u =>
    cases hexec : (s.observe a.tick).exec.executeIn A order a.filledAt with
    | err e =>
      simp only [hcheck, hexec, Option.some.injEq, Prod.mk.injEq] at h
      obtain ⟨rfl, -, rfl⟩ := h
      exact ⟨⟨rfl, rfl⟩, .inl ⟨rfl, fun hacc => hacc.executed _ e hexec⟩⟩
    | panic => simp [hcheck, hexec] at h
    | ok r =>
      obtain ⟨f, ex⟩ := r
      simp only [hcheck, hexec, Option.bind_eq_some_iff, Option.some.injEq, Prod.mk.injEq] at h
      obtain ⟨portfolio, hbooked, rfl, -, rfl⟩ := h
      obtain ⟨mid, hmid, hprice, hslip, hfee, hside, hqty, rfl⟩ := PaperExecutor.executeIn_ok hexec
      obtain rfl : a.tick.price = mid := Option.some.inj ((lookup_order hsized).symm.trans hmid)
      have hacc : Accepted A gate s a order := ⟨hsized, ⟨ctx, hctx, hcheck⟩, f.price, hprice, hslip⟩
      exact ⟨⟨rfl, rfl⟩, .inr ⟨f, hacc, hside, hqty, hprice, hfee, hbooked⟩⟩

/-- **One tick.** It leaves the ledger alone and there was no accepted order, or it fills the accepted order. -/
theorem onTickIn_cases (h : s.onTickIn A gate a = some (s', o)) :
    (o.before = s ∧ o.input = a ∧ o.after = s') ∧
      (s'.exec.spreadBps = s.exec.spreadBps ∧ s'.exec.feeBps = s.exec.feeBps) ∧
      ((s'.portfolio = s.portfolio ∧ ∀ order, ¬ Accepted A gate s a order) ∨
        ∃ order fill, FilledIn A gate s a s' order fill) := by
  unfold RunState.onTickIn at h
  simp only [Option.bind_eq_bind, Option.bind_eq_some_iff, Option.some.injEq, Prod.mk.injEq, Prod.exists] at h
  obtain ⟨decision, -, placed?, horder, s₁, placed, fill, hplace, rfl, rfl⟩ := h
  refine ⟨⟨rfl, rfl, rfl⟩, ?_⟩
  cases placed? with
  | none =>
    simp only [Option.some.injEq, Prod.mk.injEq] at hplace
    obtain ⟨rfl, -, rfl⟩ := hplace
    refine ⟨⟨rfl, rfl⟩, .inl ⟨rfl, fun order hacc => ?_⟩⟩
    simp [hacc.sized] at horder
  | some order =>
    obtain ⟨hexec, ⟨hsame, hnot⟩ | ⟨f, hfilled⟩⟩ := placeIn_cases horder hplace
    · refine ⟨hexec, .inl ⟨hsame, fun order' hacc => ?_⟩⟩
      obtain rfl : order' = order := by simpa [hacc.sized] using horder
      exact hnot hacc
    · exact ⟨hexec, .inr ⟨order, f, hfilled.accepted, hfilled.side, hfilled.qty, hfilled.price, hfilled.fee,
        hfilled.booked⟩⟩

end

/-! ### Over exact arithmetic -/

section

variable {s : RunState} {a : RoundedInput} {order : Order}

theorem PaperExecutor.executeIn_exact (ex : PaperExecutor) (order : Order) (now : DateTime) :
    ex.executeIn .exact order now = ex.execute order now := by
  have hprice : ∀ mid, ex.execPriceIn .exact order.side mid = some (ex.execPrice order.side mid) := by
    intro mid
    unfold execPriceIn execPrice
    cases order.side <;> rfl
  have hslippage : ∀ price, checkSlippageIn .exact order price = checkSlippage order price := by
    intro price
    unfold checkSlippageIn checkSlippage
    cases order.limitPrice with
    | none => rfl
    | some limit =>
      by_cases hlimit : limit = 0
      · simp [hlimit, Arith.div, Arith.exact, Outcome.unwrap]
      · simp [hlimit, Arith.div, Arith.exact, Outcome.unwrap]
  unfold executeIn execute
  cases ex.prices.lookup order.asset.symbol with
  | none => rfl
  | some mid =>
    simp only [Outcome.okOr, Option.elim_some, Outcome.ok_bind, hprice, hslippage]
    rfl

namespace RunState

theorem equityIn_exact (s : RunState) (a : RoundedInput) : s.equityIn .exact a = some s.equity :=
  Portfolio.equityIn_exact _ _ _

theorem decisionIn_exact (s : RunState) (a : RoundedInput) : s.decisionIn .exact a = some (s.decision a.toTickInput) := by
  unfold decisionIn decisionContextIn decision decisionContext
  rw [equityIn_exact]
  simp only [Arith.exact, Option.bind_eq_bind, Option.bind_some]
  split_ifs <;> rfl

theorem orderIn_exact (s : RunState) (a : RoundedInput) : s.orderIn .exact a = some (s.order a.toTickInput) := by
  unfold orderIn order sizeIn size
  simp only [equityIn_exact, decisionIn_exact, Option.bind_eq_bind, Option.bind_some]
  split_ifs with hprice
  · rfl
  · cases s.decision a.toTickInput <;> rfl

theorem gateContextIn_exact (s : RunState) (a : RoundedInput) :
    s.gateContextIn .exact a = some (s.gateContext a.toTickInput) := by
  unfold gateContextIn
  simp only [equityIn_exact, Portfolio.unrealizedPnlIn_exact, Option.bind_eq_bind, Option.bind_some]
  rfl

theorem placeIn_exact (s : RunState) (gate : RiskConfig) (a : RoundedInput) (order : Order) :
    s.placeIn .exact gate a order = s.place gate a.toTickInput order := by
  unfold placeIn place
  rw [gateContextIn_exact, PaperExecutor.executeIn_exact, Option.bind_eq_bind, Option.bind_some]
  cases RiskGate.check .exact gate order (s.gateContext a.toTickInput) with
  | ok _ =>
    cases s.exec.execute order a.filledAt with
    | ok r => exact congrArg (fun booked => Option.bind booked _) (Portfolio.applyIn_exact s.portfolio r.1)
    | err _ => rfl
    | panic => rfl
  | err _ => rfl
  | panic => rfl

/-- **Over exact arithmetic** a turn of the loop is the one of `onTick`. -/
theorem onTickIn_exact (gate : RiskConfig) (s : RunState) (a : RoundedInput) : s.onTickIn .exact gate a =
    (s.onTick gate a.toTickInput).map fun r => (r.1, ⟨s, a, r.1, r.2.events, r.2.fill⟩) := by
  unfold onTickIn onTick
  simp only [decisionIn_exact, orderIn_exact, placeIn_exact, Option.bind_eq_bind, Option.bind_some, Option.pure_def]
  rw [Option.map_bind]
  rfl

end RunState

end

end Sherwood
