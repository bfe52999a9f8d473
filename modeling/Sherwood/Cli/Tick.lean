/-
# One tick as a function

Over exact arithmetic and at the default fees a turn of the loop always comes
to an end, and what it does is decided by the one order it accepts
(`onTick_eq`): the order is filled, the fill booked and noted, and else only
the prices move. So two runs can be compared by the orders they accept.

What decides on an order is the ledger, and for a buy the equity, the
unrealized profit and the time of the last order, if there is a cooldown; the
order's own id is for the records (`check_ok_congr`). None of it depends on the order in which the
maps are iterated: `Portfolio.Alike` ledgers, with the same entries in any
order, have the same equity and stay alike (`Portfolio.Alike.apply`).

Key definitions: `RunState.accepted`, `RunState.fill`, `RunState.turned`,
`Portfolio.SameHoldings`, `Portfolio.Alike`, `GateContext.Alike`, `GateContext.EntryAlike`.
Key theorems: `onTick_eq`, `check_ok_congr`, `Portfolio.Alike.apply`.
-/
import Sherwood.Cli.RunInvariants

namespace Sherwood

/-! ### The turn -/

namespace RunState

/-- The order of the tick, if the gate accepts it. -/
def accepted (gate : RiskConfig) (s : RunState) (a : TickInput) : Option Order :=
  ((s.observe a.tick).order a).filter fun order =>
    RiskGate.check .exact gate order ((s.observe a.tick).gateContext a) = .ok ()

/-- What the executor makes of an accepted order. -/
def fillOf (s : RunState) (a : TickInput) (order : Order) : Fill :=
  let price := s.exec.execPrice order.side a.tick.price
  ⟨order.id, order.asset, order.side, order.qty, price, order.qty * price * s.exec.feeBps, .paper, a.filledAt⟩

/-- The fill of the tick. -/
def fill (gate : RiskConfig) (s : RunState) (a : TickInput) : Option Fill := (s.accepted gate a).map (s.fillOf a)

/-- The state after a tick with this fill. -/
def booked (s : RunState) (a : TickInput) (fill : Option Fill) : RunState where
  portfolio := fill.elim s.portfolio s.portfolio.apply
  exec := { s.exec.setPrice a.tick.symbol a.tick.price with
    seq := fill.elim s.exec.seq fun _ => s.exec.seq + 1 }
  latest := s.latest.insert a.tick.symbol a.tick.price
  prev := s.prev.insert a.tick.symbol a.tick.price
  lastOrder := fill.elim s.lastOrder fun f => s.lastOrder.insert f.asset.symbol a.notedAt
  tickNo := s.tickNo + 1

/-- The state after the tick. -/
def turned (gate : RiskConfig) (s : RunState) (a : TickInput) : RunState := s.booked a (s.fill gate a)

end RunState

section

variable {gate : RiskConfig} {s : RunState} {a : TickInput}

theorem RunState.accepted_eq_some {order : Order} : s.accepted gate a = some order ↔
    (s.observe a.tick).order a = some order ∧
      RiskGate.check .exact gate order ((s.observe a.tick).gateContext a) = .ok () := by
  simp [accepted, Option.filter_eq_some_iff]

theorem check_exact_ne_panic {order : Order} {ctx : GateContext} :
    RiskGate.check .exact gate order ctx ≠ .panic := by
  intro h
  rcases RiskGate.check_panic_iff.mp h with ⟨-, -, hfit⟩ | ⟨-, hfit⟩ | ⟨-, -, hfit⟩ | ⟨-, -, -, -, hfit⟩ <;>
    exact Option.some_ne_none _ hfit

theorem execute_order (hd : DefaultFees s) {order : Order} (horder : (s.observe a.tick).order a = some order) :
    (s.observe a.tick).exec.execute order a.filledAt =
      .ok (s.fillOf a order, { s.exec.setPrice a.tick.symbol a.tick.price with seq := s.exec.seq + 1 }) := by
  obtain ⟨-, -, hasset, -⟩ := size_eq_some horder
  have hmid : (s.observe a.tick).exec.prices.lookup order.asset.symbol = some a.tick.price := by
    rw [hasset]
    exact AList.lookup_insert _
  have hprice : (s.observe a.tick).exec.execPrice order.side a.tick.price =
      s.exec.execPrice order.side a.tick.price := rfl
  simp only [PaperExecutor.execute, hmid, Outcome.okOr, Option.elim_some, Outcome.ok_bind, hprice,
    checkSlippage_default hd horder, Outcome.pure_eq_ok]
  rfl

/-- **One tick.** It ends in the state that the accepted order makes. -/
theorem onTick_eq (hd : DefaultFees s) (gate : RiskConfig) (a : TickInput) : ∃ events, s.onTick gate a =
    some (s.turned gate a, ⟨s, a, s.turned gate a, events, s.fill gate a, (s.turned gate a).equity⟩) := by
  cases horder : (s.observe a.tick).order a with
  | none =>
    have hfill : s.fill gate a = none := by simp [RunState.fill, RunState.accepted, horder]
    unfold RunState.turned RunState.onTick
    simp only [hfill, horder]
    exact ⟨_, rfl⟩
  | some order =>
    cases hcheck : RiskGate.check .exact gate order ((s.observe a.tick).gateContext a) with
    | ok u =>
      have hfill : s.fill gate a = some (s.fillOf a order) := by
        simp [RunState.fill, RunState.accepted, horder, hcheck]
      have hplace : (s.observe a.tick).place gate a order = some
          ({ s.observe a.tick with
             portfolio := s.portfolio.apply (s.fillOf a order)
             exec := { s.exec.setPrice a.tick.symbol a.tick.price with seq := s.exec.seq + 1 }
             lastOrder := s.lastOrder.insert (s.fillOf a order).asset.symbol a.notedAt },
            [.orderFilled (s.fillOf a order)], some (s.fillOf a order)) := by
        unfold RunState.place
        rw [hcheck, execute_order hd horder]
        rfl
      unfold RunState.turned RunState.onTick
      simp only [hfill, horder, hplace]
      exact ⟨_, rfl⟩
    | err e =>
      have hfill : s.fill gate a = none := by simp [RunState.fill, RunState.accepted, horder, hcheck]
      have hplace : (s.observe a.tick).place gate a order =
          some (s.observe a.tick, [.riskRejected order.id order.asset.symbol e.text], none) := by
        unfold RunState.place
        rw [hcheck]
      unfold RunState.turned RunState.onTick
      simp only [hfill, horder, hplace]
      exact ⟨_, rfl⟩
    | panic => exact absurd hcheck check_exact_ne_panic

theorem DefaultFees.turned (hd : DefaultFees s) : DefaultFees (s.turned gate a) := ⟨hd.spread, hd.fee⟩

end

/-! ### Ledgers with the same entries -/

/-- An order without its id, a fill without that of its order and its time. -/
def Order.anonymous (order : Order) : Order := { order with id := ⟨""⟩ }

def Fill.anonymous (fill : Fill) : Fill := { fill with orderId := ⟨""⟩, filledAt := .epoch }

/-- Two ledgers with the same cash, positions and average costs. -/
structure Portfolio.SameHoldings (p q : Portfolio) : Prop where
  cash : p.cash = q.cash
  positions : ∀ sym, p.positions.lookup sym = q.positions.lookup sym
  avgCosts : ∀ sym, p.avgCosts.lookup sym = q.avgCosts.lookup sym

/-- Two ledgers with the same entries, in whatever order. -/
structure Portfolio.Alike (p q : Portfolio) : Prop extends p.SameHoldings q where
  realizedPnl : p.realizedPnl = q.realizedPnl

theorem Portfolio.SameHoldings.symm {p q : Portfolio} (h : p.SameHoldings q) : q.SameHoldings p :=
  ⟨h.cash.symm, fun sym => (h.positions sym).symm, fun sym => (h.avgCosts sym).symm⟩

namespace Portfolio.Alike

variable {p q : Portfolio} {px px' : String → Option ℚ} {f g : Fill}

theorem refl (p : Portfolio) : p.Alike p := ⟨⟨rfl, fun _ => rfl, fun _ => rfl⟩, rfl⟩

theorem position (h : p.Alike q) (sym : String) : p.position sym = q.position sym := by
  unfold Portfolio.position
  rw [h.positions]

theorem avgCost (h : p.Alike q) (sym : String) : p.avgCost sym = q.avgCost sym := h.avgCosts sym

theorem mem_positions (h : p.Alike q) {sym : String} (hsym : sym ∈ q.positions) : sym ∈ p.positions := by
  rw [← AList.lookup_isSome] at hsym ⊢
  rw [h.positions]
  exact hsym

/-- A sum over the open positions, of terms that agree where there is one. -/
theorem sum_openPositions {M : Type} [AddCommMonoid M] (h : p.Alike q) {φ ψ : String → ℚ → M}
    (h0 : ∀ sym, φ sym 0 = 0 ∧ ψ sym 0 = 0) (hterm : ∀ sym, p.position sym ≠ 0 → φ sym = ψ sym) :
    (p.openPositions.map fun e => φ e.1 e.2).sum = (q.openPositions.map fun e => ψ e.1 e.2).sum := by
  have hmem : ∀ sym ∈ p.positions, sym ∈ p.positions.keys.toFinset := fun sym hsym => by
    simpa [AList.mem_keys] using hsym
  rw [Portfolio.sum_openPositions p φ (fun sym => (h0 sym).1) hmem,
    Portfolio.sum_openPositions q ψ (fun sym => (h0 sym).2) fun sym hsym => hmem sym (h.mem_positions hsym)]
  refine Finset.sum_congr rfl fun sym _ => ?_
  rw [← h.position]
  by_cases hflat : p.position sym = 0
  · rw [hflat, (h0 sym).1, (h0 sym).2]
  · rw [hterm sym hflat]

theorem unrealizedPnl (h : p.Alike q) (hpx : ∀ sym, p.position sym ≠ 0 → px sym = px' sym) :
    p.unrealizedPnl px = q.unrealizedPnl px' := by
  have hzero : ∀ price cost : Option ℚ, profitAt price cost 0 = 0 := by
    intro price cost
    cases price <;> cases cost <;> simp [profitAt]
  exact h.sum_openPositions (φ := fun sym q => profitAt (px sym) (p.avgCost sym) q)
    (fun sym => ⟨hzero _ _, hzero _ _⟩) fun sym hsym => by rw [hpx sym hsym, h.avgCost]

theorem openPositionCount (h : p.Alike q) : p.openPositionCount = q.openPositionCount := by
  have hmem : ∀ sym ∈ p.positions, sym ∈ p.positions.keys.toFinset := fun sym hsym => by
    simpa [AList.mem_keys] using hsym
  rw [openPositionCount_eq p hmem, openPositionCount_eq q fun sym hsym => hmem sym (h.mem_positions hsym)]
  exact Finset.sum_congr rfl fun sym _ => by rw [h.position]

theorem equity (h : p.Alike q) (hpx : ∀ sym, p.position sym ≠ 0 → px sym = px' sym) :
    p.equity px = q.equity px' := by
  have hmem : ∀ sym ∈ p.positions, sym ∈ p.positions.keys.toFinset := fun sym hsym => by
    simpa [AList.mem_keys] using hsym
  rw [equity_eq p px hmem, equity_eq q px' fun sym hsym => hmem sym (h.mem_positions hsym)]
  refine congrArg₂ (· + ·) h.cash (Finset.sum_congr rfl fun sym _ => ?_)
  simp only [account]
  rw [← h.position]
  by_cases hflat : p.position sym = 0
  · rw [hflat, zero_mul, zero_mul]
  · rw [hpx sym hflat]

/-- Fills that differ in their records alone keep ledgers alike. -/
theorem apply (h : p.Alike q) (hfill : f.anonymous = g.anonymous) : (p.apply f).Alike (q.apply g) := by
  obtain ⟨idf, asset, side, qty, price, fee, venue, tf⟩ := f
  obtain ⟨idg, asset', side', qty', price', fee', venue', tg⟩ := g
  simp only [Fill.anonymous, Fill.mk.injEq, true_and, and_true] at hfill
  obtain ⟨rfl, rfl, rfl, rfl, rfl, rfl⟩ := hfill
  have hheld : p.positions.lookup asset.symbol = q.positions.lookup asset.symbol := h.positions _
  have hcost : p.avgCosts.lookup asset.symbol = q.avgCosts.lookup asset.symbol := h.avgCosts _
  unfold Portfolio.apply Fill.cashDelta
  simp only [hheld, hcost]
  cases side with
  | buy =>
    refine ⟨⟨congrArg (· + _) h.cash, Table.lookup_insert_congr h.positions _ _, ?_⟩, h.realizedPnl⟩
    simp only
    split_ifs
    · exact Table.lookup_insert_congr h.avgCosts _ _
    · exact h.avgCosts
  | sell =>
    refine ⟨⟨congrArg (· + _) h.cash, Table.lookup_insert_congr h.positions _ _, ?_⟩,
      congrArg (· + _) h.realizedPnl⟩
    simp only
    split_ifs
    · exact Table.lookup_erase_congr h.avgCosts _
    · exact h.avgCosts

end Portfolio.Alike

/-! ### What decides on an order -/

/-- Two contexts that are the same to the gate when it has a sell to check. -/
structure GateContext.Alike (ctx ctx' : GateContext) : Prop where
  portfolio : ctx.portfolio.Alike ctx'.portfolio
  refPrice : ctx.refPrice = ctx'.refPrice

/-- The gate's test of the cooldown. -/
def GateContext.Waited (cfg : RiskConfig) (ctx : GateContext) : Prop :=
  0 < cfg.orderCooldownSecs → ∀ last ∈ ctx.lastOrderAt, cfg.cooldown ≤ ctx.now.secondsSince last

/-- What else has to be the same when it has a buy to check. -/
structure GateContext.EntryAlike (cfg : RiskConfig) (ctx ctx' : GateContext) : Prop where
  equity : ctx.equity = ctx'.equity
  unrealizedPnl : ctx.unrealizedPnl = ctx'.unrealizedPnl
  waited : ctx.Waited cfg ↔ ctx'.Waited cfg

section

variable {cfg : RiskConfig} {order order' : Order} {ctx ctx' : GateContext}

theorem Portfolio.Alike.symm {p q : Portfolio} (h : p.Alike q) : q.Alike p :=
  ⟨h.toSameHoldings.symm, h.realizedPnl.symm⟩

theorem GateContext.Alike.symm (h : ctx.Alike ctx') : ctx'.Alike ctx := ⟨h.portfolio.symm, h.refPrice.symm⟩

theorem GateContext.EntryAlike.symm (h : ctx.EntryAlike cfg ctx') : ctx'.EntryAlike cfg ctx :=
  ⟨h.equity.symm, h.unrealizedPnl.symm, h.waited.symm⟩

/-- What is asked of every order is asked of its trade and the ledger. -/
theorem Permitted.congr (hasset : order.asset = order'.asset) (hslippage : order.maxSlippage = order'.maxSlippage)
    (h : ctx.portfolio.Alike ctx'.portfolio) (hperm : Permitted cfg order ctx) : Permitted cfg order' ctx' := by
  obtain ⟨hrunning, hdenied, hallowed, hslip, hloss⟩ := hperm
  rw [hasset] at hdenied hallowed
  rw [hslippage] at hslip
  rw [h.realizedPnl] at hloss
  exact ⟨hrunning, hdenied, hallowed, hslip, hloss⟩

/-- Orders of the same trade are accepted alike: one direction. -/
theorem check_ok_of_alike (horder : order.anonymous = order'.anonymous) (h : ctx.Alike ctx')
    (hbuy : order.side = .buy → ctx.EntryAlike cfg ctx')
    (hok : RiskGate.check .exact cfg order ctx = .ok ()) : RiskGate.check .exact cfg order' ctx' = .ok () := by
  obtain ⟨id, asset, side, qty, limit, slip, venue, reason⟩ := order
  obtain ⟨id', asset', side', qty', limit', slip', venue', reason'⟩ := order'
  simp only [Order.anonymous, Order.mk.injEq, true_and] at horder
  obtain ⟨rfl, rfl, rfl, rfl, rfl, rfl, rfl⟩ := horder
  obtain ⟨hperm, price, hmark, hcap, hentry⟩ := RiskGate.check_exact_ok_iff.mp hok
  refine RiskGate.check_exact_ok_iff.mpr ⟨?_, price, ?_, hcap, fun hside => ?_⟩
  · refine Permitted.congr ?_ ?_ h.portfolio hperm <;> rfl
  · rw [← hmark, Order.mark, Order.mark, h.refPrice]
  · obtain ⟨hequity, hunrealized, hwaited⟩ := hbuy hside
    obtain ⟨⟨hcash, hloss, hslot, hcooled⟩, hshare⟩ := hentry hside
    refine ⟨⟨?_, ?_, fun hflat => ?_, hwaited.mp hcooled⟩, ?_⟩
    · rw [← h.portfolio.cash]
      exact hcash
    · rw [← hunrealized]
      exact hloss
    · rw [← h.portfolio.openPositionCount]
      exact hslot (by rw [h.portfolio.position]; exact hflat)
    · simp only [GateContext.share, Order.resultingQty, hequity, h.portfolio.position] at hshare ⊢
      exact hshare

/-- **Acceptance.** Whether an order is accepted depends on its trade and the
ledger, and for a buy on the equity, the unrealized profit and the cooldown. -/
theorem check_ok_congr (horder : order.anonymous = order'.anonymous) (h : ctx.Alike ctx')
    (hbuy : order.side = .buy → ctx.EntryAlike cfg ctx') :
    RiskGate.check .exact cfg order ctx = .ok () ↔ RiskGate.check .exact cfg order' ctx' = .ok () := by
  have hside : order.side = order'.side := by
    have := congrArg Order.side horder
    exact this
  exact ⟨check_ok_of_alike horder h hbuy,
    check_ok_of_alike horder.symm h.symm fun hbuy' => (hbuy (hside.trans hbuy')).symm⟩

end

theorem size_anonymous (decision : Decision) (asset : Asset) (position equity price : ℚ) (t t' : DateTime) :
    (size decision asset position equity price t).map Order.anonymous =
      (size decision asset position equity price t').map Order.anonymous := by
  unfold size
  split_ifs
  · rfl
  · cases decision with
    | hold reason => rfl
    | buy fraction reason => simp only; split_ifs <;> rfl
    | sell fraction reason => simp only; split_ifs <;> rfl

end Sherwood
