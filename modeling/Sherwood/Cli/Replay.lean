/-
# Backtests are reproducible

`backtest` of `crates/cli/src/backtest.rs` and `run_backtest` of
`crates/cli/src/runner.rs`, over exact arithmetic: the loop replays a feed with
a recorder and no store. What an execution does not determine is the clock,
which is read four times on a tick, and the order in which each map is
iterated; an `Execution` chooses both, as it likes and anew on every tick.

Two executions make the same of a feed (`backtest_reproducible`), up to the
ids of orders and the times of fills: their states stay `RunState.Alike`, with
the same entries in every table but the times of the last orders, and these
the gate does not look at since the cooldown is forced off.

Key definitions: `Shuffle`, `Turn`, `Execution`, `Backtest.system`,
`runBacktest`, `backtest`, `RunState.Alike`, `SameBacktest`.
Key theorems: `RunState.Alike.accepted`, `backtestTick_alike`, `backtest_reproducible`.
-/
import Sherwood.Cli.Backtest
import Sherwood.Cli.Tick
import Sherwood.Config.Config

namespace Sherwood

/-- An order of iteration for each map of the loop. -/
structure Shuffle where
  positions : Table.Reorder String ℚ
  avgCosts : Table.Reorder String ℚ
  prices : Table.Reorder String ℚ
  latest : Table.Reorder String ℚ
  prev : Table.Reorder String ℚ
  lastOrder : Table.Reorder String DateTime

/-- The readings of the clock on a tick, and the orders of the maps while it is
decided and when its equity is recorded. -/
structure Turn where
  sizedAt : DateTime
  checkedAt : DateTime
  filledAt : DateTime
  notedAt : DateTime
  before : Shuffle
  after : Shuffle

/-- What an execution is free in: the turns of the loop, and the orders of the
maps when it has ended and while the trades are closed. -/
structure Execution where
  turn : ℕ → Turn
  ended : Shuffle
  books : ℕ → Table.Reorder String Book

/-- The state, its maps in another order. -/
def RunState.shuffle (σ : Shuffle) (s : RunState) : RunState where
  portfolio := { s.portfolio with
    positions := σ.positions.apply s.portfolio.positions
    avgCosts := σ.avgCosts.apply s.portfolio.avgCosts }
  exec := { s.exec with prices := σ.prices.apply s.exec.prices }
  latest := σ.latest.apply s.latest
  prev := σ.prev.apply s.prev
  lastOrder := σ.lastOrder.apply s.lastOrder
  tickNo := s.tickNo

/-- What the recorder takes of a tick. -/
structure Recorded where
  equity : ℚ
  fill : Option Fill

/-- What a tick brings in a backtest. -/
def Turn.input (t : Turn) (decide : DecisionContext → Decision) (tick : Tick) : TickInput :=
  ⟨tick, decide, t.sizedAt, t.checkedAt, t.filledAt, t.notedAt⟩

/-- `BacktestRecorder::record` at the end of a tick, the maps in a new order. -/
def Recorded.of (σ : Shuffle) (r : RunState × TickRecord) : RunState × Recorded :=
  let after := r.1.shuffle σ
  (after, ⟨after.equity, r.2.fill⟩)

/-- One turn of the loop with a recorder. -/
def RunState.backtestTick (gate : RiskConfig) (decide : DecisionContext → Decision) (s : RunState)
    (a : Tick × Turn) : Option (RunState × Recorded) :=
  ((s.shuffle a.2.before).onTick gate (a.2.input decide a.1)).map (Recorded.of a.2.after)

/-- The loop of a backtest as a system. -/
def Backtest.system (gate : RiskConfig) (decide : DecisionContext → Decision) :
    Lts RunState (Tick × Turn) Recorded :=
  ⟨RunState.backtestTick gate decide⟩

/-- The recording, when the feed has ended. -/
def Recording.of (cfg : AppConfig) (e : Execution) (r : RunState × List Recorded) : Recording where
  startingCash := cfg.general.startingCash
  equityCurve := r.2.map Recorded.equity
  fills := r.2.filterMap Recorded.fill
  finalEquity := (r.1.shuffle e.ended).equity
  realizedPnl := r.1.portfolio.realizedPnl

/-- `run_backtest`, of the ticks of a feed. -/
def runBacktest (cfg : AppConfig) (decide : DecisionContext → Decision) (ticks : List Tick) (e : Execution) :
    Option Recording :=
  let start := RunState.start (.new cfg.general.startingCash)
  let turns := ticks.zipIdx.map fun x => (x.1, e.turn x.2)
  ((Backtest.system cfg.risk.toCore decide).exec start turns).map (Recording.of cfg e)

/-- The configuration with the cooldown off: it counts seconds of the wall, and a
replay lasts none. -/
def AppConfig.uncooled (cfg : AppConfig) : AppConfig :=
  if cfg.risk.orderCooldownSecs ≠ 0 then { cfg with risk := { cfg.risk with orderCooldownSecs := 0 } } else cfg

/-- `backtest`: the decider is built (`build_decider`), the feed opened
(`CsvFeed::open`) and replayed, and the recording analyzed. -/
def backtest (buildDecider : AppConfig → Except String (DecisionContext → Decision))
    (openFeed : String → Except String (List Tick)) (cfg : AppConfig) (e : Execution) :
    Outcome String (Recording × BacktestReport) :=
  match cfg.general.feedPath with
  | none => .err ("backtest needs a price feed — set [general] feed_path to a CSV " ++
      "(timestamp,symbol,price). The built-in demo feed is for `sherwood demo`.")
  | some path =>
    let cfg := cfg.uncooled
    match buildDecider cfg, openFeed path with
    | .error e, _ => .err e
    | .ok _, .error e => .err e
    | .ok decide, .ok ticks => do
      let rec' ← .unwrap (runBacktest cfg decide ticks e)
      pure (rec', analyze e.books cfg.general.decider rec')

/-- Two results of backtests, the same up to the ids of orders and the times of
fills. -/
structure SameBacktest (r r' : Recording × BacktestReport) : Prop where
  curve : r.1.equityCurve = r'.1.equityCurve
  fills : r.1.fills.map Fill.anonymous = r'.1.fills.map Fill.anonymous
  report : r.2 = r'.2

/-! ### States that are alike -/

/-- Two states with the same entries in every table, in whatever order; the times
of the last orders may differ. -/
structure RunState.Alike (s t : RunState) : Prop where
  portfolio : s.portfolio.Alike t.portfolio
  spread : s.exec.spreadBps = t.exec.spreadBps
  fee : s.exec.feeBps = t.exec.feeBps
  latest : ∀ sym, s.latest.lookup sym = t.latest.lookup sym
  prev : ∀ sym, s.prev.lookup sym = t.prev.lookup sym

namespace RunState.Alike

variable {s t u : RunState} {gate : RiskConfig} {decide : DecisionContext → Decision} {tick : Tick}

theorem refl (s : RunState) : s.Alike s := ⟨.refl _, rfl, rfl, fun _ => rfl, fun _ => rfl⟩

theorem shuffle (h : s.Alike t) (σ τ : Shuffle) : (s.shuffle σ).Alike (t.shuffle τ) := by
  refine ⟨⟨⟨h.portfolio.cash, fun sym => ?_, fun sym => ?_⟩, h.portfolio.realizedPnl⟩, h.spread, h.fee,
    fun sym => ?_, fun sym => ?_⟩
  · simp only [RunState.shuffle, Table.Reorder.lookup_apply, h.portfolio.positions sym]
  · simp only [RunState.shuffle, Table.Reorder.lookup_apply, h.portfolio.avgCosts sym]
  · simp only [RunState.shuffle, Table.Reorder.lookup_apply, h.latest sym]
  · simp only [RunState.shuffle, Table.Reorder.lookup_apply, h.prev sym]

theorem equity (h : s.Alike t) : s.equity = t.equity := h.portfolio.equity fun sym _ => h.latest sym

theorem observe (h : s.Alike t) (tick : Tick) : (s.observe tick).Alike (t.observe tick) :=
  ⟨h.portfolio, h.spread, h.fee, Table.lookup_insert_congr h.latest _ _, h.prev⟩

theorem decisionContext (h : s.Alike t) : s.decisionContext tick = t.decisionContext tick := by
  unfold RunState.decisionContext
  rw [h.prev, h.portfolio.position, h.portfolio.avgCost, h.equity]

theorem gateContext (h : s.Alike t) {a b : TickInput} (htick : a.tick = b.tick) :
    (s.gateContext a).Alike (t.gateContext b) :=
  ⟨h.portfolio, by rw [RunState.gateContext, RunState.gateContext, htick]⟩

theorem entryAlike (h : s.Alike t) (hcool : gate.orderCooldownSecs = 0) (a b : TickInput) :
    (s.gateContext a).EntryAlike gate (t.gateContext b) := by
  have hwaited : ∀ ctx : GateContext, ctx.Waited gate := fun ctx hpos => by
    rw [hcool] at hpos
    exact absurd hpos (by decide)
  exact ⟨h.equity, h.portfolio.unrealizedPnl fun sym _ => h.latest sym, fun _ => hwaited _, fun _ => hwaited _⟩

/-- The orders are of the same trade. -/
theorem order (h : s.Alike t) {a b : TickInput} (htick : a.tick = b.tick) (hdecide : a.decide = b.decide) :
    (s.order a).map Order.anonymous = (t.order b).map Order.anonymous := by
  have hdecision : s.decision a = t.decision b := by
    rw [RunState.decision, RunState.decision, hdecide, htick, h.decisionContext]
  rw [RunState.order, RunState.order, hdecision, htick, h.portfolio.position, h.equity]
  exact size_anonymous _ _ _ _ _ _ _

/-- **The accepted orders** are of the same trade. -/
theorem accepted (h : s.Alike t) (hcool : gate.orderCooldownSecs = 0) {a b : TickInput} (htick : a.tick = b.tick)
    (hdecide : a.decide = b.decide) :
    (s.accepted gate a).map Order.anonymous = (t.accepted gate b).map Order.anonymous := by
  have hobserved : (s.observe a.tick).Alike (t.observe b.tick) := htick ▸ h.observe a.tick
  have horder := hobserved.order htick hdecide
  unfold RunState.accepted
  cases hs : (s.observe a.tick).order a with
  | none =>
    rw [hs] at horder
    rw [Option.map_eq_none_iff.mp horder.symm]
    rfl
  | some order =>
    rw [hs] at horder
    obtain ⟨order', ht, hsame⟩ := Option.map_eq_some_iff.mp horder.symm
    rw [ht]
    have hcheck := check_ok_congr hsame.symm (hobserved.gateContext htick) fun _ => hobserved.entryAlike hcool a b
    by_cases hok : RiskGate.check .exact gate order ((s.observe a.tick).gateContext a) = .ok ()
    · have hok' := hcheck.mp hok
      simp only [Option.filter, hok, hok', decide_true, if_true, Option.map_some, hsame]
    · have hok' : ¬ RiskGate.check .exact gate order' ((t.observe b.tick).gateContext b) = .ok () :=
        fun h' => hok (hcheck.mpr h')
      simp only [Option.filter, hok, hok', decide_false, Bool.false_eq_true, if_false]

/-- **The fills** are the same, up to the id of the order and the time. -/
theorem fill (h : s.Alike t) (hcool : gate.orderCooldownSecs = 0) {a b : TickInput} (htick : a.tick = b.tick)
    (hdecide : a.decide = b.decide) :
    (s.fill gate a).map Fill.anonymous = (t.fill gate b).map Fill.anonymous := by
  have haccepted := h.accepted hcool htick hdecide
  have hfill : ∀ (u : RunState) (c : TickInput) (order : Order),
      (u.fillOf c order).anonymous = (u.fillOf c order.anonymous).anonymous := fun _ _ _ => rfl
  have hboth : ∀ order, (s.fillOf a order).anonymous = (t.fillOf b order).anonymous := by
    intro order
    simp only [RunState.fillOf, Fill.anonymous, PaperExecutor.execPrice, htick, h.spread, h.fee]
  unfold RunState.fill
  rw [Option.map_map, Option.map_map]
  calc (s.accepted gate a).map (Fill.anonymous ∘ s.fillOf a)
      = ((s.accepted gate a).map Order.anonymous).map (Fill.anonymous ∘ s.fillOf a) := by
        rw [Option.map_map]
        rfl
    _ = ((t.accepted gate b).map Order.anonymous).map (Fill.anonymous ∘ t.fillOf b) := by
        rw [haccepted]
        exact congrArg (Option.map · _) (funext hboth)
    _ = (t.accepted gate b).map (Fill.anonymous ∘ t.fillOf b) := by
        rw [Option.map_map]
        rfl

theorem booked (h : s.Alike t) {a b : TickInput} (htick : a.tick = b.tick) {f g : Option Fill}
    (hfill : f.map Fill.anonymous = g.map Fill.anonymous) : (s.booked a f).Alike (t.booked b g) := by
  have hportfolio : (f.elim s.portfolio s.portfolio.apply).Alike (g.elim t.portfolio t.portfolio.apply) := by
    cases f with
    | none =>
      rw [Option.map_eq_none_iff.mp hfill.symm]
      exact h.portfolio
    | some f =>
      obtain ⟨g, rfl, hsame⟩ := Option.map_eq_some_iff.mp hfill.symm
      exact h.portfolio.apply hsame.symm
  rw [RunState.booked, RunState.booked, htick]
  exact ⟨hportfolio, h.spread, h.fee, Table.lookup_insert_congr h.latest _ _, Table.lookup_insert_congr h.prev _ _⟩

end RunState.Alike

/-! ### The executions -/

section

variable {gate : RiskConfig} {decide : DecisionContext → Decision} {s t : RunState}

/-- What two executions keep: alike states, at the default fees. -/
structure RunState.Twin (s t : RunState) : Prop where
  alike : s.Alike t
  left : DefaultFees s
  right : DefaultFees t

/-- **One tick.** Alike states make alike states and records of a tick, whatever
the clocks and the orders of the maps. -/
theorem backtestTick_alike (hcool : gate.orderCooldownSecs = 0) (h : s.Twin t) {a b : Tick × Turn}
    (htick : a.1 = b.1) : ∃ s' t' o q, s.backtestTick gate decide a = some (s', o) ∧
      t.backtestTick gate decide b = some (t', q) ∧ s'.Twin t' ∧
      (o.equity = q.equity ∧ o.fill.map Fill.anonymous = q.fill.map Fill.anonymous) := by
  have hbefore := h.alike.shuffle a.2.before b.2.before
  have hinput : (a.2.input decide a.1).tick = (b.2.input decide b.1).tick := htick
  have hs : DefaultFees (s.shuffle a.2.before) := ⟨h.left.spread, h.left.fee⟩
  have ht : DefaultFees (t.shuffle b.2.before) := ⟨h.right.spread, h.right.fee⟩
  obtain ⟨events, hs'⟩ := onTick_eq hs gate (a.2.input decide a.1)
  obtain ⟨events', ht'⟩ := onTick_eq ht gate (b.2.input decide b.1)
  have hfill := hbefore.fill hcool hinput rfl
  have hafter := (hbefore.booked hinput hfill).shuffle a.2.after b.2.after
  have hleft := congrArg (Option.map (Recorded.of a.2.after)) hs'
  have hright := congrArg (Option.map (Recorded.of b.2.after)) ht'
  exact ⟨_, _, _, _, hleft, hright, ⟨hafter, ⟨h.left.spread, h.left.fee⟩, ⟨h.right.spread, h.right.fee⟩⟩,
    hafter.equity, hfill⟩

/-- Two closings with the same books, in whatever order, and the same trades. -/
structure Closing.Alike (acc acc' : Closing) : Prop where
  books : ∀ sym, acc.books.lookup sym = acc'.books.lookup sym
  pnls : acc.pnls = acc'.pnls

/-- Fills that differ in their records alone close the same trades. -/
theorem Closing.Alike.closeTrade {acc acc' : Closing} {f g : Fill} (h : acc.Alike acc')
    (hfill : f.anonymous = g.anonymous) : (acc.closeTrade f).Alike (acc'.closeTrade g) := by
  have hanonymous : ∀ (b : Book) (f : Fill), b.fill f = b.fill f.anonymous := fun _ _ => rfl
  have hsym : f.asset.symbol = g.asset.symbol := by
    have hasset : f.anonymous.asset = g.anonymous.asset := congrArg Fill.asset hfill
    exact congrArg Asset.symbol hasset
  have hbook : (bookOf acc.books g.asset.symbol).fill f = (bookOf acc'.books g.asset.symbol).fill g := by
    rw [hanonymous, hanonymous _ g, hfill, bookOf, bookOf, h.books]
  unfold Closing.closeTrade
  simp only [hsym, hbook, h.pnls]
  exact ⟨Table.lookup_insert_congr h.books _ _, rfl⟩

/-- **The closed trades** are the same, whatever the orders of the books. -/
theorem Closing.Alike.bookFills : ∀ {fs gs : List Fill} {orders orders' : ℕ → Table.Reorder String Book}
    {acc acc' : Closing}, acc.Alike acc' → fs.map Fill.anonymous = gs.map Fill.anonymous →
      (bookFills orders acc fs).pnls = (bookFills orders' acc' gs).pnls
  | [], gs, _, _, _, _, h, hfills => by
    rw [List.map_eq_nil_iff.mp hfills.symm]
    exact h.pnls
  | f :: fs, gs, orders, orders', acc, acc', h, hfills => by
    obtain ⟨g, gs, rfl, hg, hgs⟩ := List.map_eq_cons_iff.mp hfills.symm
    have hreordered : Closing.Alike ⟨(orders 0).apply acc.books, acc.pnls⟩ ⟨(orders' 0).apply acc'.books, acc'.pnls⟩ :=
      ⟨fun sym => by rw [Table.Reorder.lookup_apply, Table.Reorder.lookup_apply, h.books], h.pnls⟩
    have htrade := hreordered.closeTrade hg.symm
    unfold Sherwood.bookFills
    exact Closing.Alike.bookFills htrade hgs.symm

/-- Two recordings that differ in the ids of orders and the times of fills alone. -/
structure Recording.Alike (r r' : Recording) : Prop where
  startingCash : r.startingCash = r'.startingCash
  equityCurve : r.equityCurve = r'.equityCurve
  fills : r.fills.map Fill.anonymous = r'.fills.map Fill.anonymous
  finalEquity : r.finalEquity = r'.finalEquity
  realizedPnl : r.realizedPnl = r'.realizedPnl

/-- **The report** of them is the same. -/
theorem Recording.Alike.analyze {r r' : Recording} (h : r.Alike r') (orders orders' : ℕ → Table.Reorder String Book)
    (label : String) : analyze orders label r = analyze orders' label r' := by
  have hpnls : closedTradePnls orders r = closedTradePnls orders' r' :=
    Closing.Alike.bookFills ⟨fun _ => rfl, rfl⟩ h.fills
  have hlength : r.fills.length = r'.fills.length := by
    rw [← List.length_map (f := Fill.anonymous), h.fills, List.length_map]
  simp only [Sherwood.analyze, hpnls, hlength, h.startingCash, h.equityCurve, h.finalEquity]

/-- Lists of records with the same equity and fills, up to what is anonymous, make
the same curve and fills. -/
theorem same_records {os qs : List Recorded} (h : List.Forall₂
    (fun o q => o.equity = q.equity ∧ o.fill.map Fill.anonymous = q.fill.map Fill.anonymous) os qs) :
    os.map Recorded.equity = qs.map Recorded.equity ∧
      (os.filterMap Recorded.fill).map Fill.anonymous = (qs.filterMap Recorded.fill).map Fill.anonymous := by
  induction h with
  | nil => exact ⟨rfl, rfl⟩
  | @cons o q os qs hrec _ ih =>
    obtain ⟨hequity, hfill⟩ := hrec
    refine ⟨by rw [List.map_cons, List.map_cons, hequity, ih.1], ?_⟩
    cases ho : o.fill with
    | none =>
      rw [ho] at hfill
      rw [List.filterMap_cons_none ho, List.filterMap_cons_none (Option.map_eq_none_iff.mp hfill.symm)]
      exact ih.2
    | some f =>
      rw [ho] at hfill
      obtain ⟨g, hq, hsame⟩ := Option.map_eq_some_iff.mp hfill.symm
      rw [List.filterMap_cons_some ho, List.filterMap_cons_some hq, List.map_cons, List.map_cons, hsame, ih.2]

end

/-- **The loop.** Two executions record the same of the same ticks. -/
theorem runBacktest_alike (cfg : AppConfig) (hcool : cfg.risk.orderCooldownSecs = 0)
    (decide : DecisionContext → Decision) (ticks : List Tick) (e₁ e₂ : Execution) :
    ∃ r₁ r₂, runBacktest cfg decide ticks e₁ = some r₁ ∧ runBacktest cfg decide ticks e₂ = some r₂ ∧ r₁.Alike r₂ := by
  let start := RunState.start (.new cfg.general.startingCash)
  have hturns : List.Forall₂ (fun a b : Tick × Turn => a.1 = b.1)
      (ticks.zipIdx.map fun x => (x.1, e₁.turn x.2)) (ticks.zipIdx.map fun x => (x.1, e₂.turn x.2)) := by
    rw [List.forall₂_map_left_iff, List.forall₂_map_right_iff]
    exact List.forall₂_same.mpr fun _ _ => rfl
  have htwin : start.Twin start := ⟨.refl _, ⟨rfl, rfl⟩, ⟨rfl, rfl⟩⟩
  obtain ⟨s, t, os, qs, hs, ht, hend, hrecords⟩ := Lts.exec_of_simulation
    (L := Backtest.system cfg.risk.toCore decide) (M := Backtest.system cfg.risk.toCore decide)
    (fun _ _ _ _ h htick => backtestTick_alike hcool h htick) hturns htwin
  obtain ⟨hcurve, hfills⟩ := same_records hrecords
  have hleft := congrArg (Option.map (Recording.of cfg e₁)) hs
  have hright := congrArg (Option.map (Recording.of cfg e₂)) ht
  exact ⟨_, _, hleft, hright, rfl, hcurve, hfills, (hend.alike.shuffle e₁.ended e₂.ended).equity,
    hend.alike.portfolio.realizedPnl⟩

/-- **Reproducibility.** Any two executions of a backtest end in an error both, or
with the same curve, fills and report. -/
theorem backtest_reproducible (buildDecider : AppConfig → Except String (DecisionContext → Decision))
    (openFeed : String → Except String (List Tick)) (cfg : AppConfig) (e₁ e₂ : Execution) :
    (∃ err, backtest buildDecider openFeed cfg e₁ = .err err ∧ backtest buildDecider openFeed cfg e₂ = .err err) ∨
      ∃ r₁ r₂, backtest buildDecider openFeed cfg e₁ = .ok r₁ ∧ backtest buildDecider openFeed cfg e₂ = .ok r₂ ∧
        SameBacktest r₁ r₂ := by
  unfold backtest
  cases hpath : cfg.general.feedPath with
  | none => exact .inl ⟨_, rfl, rfl⟩
  | some path =>
    simp only
    have hcool : cfg.uncooled.risk.orderCooldownSecs = 0 := by
      unfold AppConfig.uncooled
      split_ifs with h
      · rfl
      · exact not_not.mp h
    cases hdecider : buildDecider cfg.uncooled with
    | error e => exact .inl ⟨_, rfl, rfl⟩
    | ok decide =>
      cases hfeed : openFeed path with
      | error e => exact .inl ⟨_, rfl, rfl⟩
      | ok ticks =>
        obtain ⟨r₁, r₂, h₁, h₂, halike⟩ := runBacktest_alike cfg.uncooled hcool decide ticks e₁ e₂
        simp only [h₁, h₂]
        exact .inr ⟨_, _, rfl, rfl, halike.equityCurve, halike.fills, halike.analyze _ _ _⟩

end Sherwood
