/-
# The daily loss of past sessions

`max_daily_loss` is a limit for the session, and the gate compares it with the
`realized_pnl` of the ledger, which is the profit realized since the ledger was
made: `run_loop` starts from the last snapshot, and nothing resets the field.
What earlier sessions have lost or won is therefore part of what a session may
lose. A ledger that is at the limit accepts nothing, in this session and in all
to come (`accepted_of_halted`).

Two sessions over one feed whose ledgers differ in that field alone accept the
same orders exactly if on each tick with an order that meets all else, both
ledgers are on one side of the limit (`daily_loss_of_session`). The ledgers stay
apart by as much as they were at the start (`Elsewhere`).

Key definitions: `OtherwiseAccepted`, `verdictsIn`, `Elsewhere`.
Key theorems: `check_ok_iff_limit`, `elsewhere_step`, `daily_loss_of_session`,
`past_loss_halts`.
-/
import Sherwood.Cli.Restart

namespace Sherwood

/-! ### Ledgers apart by their realized profit -/

/-- A ledger with another realized profit. -/
def Portfolio.withRealized (p : Portfolio) (realizedPnl : ℚ) : Portfolio := { p with realizedPnl }

theorem Portfolio.SameHoldings.alike {p q : Portfolio} (h : p.SameHoldings q) :
    p.Alike (q.withRealized p.realizedPnl) := ⟨⟨h.cash, h.positions, h.avgCosts⟩, rfl⟩

/-- A fill adds the same to the realized profit, whatever it was. -/
theorem Portfolio.apply_withRealized (p : Portfolio) (r : ℚ) (fill : Fill) : (p.withRealized r).apply fill =
    (p.apply fill).withRealized (r + ((p.apply fill).realizedPnl - p.realizedPnl)) := by
  unfold Portfolio.apply Portfolio.withRealized
  cases fill.side with
  | buy => simp
  | sell => simp only [add_sub_cancel_left]

theorem Portfolio.SameHoldings.apply {p q : Portfolio} (h : p.SameHoldings q) (fill : Fill) :
    (p.apply fill).SameHoldings (q.apply fill) ∧
      (q.apply fill).realizedPnl - (p.apply fill).realizedPnl = q.realizedPnl - p.realizedPnl := by
  have halike := h.alike.apply (f := fill) (g := fill) rfl
  rw [Portfolio.apply_withRealized] at halike
  refine ⟨⟨halike.cash, halike.positions, halike.avgCosts⟩, ?_⟩
  have hrealized : (p.apply fill).realizedPnl = p.realizedPnl + ((q.apply fill).realizedPnl - q.realizedPnl) :=
    halike.realizedPnl
  rw [hrealized]
  ring

/-! ### The limit among the others -/

section

variable {cfg gate : RiskConfig} {order : Order} {ctx ctx' : GateContext}

/-- The gate would accept the order under some daily-loss limit. -/
def OtherwiseOk (cfg : RiskConfig) (order : Order) (ctx : GateContext) : Prop :=
  ∃ limit, RiskGate.check .exact { cfg with maxDailyLoss := limit } order ctx = .ok ()

/-- **The limit.** An order is accepted when it meets all else, and the realized
profit is above the limit. -/
theorem check_ok_iff_limit : RiskGate.check .exact cfg order ctx = .ok () ↔
    OtherwiseOk cfg order ctx ∧ -cfg.maxDailyLoss < ctx.portfolio.realizedPnl := by
  constructor
  · intro h
    exact ⟨⟨cfg.maxDailyLoss, h⟩, (RiskGate.check_exact_ok_iff.mp h).1.dailyLoss⟩
  · rintro ⟨⟨limit, h⟩, hloss⟩
    obtain ⟨⟨hrunning, hdenied, hallowed, hslip, -⟩, price, hmark, hcap, hentry⟩ := RiskGate.check_exact_ok_iff.mp h
    refine RiskGate.check_exact_ok_iff.mpr ⟨⟨hrunning, hdenied, hallowed, hslip, hloss⟩, price, hmark, hcap,
      fun hside => ?_⟩
    obtain ⟨⟨hcash, hunrealized, hslot, hcooled⟩, hshare⟩ := hentry hside
    exact ⟨⟨hcash, hunrealized, hslot, hcooled⟩, hshare⟩

/-- What else is asked does not depend on the realized profit. -/
theorem OtherwiseOk.of_withRealized {r : ℚ}
    (h : OtherwiseOk cfg order { ctx with portfolio := ctx.portfolio.withRealized r }) : OtherwiseOk cfg order ctx := by
  obtain ⟨limit, h⟩ := h
  obtain ⟨⟨hrunning, hdenied, hallowed, hslip, -⟩, price, hmark, hcap, hentry⟩ := RiskGate.check_exact_ok_iff.mp h
  refine ⟨1 - ctx.portfolio.realizedPnl, RiskGate.check_exact_ok_iff.mpr
    ⟨⟨hrunning, hdenied, hallowed, hslip, ?_⟩, price, hmark, hcap, fun hside => ?_⟩⟩
  · show -(1 - ctx.portfolio.realizedPnl) < ctx.portfolio.realizedPnl
    linarith
  · obtain ⟨⟨hcash, hunrealized, hslot, hcooled⟩, hshare⟩ := hentry hside
    exact ⟨⟨hcash, hunrealized, hslot, hcooled⟩, hshare⟩

theorem OtherwiseOk.congr (hp : ctx.portfolio.SameHoldings ctx'.portfolio) (hprice : ctx.refPrice = ctx'.refPrice)
    (hentry : ctx.EntryAlike cfg ctx') (h : OtherwiseOk cfg order ctx) : OtherwiseOk cfg order ctx' := by
  obtain ⟨limit, h⟩ := h
  have halike : ctx.Alike { ctx' with portfolio := ctx'.portfolio.withRealized ctx.portfolio.realizedPnl } :=
    ⟨hp.alike, hprice⟩
  refine .of_withRealized ⟨limit, (check_ok_congr rfl halike fun _ => ?_).mp h⟩
  exact ⟨hentry.equity, hentry.unrealizedPnl, hentry.waited⟩

end

/-! ### Two sessions -/

/-- The order of a tick would be accepted under some daily-loss limit. -/
def OtherwiseAccepted (gate : RiskConfig) (s : RunState) (a : TickInput) : Prop :=
  ∃ order, (s.observe a.tick).order a = some order ∧ OtherwiseOk gate order ((s.observe a.tick).gateContext a)

/-- A realized profit and one apart from it by `d` are on one side of the limit. -/
def SameSide (gate : RiskConfig) (d realizedPnl : ℚ) : Prop :=
  -gate.maxDailyLoss < realizedPnl ↔ -gate.maxDailyLoss < realizedPnl + d

instance (gate : RiskConfig) (d realizedPnl : ℚ) : Decidable (SameSide gate d realizedPnl) :=
  inferInstanceAs (Decidable (_ ↔ _))

/-- The order asked for on a tick, and that order if it is accepted. -/
def TickRecord.verdict (gate : RiskConfig) (o : TickRecord) : Option Order × Option Order :=
  ((o.before.observe o.input.tick).order o.input, o.accepted gate)

/-- The orders of a session, tick by tick: which were asked for, and which of them were
accepted. -/
def verdictsIn (gate : RiskConfig) (os : List RunRecord) : List (Option Order × Option Order) :=
  (ticksOf os).map (TickRecord.verdict gate)

/-- Two loops over one feed, in the same state but for the realized profit of the
second one's ledger, which is `d` above that of the first. -/
structure Elsewhere (d : ℚ) (s t : RunState) : Prop where
  holdings : s.portfolio.SameHoldings t.portfolio
  apart : t.portfolio.realizedPnl = s.portfolio.realizedPnl + d
  exec : s.exec = t.exec
  latest : s.latest = t.latest
  prev : s.prev = t.prev
  lastOrder : s.lastOrder = t.lastOrder
  fees : DefaultFees s

section

variable {gate : RiskConfig} {d : ℚ} {s t s' t' : RunState} {a : TickInput}

theorem Elsewhere.start {p q : Portfolio} (h : p.SameHoldings q) :
    Elsewhere (q.realizedPnl - p.realizedPnl) (.start p) (.start q) :=
  ⟨h, (add_sub_cancel _ _).symm, rfl, rfl, rfl, rfl, ⟨rfl, rfl⟩⟩

theorem Elsewhere.observe (h : Elsewhere d s t) (tick : Tick) : Elsewhere d (s.observe tick) (t.observe tick) := by
  refine ⟨h.holdings, h.apart, ?_, ?_, h.prev, h.lastOrder, ⟨h.fees.spread, h.fees.fee⟩⟩
  · simp only [RunState.observe, h.exec]
  · simp only [RunState.observe, h.latest]

theorem Elsewhere.equity (h : Elsewhere d s t) : s.equity = t.equity := by
  show s.portfolio.equity (fun sym => s.latest.lookup sym) = t.portfolio.equity fun sym => t.latest.lookup sym
  rw [h.latest]
  exact h.holdings.alike.equity fun _ _ => rfl

theorem Elsewhere.order (h : Elsewhere d s t) : s.order a = t.order a := by
  have hposition : ∀ sym, s.portfolio.position sym = t.portfolio.position sym := h.holdings.alike.position
  have hcost : ∀ sym, s.portfolio.avgCost sym = t.portfolio.avgCost sym := h.holdings.avgCosts
  have hdecision : s.decision a = t.decision a := by
    simp only [RunState.decision, RunState.decisionContext, h.prev, h.equity, hposition, hcost]
  rw [RunState.order, RunState.order, hdecision, hposition, h.equity]

theorem Elsewhere.entryAlike (h : Elsewhere d s t) : (s.gateContext a).EntryAlike gate (t.gateContext a) := by
  refine ⟨h.equity, ?_, ?_⟩
  · show s.portfolio.unrealizedPnl (fun sym => s.latest.lookup sym) =
      t.portfolio.unrealizedPnl fun sym => t.latest.lookup sym
    rw [h.latest]
    exact h.holdings.alike.unrealizedPnl fun _ _ => rfl
  · simp only [GateContext.Waited, RunState.gateContext, h.lastOrder]

theorem Elsewhere.otherwiseOk (h : Elsewhere d s t) {order : Order} :
    OtherwiseOk gate order (s.gateContext a) ↔ OtherwiseOk gate order (t.gateContext a) := by
  exact ⟨OtherwiseOk.congr h.holdings rfl h.entryAlike, OtherwiseOk.congr h.holdings.symm rfl h.entryAlike.symm⟩

/-- **The orders.** They accept the same one exactly if, where it meets all else, both
ledgers are on one side of the limit. -/
theorem Elsewhere.accepted_iff (h : Elsewhere d s t) : s.accepted gate a = t.accepted gate a ↔
    (OtherwiseAccepted gate s a → SameSide gate d s.portfolio.realizedPnl) := by
  have hobserved := h.observe a.tick
  have horder := hobserved.order (a := a)
  have hleft : ∀ order, s.accepted gate a = some order ↔ (s.observe a.tick).order a = some order ∧
      OtherwiseOk gate order ((s.observe a.tick).gateContext a) ∧ -gate.maxDailyLoss < s.portfolio.realizedPnl := by
    intro order
    rw [RunState.accepted_eq_some, check_ok_iff_limit]
    rfl
  have hright : ∀ order, t.accepted gate a = some order ↔ (s.observe a.tick).order a = some order ∧
      OtherwiseOk gate order ((s.observe a.tick).gateContext a) ∧
        -gate.maxDailyLoss < s.portfolio.realizedPnl + d := by
    intro order
    rw [RunState.accepted_eq_some, check_ok_iff_limit, ← horder, ← hobserved.otherwiseOk, ← h.apart]
    rfl
  constructor
  · rintro heq ⟨order, hsome, hok⟩
    have hboth := (hleft order).symm.trans (heq ▸ hright order)
    rw [SameSide]
    simpa only [hsome, hok, true_and] using hboth
  · intro hside
    refine Option.ext fun order => ?_
    rw [hleft, hright]
    exact and_congr_right fun hsome => and_congr_right fun hok => hside ⟨order, hsome, hok⟩

/-- As long as they do, they stay apart by the same. -/
theorem Elsewhere.turned (h : Elsewhere d s t) (haccepted : s.accepted gate a = t.accepted gate a) :
    Elsewhere d (s.turned gate a) (t.turned gate a) := by
  have hfill : s.fill gate a = t.fill gate a := by
    have hfillOf : s.fillOf a = t.fillOf a := by
      funext order
      rw [RunState.fillOf, RunState.fillOf, h.exec]
    rw [RunState.fill, RunState.fill, haccepted, hfillOf]
  have hledger : (s.turned gate a).portfolio.SameHoldings (t.turned gate a).portfolio ∧
      (t.turned gate a).portfolio.realizedPnl = (s.turned gate a).portfolio.realizedPnl + d := by
    simp only [RunState.turned, RunState.booked, hfill]
    cases t.fill gate a with
    | none => exact ⟨h.holdings, h.apart⟩
    | some fill =>
      obtain ⟨hholdings, hgain⟩ := h.holdings.apply fill
      refine ⟨hholdings, ?_⟩
      show (t.portfolio.apply fill).realizedPnl = (s.portfolio.apply fill).realizedPnl + d
      have hapart := h.apart
      linarith
  refine ⟨hledger.1, hledger.2, ?_, ?_, ?_, ?_, h.fees.turned⟩
  · simp only [RunState.turned, RunState.booked, hfill, h.exec]
  · simp only [RunState.turned, RunState.booked, h.latest]
  · simp only [RunState.turned, RunState.booked, h.prev]
  · simp only [RunState.turned, RunState.booked, hfill, h.lastOrder]

/-- **One tick** of both loops. -/
theorem elsewhere_step {o q : TickRecord} (h : Elsewhere d s t)
    (hs : (Runner.system gate).step s a = some (s', o)) (ht : (Runner.system gate).step t a = some (t', q)) :
    (o.verdict gate = q.verdict gate ↔
      (OtherwiseAccepted gate o.before o.input → SameSide gate d o.before.portfolio.realizedPnl)) ∧
    (o.verdict gate = q.verdict gate → Elsewhere d s' t') := by
  have hfees : DefaultFees t := ⟨h.exec ▸ h.fees.spread, h.exec ▸ h.fees.fee⟩
  obtain ⟨events, hs'⟩ := onTick_eq h.fees gate a
  obtain ⟨events', ht'⟩ := onTick_eq hfees gate a
  obtain ⟨rfl, rfl⟩ := Prod.mk.inj (Option.some.inj (hs.symm.trans hs'))
  obtain ⟨rfl, rfl⟩ := Prod.mk.inj (Option.some.inj (ht.symm.trans ht'))
  have hasked : (s.observe a.tick).order a = (t.observe a.tick).order a := (h.observe a.tick).order
  refine ⟨?_, fun hsame => h.turned (Prod.mk.inj hsame).2⟩
  rw [← h.accepted_iff, TickRecord.verdict, TickRecord.verdict, Prod.mk.injEq]
  exact and_iff_right hasked

end

/-! ### Sessions -/

section

variable {D : Digest} {cfg : RunConfig} {store : Store} {os : List RunRecord} {w : RunWorld}

/-- The ticks of a session, at any stage of it, are those of the loop from the
snapshot in the store. -/
theorem looped_run (h : (RunStore.system D cfg).Run ⟨store, .start⟩ os w) : ∃ run,
    (Runner.system cfg.gate).exec (.start (store.loadOrNew cfg.startingCash)) (inputsOf os) =
      some (run, ticksOf os) := by
  have hinv := looped_inv h
  cases hstage : w.task.stage with
  | starting =>
    simp only [hstage, Looped] at hinv
    rw [inputsOf, hinv.1]
    exact ⟨_, rfl⟩
  | running run =>
    simp only [hstage, Looped] at hinv
    exact ⟨run, hinv.1⟩
  | ending p =>
    simp only [hstage, Looped] at hinv
    obtain ⟨run, hdone, -, -⟩ := hinv
    exact ⟨run, hdone⟩
  | draining p =>
    simp only [hstage, Looped] at hinv
    obtain ⟨run, hdone, -, -⟩ := hinv
    exact ⟨run, hdone⟩
  | returned p =>
    simp only [hstage, Looped] at hinv
    obtain ⟨run, hdone, -, -⟩ := hinv
    exact ⟨run, hdone⟩

end

/-- Two sessions over one feed, from stores whose ledgers have the same holdings. -/
structure SameFeed (D : Digest) (cfg : RunConfig) (store store' : Store) (os os' : List RunRecord) : Prop where
  holdings : (store.loadOrNew cfg.startingCash).SameHoldings (store'.loadOrNew cfg.startingCash)
  first : ∃ w, (RunStore.system D cfg).Run ⟨store, .start⟩ os w
  second : ∃ w, (RunStore.system D cfg).Run ⟨store', .start⟩ os' w
  feed : inputsOf os = inputsOf os'

/-- **The daily loss of a session.** Sessions that start from ledgers which differ in
the realized profit of earlier sessions accept and reject the same orders exactly
if on each tick with an order that meets all else, both ledgers are on one side of
the limit. -/
theorem daily_loss_of_session (D : Digest) (cfg : RunConfig) (store store' : Store) (os os' : List RunRecord)
    (h : SameFeed D cfg store store' os os') : verdictsIn cfg.gate os = verdictsIn cfg.gate os' ↔
      ∀ o ∈ ticksOf os, OtherwiseAccepted cfg.gate o.before o.input →
        SameSide cfg.gate ((store'.loadOrNew cfg.startingCash).realizedPnl -
          (store.loadOrNew cfg.startingCash).realizedPnl) o.before.portfolio.realizedPnl := by
  obtain ⟨hholdings, ⟨w, hfirst⟩, ⟨w', hsecond⟩, hfeed⟩ := h
  obtain ⟨run, hrun⟩ := looped_run hfirst
  obtain ⟨run', hrun'⟩ := looped_run hsecond
  rw [← hfeed] at hrun'
  have hticks := Lts.exec_related_iff (Q := fun o q => o.verdict cfg.gate = q.verdict cfg.gate)
    (fun _ _ _ _ _ _ _ hR hs ht => elsewhere_step hR hs ht) (.start hholdings) hrun hrun'
  rw [← hticks, verdictsIn, verdictsIn, ← List.forall₂_eq_eq_eq, List.forall₂_map_left_iff,
    List.forall₂_map_right_iff]

/-! ### A breaker that stays tripped -/

theorem accepted_of_halted {gate : RiskConfig} {s : RunState} (h : s.portfolio.realizedPnl ≤ -gate.maxDailyLoss)
    (a : TickInput) : s.accepted gate a = none := by
  refine Option.eq_none_iff_forall_ne_some.mpr fun order hsome => ?_
  obtain ⟨-, hok⟩ := RunState.accepted_eq_some.mp hsome
  exact not_lt.mpr h (check_ok_iff_limit.mp hok).2

/-- **Past losses.** A session that starts from a ledger at the limit accepts no order,
and its ledger stays as it is. -/
theorem past_loss_halts {D : Digest} {cfg : RunConfig} {store : Store} {os : List RunRecord} {w : RunWorld}
    (h : (store.loadOrNew cfg.startingCash).realizedPnl ≤ -cfg.gate.maxDailyLoss)
    (hrun : (RunStore.system D cfg).Run ⟨store, .start⟩ os w) : ∀ o ∈ ticksOf os,
      o.accepted cfg.gate = none ∧ o.after.portfolio = store.loadOrNew cfg.startingCash := by
  obtain ⟨run, hexec⟩ := looped_run hrun
  have hinv := Lts.Run.inv (P := fun os s => (DefaultFees s ∧ s.portfolio = store.loadOrNew cfg.startingCash) ∧
      ∀ o ∈ os, o.accepted cfg.gate = none ∧ o.after.portfolio = store.loadOrNew cfg.startingCash)
    ⟨⟨⟨rfl, rfl⟩, rfl⟩, fun o ho => nomatch ho⟩ (fun os s a s' o _ hi hstep => ?_) (.of_exec hexec)
  · exact hinv.2
  · obtain ⟨⟨hfees, hledger⟩, hbefore⟩ := hi
    have hnone := accepted_of_halted (hledger ▸ h) a
    have hkept : (s.turned cfg.gate a).portfolio = store.loadOrNew cfg.startingCash := by
      rw [← hledger, RunState.turned, RunState.booked, RunState.fill, hnone]
      rfl
    obtain ⟨events, hs'⟩ := onTick_eq hfees cfg.gate a
    obtain ⟨rfl, rfl⟩ := Prod.mk.inj (Option.some.inj (hstep.symm.trans hs'))
    refine ⟨⟨hfees.turned, hkept⟩, fun o ho => ?_⟩
    rcases List.mem_append.mp ho with ho | ho
    · exact hbefore o ho
    · obtain rfl := List.mem_singleton.mp ho
      exact ⟨hnone, hkept⟩

/-- A store in which earlier sessions left 1000 of cash, and have realized so much. -/
def afterSessions (realizedPnl : ℚ) : Store := ⟨[(Portfolio.new 1000).withRealized realizedPnl], [], .empty⟩

/-- The default limits, under which a session may lose 50. -/
def fiftyADay : RunConfig := ⟨.default, "run", 1000, busCapacity⟩

/-- A session that begins, and is asked for one buy. -/
def oneBuy (realizedPnl : ℚ) : Option (RunWorld × List RunRecord) :=
  (RunStore.system Sha256.digest fiftyADay).exec ⟨afterSessions realizedPnl, .start⟩
    [.load, .tick (buyTick (1 / 50) 100)]

theorem sameFeed_oneBuy {r r' : ℚ} {u u' : RunWorld × List RunRecord} (h : oneBuy r = some u)
    (h' : oneBuy r' = some u') :
    SameFeed Sha256.digest fiftyADay (afterSessions r) (afterSessions r') u.2 u'.2 := by
  refine ⟨⟨rfl, fun _ => rfl, fun _ => rfl⟩, ⟨_, .of_exec h⟩, ⟨_, .of_exec h'⟩, ?_⟩
  rw [inputsOf_exec h, inputsOf_exec h']

theorem daily_loss_of_session_smallProfit : ∃ os os', SameFeed Sha256.digest fiftyADay (afterSessions 0)
    (afterSessions 10) os os' ∧ (acceptedIn fiftyADay.gate os).map Option.isSome = [true] ∧
      verdictsIn fiftyADay.gate os = verdictsIn fiftyADay.gate os' := by
  have hexec : (oneBuy 0).map (fun r : RunWorld × List RunRecord => decide (
      (acceptedIn fiftyADay.gate r.2).map Option.isSome = [true] ∧
      ∀ o ∈ ticksOf r.2, SameSide fiftyADay.gate (10 - 0) o.before.portfolio.realizedPnl)) = some true := by
    decide +kernel
  have hexec' : (oneBuy 10).isSome = true := by decide +kernel
  obtain ⟨r, hrun, hall⟩ := Option.map_eq_some_iff.mp hexec
  obtain ⟨r', hrun'⟩ := Option.isSome_iff_exists.mp hexec'
  obtain ⟨hbuys, hsides⟩ := of_decide_eq_true hall
  refine ⟨r.2, r'.2, sameFeed_oneBuy hrun hrun', hbuys, (daily_loss_of_session Sha256.digest fiftyADay _ _ _ _
    (sameFeed_oneBuy hrun hrun')).mpr fun o ho _ => hsides o ho⟩

/-- After earlier sessions have lost 60, a session rejects what a fresh one accepts. -/
theorem past_loss_rejects : ¬ ∀ (D : Digest) (cfg : RunConfig) (store store' : Store) (os os' : List RunRecord),
    SameFeed D cfg store store' os os' → verdictsIn cfg.gate os = verdictsIn cfg.gate os' := by
  intro hclaim
  have hexec : (oneBuy (-60)).map (fun r => decide ((verdictsIn fiftyADay.gate r.2).map (fun v => v.2.isSome) =
      [false])) = some true := by
    decide +kernel
  have hexec' : (oneBuy 0).map (fun r => decide ((verdictsIn fiftyADay.gate r.2).map (fun v => v.2.isSome) =
      [true])) = some true := by
    decide +kernel
  obtain ⟨r, hrun, hrejects⟩ := Option.map_eq_some_iff.mp hexec
  obtain ⟨r', hrun', haccepts⟩ := Option.map_eq_some_iff.mp hexec'
  have hfirst := of_decide_eq_true hrejects
  have hsecond := of_decide_eq_true haccepts
  rw [hclaim _ _ _ _ _ _ (sameFeed_oneBuy hrun hrun'), hsecond] at hfirst
  cases hfirst

end Sherwood
