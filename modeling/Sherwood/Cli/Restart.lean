/-
# Stopping and resuming

A session of `run` with a store ends with a snapshot of the portfolio, and the
next one begins from it: `run_loop` of `crates/cli/src/runner.rs` loads the
ledger and starts with its maps empty. What the gate is asked with is in both:
the cash, the positions and the realized profit are in the ledger, and the
prices of the other open positions and the times of the last orders are in the
maps, which no one saves. So a session that is stopped and resumed can accept a
buy that an uninterrupted one rejects (`cooldown_forgotten`).

It accepts the same orders for as long as each buy it asks for misses nothing of
what was forgotten (`restart_transparent`): the open positions are priced again
and the cooldown from before is over. What carries it is that the uninterrupted
session has the resumed one's entries and beneath them those of the cut
(`Resumed`).

Key definitions: `RunSession`, `Restarted`, `Transparent`, `Remembered`, `Resumed`.
Key theorems: `resumed_tick`, `session_inv`, `restart_transparent`, `cooldown_forgotten`.
-/
import Sherwood.Cli.RunStore
import Sherwood.Cli.Tick

namespace Sherwood

/-! ### Sessions -/

def RunEvent.tick? : RunEvent → Option TickRecord
  | .ticked o => some o
  | _ => none

/-- The ticks of a session. -/
def ticksOf (os : List RunRecord) : List TickRecord := os.filterMap fun o => o.event.tick?

/-- What they were given. -/
def inputsOf (os : List RunRecord) : List TickInput := (ticksOf os).map TickRecord.input

/-- The order accepted on a tick. -/
def TickRecord.accepted (gate : RiskConfig) (o : TickRecord) : Option Order := o.before.accepted gate o.input

/-- The orders accepted in a session, tick by tick. -/
def acceptedIn (gate : RiskConfig) (os : List RunRecord) : List (Option Order) :=
  (ticksOf os).map (TickRecord.accepted gate)

/-- A session from a store, which has returned. -/
structure RunSession (D : Digest) (cfg : RunConfig) (store : Store) (os : List RunRecord) (w : RunWorld)
    (saved : Portfolio) : Prop where
  run : (RunStore.system D cfg).Run ⟨store, .start⟩ os w
  returned : w.task.stage = .returned saved

/-- A session over a whole feed, and two over its parts: the second one resumes from
the store that the first one left. -/
structure Restarted (D : Digest) (cfg : RunConfig) (store : Store) (whole first second : List RunRecord)
    (saved resumed : Portfolio) : Prop where
  uninterrupted : ∃ w, RunSession D cfg store whole w saved
  stopped : ∃ w p w', RunSession D cfg store first w p ∧ RunSession D cfg w.store second w' resumed
  feed : inputsOf whole = inputsOf first ++ inputsOf second

/-- The same orders are accepted on the same ticks, to the same end. -/
structure Transparent (gate : RiskConfig) (whole first second : List RunRecord) (saved resumed : Portfolio) : Prop where
  orders : acceptedIn gate whole = acceptedIn gate first ++ acceptedIn gate second
  portfolio : resumed = saved

/-- The decider depends on the asset, the price, the position and its average cost
alone. -/
def TickInput.Local (a : TickInput) : Prop :=
  ∀ ctx ctx' : DecisionContext, ctx.snapshot.asset = ctx'.snapshot.asset → ctx.snapshot.price = ctx'.snapshot.price →
    ctx.position = ctx'.position → ctx.avgCost = ctx'.avgCost → a.decide ctx = a.decide ctx'

/-! ### What is forgotten -/

/-- The state of a loop after these ticks. -/
def stateAfter (start : RunState) (os : List TickRecord) : RunState := (os.getLast?.map TickRecord.after).getD start

/-- A tick that asks for a buy which the lists and the hard stops of the gate let
through, whatever its quantity. -/
structure AsksToBuy (gate : RiskConfig) (s : RunState) (a : TickInput) : Prop where
  priced : 0 < a.tick.price
  decided : ∃ fraction reason, (s.observe a.tick).decision a = .buy fraction reason
  permitted : ∃ order : Order, order.asset = a.tick.asset ∧ order.maxSlippage = 2 / 100 ∧
    Permitted gate order ((s.observe a.tick).gateContext a)

/-- Nothing of the state `c` of the loop before the restart is missed on a tick: the
open positions that had a price have one again, and a symbol without an order
since has waited for its cooldown. -/
structure Remembered (gate : RiskConfig) (c s : RunState) (a : TickInput) : Prop where
  marks : ∀ e ∈ s.portfolio.openPositions, e.1 ∈ c.latest → e.1 ∈ (s.observe a.tick).latest
  cooled : s.lastOrder.lookup a.tick.symbol = none → 0 < gate.orderCooldownSecs →
    ∀ last ∈ c.lastOrder.lookup a.tick.symbol, gate.cooldown ≤ a.checkedAt.secondsSince last

instance (gate : RiskConfig) (c s : RunState) (a : TickInput) : Decidable (Remembered gate c s a) :=
  decidable_of_iff ((∀ e ∈ s.portfolio.openPositions, e.1 ∈ c.latest → e.1 ∈ (s.observe a.tick).latest) ∧
      (s.lastOrder.lookup a.tick.symbol = none → 0 < gate.orderCooldownSecs →
        ∀ last ∈ c.lastOrder.lookup a.tick.symbol, gate.cooldown ≤ a.checkedAt.secondsSince last))
    ⟨fun h => ⟨h.1, h.2⟩, fun h => ⟨h.marks, h.cooled⟩⟩

/-- What a resumed loop `s` and an uninterrupted one `t` keep, of which `c` is the
state at the cut. -/
structure Resumed (c s t : RunState) : Prop where
  portfolio : s.portfolio = t.portfolio
  latest : ∀ sym, t.latest.lookup sym = (s.latest.lookup sym).or (c.latest.lookup sym)
  lastOrder : ∀ sym, t.lastOrder.lookup sym = (s.lastOrder.lookup sym).or (c.lastOrder.lookup sym)
  left : DefaultFees s
  right : DefaultFees t

section

variable {gate : RiskConfig} {c s t : RunState} {a : TickInput}

theorem Resumed.start (hd : DefaultFees c) : Resumed c (.start c.portfolio) c :=
  ⟨rfl, fun _ => rfl, fun _ => rfl, ⟨rfl, rfl⟩, hd⟩

theorem Resumed.observe (h : Resumed c s t) (tick : Tick) : Resumed c (s.observe tick) (t.observe tick) :=
  ⟨h.portfolio, Table.lookup_insert_or h.latest _ _, h.lastOrder, ⟨h.left.spread, h.left.fee⟩,
    ⟨h.right.spread, h.right.fee⟩⟩

/-- A decider that depends on the ledger and the price decides alike. -/
theorem Resumed.decision (h : Resumed c s t) (hlocal : a.Local) : s.decision a = t.decision a := by
  refine hlocal _ _ rfl rfl ?_ ?_ <;> simp only [RunState.decisionContext, h.portfolio]

/-- Where the open positions are priced again, they have the same prices. -/
theorem Resumed.price (h : Resumed c s t)
    (hmarks : ∀ e ∈ s.portfolio.openPositions, e.1 ∈ c.latest → e.1 ∈ s.latest) {sym : String}
    (hopen : s.portfolio.position sym ≠ 0) : s.latest.lookup sym = t.latest.lookup sym := by
  rw [h.latest]
  cases hs : s.latest.lookup sym with
  | some px => rfl
  | none =>
    cases hc : c.latest.lookup sym with
    | none => rfl
    | some px =>
      have hmem : sym ∈ s.latest := hmarks (sym, s.portfolio.position sym)
        (Portfolio.mem_openPositions _ hopen) (AList.lookup_isSome.mp (by rw [hc]; rfl))
      rw [AList.lookup_eq_none] at hs
      exact absurd hmem hs

theorem Resumed.equity (h : Resumed c s t)
    (hmarks : ∀ e ∈ s.portfolio.openPositions, e.1 ∈ c.latest → e.1 ∈ s.latest) : s.equity = t.equity := by
  show s.portfolio.equity _ = t.portfolio.equity _
  rw [← h.portfolio]
  exact (Portfolio.Alike.refl _).equity fun sym hopen => h.price hmarks hopen

theorem Resumed.gateContext (h : Resumed c s t) (a : TickInput) : (s.gateContext a).Alike (t.gateContext a) := by
  refine ⟨?_, rfl⟩
  show s.portfolio.Alike t.portfolio
  rw [h.portfolio]
  exact .refl _

theorem Resumed.waited (h : Resumed c s t)
    (hcooled : s.lastOrder.lookup a.tick.symbol = none → 0 < gate.orderCooldownSecs →
      ∀ last ∈ c.lastOrder.lookup a.tick.symbol, gate.cooldown ≤ a.checkedAt.secondsSince last) :
    (s.gateContext a).Waited gate ↔ (t.gateContext a).Waited gate := by
  simp only [GateContext.Waited, RunState.gateContext, h.lastOrder]
  cases hs : s.lastOrder.lookup a.tick.symbol with
  | some last => rfl
  | none => exact ⟨fun _ hpos last hlast => hcooled hs hpos last hlast, fun _ _ last hlast => nomatch hlast⟩

/-- **The gate** is asked the same of a buy. -/
theorem Resumed.entryAlike (h : Resumed c s t)
    (hmarks : ∀ e ∈ s.portfolio.openPositions, e.1 ∈ c.latest → e.1 ∈ s.latest)
    (hcooled : s.lastOrder.lookup a.tick.symbol = none → 0 < gate.orderCooldownSecs →
      ∀ last ∈ c.lastOrder.lookup a.tick.symbol, gate.cooldown ≤ a.checkedAt.secondsSince last) :
    (s.gateContext a).EntryAlike gate (t.gateContext a) := by
  refine ⟨h.equity hmarks, ?_, h.waited hcooled⟩
  show s.portfolio.unrealizedPnl (fun sym => s.latest.lookup sym) =
    t.portfolio.unrealizedPnl fun sym => t.latest.lookup sym
  rw [← h.portfolio]
  exact (Portfolio.Alike.refl _).unrealizedPnl fun sym hopen => h.price hmarks hopen

/-- An order to buy that is accepted was asked for. -/
theorem AsksToBuy.of_accepted {order : Order} (h : s.accepted gate a = some order)
    (hdecided : ∃ fraction reason, (s.observe a.tick).decision a = .buy fraction reason) : AsksToBuy gate s a := by
  obtain ⟨horder, hok⟩ := RunState.accepted_eq_some.mp h
  obtain ⟨hprice, -, hasset, -, hslip, -⟩ := size_eq_some horder
  exact ⟨hprice, hdecided, order, hasset, hslip, (RiskGate.check_exact_ok_iff.mp hok).1⟩

theorem Resumed.asksToBuy (h : Resumed c s t) (hlocal : a.Local) (ht : AsksToBuy gate t a) : AsksToBuy gate s a := by
  obtain ⟨hprice, ⟨fraction, reason, hdecision⟩, order, hasset, hslip, hperm⟩ := ht
  have hobserved := h.observe a.tick
  refine ⟨hprice, ⟨fraction, reason, (hobserved.decision hlocal).trans hdecision⟩, order, hasset, hslip, ?_⟩
  exact hperm.congr rfl rfl (hobserved.gateContext a).portfolio.symm

theorem accepted_congr (horder : (s.observe a.tick).order a = (t.observe a.tick).order a)
    (hcheck : ∀ order, (s.observe a.tick).order a = some order →
      (RiskGate.check .exact gate order ((s.observe a.tick).gateContext a) = .ok () ↔
        RiskGate.check .exact gate order ((t.observe a.tick).gateContext a) = .ok ())) :
    s.accepted gate a = t.accepted gate a := by
  refine Option.ext fun order => ?_
  rw [RunState.accepted_eq_some, RunState.accepted_eq_some, ← horder]
  exact and_congr_right (hcheck order)

theorem size_of_not_buy {decision : Decision} (h : ¬ ∃ fraction reason, decision = .buy fraction reason) (asset : Asset)
    (position equity equity' price : ℚ) (now : DateTime) :
    size decision asset position equity price now = size decision asset position equity' price now := by
  cases decision with
  | buy fraction reason => exact absurd ⟨fraction, reason, rfl⟩ h
  | _ => rfl

/-- **The orders.** The resumed loop accepts the order that the uninterrupted one
does, where it misses nothing of what it asks a buy with. -/
theorem Resumed.accepted (h : Resumed c s t) (hlocal : a.Local)
    (hsafe : AsksToBuy gate s a → Remembered gate c s a) : s.accepted gate a = t.accepted gate a := by
  have hobserved := h.observe a.tick
  have hdecision := hobserved.decision hlocal
  have hposition : (s.observe a.tick).portfolio = (t.observe a.tick).portfolio := h.portfolio
  have hctx := hobserved.gateContext a
  by_cases hbuy : ∃ fraction reason, (s.observe a.tick).decision a = .buy fraction reason
  · by_cases hasks : AsksToBuy gate s a
    · obtain ⟨hmarks, hcooled⟩ := hsafe hasks
      have horder : (s.observe a.tick).order a = (t.observe a.tick).order a := by
        rw [RunState.order, RunState.order, ← hdecision, hobserved.equity hmarks, hposition]
      exact accepted_congr horder fun order _ => check_ok_congr rfl hctx fun _ => hobserved.entryAlike hmarks hcooled
    · -- neither loop accepts a buy that is not permitted
      have hleft : s.accepted gate a = none := Option.eq_none_iff_forall_ne_some.mpr fun order hsome =>
        hasks (.of_accepted hsome hbuy)
      have hright : t.accepted gate a = none := Option.eq_none_iff_forall_ne_some.mpr fun order hsome =>
        hasks (h.asksToBuy hlocal (.of_accepted hsome (hdecision ▸ hbuy)))
      rw [hleft, hright]
  · -- what is no buy is sized by the position, and meets no limit of the entry
    have horder : (s.observe a.tick).order a = (t.observe a.tick).order a := by
      rw [RunState.order, RunState.order, ← hdecision, hposition]
      exact size_of_not_buy hbuy _ _ _ _ _ _
    refine accepted_congr horder fun order hsome => check_ok_congr rfl hctx fun hside => ?_
    obtain ⟨-, -, -, -, -, ⟨fraction, reason, hd, -⟩ | ⟨_, _, -, hsell, -⟩⟩ := size_eq_some hsome
    · exact absurd ⟨fraction, reason, hd⟩ hbuy
    · rw [hsell] at hside
      cases hside

/-- **One tick** of both loops: the same order is accepted, and they stay so. -/
theorem resumed_tick (h : Resumed c s t) (hlocal : a.Local) (hsafe : AsksToBuy gate s a → Remembered gate c s a) :
    s.accepted gate a = t.accepted gate a ∧ Resumed c (s.turned gate a) (t.turned gate a) := by
  have haccepted := h.accepted hlocal hsafe
  have hfill : s.fill gate a = t.fill gate a := by
    have hfillOf : s.fillOf a = t.fillOf a := by
      funext order
      simp only [RunState.fillOf, PaperExecutor.execPrice, h.left.spread, h.left.fee, h.right.spread, h.right.fee]
    rw [RunState.fill, RunState.fill, haccepted, hfillOf]
  refine ⟨haccepted, ?_, Table.lookup_insert_or h.latest _ _, ?_, h.left.turned, h.right.turned⟩
  · show (s.fill gate a).elim s.portfolio s.portfolio.apply = (t.fill gate a).elim t.portfolio t.portfolio.apply
    rw [hfill, h.portfolio]
  · simp only [RunState.turned, RunState.booked, hfill]
    cases t.fill gate a with
    | none => exact h.lastOrder
    | some f => exact Table.lookup_insert_or h.lastOrder _ _

theorem resumed_step {s' t' : RunState} {o q : TickRecord} (h : Resumed c s t)
    (hs : (Runner.system gate).step s a = some (s', o)) (ht : (Runner.system gate).step t a = some (t', q))
    (hgood : o.input.Local ∧ (AsksToBuy gate o.before o.input → Remembered gate c o.before o.input)) :
    Resumed c s' t' ∧ o.accepted gate = q.accepted gate := by
  obtain ⟨events, hs'⟩ := onTick_eq h.left gate a
  obtain ⟨events', ht'⟩ := onTick_eq h.right gate a
  obtain ⟨rfl, rfl⟩ := Prod.mk.inj (Option.some.inj (hs.symm.trans hs'))
  obtain ⟨rfl, rfl⟩ := Prod.mk.inj (Option.some.inj (ht.symm.trans ht'))
  obtain ⟨haccepted, hresumed⟩ := resumed_tick h hgood.1 hgood.2
  exact ⟨hresumed, haccepted⟩

end

/-! ### What a session does with the store -/

section

variable {D : Digest} {cfg : RunConfig} {store : Store} {os : List RunRecord} {w w' : RunWorld}

/-- The loop of a session, as far as its stage says: it has done the ticks from the
snapshot in the store, and saved its ledger in the end. -/
def Looped (cfg : RunConfig) (store : Store) (stage : RunStage) (ticks : List TickRecord) (snapshots : List Portfolio) :
    Prop :=
  let done := fun run => (Runner.system cfg.gate).exec (.start (store.loadOrNew cfg.startingCash))
    (ticks.map TickRecord.input) = some (run, ticks)
  let saved := fun p => ∃ run, done run ∧ p = run.portfolio ∧ snapshots = store.snapshots ++ [p]
  match stage with
  | .starting => ticks = [] ∧ snapshots = store.snapshots
  | .running run => done run ∧ snapshots = store.snapshots
  | .ending p => saved p
  | .draining p => saved p
  | .returned p => saved p

theorem ticksOf_append (os : List RunRecord) (o : RunRecord) :
    ticksOf (os ++ [o]) = ticksOf os ++ o.event.tick?.toList := by
  unfold ticksOf
  rw [List.filterMap_append]
  cases h : o.event.tick? <;> simp [h]

theorem looped_step {a : RunAction} {o : RunRecord} (h : w.step D cfg a = some (w', o))
    (hi : Looped cfg store w.task.stage (ticksOf os) w.store.snapshots) :
    Looped cfg store w'.task.stage (ticksOf (os ++ [o])) w'.store.snapshots := by
  obtain ⟨⟨t', e⟩, hmove, heq⟩ := Option.map_eq_some_iff.mp h
  obtain ⟨rfl, rfl⟩ := Prod.mk.inj heq
  rw [ticksOf_append, Store.snapshots_writeAll]
  cases RunTask.run_moved hmove with
  | loaded hs =>
    simp only [hs, Looped] at hi
    obtain ⟨hticks, hsnapshots⟩ := hi
    have hload : w.store.loadOrNew cfg.startingCash = store.loadOrNew cfg.startingCash := by
      rw [Store.loadOrNew, Store.loadOrNew, Store.loadPortfolio, Store.loadPortfolio, hsnapshots]
    simp only [RunEvent.tick?, RunEvent.write?, Option.toList_none, List.append_nil, List.filterMap_nil, Looped,
      hticks, hsnapshots, hload, List.map_nil]
    exact ⟨rfl, trivial⟩
  | @ticked run run' a o hs ho htick =>
    simp only [hs, Looped] at hi
    obtain ⟨hdone, hsnapshots⟩ := hi
    obtain ⟨⟨-, hinput, -⟩, -⟩ := onTick_cases htick
    simp only [RunEvent.tick?, RunEvent.write?, Option.toList_none, Option.toList_some, List.append_nil,
      List.filterMap_nil, Looped, List.map_append, List.map_singleton, hinput]
    exact ⟨Lts.exec_snoc hdone htick, hsnapshots⟩
  | @saved run interrupted hs ho =>
    simp only [hs, Looped] at hi
    obtain ⟨hdone, hsnapshots⟩ := hi
    simp only [RunEvent.tick?, RunEvent.write?, Option.toList_none, Option.toList_some, List.append_nil, Looped,
      hsnapshots]
    exact ⟨run, hdone, rfl, rfl⟩
  | dropped hs ho =>
    simp only [hs, Looped] at hi
    simpa only [RunEvent.tick?, RunEvent.write?, Option.toList_none, List.append_nil, List.filterMap_nil, Looped]
      using hi
  | joined hs hh =>
    simp only [hs, Looped] at hi
    simpa only [RunEvent.tick?, RunEvent.write?, Option.toList_none, List.append_nil, List.filterMap_nil, Looped]
      using hi
  | _ =>
    simpa only [RunEvent.tick?, RunEvent.write?, Option.toList_none, Option.toList_some, List.append_nil,
      List.filterMap_nil, List.filterMap_cons, StoreWrite.save?] using hi

/-- A session is in step with its loop, whatever stage it is at. -/
theorem looped_inv (h : (RunStore.system D cfg).Run ⟨store, .start⟩ os w) :
    Looped cfg store w.task.stage (ticksOf os) w.store.snapshots := by
  have hstart : Looped cfg store RunTask.start.stage (ticksOf []) store.snapshots := ⟨rfl, rfl⟩
  exact Lts.Run.inv (P := fun os w => Looped cfg store w.task.stage (ticksOf os) w.store.snapshots) hstart
    (fun _ _ _ _ _ _ hi hstep => looped_step hstep hi) h

/-- **A session** turns its loop from the snapshot in the store, and leaves the
snapshot of where it has come to. -/
theorem session_inv {saved : Portfolio} (h : RunSession D cfg store os w saved) : ∃ run,
    (Runner.system cfg.gate).exec (.start (store.loadOrNew cfg.startingCash)) (inputsOf os) =
      some (run, ticksOf os) ∧ saved = run.portfolio ∧ w.store.loadPortfolio = some saved := by
  have hinv := looped_inv h.run
  simp only [h.returned, Looped] at hinv
  obtain ⟨run, hdone, hsaved, hsnapshots⟩ := hinv
  exact ⟨run, hdone, hsaved, by rw [Store.loadPortfolio, hsnapshots, List.getLast?_concat]⟩

theorem stateAfter_exec {gate : RiskConfig} : ∀ {as : List TickInput} {s s' : RunState} {ticks : List TickRecord},
    (Runner.system gate).exec s as = some (s', ticks) → stateAfter s ticks = s'
  | [], s, s', ticks, h => by
    obtain ⟨rfl, rfl⟩ := Prod.mk.inj (Option.some.inj h)
    rfl
  | a :: as, s, s', ticks, h => by
    simp only [Lts.exec, Option.bind_eq_some_iff, Option.map_eq_some_iff, Prod.mk.injEq] at h
    obtain ⟨⟨s₁, o⟩, hstep, ⟨q, ticks⟩, hexec, rfl, rfl⟩ := h
    obtain ⟨⟨-, -, hafter⟩, -⟩ := onTick_cases hstep
    have hrest := stateAfter_exec hexec
    unfold stateAfter at hrest ⊢
    rw [List.getLast?_cons]
    cases hlast : ticks.getLast? with
    | none =>
      rw [hlast] at hrest
      exact hafter.trans hrest
    | some o' =>
      rw [hlast] at hrest
      exact hrest

theorem defaultFees_exec {gate : RiskConfig} {as : List TickInput} {s s' : RunState} {ticks : List TickRecord}
    (h : (Runner.system gate).exec s as = some (s', ticks)) (hd : DefaultFees s) : DefaultFees s' := by
  refine Lts.Run.inv (P := fun _ s => DefaultFees s) hd (fun _ _ _ _ _ _ hd hstep => ?_) (.of_exec h)
  obtain ⟨-, ⟨hspread, hfee⟩, -⟩ := onTick_cases hstep
  exact ⟨hspread.trans hd.spread, hfee.trans hd.fee⟩

end

/-- **Resuming.** Two sessions over the parts of a feed accept what one over the
whole does, and end with its portfolio, if no buy that the second asks for misses
what the first one knew. -/
theorem restart_transparent (D : Digest) (cfg : RunConfig) (store : Store) (whole first second : List RunRecord)
    (saved resumed : Portfolio) (h : Restarted D cfg store whole first second saved resumed)
    (hlocal : ∀ a ∈ inputsOf whole, a.Local)
    (hsafe : ∀ o ∈ ticksOf second, AsksToBuy cfg.gate o.before o.input →
      Remembered cfg.gate (stateAfter (.start (store.loadOrNew cfg.startingCash)) (ticksOf first)) o.before o.input) :
    Transparent cfg.gate whole first second saved resumed := by
  obtain ⟨⟨w, hwhole⟩, ⟨w₁, p, w₂, hfirst, hsecond⟩, hfeed⟩ := h
  obtain ⟨u, hu, hsaved, -⟩ := session_inv hwhole
  obtain ⟨c, hc, hp, hstored⟩ := session_inv hfirst
  obtain ⟨r, hr, hresumed, -⟩ := session_inv hsecond
  rw [stateAfter_exec hc] at hsafe
  -- the uninterrupted loop comes to the cut as the first session does, and goes on
  rw [hfeed] at hu hlocal
  obtain ⟨c', ticks, ticks', hc', hu', hticks⟩ := Lts.exec_append_eq_some.mp hu
  obtain ⟨rfl, rfl⟩ := Prod.mk.inj (Option.some.inj (hc.symm.trans hc'))
  rw [Store.loadOrNew, hstored, Option.getD_some, hp] at hr
  have hstart := Resumed.start (defaultFees_exec hc ⟨rfl, rfl⟩)
  have hgood : ∀ o ∈ ticksOf second, o.input.Local ∧
      (AsksToBuy cfg.gate o.before o.input → Remembered cfg.gate c o.before o.input) := fun o ho =>
    ⟨hlocal _ (List.mem_append_right _ (List.mem_map_of_mem ho)), hsafe o ho⟩
  obtain ⟨hend, hanswers⟩ := Lts.exec_related (fun _ _ _ _ _ _ _ hR hs ht hG => resumed_step hR hs ht hG) hstart hr
    hu' hgood
  refine ⟨?_, by rw [hresumed, hsaved, hend.portfolio]⟩
  have hsame : (ticksOf second).map (TickRecord.accepted cfg.gate) = ticks'.map (TickRecord.accepted cfg.gate) :=
    List.forall₂_eq_eq_eq ▸ List.forall₂_map_left_iff.mpr (List.forall₂_map_right_iff.mpr hanswers)
  rw [acceptedIn, acceptedIn, acceptedIn, hticks, List.map_append, hsame]

/-! ### A cooldown forgotten -/

/-- The daily-loss limit is reached on no tick of a session. -/
def WithinDailyLoss (gate : RiskConfig) (os : List RunRecord) : Prop :=
  ∀ o ∈ ticksOf os, -gate.maxDailyLoss < o.before.portfolio.realizedPnl ∧
    -gate.maxDailyLoss < o.after.portfolio.realizedPnl

instance (gate : RiskConfig) (os : List RunRecord) : Decidable (WithinDailyLoss gate os) :=
  inferInstanceAs (Decidable (∀ o ∈ ticksOf os, _))

/-- What a piece of a session brings to the loop. -/
def RunAction.input? : RunAction → Option TickInput
  | .tick a => some a
  | _ => none

section

variable {D : Digest} {cfg : RunConfig}

/-- Only a tick leaves a tick, and it is of its input. -/
theorem input_of_step {w w' : RunWorld} {a : RunAction} {o : RunRecord} (h : w.step D cfg a = some (w', o)) :
    o.event.tick?.map TickRecord.input = a.input? := by
  obtain ⟨⟨t', e⟩, hmove, heq⟩ := Option.map_eq_some_iff.mp h
  obtain ⟨rfl, rfl⟩ := Prod.mk.inj heq
  cases a with
  | tick a =>
    simp only [RunTask.move, RunTask.tick] at hmove
    split at hmove
    · obtain ⟨⟨run', o⟩, htick, heq⟩ := Option.map_eq_some_iff.mp hmove
      obtain ⟨rfl, rfl⟩ := Prod.mk.inj heq
      obtain ⟨⟨-, hinput, -⟩, -⟩ := onTick_cases htick
      exact congrArg some hinput
    · cases hmove
  | recv =>
    simp only [RunTask.move, RunTask.recv] at hmove
    split at hmove
    · obtain ⟨r, -, heq⟩ := Option.map_eq_some_iff.mp hmove
      obtain ⟨rfl, rfl⟩ := Prod.mk.inj heq
      rfl
    · cases hmove
  | _ =>
    simp only [RunTask.move, RunTask.load, RunTask.publish, RunTask.persist, RunTask.finish, RunTask.drop,
      RunTask.join] at hmove
    split at hmove <;> cases hmove <;> rfl

theorem inputsOf_exec : ∀ {as : List RunAction} {w w' : RunWorld} {os : List RunRecord},
    (RunStore.system D cfg).exec w as = some (w', os) → inputsOf os = as.filterMap RunAction.input?
  | [], w, w', os, h => by
    obtain ⟨rfl, rfl⟩ := Prod.mk.inj (Option.some.inj h)
    rfl
  | a :: as, w, w', os, h => by
    simp only [Lts.exec, Option.bind_eq_some_iff, Option.map_eq_some_iff, Prod.mk.injEq, Prod.exists] at h
    obtain ⟨w₁, o, hstep, w', os, hexec, rfl, rfl⟩ := h
    have hinput := input_of_step hstep
    have hrest := inputsOf_exec hexec
    unfold inputsOf ticksOf at hrest ⊢
    cases ho : o.event.tick? with
    | none =>
      rw [ho] at hinput
      simp only [List.filterMap_cons, ho, ← hinput, Option.map_none, hrest]
    | some t =>
      rw [ho] at hinput
      simp only [List.filterMap_cons, ho, ← hinput, Option.map_some, List.map_cons, hrest]

/-- Three sessions over these pieces: one, and two of which the second resumes. -/
def restart (cfg : RunConfig) (whole first second : List RunAction) :
    Option ((RunWorld × List RunRecord) × (RunWorld × List RunRecord) × (RunWorld × List RunRecord)) := do
  let u ← (RunStore.system Sha256.digest cfg).exec ⟨.empty, .start⟩ whole
  let w ← (RunStore.system Sha256.digest cfg).exec ⟨.empty, .start⟩ first
  let r ← (RunStore.system Sha256.digest cfg).exec ⟨w.1.store, .start⟩ second
  pure (u, w, r)

theorem restarted_of_restart {whole first second : List RunAction} {u w r : RunWorld × List RunRecord}
    (h : restart cfg whole first second = some (u, w, r))
    (hreturned : u.1.task.stage.hasReturned ∧ w.1.task.stage.hasReturned ∧ r.1.task.stage.hasReturned)
    (hfeed : whole.filterMap RunAction.input? = (first ++ second).filterMap RunAction.input?) :
    inputsOf u.2 = whole.filterMap RunAction.input? ∧
      ∃ saved resumed, Restarted Sha256.digest cfg .empty u.2 w.2 r.2 saved resumed := by
  simp only [restart, Option.bind_eq_bind, Option.bind_eq_some_iff, Option.pure_def, Option.some.injEq,
    Prod.mk.injEq] at h
  obtain ⟨_, hu, _, hw, _, hr, rfl, rfl, rfl⟩ := h
  obtain ⟨saved, hsaved⟩ := RunStage.of_hasReturned hreturned.1
  obtain ⟨p, hp⟩ := RunStage.of_hasReturned hreturned.2.1
  obtain ⟨resumed, hresumed⟩ := RunStage.of_hasReturned hreturned.2.2
  refine ⟨inputsOf_exec hu, saved, resumed, ⟨_, .of_exec hu, hsaved⟩, ⟨_, p, _, ⟨.of_exec hw, hp⟩, .of_exec hr, hresumed⟩,
    ?_⟩
  rw [inputsOf_exec hu, inputsOf_exec hw, inputsOf_exec hr, hfeed, List.filterMap_append]

end

theorem tickOf_local {now : DateTime} {price : ℚ} {decision : Decision} : (tickOf now price decision).Local :=
  fun _ _ _ _ _ _ => rfl

/-- A minute of cooldown. -/
def minuteApart : RunConfig := ⟨{ RiskConfig.default with orderCooldownSecs := 60 }, "run", 1000, busCapacity⟩

/-- A fiftieth of equity is bought, so many seconds into the run. -/
def buyAfter (secs : ℕ) (h : |(secs : ℤ)| ≤ 10 ^ 13) : TickInput :=
  tickOf (.ofSecs secs h) 100 (.buy (1 / 50) "t")

/-- A tick whose order is filled, the subscriber keeping up, and one whose order is
rejected. -/
def filledTurn (a : TickInput) : List RunAction :=
  [.tick a, .publish, .publish, .recv, .persist .epoch, .recv, .persist .epoch, .persist .epoch]

def rejectedTurn (a : TickInput) : List RunAction :=
  [.tick a, .publish, .publish, .recv, .persist .epoch, .recv, .persist .epoch]

/-- A session over these turns. -/
def sessionOver (turns : List RunAction) (interrupted : Bool) : List RunAction :=
  .load :: turns ++ [.finish interrupted, .publish, .drop, .recv, .persist .epoch, .recv, .join]

/-- A buy at once in the first session, and another so long after in the second. -/
def buyTwice (secs : ℕ) (h : |(secs : ℤ)| ≤ 10 ^ 13) (again : TickInput → List RunAction) :
    Option ((RunWorld × List RunRecord) × (RunWorld × List RunRecord) × (RunWorld × List RunRecord)) :=
  let a := buyAfter 0 (by decide)
  let b := buyAfter secs h
  restart minuteApart (sessionOver (filledTurn a ++ again b) false) (sessionOver (filledTurn a) true)
    (sessionOver (filledTurn b) false)

theorem restart_transparent_afterAMinute : ∃ whole first second saved resumed,
    Restarted Sha256.digest minuteApart .empty whole first second saved resumed ∧
      (acceptedIn minuteApart.gate second).map Option.isSome = [true] ∧
      Transparent minuteApart.gate whole first second saved resumed := by
  have hexec : (buyTwice 60 (by decide) filledTurn).map (fun r => decide
      ((r.1.1.task.stage.hasReturned ∧ r.2.1.1.task.stage.hasReturned ∧ r.2.2.1.task.stage.hasReturned) ∧
        (acceptedIn minuteApart.gate r.2.2.2).map Option.isSome = [true] ∧
        ∀ o ∈ ticksOf r.2.2.2, Remembered minuteApart.gate
          (stateAfter (.start (.new 1000)) (ticksOf r.2.1.2)) o.before o.input)) = some true := by
    decide +kernel
  obtain ⟨⟨u, w, r⟩, hrun, hall⟩ := Option.map_eq_some_iff.mp hexec
  obtain ⟨hreturned, hbuys, hremembered⟩ := of_decide_eq_true hall
  obtain ⟨hinputs, saved, resumed, hrestarted⟩ := restarted_of_restart hrun hreturned rfl
  refine ⟨u.2, w.2, r.2, saved, resumed, hrestarted, hbuys, restart_transparent Sha256.digest minuteApart .empty u.2 w.2
    r.2 saved resumed hrestarted ?_ fun o ho _ => hremembered o ho⟩
  rw [hinputs]
  intro a ha
  have hticks : a ∈ [buyAfter 0 (by decide), buyAfter 60 (by decide)] := ha
  rcases List.mem_pair.mp hticks with rfl | rfl <;> exact tickOf_local

/-- The second session accepts what the uninterrupted one rejects. -/
theorem cooldown_forgotten : ¬ ∀ (D : Digest) (cfg : RunConfig) (store : Store) (whole first second : List RunRecord)
    (saved resumed : Portfolio), Restarted D cfg store whole first second saved resumed →
      (∀ a ∈ inputsOf whole, a.Local) →
      (WithinDailyLoss cfg.gate whole ∧ WithinDailyLoss cfg.gate first ∧ WithinDailyLoss cfg.gate second) →
      Transparent cfg.gate whole first second saved resumed := by
  intro hclaim
  have hexec : (buyTwice 10 (by decide) rejectedTurn).map (fun r => decide
      ((r.1.1.task.stage.hasReturned ∧ r.2.1.1.task.stage.hasReturned ∧ r.2.2.1.task.stage.hasReturned) ∧
        (WithinDailyLoss minuteApart.gate r.1.2 ∧ WithinDailyLoss minuteApart.gate r.2.1.2 ∧
          WithinDailyLoss minuteApart.gate r.2.2.2) ∧
        (acceptedIn minuteApart.gate r.1.2).map Option.isSome = [true, false] ∧
        (acceptedIn minuteApart.gate r.2.1.2 ++ acceptedIn minuteApart.gate r.2.2.2).map Option.isSome = [true, true])) =
          some true := by
    decide +kernel
  obtain ⟨⟨u, w, r⟩, hrun, hall⟩ := Option.map_eq_some_iff.mp hexec
  obtain ⟨hreturned, hloss, hwhole, hparts⟩ := of_decide_eq_true hall
  obtain ⟨hinputs, saved, resumed, hrestarted⟩ := restarted_of_restart hrun hreturned rfl
  have hlocal : ∀ a ∈ inputsOf u.2, a.Local := by
    rw [hinputs]
    intro a ha
    have hticks : a ∈ [buyAfter 0 (by decide), buyAfter 10 (by decide)] := ha
    rcases List.mem_pair.mp hticks with rfl | rfl <;> exact tickOf_local
  have htransparent := hclaim _ _ _ _ _ _ _ _ hrestarted hlocal hloss
  rw [htransparent.orders, hparts] at hwhole
  cases hwhole

end Sherwood
