/-
# Where equity comes from

Each tick moves the equity the loop records in two ways only. The ledger is marked to
the tick's price: what was held of the symbol gains the change from the price last
seen (`TickRecord.gain`). And a fill costs the spread and the fee on what it trades
(`TickRecord.cost`). Cash and positions otherwise go into each other at the tick's
price, so a run finances itself: every point of its equity curve is the starting cash
with the gains and less the costs so far (`equity_curve`).

Key definitions: `TickRecord.gain`, `TickRecord.cost`.
Key theorems: `Portfolio.equity_apply`, `Portfolio.equity_reprice`, `equity_onTick`, `equity_curve`.
-/
import Sherwood.Cli.RuleRun

namespace Sherwood

/-- What the held position gains as its price moves from the last one seen. A symbol that
was not seen yet counted nothing. -/
def TickRecord.gain (o : TickRecord) : ℚ :=
  o.before.portfolio.position o.input.tick.symbol *
    (o.input.tick.price - (o.before.latest.lookup o.input.tick.symbol).getD 0)

/-- What a buy costs at the default spread and fee, for each unit of its value at the mid price. -/
def paperCost : ℚ := (1 + 10 / 10000) * (1 + 5 / 10000)

/-- The spread and the fee, for each unit of the value at the mid price. -/
def Side.rate : Side → ℚ
  | .buy => paperCost - 1
  | .sell => 1 - paperProceeds

/-- What the tick's fill costs. -/
def TickRecord.cost (o : TickRecord) : ℚ :=
  match o.fill with
  | some fill => fill.qty * o.input.tick.price * fill.side.rate
  | none => 0

theorem Side.rate_pos (side : Side) : 0 < side.rate := by
  cases side <;> norm_num [Side.rate, paperCost, paperProceeds]

namespace Portfolio

/-! ### Marking a ledger -/

theorem valueAt_eq (price : Option ℚ) (qty : ℚ) : valueAt price qty = qty * price.getD 0 := by
  cases price with
  | some px => rfl
  | none => exact (mul_zero qty).symm

/-- A fill moves equity by its cash and by what it trades, at the price of its symbol. -/
theorem equity_apply (p : Portfolio) (fill : Fill) (px : String → Option ℚ) :
    (p.apply fill).equity px = p.equity px +
      (fill.cashDelta + fill.positionDelta fill.asset.symbol * (px fill.asset.symbol).getD 0) := by
  have hpositions : (p.apply fill).positions = p.positions.insert fill.asset.symbol
      (p.position fill.asset.symbol + fill.positionDelta fill.asset.symbol) := by
    unfold Fill.positionDelta position
    cases hs : fill.side <;> simp [apply, hs, sub_eq_add_neg]
  have hbefore : (p.positions.lookup fill.asset.symbol).elim 0 (valueAt (px fill.asset.symbol)) =
      p.position fill.asset.symbol * (px fill.asset.symbol).getD 0 := by
    unfold position
    cases p.positions.lookup fill.asset.symbol with
    | some q => exact valueAt_eq _ q
    | none => exact (zero_mul _).symm
  calc (p.apply fill).equity px
      = (p.apply fill).cash + (p.apply fill).positions.total (fun sym q => valueAt (px sym) q) := rfl
    _ = p.cash + fill.cashDelta + (p.positions.total (fun sym q => valueAt (px sym) q)
          - p.position fill.asset.symbol * (px fill.asset.symbol).getD 0
          + (p.position fill.asset.symbol + fill.positionDelta fill.asset.symbol) *
              (px fill.asset.symbol).getD 0) := by
        rw [cash_apply, hpositions, Table.total_insert, hbefore, valueAt_eq]
    _ = p.cash + p.positions.total (fun sym q => valueAt (px sym) q) +
          (fill.cashDelta + fill.positionDelta fill.asset.symbol * (px fill.asset.symbol).getD 0) := by ring
    _ = _ := rfl

/-- A new price of one symbol moves equity by what is held of it. -/
theorem equity_reprice (p : Portfolio) (latest : Table String ℚ) (sym : String) (price : ℚ) :
    (p.equity fun s => (latest.insert sym price).lookup s) =
      (p.equity fun s => latest.lookup s) + p.position sym * (price - (latest.lookup sym).getD 0) := by
  set S : Finset String := insert sym p.positions.keys.toFinset
  have hS : ∀ s ∈ p.positions, s ∈ S := fun s hs => Finset.mem_insert_of_mem (by simpa [AList.mem_keys] using hs)
  have hsym : sym ∈ S := Finset.mem_insert_self sym _
  have hrest : ∀ s ∈ S.erase sym, p.position s * ((latest.insert sym price).lookup s).getD 0 =
      p.position s * (latest.lookup s).getD 0 := by
    intro s hs
    rw [AList.lookup_insert_ne (Finset.ne_of_mem_erase hs)]
  rw [equity_eq p _ hS, equity_eq p _ hS]
  show p.cash + ∑ s ∈ S, p.position s * ((latest.insert sym price).lookup s).getD 0 =
    p.cash + ∑ s ∈ S, p.position s * (latest.lookup s).getD 0 + _
  rw [← Finset.add_sum_erase S _ hsym, ← Finset.add_sum_erase S _ hsym, Finset.sum_congr rfl hrest,
    AList.lookup_insert, Option.getD_some]
  ring

end Portfolio

variable {gate : RiskConfig} {s s' : RunState} {a : TickInput} {o : TickRecord} {order : Order} {fill : Fill}

/-! ### One tick -/

theorem place_latest {s₁ : RunState} {events : List Event} {filled : Option Fill}
    (h : s.place gate a order = some (s₁, events, filled)) : s₁.latest = s.latest := by
  unfold RunState.place at h
  cases hcheck : RiskGate.check .exact gate order (s.gateContext a) with
  | panic => simp [hcheck] at h
  | err e =>
    simp only [hcheck, Option.some.injEq, Prod.mk.injEq] at h
    rw [← h.1]
  | ok u =>
    cases hexec : s.exec.execute order a.filledAt with
    | panic => simp [hcheck, hexec] at h
    | err e =>
      simp only [hcheck, hexec, Option.some.injEq, Prod.mk.injEq] at h
      rw [← h.1]
    | ok r =>
      simp only [hcheck, hexec, Option.some.injEq, Prod.mk.injEq] at h
      rw [← h.1]

theorem latest_onTick (h : s.onTick gate a = some (s', o)) :
    s'.latest = s.latest.insert a.tick.symbol a.tick.price ∧ o.equity = s'.equity := by
  unfold RunState.onTick at h
  simp only [Option.bind_eq_bind, Option.bind_eq_some_iff, Option.pure_def, Option.some.injEq, Prod.mk.injEq,
    Prod.exists] at h
  obtain ⟨s₁, placed, fill, hplace, rfl, rfl⟩ := h
  refine ⟨?_, rfl⟩
  cases horder : (s.observe a.tick).order a with
  | none =>
    simp only [horder, Option.some.injEq, Prod.mk.injEq] at hplace
    rw [← hplace.1]
    rfl
  | some order =>
    simp only [horder] at hplace
    exact place_latest hplace

theorem filled_moves (hd : DefaultFees s) (hf : Filled gate s a s' order fill) :
    fill.cashDelta + fill.positionDelta fill.asset.symbol * a.tick.price =
      -(fill.qty * a.tick.price * fill.side.rate) := by
  unfold Fill.cashDelta Fill.positionDelta Side.rate
  rw [if_pos rfl, hf.fee, hf.price, hf.qty, hf.side, hd.fee]
  cases order.side <;> simp only [PaperExecutor.execPrice, hd.spread, paperCost, paperProceeds] <;> ring

/-- **One tick.** Equity moves by the gain of what was held, less the cost of the fill. -/
theorem equity_onTick (hd : DefaultFees s) (h : s.onTick gate a = some (s', o)) :
    s'.equity = s.equity + (o.gain - o.cost) := by
  obtain ⟨hlatest, -⟩ := latest_onTick h
  have hmarked := Portfolio.equity_reprice s.portfolio s.latest a.tick.symbol a.tick.price
  obtain ⟨⟨rfl, rfl, rfl⟩, -, ⟨hnone, hp, -⟩ | ⟨order, fill, hsome, hf⟩⟩ := onTick_cases h
  · have hcost : o.cost = 0 := by
      unfold TickRecord.cost
      rw [hnone]
    unfold RunState.equity
    rw [hlatest, hp, hcost, sub_zero]
    exact hmarked
  · have hcost : o.cost = fill.qty * o.input.tick.price * fill.side.rate := by
      unfold TickRecord.cost
      rw [hsome]
    have hsym : fill.asset.symbol = o.input.tick.symbol := congrArg Asset.symbol hf.asset
    have hpx : (o.before.latest.insert o.input.tick.symbol o.input.tick.price).lookup fill.asset.symbol =
        some o.input.tick.price := by rw [hsym, AList.lookup_insert]
    have happly := Portfolio.equity_apply o.before.portfolio fill
      fun sym => (o.before.latest.insert o.input.tick.symbol o.input.tick.price).lookup sym
    simp only [hpx, Option.getD_some, filled_moves hd hf] at happly
    calc o.after.equity
        = (o.before.portfolio.apply fill).equity
            fun sym => (o.before.latest.insert o.input.tick.symbol o.input.tick.price).lookup sym := by
          unfold RunState.equity
          rw [hlatest, hf.booked]
      _ = o.before.equity + o.gain + -(fill.qty * o.input.tick.price * fill.side.rate) := by
          rw [happly, hmarked]
          rfl
      _ = o.before.equity + (o.gain - o.cost) := by
          rw [hcost]
          ring

/-- A fill costs something, and nothing else does. -/
theorem cost_onTick (h : s.onTick gate a = some (s', o)) : 0 ≤ o.cost ∧ (o.cost = 0 ↔ o.fill = none) := by
  unfold TickRecord.cost
  obtain ⟨⟨-, rfl, -⟩, -, ⟨hnone, -⟩ | ⟨order, fill, hsome, hf⟩⟩ := onTick_cases h
  · rw [hnone]
    exact ⟨le_rfl, by simp⟩
  · obtain ⟨hprice, hqty, -⟩ := size_eq_some hf.sized
    have hpos : 0 < fill.qty * o.input.tick.price * fill.side.rate :=
      mul_pos (mul_pos (hf.qty ▸ hqty) hprice) fill.side.rate_pos
    rw [hsome]
    exact ⟨hpos.le, by simp [hpos.ne']⟩

/-! ### Runs -/

/-- The gains less the costs of some ticks. -/
def netGain (os : List TickRecord) : ℚ := (os.map TickRecord.gain).sum - (os.map TickRecord.cost).sum

theorem netGain_snoc (os : List TickRecord) (o : TickRecord) :
    netGain (os ++ [o]) = netGain os + (o.gain - o.cost) := by
  simp only [netGain, List.map_append, List.map_cons, List.map_nil, List.sum_append, List.sum_singleton]
  ring

/-- What holds of the ticks of a run that started with `p`. -/
structure Accounted (p : Portfolio) (os : List TickRecord) (s : RunState) : Prop where
  fees : DefaultFees s
  equity : s.equity = p.cash + netGain os
  curve : ∀ k (hk : k < os.length), os[k].equity = p.cash + netGain (os.take (k + 1))
  cost : ∀ o ∈ os, 0 ≤ o.cost ∧ (o.cost = 0 ↔ o.fill = none)
  falls : (∀ o ∈ os, o.gain ≤ 0) → s.equity ≤ p.cash ∧ (∀ o ∈ os, s.equity ≤ o.equity) ∧
    os.Pairwise fun o o' => o'.equity ≤ o.equity

theorem accounted_start (p : Portfolio) : Accounted p [] (.start p) := by
  have hequity : (RunState.start p).equity = p.cash := by
    have hzero : (p.positions.pairs.map fun e => Portfolio.valueAt none e.2).sum = 0 :=
      List.sum_eq_zero fun x hx => by
        obtain ⟨e, -, rfl⟩ := List.mem_map.mp hx
        rfl
    show p.cash + (p.positions.pairs.map fun e => Portfolio.valueAt none e.2).sum = p.cash
    rw [hzero, add_zero]
  exact ⟨⟨rfl, rfl⟩, by simp [hequity, netGain], fun k hk => absurd hk (Nat.not_lt_zero k), by simp,
    fun _ => ⟨hequity.le, by simp, .nil⟩⟩

/-- **One tick of a run.** -/
theorem accounted_onTick {p : Portfolio} {os : List TickRecord} (hacc : Accounted p os s)
    (h : s.onTick gate a = some (s', o)) : Accounted p (os ++ [o]) s' := by
  obtain ⟨-, ⟨hspread, hfee⟩, -⟩ := onTick_cases h
  have hmove := equity_onTick hacc.fees h
  have hcost := cost_onTick h
  have hrecord := (latest_onTick h).2
  have hnow : s'.equity = p.cash + netGain (os ++ [o]) := by rw [hmove, hacc.equity, netGain_snoc, add_assoc]
  refine ⟨⟨hspread.trans hacc.fees.spread, hfee.trans hacc.fees.fee⟩, hnow, fun k hk => ?_, ?_, fun hgain => ?_⟩
  · by_cases hlast : k < os.length
    · rw [List.getElem_append_left hlast, List.take_append_of_le_length hlast]
      exact hacc.curve k hlast
    · rw [List.length_append, List.length_singleton] at hk
      obtain rfl : k = os.length := by omega
      rw [List.getElem_concat_length rfl, List.take_of_length_le (by simp), hrecord]
      exact hnow
  · exact List.forall_mem_append.mpr ⟨hacc.cost, by simpa using hcost⟩
  · obtain ⟨hbefore, hlast⟩ := List.forall_mem_append.mp hgain
    obtain ⟨hstart, hall, hpair⟩ := hacc.falls hbefore
    have hdown : s'.equity ≤ s.equity := by
      have := hlast o (List.mem_singleton_self o)
      linarith [hcost.1]
    refine ⟨hdown.trans hstart, ?_, ?_⟩
    · refine List.forall_mem_append.mpr ⟨fun o' ho' => hdown.trans (hall o' ho'), ?_⟩
      simpa using hrecord.ge
    · refine List.pairwise_append.mpr ⟨hpair, List.pairwise_singleton _ _, fun o' ho' o'' ho'' => ?_⟩
      rw [List.mem_singleton.mp ho'', hrecord]
      exact hdown.trans (hall o' ho')

/-- **The equity curve.** Each point of a run's curve is the starting cash with the gains
of what was held and less the costs of the fills so far; every fill costs something. So
where nothing held gains, the curve never rises. -/
theorem equity_curve (gate : RiskConfig) (p : Portfolio) {os : List TickRecord} {s : RunState}
    (h : (Runner.system gate).Run (.start p) os s) :
    (∀ k (hk : k < os.length), os[k].equity = p.cash + netGain (os.take (k + 1))) ∧
      (∀ o ∈ os, 0 ≤ o.cost ∧ (o.cost = 0 ↔ o.fill = none)) ∧
      ((∀ o ∈ os, o.gain ≤ 0) → os.Pairwise fun o o' => o'.equity ≤ o.equity) := by
  have hacc : Accounted p os s :=
    Lts.Run.inv (P := Accounted p) (accounted_start p) (fun _ _ _ _ _ _ ih hstep => accounted_onTick ih hstep) h
  exact ⟨hacc.curve, hacc.cost, fun hgain => (hacc.falls hgain).2.2⟩

/-- In the demo what was held lost, and the two round trips cost their spread and fees. -/
theorem equity_curve_demo : ∃ os s, (Runner.system demoLimits).Run (.start (.new 1000)) os s ∧
    (os.map fun o => o.fill.isSome).count true = 4 ∧
    ∀ k (hk : k < os.length), os[k].equity = 1000 + netGain (os.take (k + 1)) := by
  have hexec : ((Runner.system demoLimits).exec (.start (.new 1000)) (demoInputs .default)).map
      (fun r => decide ((r.2.map fun o => o.fill.isSome).count true = 4)) = some true := by
    decide +kernel
  obtain ⟨⟨s, os⟩, hrun, hfills⟩ := Option.map_eq_some_iff.mp hexec
  exact ⟨os, s, .of_exec hrun, of_decide_eq_true hfills, (equity_curve demoLimits (.new 1000) (.of_exec hrun)).1⟩

end Sherwood
