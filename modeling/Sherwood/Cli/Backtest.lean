/-
# The report of a backtest

`crates/cli/src/backtest.rs`, over exact arithmetic: the fills of a run are
booked once more, into a book for each symbol that holds a quantity and what it
cost in all, fees included, and each sale closes a proportional slice of it.
The ledger keeps average costs and leaves the fees out of them, so its realized
profit is another number; but what the books have closed, with what the open
ones would bring, is what the account has made since the start
(`report_agrees`). What carries it is that the closed trades sum up to the
change of cash and the cost of the open books (`Tally`).

Key definitions: `Book.fill`, `bookFills`, `closedTradePnls`, `analyze`, `Tally`.
Key theorems: `tally_closeTrade`, `report_agrees`.
-/
import Sherwood.Core.Ledger

namespace Sherwood

/-- What a backtest records: `Recording`. -/
structure Recording where
  startingCash : ℚ
  equityCurve : List ℚ
  fills : List Fill
  finalEquity : ℚ
  realizedPnl : ℚ

/-- The summary of a backtest. -/
structure BacktestReport where
  label : String
  startingCash : ℚ
  finalEquity : ℚ
  totalReturnPct : ℚ
  maxDrawdownPct : ℚ
  fills : ℕ
  closedTrades : ℕ
  wins : ℕ
  winRatePct : ℚ
  grossProfit : ℚ
  grossLoss : ℚ
  profitFactor : Option ℚ
  expectancy : ℚ
  deriving DecidableEq

/-- The open position of a symbol, and what it cost in all. -/
structure Book where
  qty : ℚ
  cost : ℚ

/-- `Book::default`. -/
def Book.empty : Book := ⟨0, 0⟩

/-- Book a fill: the book after it, and the profit of the trade it closes. -/
def Book.fill (b : Book) (f : Fill) : Book × Option ℚ :=
  match f.side with
  | .buy => (⟨b.qty + f.qty, b.cost + (f.qty * f.price + f.fee)⟩, none)
  | .sell =>
    if b.qty ≤ 0 then (b, none)
    else
      let closed := min f.qty b.qty
      let basis := b.cost * (closed / b.qty)
      let proceeds := closed * f.price - f.fee
      (⟨b.qty - closed, b.cost - basis⟩, some (proceeds - basis))

/-- The book of a symbol, an empty one if it has none. -/
def bookOf (books : Table String Book) (sym : String) : Book := (books.lookup sym).getD .empty

/-- The books, and the profits of the trades closed so far. -/
structure Closing where
  books : Table String Book
  pnls : List ℚ

/-- One turn of the loop of `closed_trade_pnls`. -/
def Closing.closeTrade (acc : Closing) (f : Fill) : Closing :=
  let (b, pnl) := (bookOf acc.books f.asset.symbol).fill f
  ⟨acc.books.insert f.asset.symbol b, acc.pnls ++ pnl.toList⟩

/-- The loop. Before each turn the map may be in another order. -/
def bookFills (orders : ℕ → Table.Reorder String Book) (acc : Closing) : List Fill → Closing
  | [] => acc
  | f :: fs =>
    bookFills (fun n => orders (n + 1)) (Closing.closeTrade ⟨(orders 0).apply acc.books, acc.pnls⟩ f) fs

/-- `closed_trade_pnls`. -/
def closedTradePnls (orders : ℕ → Table.Reorder String Book) (rec : Recording) : List ℚ :=
  (bookFills orders ⟨∅, []⟩ rec.fills).pnls

/-- `max_drawdown_pct`. -/
def maxDrawdownPct (curve : List ℚ) : ℚ :=
  let next := fun (acc : ℚ × ℚ) (e : ℚ) =>
    let peak := if e > acc.1 then e else acc.1
    let worst :=
      if peak > 0 then
        let dd := (peak - e) / peak * 100
        if dd > acc.2 then dd else acc.2
      else acc.2
    (peak, worst)
  (curve.foldl next (curve.head?.getD 0, 0)).2

/-- `analyze`. -/
def analyze (orders : ℕ → Table.Reorder String Book) (label : String) (rec : Recording) : BacktestReport :=
  let pnls := closedTradePnls orders rec
  let closed := pnls.length
  let wins := (pnls.filter (· > 0)).length
  let grossProfit := (pnls.filter (· > 0)).sum
  let grossLoss := (pnls.filter (· < 0)).sum
  { label
    startingCash := rec.startingCash
    finalEquity := rec.finalEquity
    totalReturnPct :=
      if rec.startingCash > 0 then (rec.finalEquity - rec.startingCash) / rec.startingCash * 100 else 0
    maxDrawdownPct := maxDrawdownPct rec.equityCurve
    fills := rec.fills.length
    closedTrades := closed
    wins
    winRatePct := if closed > 0 then (wins : ℚ) / closed * 100 else 0
    grossProfit
    grossLoss
    profitFactor := if grossLoss < 0 then some (grossProfit / |grossLoss|) else none
    expectancy := if closed > 0 then pnls.sum / closed else 0 }

/-! ### The books and the ledger -/

@[simp] theorem bookOf_insert_self {books : Table String Book} {sym : String} {b : Book} :
    bookOf (books.insert sym b) sym = b := by
  simp [bookOf]

theorem bookOf_insert_of_ne {books : Table String Book} {sym sym' : String} {b : Book} (h : sym' ≠ sym) :
    bookOf (books.insert sym b) sym' = bookOf books sym' := by
  simp [bookOf, AList.lookup_insert_ne h]

@[simp] theorem bookOf_reorder {books : Table String Book} {order : Table.Reorder String Book} {sym : String} :
    bookOf (order.apply books) sym = bookOf books sym := by
  simp [bookOf]

/-- A sum over the books, over any symbols that include them. -/
theorem total_books {books : Table String Book} {f : String → Book → ℚ} (h0 : ∀ sym, f sym .empty = 0)
    {S : Finset String} (hS : ∀ sym ∈ books, sym ∈ S) : books.total f = ∑ sym ∈ S, f sym (bookOf books sym) := by
  rw [Table.total_eq_sum books f hS]
  refine Finset.sum_congr rfl fun sym _ => ?_
  cases h : books.lookup sym <;> simp [bookOf, h, h0]

/-- The cost of the open books. -/
def openCost (books : Table String Book) : ℚ := books.total fun _ b => b.cost

theorem openCost_insert {books : Table String Book} {sym : String} {b : Book} :
    openCost (books.insert sym b) = openCost books - (bookOf books sym).cost + b.cost := by
  unfold openCost
  rw [Table.total_insert]
  cases h : books.lookup sym <;> simp [bookOf, h, Book.empty]

theorem openCost_reorder {books : Table String Book} {order : Table.Reorder String Book} :
    openCost (order.apply books) = openCost books :=
  Table.total_congr (fun sym => order.lookup_apply books sym) _

/-- What ties the books to a ledger that started with the cash `c`. -/
structure Tally (c : ℚ) (p : Portfolio) (acc : Closing) : Prop where
  long : ∀ sym, 0 ≤ p.position sym
  qty : ∀ sym, (bookOf acc.books sym).qty = p.position sym
  flat : ∀ sym, (bookOf acc.books sym).qty = 0 → (bookOf acc.books sym).cost = 0
  balance : acc.pnls.sum = p.cash - c + openCost acc.books

section

variable {c : ℚ} {p : Portfolio} {acc : Closing} {f : Fill}

theorem tally_new (c : ℚ) : Tally c (.new c) ⟨∅, []⟩ := by
  refine ⟨(Portfolio.longOnly_new c).nonneg, fun sym => ?_, fun sym _ => ?_, ?_⟩
  · simp [bookOf, Book.empty, Portfolio.new, Portfolio.position]
  · simp [bookOf, Book.empty]
  · simp [openCost, Table.total, Table.pairs, Portfolio.new]

theorem Tally.reorder (h : Tally c p acc) (order : Table.Reorder String Book) :
    Tally c p ⟨order.apply acc.books, acc.pnls⟩ := by
  refine ⟨h.long, fun sym => ?_, fun sym hq => ?_, ?_⟩
  · rw [bookOf_reorder]
    exact h.qty sym
  · rw [bookOf_reorder] at hq ⊢
    exact h.flat sym hq
  · rw [openCost_reorder]
    exact h.balance

theorem fill_covered {b : Book} (hc : Covered p f) (h0 : 0 ≤ p.position f.asset.symbol)
    (hqty : b.qty = p.position f.asset.symbol) :
    (b.fill f).1.qty = (p.apply f).position f.asset.symbol ∧ ((b.fill f).1.qty = 0 → (b.fill f).1.cost = 0) ∧
      (b.fill f).2.toList.sum = f.cashDelta + ((b.fill f).1.cost - b.cost) := by
  have hq := hc.qty_pos
  have hpos := Portfolio.position_apply p f f.asset.symbol
  rw [if_pos rfl] at hpos
  unfold Book.fill
  cases hs : f.side with
  | buy =>
    rw [hs] at hpos
    refine ⟨by rw [hpos, hqty], fun hflat => ?_, ?_⟩
    · have hflat : b.qty + f.qty = 0 := hflat
      linarith
    · simp only [Option.toList_none, List.sum_nil, Fill.cashDelta, hs]
      ring
  | sell =>
    rw [hs] at hpos
    -- all that is sold is held, so it closes a slice of the book
    have hheld : f.qty ≤ b.qty := hqty ▸ hc.held hs
    have hopen : ¬ b.qty ≤ 0 := by linarith
    have hclosed : min f.qty b.qty = f.qty := min_eq_left hheld
    simp only [hopen, if_false, hclosed]
    refine ⟨?_, fun hflat => ?_, ?_⟩
    · rw [hpos, hqty]
      ring
    · have hall : f.qty = b.qty := by linarith
      rw [hall, div_self (by linarith : b.qty ≠ 0)]
      ring
    · simp only [Option.toList_some, List.sum_singleton, Fill.cashDelta, hs]
      ring

/-- **One fill.** It keeps the books in step with the ledger. -/
theorem tally_closeTrade (h : Tally c p acc) (hc : Covered p f) : Tally c (p.apply f) (acc.closeTrade f) := by
  obtain ⟨hqty, hflat, hpnl⟩ := fill_covered (b := bookOf acc.books f.asset.symbol) hc (h.long _) (h.qty _)
  unfold Closing.closeTrade
  refine ⟨Portfolio.position_apply_nonneg h.long hc, fun sym => ?_, fun sym => ?_, ?_⟩
  · by_cases hsym : sym = f.asset.symbol
    · rw [hsym, bookOf_insert_self]
      exact hqty
    · rw [bookOf_insert_of_ne hsym, Portfolio.position_apply_of_ne p hsym]
      exact h.qty sym
  · by_cases hsym : sym = f.asset.symbol
    · rw [hsym, bookOf_insert_self]
      exact hflat
    · rw [bookOf_insert_of_ne hsym]
      exact h.flat sym
  · simp only [List.sum_append]
    rw [h.balance, hpnl, openCost_insert, Portfolio.cash_apply]
    ring

/-- **Every fill.** -/
theorem tally_bookFills : ∀ {fills : List Fill} {orders : ℕ → Table.Reorder String Book} {p : Portfolio}
    {acc : Closing}, Tally c p acc → CoveredRun p fills → Tally c (p.applyAll fills) (bookFills orders acc fills)
  | [], _, _, _, h, _ => h
  | f :: fs, orders, p, _, h, ⟨hc, hrest⟩ => by
    have hall : Tally c ((p.apply f).applyAll fs) (bookFills (fun n => orders (n + 1)) _ fs) :=
      tally_bookFills (tally_closeTrade (h.reorder (orders 0)) hc) hrest
    exact hall

end

/-! ### The report and the ledger -/

/-- What the books would bring above their cost. -/
def openProfit (books : Table String Book) (priceOf : String → ℚ) : ℚ :=
  books.total fun sym b => b.qty * priceOf sym - b.cost

/-- The trades closed and the open books make up the change of equity. -/
theorem Tally.equity {c : ℚ} {p : Portfolio} {acc : Closing} (h : Tally c p acc) (priceOf : String → Option ℚ) :
    acc.pnls.sum + openProfit acc.books (fun sym => (priceOf sym).getD 0) = p.equity priceOf - c := by
  set S : Finset String := p.positions.keys.toFinset ∪ acc.books.keys.toFinset with hS
  have hpositions : ∀ sym ∈ p.positions, sym ∈ S := fun sym hsym =>
    Finset.mem_union_left _ (by simpa [AList.mem_keys] using hsym)
  have hbooks : ∀ sym ∈ acc.books, sym ∈ S := fun sym hsym =>
    Finset.mem_union_right _ (by simpa [AList.mem_keys] using hsym)
  have hcost : openCost acc.books = ∑ sym ∈ S, (bookOf acc.books sym).cost :=
    total_books (fun _ => rfl) hbooks
  have hprofit : openProfit acc.books (fun sym => (priceOf sym).getD 0) =
      ∑ sym ∈ S, ((bookOf acc.books sym).qty * (priceOf sym).getD 0 - (bookOf acc.books sym).cost) :=
    total_books (fun sym => by simp [Book.empty]) hbooks
  have hequity : p.equity priceOf = p.cash + ∑ sym ∈ S, (bookOf acc.books sym).qty * (priceOf sym).getD 0 := by
    rw [Portfolio.equity_eq p priceOf hpositions]
    exact congrArg (p.cash + ·) (Finset.sum_congr rfl fun sym _ => by rw [h.qty sym]; rfl)
  rw [hprofit, hequity, h.balance, hcost, Finset.sum_sub_distrib]
  ring

theorem Tally.openProfit_flat {c : ℚ} {p : Portfolio} {acc : Closing} (h : Tally c p acc)
    (hflat : ∀ sym, p.position sym = 0) (priceOf : String → ℚ) : openProfit acc.books priceOf = 0 := by
  unfold openProfit
  rw [total_books (S := acc.books.keys.toFinset) (fun sym => by simp [Book.empty])
    fun sym hsym => by simpa [AList.mem_keys] using hsym]
  refine Finset.sum_eq_zero fun sym _ => ?_
  have hqty : (bookOf acc.books sym).qty = 0 := (h.qty sym).trans (hflat sym)
  rw [hqty, h.flat sym hqty]
  ring

theorem sum_gains_losses (pnls : List ℚ) :
    (pnls.filter (· > 0)).sum + (pnls.filter (· < 0)).sum = pnls.sum := by
  induction pnls with
  | nil => simp
  | cons pnl pnls ih =>
    rcases lt_trichotomy pnl 0 with hneg | rfl | hpos
    · have hnot : ¬ pnl > 0 := not_lt.mpr hneg.le
      simp only [List.filter_cons, hnot, hneg, decide_true, decide_false, Bool.false_eq_true, if_true, if_false,
        List.sum_cons]
      linarith
    · simpa using ih
    · have hnot : ¬ pnl < 0 := not_lt.mpr hpos.le
      simp only [List.filter_cons, hnot, hpos, decide_true, decide_false, Bool.false_eq_true, if_true, if_false,
        List.sum_cons]
      linarith

theorem analyze_sums (orders : ℕ → Table.Reorder String Book) (label : String) (rec : Recording) :
    (analyze orders label rec).grossProfit + (analyze orders label rec).grossLoss =
        (closedTradePnls orders rec).sum ∧
      (analyze orders label rec).expectancy * (analyze orders label rec).closedTrades =
        (closedTradePnls orders rec).sum := by
  refine ⟨sum_gains_losses _, ?_⟩
  unfold analyze
  simp only
  cases hpnls : closedTradePnls orders rec with
  | nil => simp
  | cons pnl pnls =>
    have hclosed : (pnl :: pnls).length > 0 := Nat.succ_pos _
    have hne : ((pnl :: pnls).length : ℚ) ≠ 0 := by exact_mod_cast hclosed.ne'
    rw [if_pos hclosed, div_mul_cancel₀ _ hne]

/-- **The report.** On fills of positive quantities that sell no more than is held,
every book holds the position of the ledger, and has no cost where it holds
nothing. What the trades have closed, with what the open books would bring at
any prices, is the change of equity; so where everything is flat, the gains and
the losses are that change, and so is the expectancy of all trades. -/
theorem report_agrees (orders : ℕ → Table.Reorder String Book) (c : ℚ) (fills : List Fill)
    (hcovered : CoveredRun (.new c) fills) :
    let p := (Portfolio.new c).applyAll fills
    let acc := bookFills orders ⟨∅, []⟩ fills
    (∀ sym, (bookOf acc.books sym).qty = p.position sym) ∧
      (∀ sym, (bookOf acc.books sym).qty = 0 → (bookOf acc.books sym).cost = 0) ∧
      (∀ priceOf : String → Option ℚ,
        acc.pnls.sum + openProfit acc.books (fun sym => (priceOf sym).getD 0) = p.equity priceOf - c) ∧
      ∀ (label : String) (rec : Recording) (priceOf : String → Option ℚ), rec.startingCash = c →
        rec.fills = fills → rec.finalEquity = p.equity priceOf → (∀ sym, p.position sym = 0) →
        let r := analyze orders label rec
        r.grossProfit + r.grossLoss = r.expectancy * r.closedTrades ∧
          r.expectancy * r.closedTrades = r.finalEquity - r.startingCash := by
  intro p acc
  have h : Tally c p acc := tally_bookFills (tally_new c) hcovered
  refine ⟨h.qty, h.flat, h.equity, ?_⟩
  intro label rec priceOf hcash hfills hequity hflat r
  obtain ⟨hgross, hexpectancy⟩ := analyze_sums orders label rec
  refine ⟨hgross.trans hexpectancy.symm, hexpectancy.trans ?_⟩
  have hpnls : closedTradePnls orders rec = acc.pnls := by rw [closedTradePnls, hfills]
  calc (closedTradePnls orders rec).sum = acc.pnls.sum + openProfit acc.books (fun sym => (priceOf sym).getD 0) := by
        rw [hpnls, h.openProfit_flat hflat, add_zero]
    _ = p.equity priceOf - c := h.equity priceOf
    _ = r.finalEquity - r.startingCash := by rw [← hequity, ← hcash]; rfl

/-- The trades of two symbols, closed in full. -/
def closedTrips : List Fill := mixedTrades ++ [fillOf .sell "ROAR" 15 25 1]

/-- What is recorded of them. -/
def closedRecording : Recording := ⟨1000, [1229], closedTrips, 1229, 231⟩

theorem flat_closedTrips (sym : String) : ((Portfolio.new 1000).applyAll closedTrips).position sym = 0 := by
  by_cases hroar : sym = "ROAR"
  · rw [hroar]
    decide +kernel
  · by_cases hcash : sym = "CASH"
    · rw [hcash]
      decide +kernel
    · rw [Portfolio.position_applyAll]
      simp [closedTrips, mixedTrades, fillOf, Fill.positionDelta, Asset.ofSymbol, Portfolio.new, Portfolio.position,
        hroar, hcash]

theorem report_agrees_closedTrips :
    (analyze (fun _ => .same) "rule" closedRecording).grossProfit +
        (analyze (fun _ => .same) "rule" closedRecording).grossLoss = 229 := by
  obtain ⟨-, -, -, hreport⟩ := report_agrees (fun _ => .same) 1000 closedTrips (by decide +kernel)
  obtain ⟨hgross, hmade⟩ := hreport "rule" closedRecording (fun _ => none) rfl rfl (by decide +kernel)
    flat_closedTrips
  rw [hgross, hmade]
  show (1229 : ℚ) - 1000 = 229
  norm_num

end Sherwood
