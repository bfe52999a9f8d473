/-
# The portfolio ledger

`Portfolio` of `crates/core/src/portfolio.rs`: cash, a position and an
average cost for each symbol, and the profit realized so far.
`Portfolio.apply` books a fill: it moves the position of one symbol by the
quantity filled and the cash by the fill's delta, and leaves everything else
as it was. What the sums over the whole ledger do is in
`Sherwood/Core/Ledger.lean`.

Key definitions: `Portfolio`, `Portfolio.apply`, `Portfolio.equity`.
Key theorems: `position_apply`, `avgCost_apply_of_ne`, `cash_apply`.
-/
import Mathlib.Algebra.Order.Field.Rat
import Sherwood.Core.Types
import Sherwood.Lib.Table
import Mathlib.Tactic.Ring

namespace Sherwood

/-- Cash, positions, average costs and realized profit. -/
structure Portfolio where
  cash : ℚ
  positions : Table String ℚ
  realizedPnl : ℚ
  avgCosts : Table String ℚ
  deriving DecidableEq

namespace Portfolio

/-- `Portfolio::new`. -/
def new (startingCash : ℚ) : Portfolio := ⟨startingCash, ∅, 0, ∅⟩

/-- The position in `symbol`, zero if there is none. -/
def position (p : Portfolio) (symbol : String) : ℚ := (p.positions.lookup symbol).getD 0

/-- The average entry cost of the position in `symbol`, if one is recorded. -/
def avgCost (p : Portfolio) (symbol : String) : Option ℚ := p.avgCosts.lookup symbol

/-- The non-zero positions: the iterator `positions()`. -/
def openPositions (p : Portfolio) : List (String × ℚ) := p.positions.pairs.filter fun e => e.2 ≠ 0

/-- How many symbols have a non-zero position. -/
def openPositionCount (p : Portfolio) : ℕ := p.openPositions.length

/-- What a position is worth at its price, if that is known. -/
def valueAt (price : Option ℚ) (qty : ℚ) : ℚ :=
  match price with
  | some px => qty * px
  | none => 0

/-- What a position would bring above its cost, if price and cost are known. -/
def profitAt (price cost : Option ℚ) (qty : ℚ) : ℚ :=
  match price, cost with
  | some px, some cost => qty * (px - cost)
  | _, _ => 0

/-- Mark-to-market profit of the open positions. -/
def unrealizedPnl (p : Portfolio) (priceOf : String → Option ℚ) : ℚ :=
  (p.openPositions.map fun e => profitAt (priceOf e.1) (p.avgCost e.1) e.2).sum

/-- Mark-to-market equity. -/
def equity (p : Portfolio) (priceOf : String → Option ℚ) : ℚ :=
  p.cash + (p.positions.pairs.map fun e => valueAt (priceOf e.1) e.2).sum

/-- Book a fill: cash, position, average cost, and the realized profit of the
closing part of a sell. -/
def apply (p : Portfolio) (fill : Fill) : Portfolio :=
  let sym := fill.asset.symbol
  let prevQty := (p.positions.lookup sym).getD 0
  let prevCost := (p.avgCosts.lookup sym).getD 0
  match fill.side with
  | .buy =>
    let newQty := prevQty + fill.qty
    { cash := p.cash + fill.cashDelta
      positions := p.positions.insert sym newQty
      realizedPnl := p.realizedPnl
      avgCosts :=
        if newQty ≠ 0 then
          p.avgCosts.insert sym ((prevQty * prevCost + fill.qty * fill.price) / newQty)
        else p.avgCosts }
  | .sell =>
    let closed := min fill.qty (max prevQty 0)
    let newQty := prevQty - fill.qty
    { cash := p.cash + fill.cashDelta
      positions := p.positions.insert sym newQty
      realizedPnl := p.realizedPnl + (closed * (fill.price - prevCost) - fill.fee)
      avgCosts := if newQty = 0 then p.avgCosts.erase sym else p.avgCosts }

/-! ### What a fill changes -/

theorem position_apply (p : Portfolio) (fill : Fill) (sym : String) :
    (p.apply fill).position sym = p.position sym +
      if sym = fill.asset.symbol then (match fill.side with | .buy => fill.qty | .sell => -fill.qty) else 0 := by
  by_cases h : sym = fill.asset.symbol
  · subst h
    cases hs : fill.side <;> simp [apply, position, hs, sub_eq_add_neg]
  · cases hs : fill.side <;> simp [apply, position, hs, h, AList.lookup_insert_ne]

theorem position_apply_of_ne (p : Portfolio) {fill : Fill} {sym : String} (h : sym ≠ fill.asset.symbol) :
    (p.apply fill).position sym = p.position sym := by
  rw [position_apply, if_neg h, add_zero]

theorem avgCost_apply_of_ne (p : Portfolio) {fill : Fill} {sym : String} (h : sym ≠ fill.asset.symbol) :
    (p.apply fill).avgCost sym = p.avgCost sym := by
  cases hs : fill.side <;> simp only [apply, avgCost, hs] <;> split_ifs <;>
    simp [AList.lookup_insert_ne h, AList.lookup_erase_ne h]

theorem cash_apply (p : Portfolio) (fill : Fill) : (p.apply fill).cash = p.cash + fill.cashDelta := by
  cases hs : fill.side <;> simp [apply, hs]

theorem mem_positions_apply (p : Portfolio) (fill : Fill) (sym : String) :
    sym ∈ (p.apply fill).positions ↔ sym = fill.asset.symbol ∨ sym ∈ p.positions := by
  cases hs : fill.side <;> simp [apply, hs, AList.mem_insert]

/-! ### Sums over the ledger -/

/-- A sum over the open positions, over any symbols that include them. -/
theorem sum_openPositions {M : Type} [AddCommMonoid M] (p : Portfolio) (f : String → ℚ → M)
    (h0 : ∀ sym, f sym 0 = 0) {S : Finset String} (hS : ∀ sym ∈ p.positions, sym ∈ S) :
    (p.openPositions.map fun e => f e.1 e.2).sum = ∑ sym ∈ S, f sym (p.position sym) := by
  have hfilter : ∀ l : List (String × ℚ),
      ((l.filter fun e => e.2 ≠ 0).map fun e => f e.1 e.2).sum = (l.map fun e => f e.1 e.2).sum := by
    intro l
    induction l with
    | nil => rfl
    | cons e l ih =>
      by_cases h : e.2 = 0
      · have := h0 e.1
        simp_all
      · simp_all
  rw [openPositions, hfilter]
  calc _ = ∑ sym ∈ S, (p.positions.lookup sym).elim 0 (f sym) := Table.total_eq_sum p.positions f hS
    _ = ∑ sym ∈ S, f sym (p.position sym) := Finset.sum_congr rfl fun sym _ => by
        cases h : p.positions.lookup sym <;> simp [position, h, h0]

theorem mem_openPositions (p : Portfolio) {sym : String} (h : p.position sym ≠ 0) :
    (sym, p.position sym) ∈ p.openPositions := by
  have hlookup : p.positions.lookup sym = some (p.position sym) := by
    unfold position at h ⊢
    cases hq : p.positions.lookup sym with
    | none => exact absurd (by rw [hq]; rfl) h
    | some q => rfl
  have hentry : (⟨sym, p.position sym⟩ : Sigma fun _ : String => ℚ) ∈ p.positions.entries :=
    AList.mem_lookup_iff.mp hlookup
  exact List.mem_filter.mpr ⟨List.mem_map_of_mem hentry, decide_eq_true h⟩

theorem openPositionCount_eq (p : Portfolio) {S : Finset String} (hS : ∀ sym ∈ p.positions, sym ∈ S) :
    p.openPositionCount = ∑ sym ∈ S, if p.position sym = 0 then 0 else 1 := by
  rw [← sum_openPositions p (fun _ q => if q = 0 then 0 else 1) (by simp) hS, openPositionCount,
    List.map_congr_left (g := fun _ => 1)]
  · simp
  · intro e he
    simp only [openPositions, List.mem_filter, decide_eq_true_eq] at he
    simp [he.2]

/-- A fill opens or closes the position in its own symbol at most. -/
theorem openPositionCount_apply (p : Portfolio) (fill : Fill) :
    (p.apply fill).openPositionCount + (if p.position fill.asset.symbol = 0 then 0 else 1) =
      p.openPositionCount + if (p.apply fill).position fill.asset.symbol = 0 then 0 else 1 := by
  set S := (p.apply fill).positions.keys.toFinset with hS
  have hmem : ∀ sym ∈ (p.apply fill).positions, sym ∈ S := fun sym h => by simpa [hS, AList.mem_keys] using h
  have hfill : fill.asset.symbol ∈ S := hmem _ ((mem_positions_apply p fill _).mpr (.inl rfl))
  rw [openPositionCount_eq _ hmem,
    openPositionCount_eq p fun sym h => hmem sym ((mem_positions_apply p fill sym).mpr (.inr h)),
    ← Finset.add_sum_erase S _ hfill, ← Finset.add_sum_erase S _ hfill]
  have hrest : ∀ sym ∈ S.erase fill.asset.symbol,
      (if (p.apply fill).position sym = 0 then 0 else 1) = if p.position sym = 0 then 0 else 1 := by
    intro sym h
    rw [position_apply_of_ne p (Finset.ne_of_mem_erase h)]
  rw [Finset.sum_congr rfl hrest]
  ring

end Portfolio

end Sherwood
