/-
# The ledger in any arithmetic

`Portfolio` and `Fill::cash_delta` of `crates/core/src`, with each of their operations on
`Decimal`s in an arithmetic: what does not fit panics, and `none` is a panic. Over exact
arithmetic they are the ledger of `Core.Portfolio` (`applyIn_exact`, `equityIn_exact`,
`unrealizedPnlIn_exact`), in whatever order the map of positions is iterated.

Over `rust_decimal` sums are rounded, but not what matters to a comparison: the difference of
two decimals is below zero exactly if it is so when it is rounded (`fit_sub_nonneg_iff`).

Key definitions: `Fill.cashDeltaIn`, `Portfolio.applyIn`, `Portfolio.equityIn`, `Portfolio.unrealizedPnlIn`.
Key theorems: `applyIn_exact`, `equityIn_exact`, `unrealizedPnlIn_exact`, `fit_sub_nonneg_iff`.
-/
import Sherwood.Core.Portfolio

namespace Sherwood

/-- `Fill::cash_delta`. -/
def Fill.cashDeltaIn (A : Arith) (fill : Fill) : Option ℚ := do
  let gross ← A.fit (fill.qty * fill.price)
  match fill.side with
  | .buy => (A.fit (gross + fill.fee)).map (- ·)
  | .sell => A.fit (gross - fill.fee)

namespace Portfolio

/-- One entry of the sum that `unrealized_pnl` is. -/
def addProfitIn (A : Arith) (p : Portfolio) (priceOf : String → Option ℚ) (total : ℚ) (e : String × ℚ) : Option ℚ :=
  match priceOf e.1, p.avgCost e.1 with
  | some px, some cost => do
    let margin ← A.fit (px - cost)
    let profit ← A.fit (e.2 * margin)
    A.fit (total + profit)
  | _, _ => some total

/-- `Portfolio::unrealized_pnl`, over the positions in the order that they are iterated in. -/
def unrealizedPnlIn (A : Arith) (iterate : Table.Reorder String ℚ) (p : Portfolio) (priceOf : String → Option ℚ) :
    Option ℚ :=
  ((iterate.apply p.positions).pairs.filter fun e => e.2 ≠ 0).foldlM (p.addProfitIn A priceOf) 0

/-- One entry of the sum that `equity` is. -/
def addValueIn (A : Arith) (priceOf : String → Option ℚ) (total : ℚ) (e : String × ℚ) : Option ℚ :=
  match priceOf e.1 with
  | some px => do
    let value ← A.fit (e.2 * px)
    A.fit (total + value)
  | none => some total

/-- `Portfolio::equity`, over the positions in the order that they are iterated in. -/
def equityIn (A : Arith) (iterate : Table.Reorder String ℚ) (p : Portfolio) (priceOf : String → Option ℚ) : Option ℚ :=
  (iterate.apply p.positions).pairs.foldlM (addValueIn A priceOf) p.cash

/-- The average cost after a buy. -/
def blendIn (A : Arith) (prevQty prevCost newQty : ℚ) (fill : Fill) : Option ℚ := do
  let held ← A.fit (prevQty * prevCost)
  let bought ← A.fit (fill.qty * fill.price)
  let cost ← A.fit (held + bought)
  A.fit (cost / newQty)

/-- The profit that a sell realizes. -/
def profitIn (A : Arith) (prevQty prevCost : ℚ) (fill : Fill) : Option ℚ := do
  let margin ← A.fit (fill.price - prevCost)
  let profit ← A.fit (min fill.qty (max prevQty 0) * margin)
  A.fit (profit - fill.fee)

/-- `Portfolio::apply`. -/
def applyIn (A : Arith) (p : Portfolio) (fill : Fill) : Option Portfolio := do
  let delta ← fill.cashDeltaIn A
  let cash ← A.fit (p.cash + delta)
  let sym := fill.asset.symbol
  let prevQty := (p.positions.lookup sym).getD 0
  let prevCost := (p.avgCosts.lookup sym).getD 0
  match fill.side with
  | .buy =>
    let newQty ← A.fit (prevQty + fill.qty)
    let avgCosts ← (if newQty ≠ 0 then (blendIn A prevQty prevCost newQty fill).map (p.avgCosts.insert sym ·)
      else some p.avgCosts)
    some ⟨cash, p.positions.insert sym newQty, p.realizedPnl, avgCosts⟩
  | .sell =>
    let profit ← profitIn A prevQty prevCost fill
    let realizedPnl ← A.fit (p.realizedPnl + profit)
    let newQty ← A.fit (prevQty - fill.qty)
    some ⟨cash, p.positions.insert sym newQty, realizedPnl, if newQty = 0 then p.avgCosts.erase sym else p.avgCosts⟩

/-! ### Over exact arithmetic -/

variable {A : Arith} {p p' : Portfolio} {fill : Fill} {iterate : Table.Reorder String ℚ} {priceOf : String → Option ℚ}

@[simp] theorem cashDeltaIn_exact (fill : Fill) : fill.cashDeltaIn .exact = some fill.cashDelta := by
  unfold Fill.cashDeltaIn Fill.cashDelta
  cases fill.side <;> rfl

theorem applyIn_exact (p : Portfolio) (fill : Fill) : p.applyIn .exact fill = some (p.apply fill) := by
  unfold applyIn apply
  simp only [cashDeltaIn_exact, Option.bind_eq_bind, Option.bind_some]
  cases fill.side with
  | buy =>
    simp only [Arith.exact, Option.bind_some, blendIn, Option.bind_eq_bind, Option.map_some]
    split_ifs <;> rfl
  | sell => rfl

theorem foldlM_add {α : Type} (f : α → ℚ) {step : ℚ → α → Option ℚ} (hstep : ∀ total a, step total a = some (total + f a))
    (l : List α) (total : ℚ) : l.foldlM step total = some (total + (l.map f).sum) := by
  induction l generalizing total with
  | nil => simp
  | cons a l ih =>
    rw [List.foldlM_cons, hstep, Option.bind_eq_bind, Option.bind_some, ih, List.map_cons, List.sum_cons, add_assoc]

theorem equityIn_exact (iterate : Table.Reorder String ℚ) (p : Portfolio) (priceOf : String → Option ℚ) :
    p.equityIn .exact iterate priceOf = some (p.equity priceOf) := by
  have hstep : ∀ (total : ℚ) (e : String × ℚ),
      addValueIn .exact priceOf total e = some (total + valueAt (priceOf e.1) e.2) := by
    intro total e
    unfold addValueIn valueAt
    cases priceOf e.1 with
    | none => simp
    | some px => rfl
  have hsum := Table.total_congr (fun k => iterate.lookup_apply p.positions k) fun sym qty => valueAt (priceOf sym) qty
  rw [equityIn, foldlM_add _ hstep]
  exact congrArg (fun x => some (p.cash + x)) hsum

/-- The open positions in another order have the same sums. -/
theorem sum_openPositions_reorder (f : String → ℚ → ℚ) (h0 : ∀ sym, f sym 0 = 0) :
    (((iterate.apply p.positions).pairs.filter fun e => e.2 ≠ 0).map fun e => f e.1 e.2).sum =
      (p.openPositions.map fun e => f e.1 e.2).sum := by
  obtain ⟨q, hq⟩ : ∃ q : Portfolio, q = { p with positions := iterate.apply p.positions } := ⟨_, rfl⟩
  have hposition : ∀ sym, q.position sym = p.position sym := fun sym => by rw [hq, position, iterate.lookup_apply, position]
  have hmem : ∀ sym ∈ q.positions, sym ∈ p.positions.keys.toFinset := by
    intro sym hsym
    rw [hq, ← AList.lookup_isSome, iterate.lookup_apply, AList.lookup_isSome] at hsym
    simpa [AList.mem_keys] using hsym
  have hkeys : ∀ sym ∈ p.positions, sym ∈ p.positions.keys.toFinset := fun sym hsym => by simpa [AList.mem_keys] using hsym
  have hsum := sum_openPositions q f h0 hmem
  rw [Finset.sum_congr rfl fun sym _ => by rw [hposition], ← sum_openPositions p f h0 hkeys] at hsum
  rw [← hsum, hq]
  rfl

theorem unrealizedPnlIn_exact (iterate : Table.Reorder String ℚ) (p : Portfolio) (priceOf : String → Option ℚ) :
    p.unrealizedPnlIn .exact iterate priceOf = some (p.unrealizedPnl priceOf) := by
  have hstep : ∀ (total : ℚ) (e : String × ℚ),
      p.addProfitIn .exact priceOf total e = some (total + profitAt (priceOf e.1) (p.avgCost e.1) e.2) := by
    intro total e
    unfold addProfitIn profitAt
    cases priceOf e.1 with
    | none => simp
    | some px => cases p.avgCost e.1 <;> simp [Arith.exact]
  rw [unrealizedPnlIn, foldlM_add _ hstep, zero_add, sum_openPositions_reorder fun sym qty =>
    profitAt (priceOf sym) (p.avgCost sym) qty]
  · rfl
  · intro sym
    unfold profitAt
    split <;> simp

/-! ### What is booked -/

theorem applyIn_eq_some (h : p.applyIn A fill = some p') :
    (∃ delta, fill.cashDeltaIn A = some delta ∧ A.fit (p.cash + delta) = some p'.cash) ∧
      A.fit (p.position fill.asset.symbol + match fill.side with | .buy => fill.qty | .sell => -fill.qty) =
        some (p'.position fill.asset.symbol) := by
  unfold applyIn at h
  simp only [Option.bind_eq_bind, Option.bind_eq_some_iff] at h
  obtain ⟨delta, hdelta, cash, hcash, h⟩ := h
  cases hs : fill.side with
  | buy =>
    simp only [hs, Option.bind_eq_some_iff, Option.some.injEq] at h
    obtain ⟨newQty, hqty, avgCosts, -, rfl⟩ := h
    refine ⟨⟨delta, hdelta, hcash⟩, ?_⟩
    simpa [position] using hqty
  | sell =>
    simp only [hs, Option.bind_eq_some_iff, Option.some.injEq] at h
    obtain ⟨profit, -, realizedPnl, -, newQty, hqty, rfl⟩ := h
    refine ⟨⟨delta, hdelta, hcash⟩, ?_⟩
    simpa [position, sub_eq_add_neg] using hqty

end Portfolio

/-! ### Differences of decimals -/

/-- Decimals that differ, differ in the 28th place at least. -/
theorem IsDecimal.sub_le {v w : ℚ} (hv : IsDecimal v) (hw : IsDecimal w) (hlt : v < w) : v - w ≤ -(1 / 10 ^ 28) := by
  obtain ⟨m, s, -, hs, rfl⟩ := hv
  obtain ⟨n, t, -, ht, rfl⟩ := hw
  have hpos : (0 : ℚ) < 10 ^ 28 := by positivity
  have hm := div_mul_pow_of_le (m := m) hs
  have hn := div_mul_pow_of_le (m := n) ht
  have hwhole : m * 10 ^ (28 - s) < n * 10 ^ (28 - t) := by
    have : ((m * 10 ^ (28 - s) : ℤ) : ℚ) < ((n * 10 ^ (28 - t) : ℤ) : ℚ) := by
      rw [← hm, ← hn]
      exact mul_lt_mul_of_pos_right hlt hpos
    exact_mod_cast this
  have hstep : ((m * 10 ^ (28 - s) : ℤ) : ℚ) + 1 ≤ ((n * 10 ^ (28 - t) : ℤ) : ℚ) := by exact_mod_cast hwhole
  rw [← hm, ← hn] at hstep
  rw [← neg_div, le_div_iff₀ hpos]
  linarith

/-- **Comparisons stand.** A difference of decimals is rounded to a number below zero exactly if it is below zero. -/
theorem fit_sub_nonneg_iff {v w u : ℚ} (hv : IsDecimal v) (hw : IsDecimal w) (h : Arith.dec96.fit (v - w) = some u) :
    0 ≤ u ↔ w ≤ v := by
  constructor
  · intro hu
    by_contra hlt
    have hsmall : IsDecimal (-(1 / 10 ^ 28)) := ⟨-1, 28, by decide, le_rfl, by norm_num⟩
    have hle := hsmall.fit_le (hv.sub_le hw (not_le.mp hlt)) h
    have hneg : -(1 / 10 ^ 28 : ℚ) < 0 := by norm_num
    linarith
  · intro hle
    exact fit_nonneg (sub_nonneg.mpr hle) h

end Sherwood
