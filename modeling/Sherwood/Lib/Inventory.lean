/-
# Average-cost accounting

An account holds cash and, of each good, a lot: how much of it there is and
what that cost. A purchase moves its price from cash into the lot's cost; a
sale takes out of the lot the average cost of what is sold and books the
difference to its price as realized profit. Fees of purchases leave the
account; fees of sales are booked against the profit. So cash and cost less
the realized profit change by the fees of purchases alone (`run_balance`),
whatever the trades and whatever the prices, and marking the goods to market
turns the cost into the unrealized profit (`marked_eq`).

Key definitions: `Lot`, `Account`, `Account.trade`, `Account.run`.
Key theorems: `Account.run_balance`, `Account.marked_eq`.
-/
import Mathlib.Algebra.BigOperators.Group.Finset.Basic
import Mathlib.Algebra.BigOperators.Ring.Finset
import Mathlib.Algebra.Field.Basic
import Mathlib.Logic.Function.Basic
import Mathlib.Tactic.Ring
import Mathlib.Tactic.LinearCombination

/-- A quantity of a good and what it cost. -/
@[ext] structure Lot (𝕜 : Type) where
  qty : 𝕜
  cost : 𝕜

/-- A purchase or a sale of `qty` of `good` at `price` each. -/
structure Trade (ι 𝕜 : Type) where
  good : ι
  sale : Bool
  qty : 𝕜
  price : 𝕜
  fee : 𝕜

/-- Cash, the lots of goods, and the profit realized so far. -/
@[ext] structure Account (ι 𝕜 : Type) where
  cash : 𝕜
  realized : 𝕜
  lot : ι → Lot 𝕜

variable {ι 𝕜 : Type} [DecidableEq ι] [Field 𝕜]

/-- What one unit of the lot cost. -/
def Lot.avg (l : Lot 𝕜) : 𝕜 := l.cost / l.qty

/-- The fee a trade takes out of the account without booking it as a loss. -/
def Trade.unbooked (t : Trade ι 𝕜) : 𝕜 := if t.sale then 0 else t.fee

namespace Account

/-- Book a trade. -/
def trade (a : Account ι 𝕜) (t : Trade ι 𝕜) : Account ι 𝕜 :=
  let l := a.lot t.good
  if t.sale then
    { cash := a.cash + (t.qty * t.price - t.fee)
      realized := a.realized + (t.qty * (t.price - l.avg) - t.fee)
      lot := Function.update a.lot t.good ⟨l.qty - t.qty, l.cost - t.qty * l.avg⟩ }
  else
    { cash := a.cash - (t.qty * t.price + t.fee)
      realized := a.realized
      lot := Function.update a.lot t.good ⟨l.qty + t.qty, l.cost + t.qty * t.price⟩ }

/-- Book a sequence of trades. -/
def run (a : Account ι 𝕜) (ts : List (Trade ι 𝕜)) : Account ι 𝕜 := ts.foldl trade a

/-- What the lots of the goods in `S` cost. -/
def invested (a : Account ι 𝕜) (S : Finset ι) : 𝕜 := ∑ i ∈ S, (a.lot i).cost

/-- Cash and the goods in `S` at the prices `px`. -/
def marked (a : Account ι 𝕜) (S : Finset ι) (px : ι → 𝕜) : 𝕜 :=
  a.cash + ∑ i ∈ S, (a.lot i).qty * px i

/-- The profit the goods in `S` would bring at the prices `px`. -/
def unrealized (a : Account ι 𝕜) (S : Finset ι) (px : ι → 𝕜) : 𝕜 :=
  ∑ i ∈ S, ((a.lot i).qty * px i - (a.lot i).cost)

/-- A sum over the lots changes by the term of the good traded. -/
theorem sum_update (f : Lot 𝕜 → 𝕜) (lot : ι → Lot 𝕜) {S : Finset ι} {i : ι} (hi : i ∈ S) (l : Lot 𝕜) :
    ∑ j ∈ S, f (Function.update lot i l j) = ∑ j ∈ S, f (lot j) - f (lot i) + f l := by
  have h : ∀ j, f (Function.update lot i l j) = Function.update (fun j => f (lot j)) i (f l) j := by
    intro j
    by_cases hj : j = i
    · subst hj; simp
    · simp [hj]
  simp only [h]
  rw [Finset.sum_update_of_mem hi, ← Finset.add_sum_erase S (fun j => f (lot j)) hi,
    Finset.sdiff_singleton_eq_erase]
  ring

/-- A trade moves value between cash, cost and realized profit; only the fee
of a purchase leaves. -/
theorem trade_balance (a : Account ι 𝕜) (t : Trade ι 𝕜) {S : Finset ι} (ht : t.good ∈ S) :
    (a.trade t).cash + (a.trade t).invested S - (a.trade t).realized =
      a.cash + a.invested S - a.realized - t.unbooked := by
  unfold trade invested Trade.unbooked
  by_cases hs : t.sale
  · simp only [hs, ↓reduceIte]
    rw [sum_update Lot.cost a.lot ht]
    ring
  · simp only [hs, Bool.false_eq_true, ↓reduceIte]
    rw [sum_update Lot.cost a.lot ht]
    ring

/-- **Conservation.** Over a run, cash and cost less the realized profit go
down by the fees of the purchases. -/
theorem run_balance {S : Finset ι} : ∀ (ts : List (Trade ι 𝕜)) (a : Account ι 𝕜),
    (∀ t ∈ ts, t.good ∈ S) →
    (a.run ts).cash + (a.run ts).invested S - (a.run ts).realized =
      a.cash + a.invested S - a.realized - (ts.map Trade.unbooked).sum
  | [], a, _ => by simp [run]
  | t :: ts, a, h => by
    have h1 := trade_balance a t (h t List.mem_cons_self)
    have h2 := run_balance ts (a.trade t) fun t' ht' => h t' (List.mem_cons_of_mem _ ht')
    simp only [run, List.foldl_cons, List.map_cons, List.sum_cons] at h2 ⊢
    linear_combination h1 + h2

omit [DecidableEq ι] in
/-- Marked to market, the lots are worth their cost and the unrealized
profit. -/
theorem marked_eq (a : Account ι 𝕜) (S : Finset ι) (px : ι → 𝕜) :
    a.marked S px = a.cash + a.invested S + a.unrealized S px := by
  simp only [marked, invested, unrealized, Finset.sum_sub_distrib]
  ring

end Account
