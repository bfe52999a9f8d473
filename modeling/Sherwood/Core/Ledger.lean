/-
# What the ledger accounts for

On fills that sell no more than is held, `Portfolio.apply` is the average-cost
account of `Sherwood/Lib/Inventory.lean` (`account_apply`): each symbol's lot
is its position, at its position times its average cost. So cash and cost are
the starting cash and the realized profit less the fees of the buys, and
equity is that with the unrealized profit (`ledger_identity`).

A sell of more than is held closes only what is held. The rest of it, and the
buy that covers it later, realize nothing; and the average cost of the symbol
is that of no position, or of one long gone (`short_round_trip`). As long as
no sell does that, the realized profit of a flat ledger is the cash it made
and every open position has a positive average cost (`covered_ledger`).

Key definitions: `Portfolio.account`, `Covered`, `CoveredRun`, `SignedLedger`.
Key theorems: `ledger_identity`, `covered_ledger`, `short_round_trip`.
-/
import Sherwood.Core.Portfolio
import Sherwood.Lib.Inventory
import Mathlib.Tactic.FieldSimp

namespace Sherwood

/-- Book a sequence of fills. -/
def Portfolio.applyAll (p : Portfolio) (fills : List Fill) : Portfolio := fills.foldl Portfolio.apply p

/-- The fees of the buys. -/
def buyFees (fills : List Fill) : ℚ := (fills.map fun f => if f.side = .buy then f.fee else 0).sum

/-- What a fill adds to the position of a symbol. -/
def Fill.positionDelta (sym : String) (fill : Fill) : ℚ :=
  if sym = fill.asset.symbol then (match fill.side with | .buy => fill.qty | .sell => -fill.qty) else 0

/-- A fill of a positive quantity that sells no more than is held. -/
structure Covered (p : Portfolio) (fill : Fill) : Prop where
  qty_pos : 0 < fill.qty
  held : fill.side = .sell → fill.qty ≤ p.position fill.asset.symbol

/-- Every fill is covered when it is booked. -/
def CoveredRun : Portfolio → List Fill → Prop
  | _, [] => True
  | p, f :: fs => Covered p f ∧ CoveredRun (p.apply f) fs

instance (p : Portfolio) (fill : Fill) : Decidable (Covered p fill) :=
  decidable_of_iff (0 < fill.qty ∧ (fill.side = .sell → fill.qty ≤ p.position fill.asset.symbol))
    ⟨fun h => ⟨h.1, h.2⟩, fun h => ⟨h.1, h.2⟩⟩

instance decidableCoveredRun : (p : Portfolio) → (fills : List Fill) → Decidable (CoveredRun p fills)
  | _, [] => .isTrue trivial
  | p, f :: fs =>
    have := decidableCoveredRun (p.apply f) fs
    inferInstanceAs (Decidable (Covered p f ∧ CoveredRun (p.apply f) fs))

theorem CoveredRun.of_append : ∀ {p : Portfolio} (fs gs : List Fill),
    CoveredRun p (fs ++ gs) → CoveredRun p fs
  | _, [], _, _ => trivial
  | _, _ :: fs, gs, ⟨hc, hrest⟩ => ⟨hc, CoveredRun.of_append fs gs hrest⟩

/-- A ledger without shorts, whose average costs are those of its open
positions. -/
structure LongOnly (p : Portfolio) : Prop where
  nonneg : ∀ sym, 0 ≤ p.position sym
  recorded : ∀ sym, (p.avgCost sym).isSome ↔ p.position sym ≠ 0

/-- What an average-cost ledger of signed positions would satisfy: flat, it has
realized the cash it made; and at every point an average cost is recorded for
the open positions exactly, a positive one. -/
structure SignedLedger (c : ℚ) (fills : List Fill) : Prop where
  realized : (∀ sym, ((Portfolio.new c).applyAll fills).position sym = 0) →
    ((Portfolio.new c).applyAll fills).realizedPnl =
      ((Portfolio.new c).applyAll fills).cash - c + buyFees fills
  recorded : ∀ fs, fs <+: fills → ∀ sym, (((Portfolio.new c).applyAll fs).avgCost sym).isSome ↔
    ((Portfolio.new c).applyAll fs).position sym ≠ 0
  positive : ∀ fs, fs <+: fills → ∀ sym, ∀ cost ∈ ((Portfolio.new c).applyAll fs).avgCost sym, 0 < cost

namespace Portfolio

/-! ### The ledger as an account -/

/-- The account a ledger stands for. -/
def account (p : Portfolio) : Account String ℚ where
  cash := p.cash
  realized := p.realizedPnl
  lot sym := ⟨p.position sym, p.position sym * (p.avgCost sym).getD 0⟩

end Portfolio

/-- The trade a fill books. -/
def Fill.trade (f : Fill) : Trade String ℚ := ⟨f.asset.symbol, f.side = .sell, f.qty, f.price, f.fee⟩

namespace Portfolio

theorem longOnly_new (c : ℚ) : LongOnly (new c) :=
  ⟨fun sym => by simp [new, position], fun sym => by simp [new, position, avgCost]⟩

theorem position_apply_nonneg {p : Portfolio} {fill : Fill} (hp : ∀ sym, 0 ≤ p.position sym)
    (hc : Covered p fill) (sym : String) : 0 ≤ (p.apply fill).position sym := by
  rw [position_apply]
  by_cases h : sym = fill.asset.symbol
  · subst h
    rw [if_pos rfl]
    have := hp fill.asset.symbol
    cases hs : fill.side
    · have := hc.qty_pos
      linarith
    · have := hc.held hs
      linarith
  · rw [if_neg h, add_zero]
    exact hp sym

/-- The average cost after a covered fill: blended by a buy, kept by a sell
that leaves something. -/
theorem avgCost_apply {p : Portfolio} {fill : Fill} (hp : LongOnly p) (hc : Covered p fill) :
    (p.apply fill).avgCost fill.asset.symbol =
      match fill.side with
      | .buy => some ((p.position fill.asset.symbol * (p.avgCost fill.asset.symbol).getD 0 +
          fill.qty * fill.price) / (p.position fill.asset.symbol + fill.qty))
      | .sell => if p.position fill.asset.symbol = fill.qty then none else p.avgCost fill.asset.symbol := by
  have h0 := hp.nonneg fill.asset.symbol
  have hq := hc.qty_pos
  cases hs : fill.side
  · have hne : (p.positions.lookup fill.asset.symbol).getD 0 + fill.qty ≠ 0 := by
      unfold position at h0
      linarith
    simp [apply, avgCost, position, hs, hne]
  · have hiff : (p.positions.lookup fill.asset.symbol).getD 0 - fill.qty = 0 ↔
        p.position fill.asset.symbol = fill.qty := sub_eq_zero
    simp only [apply, avgCost, hs, hiff]
    split_ifs
    · exact AList.lookup_erase _ _
    · rfl

theorem longOnly_apply {p : Portfolio} {fill : Fill} (hp : LongOnly p) (hc : Covered p fill) :
    LongOnly (p.apply fill) := by
  refine ⟨position_apply_nonneg hp.nonneg hc, fun sym => ?_⟩
  by_cases h : sym = fill.asset.symbol
  · subst h
    have h0 := hp.nonneg fill.asset.symbol
    have hq := hc.qty_pos
    rw [avgCost_apply hp hc, position_apply, if_pos rfl]
    cases hs : fill.side
    · simp only [Option.isSome_some, true_iff]
      linarith
    · have hle := hc.held hs
      simp only
      split_ifs with he
      · simp [he]
      · have hne : p.position fill.asset.symbol ≠ 0 := by linarith
        have : p.position fill.asset.symbol + -fill.qty ≠ 0 := fun h => he (by linarith)
        simp [hp.recorded, hne, this]
  · rw [avgCost_apply_of_ne p h, position_apply_of_ne p h]
    exact hp.recorded sym

/-- **Refinement.** Booking a covered fill is booking its trade. -/
theorem account_apply {p : Portfolio} {fill : Fill} (hp : LongOnly p) (hc : Covered p fill) :
    (p.apply fill).account = p.account.trade fill.trade := by
  have h0 := hp.nonneg fill.asset.symbol
  have hq := hc.qty_pos
  have hlot : ∀ sym, sym ≠ fill.asset.symbol → (p.apply fill).account.lot sym = p.account.lot sym := by
    intro sym h
    simp [account, position_apply_of_ne p h, avgCost_apply_of_ne p h]
  have havg := avgCost_apply hp hc
  have hpos := position_apply p fill fill.asset.symbol
  rw [if_pos rfl] at hpos
  cases hs : fill.side
  · -- a buy: cost and cash move by the price paid
    rw [hs] at havg hpos
    have hne : p.position fill.asset.symbol + fill.qty ≠ 0 := by linarith
    refine Account.ext ?_ ?_ (funext fun sym => ?_)
    · simp [account, cash_apply, Fill.cashDelta, Account.trade, Fill.trade, hs, sub_eq_add_neg]
    · simp [account, apply, Account.trade, Fill.trade, hs]
    · by_cases h : sym = fill.asset.symbol
      · subst h
        simp only [account, havg, hpos, Account.trade, Fill.trade, hs, reduceCtorEq, decide_false,
          Bool.false_eq_true, ↓reduceIte, Function.update_self, Option.getD_some]
        rw [mul_div_cancel₀ _ hne]
      · rw [hlot sym h]
        simp [Account.trade, Fill.trade, hs, h]
  · -- a sell of what is held closes all it sells, at the average cost
    rw [hs] at havg hpos
    have hle := hc.held hs
    have hne : p.position fill.asset.symbol ≠ 0 := by linarith
    have hcost : (p.account.lot fill.asset.symbol).avg = (p.avgCost fill.asset.symbol).getD 0 := by
      simp only [Lot.avg, account]
      field_simp
    refine Account.ext ?_ ?_ (funext fun sym => ?_)
    · simp [account, cash_apply, Fill.cashDelta, Account.trade, Fill.trade, hs]
    · have hclosed : min fill.qty (max ((p.positions.lookup fill.asset.symbol).getD 0) 0) = fill.qty := by
        calc min fill.qty (max (p.position fill.asset.symbol) 0)
            = min fill.qty (p.position fill.asset.symbol) := by rw [max_eq_left h0]
          _ = fill.qty := min_eq_left hle
      simp only [Account.trade, Fill.trade, hs, decide_true, ↓reduceIte, hcost]
      simp [account, apply, hs, hclosed, avgCost]
    · by_cases h : sym = fill.asset.symbol
      · subst h
        simp only [Account.trade, Fill.trade, hs, decide_true, ↓reduceIte, Function.update_self, hcost]
        simp only [account, havg, hpos]
        by_cases he : p.position fill.asset.symbol = fill.qty
        · simp [he]
        · rw [if_neg he]
          ext <;> simp only <;> ring
      · rw [hlot sym h]
        simp [Account.trade, Fill.trade, hs, h]

/-- The ledger of a covered run is long-only and is the account of its
trades. -/
theorem run_refines : ∀ (fills : List Fill) {p : Portfolio}, LongOnly p → CoveredRun p fills →
    LongOnly (p.applyAll fills) ∧ (p.applyAll fills).account = p.account.run (fills.map Fill.trade)
  | [], _, hp, _ => ⟨hp, rfl⟩
  | f :: fs, p, hp, ⟨hc, hrest⟩ => by
    have ih := run_refines fs (longOnly_apply hp hc) hrest
    rw [account_apply hp hc] at ih
    exact ih

/-! ### The ledger's sums -/

theorem sum_cost (p : Portfolio) {S : Finset String} (hS : ∀ sym ∈ p.positions, sym ∈ S) :
    (p.openPositions.map fun e => e.2 * (p.avgCost e.1).getD 0).sum = p.account.invested S :=
  sum_openPositions p (fun sym q => q * (p.avgCost sym).getD 0) (by simp) hS

/-- Equity is the account marked to market. -/
theorem equity_eq (p : Portfolio) (px : String → Option ℚ) {S : Finset String}
    (hS : ∀ sym ∈ p.positions, sym ∈ S) : p.equity px = p.account.marked S fun sym => (px sym).getD 0 := by
  unfold equity Account.marked
  congr 1
  calc _ = ∑ sym ∈ S, (p.positions.lookup sym).elim 0 fun q => valueAt (px sym) q :=
        Table.total_eq_sum p.positions (fun sym q => valueAt (px sym) q) hS
    _ = _ := Finset.sum_congr rfl fun sym _ => by
        cases h : p.positions.lookup sym <;> cases hp : px sym <;> simp [account, position, valueAt, h, hp]

/-- The unrealized profit is the account's, where every open position has a
price and an average cost. -/
theorem unrealizedPnl_eq {p : Portfolio} (hp : LongOnly p) {px : String → Option ℚ}
    (hpx : ∀ sym, p.position sym ≠ 0 → (px sym).isSome) {S : Finset String}
    (hS : ∀ sym ∈ p.positions, sym ∈ S) :
    p.unrealizedPnl px = p.account.unrealized S fun sym => (px sym).getD 0 := by
  unfold unrealizedPnl Account.unrealized
  refine (sum_openPositions p (fun sym q => profitAt (px sym) (p.avgCost sym) q) (fun sym => ?_) hS).trans
    (Finset.sum_congr rfl fun sym _ => ?_)
  · cases px sym <;> cases p.avgCost sym <;> simp [profitAt]
  · by_cases h0 : p.position sym = 0
    · cases px sym <;> cases p.avgCost sym <;> simp [account, profitAt, h0]
    · obtain ⟨x, hx⟩ := Option.isSome_iff_exists.mp (hpx sym h0)
      obtain ⟨cost, hcost⟩ := Option.isSome_iff_exists.mp ((hp.recorded sym).mpr h0)
      simp only [account, profitAt, hx, hcost, Option.getD_some]
      ring

theorem mem_positions_applyAll : ∀ (fills : List Fill) {p : Portfolio} {sym : String},
    (sym ∈ p.positions ∨ ∃ f ∈ fills, f.asset.symbol = sym) → sym ∈ (p.applyAll fills).positions
  | [], p, sym, h => by simpa [applyAll] using h
  | f :: fs, p, sym, h => by
    refine mem_positions_applyAll fs (p := p.apply f) ?_
    rw [mem_positions_apply]
    rcases h with h | ⟨g, hg, rfl⟩
    · exact .inl (.inr h)
    · rcases List.mem_cons.mp hg with rfl | hg
      · exact .inl (.inl rfl)
      · exact .inr ⟨g, hg, rfl⟩

@[simp] theorem applyAll_append (p : Portfolio) (fs gs : List Fill) :
    p.applyAll (fs ++ gs) = (p.applyAll fs).applyAll gs := List.foldl_append

theorem cash_applyAll : ∀ (fills : List Fill) (p : Portfolio),
    (p.applyAll fills).cash = p.cash + (fills.map Fill.cashDelta).sum
  | [], p => by simp [applyAll]
  | f :: fs, p => by
    calc (p.applyAll (f :: fs)).cash = ((p.apply f).applyAll fs).cash := rfl
      _ = p.cash + f.cashDelta + (fs.map Fill.cashDelta).sum := by rw [cash_applyAll fs, cash_apply]
      _ = p.cash + ((f :: fs).map Fill.cashDelta).sum := by rw [List.map_cons, List.sum_cons, add_assoc]

theorem position_applyAll (sym : String) : ∀ (fills : List Fill) (p : Portfolio),
    (p.applyAll fills).position sym = p.position sym + (fills.map (Fill.positionDelta sym)).sum
  | [], p => by simp [applyAll]
  | f :: fs, p => by
    have hdelta : (p.apply f).position sym = p.position sym + f.positionDelta sym := position_apply p f sym
    calc (p.applyAll (f :: fs)).position sym = ((p.apply f).applyAll fs).position sym := rfl
      _ = p.position sym + f.positionDelta sym + (fs.map (Fill.positionDelta sym)).sum := by
          rw [position_applyAll sym fs, hdelta]
      _ = p.position sym + ((f :: fs).map (Fill.positionDelta sym)).sum := by
          rw [List.map_cons, List.sum_cons, add_assoc]

/-- The average costs stay positive under covered fills at positive prices. -/
theorem avgCost_applyAll_pos : ∀ (fills : List Fill) {p : Portfolio}, LongOnly p → CoveredRun p fills →
    (∀ f ∈ fills, 0 < f.price) → (∀ sym, ∀ cost ∈ p.avgCost sym, 0 < cost) →
    ∀ sym, ∀ cost ∈ (p.applyAll fills).avgCost sym, 0 < cost
  | [], _, _, _, _, hpos => hpos
  | f :: fs, p, hp, ⟨hc, hrest⟩, hprice, hpos => by
    refine avgCost_applyAll_pos fs (longOnly_apply hp hc) hrest
      (fun g hg => hprice g (List.mem_cons_of_mem _ hg)) fun sym cost hcost => ?_
    by_cases h : sym = f.asset.symbol
    · subst h
      rw [avgCost_apply hp hc] at hcost
      have h0 := hp.nonneg f.asset.symbol
      have hq := hc.qty_pos
      cases hs : f.side
      · -- the blend of a cost that is not negative and a positive price
        simp only [hs, Option.mem_some_iff] at hcost
        have hprev : 0 ≤ (p.avgCost f.asset.symbol).getD 0 := by
          cases ha : p.avgCost f.asset.symbol with
          | none => simp
          | some a => exact (hpos _ a ha).le
        have hpay : 0 < f.qty * f.price := mul_pos hq (hprice f List.mem_cons_self)
        rw [← hcost]
        exact div_pos (by nlinarith [mul_nonneg h0 hprev]) (by linarith)
      · simp only [hs] at hcost
        split_ifs at hcost
        · simp at hcost
        · exact hpos _ cost hcost
    · rw [avgCost_apply_of_ne p h] at hcost
      exact hpos sym cost hcost

theorem exists_first_uncovered : ∀ (fills : List Fill) (p : Portfolio), ¬ CoveredRun p fills →
    ∃ fs f gs, fills = fs ++ f :: gs ∧ CoveredRun p fs ∧ ¬ Covered (p.applyAll fs) f
  | [], _, h => absurd trivial h
  | f :: fs, p, h => by
    by_cases hc : Covered p f
    · obtain ⟨fs', g, gs, rfl, hfs, hg⟩ := exists_first_uncovered fs (p.apply f) fun hr => h ⟨hc, hr⟩
      exact ⟨f :: fs', g, gs, rfl, ⟨hc, hfs⟩, hg⟩
    · exact ⟨[], f, fs, rfl, trivial, hc⟩

/-- A sell of more than is held leaves a short and the old average cost. -/
theorem apply_oversell {p : Portfolio} {f : Fill} (hs : f.side = .sell)
    (h : p.position f.asset.symbol < f.qty) :
    (p.apply f).position f.asset.symbol = p.position f.asset.symbol - f.qty ∧
      (p.apply f).avgCost f.asset.symbol = p.avgCost f.asset.symbol := by
  have hne : (p.positions.lookup f.asset.symbol).getD 0 - f.qty ≠ 0 := sub_ne_zero.mpr h.ne
  refine ⟨by simp [position_apply, hs, sub_eq_add_neg], ?_⟩
  simp only [apply, avgCost, hs, if_neg hne]

/-- A buy that covers a short exactly leaves no position and the old average
cost. -/
theorem apply_cover {p : Portfolio} {f : Fill} (hs : f.side = .buy)
    (h : p.position f.asset.symbol + f.qty = 0) :
    (p.apply f).position f.asset.symbol = 0 ∧
      (p.apply f).avgCost f.asset.symbol = p.avgCost f.asset.symbol := by
  have h0 : (p.positions.lookup f.asset.symbol).getD 0 + f.qty = 0 := h
  refine ⟨by simp [position_apply, hs, h], ?_⟩
  simp only [apply, avgCost, hs, h0, ne_eq, not_true_eq_false, if_false]

end Portfolio

theorem unbooked_eq (fills : List Fill) :
    ((fills.map Fill.trade).map Trade.unbooked).sum = buyFees fills := by
  unfold buyFees
  rw [List.map_map]
  congr 1
  refine List.map_congr_left fun f _ => ?_
  cases hs : f.side <;> simp [Trade.unbooked, Fill.trade, hs]

/-! ### The accounting identity -/

open Portfolio

theorem covered_balance {c : ℚ} {fills : List Fill} (h : CoveredRun (new c) fills) {S : Finset String}
    (hS : ∀ f ∈ fills, f.asset.symbol ∈ S) :
    ((new c).applyAll fills).cash + ((new c).applyAll fills).account.invested S =
      c + ((new c).applyAll fills).realizedPnl - buyFees fills := by
  obtain ⟨-, hrun⟩ := run_refines fills (longOnly_new c) h
  have hb := Account.run_balance (S := S) (fills.map Fill.trade) (new c).account (by
    intro t ht
    obtain ⟨f, hf, rfl⟩ := List.mem_map.mp ht
    exact hS f hf)
  rw [← hrun, unbooked_eq] at hb
  have h0 : (new c).account.invested S = 0 := by simp [Account.invested, account, new, position]
  rw [h0] at hb
  simp only [account] at hb ⊢
  simp only [new] at hb ⊢
  linarith

/-- **The accounting identity.** After any covered fills from `c` of cash, cash
and the open positions at cost are `c` and the realized profit less the fees
of the buys; at any prices of the open positions, equity is that and the
unrealized profit; and an average cost is recorded for the open positions
exactly. -/
theorem ledger_identity (c : ℚ) (fills : List Fill) (h : CoveredRun (new c) fills) :
    let p := (new c).applyAll fills
    p.cash + (p.openPositions.map fun e => e.2 * (p.avgCost e.1).getD 0).sum =
        c + p.realizedPnl - buyFees fills ∧
      (∀ px : String → Option ℚ, (∀ sym, p.position sym ≠ 0 → (px sym).isSome) →
        p.equity px = c + p.realizedPnl + p.unrealizedPnl px - buyFees fills) ∧
      ∀ sym, (p.avgCost sym).isSome ↔ p.position sym ≠ 0 := by
  intro p
  obtain ⟨hlong, -⟩ := run_refines fills (longOnly_new c) h
  set S := p.positions.keys.toFinset with hSdef
  have hS : ∀ sym ∈ p.positions, sym ∈ S := fun sym hs => by simpa [hSdef, AList.mem_keys] using hs
  have hb := covered_balance h (S := S) fun f hf =>
    hS _ (mem_positions_applyAll fills (.inr ⟨f, hf, rfl⟩))
  refine ⟨?_, fun px hpx => ?_, hlong.recorded⟩
  · rw [sum_cost p hS]
    exact hb
  · rw [equity_eq p px hS, unrealizedPnl_eq hlong hpx hS, Account.marked_eq]
    have : p.account.cash + p.account.invested S = c + p.realizedPnl - buyFees fills := hb
    linarith

/-- A paper fill of an asset named by its symbol. -/
def fillOf (side : Side) (sym : String) (qty price fee : ℚ) : Fill :=
  ⟨⟨"t"⟩, .ofSymbol sym, side, qty, price, fee, .paper, .epoch⟩

/-- Two buys and a partial sell of one symbol, and a round trip in another. -/
def mixedTrades : List Fill :=
  [fillOf .buy "ROAR" 10 10 1, fillOf .buy "CASH" 1 50 0, fillOf .buy "ROAR" 10 20 1,
    fillOf .sell "CASH" 1 60 2, fillOf .sell "ROAR" 5 30 1]

theorem ledger_identity_mixedTrades :
    let p := (new 1000).applyAll mixedTrades
    p.cash + (p.openPositions.map fun e => e.2 * (p.avgCost e.1).getD 0).sum = 1000 + p.realizedPnl - 2 ∧
      p.realizedPnl = 82 := by
  have h := (ledger_identity 1000 mixedTrades (by decide +kernel)).1
  have hfees : buyFees mixedTrades = 2 := by decide +kernel
  rw [hfees] at h
  exact ⟨h, by decide +kernel⟩

/-! ### Shorts -/

/-- A run with a sell of more than is held, followed by the buy that covers
the short, leaves a flat symbol with an average cost or passed an open one
without. -/
theorem not_signedLedger_cover {c : ℚ} {fs : List Fill} {f g : Fill} (hf : f.side = .sell)
    (hover : ((new c).applyAll fs).position f.asset.symbol < f.qty) (hg : g.side = .buy)
    (hsym : g.asset.symbol = f.asset.symbol)
    (hqty : g.qty = f.qty - ((new c).applyAll fs).position f.asset.symbol) :
    ¬ SignedLedger c (fs ++ [f, g]) := by
  intro h
  have h1 := h.recorded (fs ++ [f]) ⟨[g], by simp⟩ f.asset.symbol
  have h2 := h.recorded (fs ++ [f, g]) List.prefix_rfl f.asset.symbol
  set p := (new c).applyAll fs with hp
  obtain ⟨hpos, havg⟩ := apply_oversell hf hover
  obtain ⟨hpos', havg'⟩ := apply_cover (p := p.apply f) hg (by rw [hsym, hpos, hqty]; ring)
  rw [hsym] at hpos' havg'
  have e1 : (new c).applyAll (fs ++ [f]) = p.apply f := by rw [applyAll_append]; rfl
  have e2 : (new c).applyAll (fs ++ [f, g]) = (p.apply f).apply g := by rw [applyAll_append]; rfl
  rw [e1, havg, hpos] at h1
  rw [e2, havg', havg, hpos'] at h2
  exact h2.mp (h1.mpr (by linarith)) rfl

/-- **Signed positions.** Fills at positive prices of which no sell takes more
than is held make a signed ledger. Of any other fills some beginning and one
buy more do not. -/
theorem covered_ledger (c : ℚ) (fills : List Fill) (hpos : ∀ f ∈ fills, 0 < f.qty ∧ 0 < f.price) :
    (CoveredRun (new c) fills → SignedLedger c fills) ∧
      (¬ CoveredRun (new c) fills → ∃ fs g, fs <+: fills ∧ 0 < g.qty ∧ 0 < g.price ∧
        ¬ SignedLedger c (fs ++ [g])) := by
  refine ⟨fun h => ⟨fun hflat => ?_, ?_, ?_⟩, fun h => ?_⟩
  · have hb := covered_balance h (S := (fills.map fun f => f.asset.symbol).toFinset) fun f hf => by
      simpa using ⟨f, hf, rfl⟩
    have h0 : ((new c).applyAll fills).account.invested (fills.map fun f => f.asset.symbol).toFinset = 0 :=
      Finset.sum_eq_zero fun sym _ => by simp [account, hflat sym]
    linarith
  · rintro fs ⟨gs, rfl⟩
    exact (run_refines fs (longOnly_new c) (.of_append fs gs h)).1.recorded
  · rintro fs ⟨gs, rfl⟩
    exact avgCost_applyAll_pos fs (longOnly_new c) (.of_append fs gs h)
      (fun f hf => (hpos f (List.mem_append_left _ hf)).2) (by simp [new, avgCost])
  · obtain ⟨fs, f, gs, rfl, hfs, hf⟩ := exists_first_uncovered fills (new c) h
    have hlong := (run_refines fs (longOnly_new c) hfs).1
    have hq := (hpos f (by simp)).1
    -- the first fill that is not covered is a sell, and it leaves a short
    have hs : f.side = .sell ∧ ((new c).applyAll fs).position f.asset.symbol < f.qty := by
      by_contra hn
      refine hf ⟨hq, fun hsell => ?_⟩
      by_contra hlt
      exact hn ⟨hsell, not_le.mp hlt⟩
    refine ⟨fs ++ [f],
      { f with side := .buy, qty := f.qty - ((new c).applyAll fs).position f.asset.symbol, price := 1 },
      ⟨gs, by simp⟩, sub_pos.mpr hs.2, one_pos, ?_⟩
    rw [List.append_assoc]
    exact not_signedLedger_cover hs.1 hs.2 rfl rfl rfl

theorem covered_ledger_mixedTrades : SignedLedger 1000 mixedTrades :=
  (covered_ledger 1000 mixedTrades (by decide +kernel)).1 (by decide +kernel)

/-- Sell ten short at 100, cover them at 120. -/
def shortRoundTrip : List Fill := [fillOf .sell "ROAR" 10 100 0, fillOf .buy "ROAR" 10 120 0]

/-- The round trip loses 200 and realizes nothing, so the daily-loss stop never
sees it; and the short is open without an average cost. -/
theorem short_round_trip :
    (∀ f ∈ shortRoundTrip, 0 < f.qty ∧ 0 < f.price) ∧ ¬ SignedLedger 1000 shortRoundTrip ∧
      ((new 1000).applyAll shortRoundTrip).openPositions = [] ∧
      ((new 1000).applyAll shortRoundTrip).realizedPnl = 0 ∧
      ((new 1000).applyAll shortRoundTrip).cash - 1000 + buyFees shortRoundTrip = -200 := by
  refine ⟨by decide +kernel, fun h => ?_, by decide +kernel, by decide +kernel, by decide +kernel⟩
  have hrec := h.recorded [fillOf .sell "ROAR" 10 100 0] ⟨[fillOf .buy "ROAR" 10 120 0], rfl⟩ "ROAR"
  revert hrec
  decide +kernel

end Sherwood
