/-
# The session budget

`SessionBudget` of `crates/server/src/budget.rs`: caps on the number of
orders, on their notional and on the time of a session. `tryRecord` books one
order or refuses it, and a refusal latches. What a refusal leaves alone is the
counters (`tryRecord_error`); what a booking adds is one order and its
notional, if that is not negative (`tryRecord_ok`). In exact arithmetic the
budget is a meter with the same caps, step by step (`step_meters`).

Key definitions: `BudgetCaps`, `SessionBudget`, `SessionBudget.tryRecord`, `SessionBudget.Admits`.
Key theorems: `tryRecord_ok`, `tryRecord_error`, `tryRecord_notional`, `step_meters`.
-/
import Sherwood.Decimal
import Sherwood.Lib.Meter

namespace Sherwood

/-- `std::time::Instant`, in nanoseconds. -/
abbrev Instant := ℕ

/-- The caps of a session; zero is no limit. The duration is in nanoseconds. -/
structure BudgetCaps where
  maxOrders : UInt32
  maxNotional : ℚ
  maxDuration : ℕ
  deriving DecidableEq

/-- Why the budget refuses an order. -/
inductive BudgetBreach where
  | orderCount (cap : UInt32)
  | notional (wouldBe cap : ℚ)
  | duration (elapsedSecs capSecs : ℕ)
  deriving DecidableEq

/-- `BudgetBreach`'s `Display`. -/
def BudgetBreach.text : BudgetBreach → String
  | .orderCount cap => s!"session order limit reached ({cap.toNat})"
  | .notional wouldBe cap =>
    s!"session notional limit reached ({Decimal.display wouldBe} would exceed {Decimal.display cap})"
  | .duration elapsedSecs capSecs => s!"session time limit reached ({elapsedSecs}s of {capSecs}s)"

/-- What a session has used of its caps. -/
structure SessionBudget where
  caps : BudgetCaps
  ordersUsed : UInt32
  notionalUsed : ℚ
  started : Instant
  breached : Bool
  deriving DecidableEq

namespace SessionBudget

/-- `SessionBudget::new`. -/
def new (caps : BudgetCaps) (now : Instant) : SessionBudget := ⟨caps, 0, 0, now, false⟩

/-- `started.elapsed()`, which saturates. -/
def elapsed (b : SessionBudget) (now : Instant) : ℕ := now - b.started

/-- The cap on orders is reached. -/
def OrdersSpent (b : SessionBudget) : Prop := b.caps.maxOrders > 0 ∧ b.ordersUsed ≥ b.caps.maxOrders

/-- The cap on time is reached. -/
def TimeSpent (b : SessionBudget) (now : Instant) : Prop :=
  b.caps.maxDuration ≠ 0 ∧ b.elapsed now ≥ b.caps.maxDuration

instance (b : SessionBudget) : Decidable b.OrdersSpent := inferInstanceAs (Decidable (_ ∧ _))

instance (b : SessionBudget) (now : Instant) : Decidable (b.TimeSpent now) :=
  inferInstanceAs (Decidable (_ ∧ _))

/-- The breach of too long a session, the clock being read again at `later`. -/
def durationBreach (b : SessionBudget) (later : Instant) : BudgetBreach :=
  .duration (b.elapsed later / 10 ^ 9) (b.caps.maxDuration / 10 ^ 9)

/-- `first_breach`: the cap to report. -/
def firstBreach (b : SessionBudget) (now later : Instant) : BudgetBreach :=
  if b.OrdersSpent then .orderCount b.caps.maxOrders
  else if b.TimeSpent now then b.durationBreach later
  else .notional b.notionalUsed b.caps.maxNotional

/-- `try_record`: book an order of `notional`, or refuse it. The clock is read at
`now`, and at `later` for the report. `none` is a panic of the sum, which
leaves the budget as it was. -/
def tryRecord (A : Arith) (b : SessionBudget) (notional : ℚ) (now later : Instant) :
    Option (Except BudgetBreach Unit × SessionBudget) :=
  if b.breached then some (.error (b.firstBreach now later), b)
  else if b.TimeSpent now then some (.error (b.durationBreach later), { b with breached := true })
  else if b.OrdersSpent then some (.error (.orderCount b.caps.maxOrders), { b with breached := true })
  else
    (A.fit (b.notionalUsed + max notional 0)).map fun wouldBe =>
      if b.caps.maxNotional > 0 ∧ wouldBe > b.caps.maxNotional then
        (.error (.notional wouldBe b.caps.maxNotional), { b with breached := true })
      else (.ok (), { b with ordersUsed := b.ordersUsed + 1, notionalUsed := wouldBe })

/-- The budget takes an order of `notional` at `now`. -/
def Admits (A : Arith) (b : SessionBudget) (notional : ℚ) (now : Instant) : Prop :=
  ¬ b.breached ∧ ¬ b.TimeSpent now ∧ ¬ b.OrdersSpent ∧ ∃ wouldBe, A.fit (b.notionalUsed + max notional 0) = some wouldBe ∧
    ¬ (b.caps.maxNotional > 0 ∧ wouldBe > b.caps.maxNotional)

/-- `reset`: zero the counters and restart the clock. -/
def reset (b : SessionBudget) (now : Instant) : SessionBudget := new b.caps now

/-- The counters of two budgets agree. -/
def SameUse (b b' : SessionBudget) : Prop := b'.ordersUsed = b.ordersUsed ∧ b'.notionalUsed = b.notionalUsed

variable {A : Arith} {b b' : SessionBudget} {notional : ℚ} {now later : Instant}

theorem tryRecord_error {e : BudgetBreach} (h : b.tryRecord A notional now later = some (.error e, b')) :
    b.SameUse b' := by
  unfold tryRecord at h
  split_ifs at h
  · simp only [Option.some.injEq, Prod.mk.injEq] at h
    rw [← h.2]
    exact ⟨rfl, rfl⟩
  · simp only [Option.some.injEq, Prod.mk.injEq] at h
    rw [← h.2]
    exact ⟨rfl, rfl⟩
  · simp only [Option.some.injEq, Prod.mk.injEq] at h
    rw [← h.2]
    exact ⟨rfl, rfl⟩
  · obtain ⟨wouldBe, -, h⟩ := Option.map_eq_some_iff.mp h
    split_ifs at h
    · rw [← (Prod.mk.inj h).2]
      exact ⟨rfl, rfl⟩
    · exact absurd (Prod.mk.inj h).1 (by simp)

/-- A booking counts the order and its notional, and is within the caps. -/
theorem tryRecord_ok (h : b.tryRecord A notional now later = some (.ok (), b')) :
    ¬ b.breached ∧ ¬ b.TimeSpent now ∧ ¬ b.OrdersSpent ∧
      A.fit (b.notionalUsed + max notional 0) = some b'.notionalUsed ∧
      ¬ (b.caps.maxNotional > 0 ∧ b'.notionalUsed > b.caps.maxNotional) ∧
      b' = { b with ordersUsed := b.ordersUsed + 1, notionalUsed := b'.notionalUsed } := by
  unfold tryRecord at h
  split_ifs at h with h1 h2 h3
  · simp at h
  · simp at h
  · simp at h
  · obtain ⟨wouldBe, hfit, h⟩ := Option.map_eq_some_iff.mp h
    split_ifs at h with h4
    · exact absurd (Prod.mk.inj h).1 (by simp)
    · obtain rfl := (Prod.mk.inj h).2
      exact ⟨h1, h2, h3, hfit, h4, rfl⟩

theorem tryRecord_of_admits (h : b.Admits A notional now) (later : Instant) :
    ∃ b', b.tryRecord A notional now later = some (.ok (), b') := by
  obtain ⟨hbreached, htime, horders, wouldBe, hfit, hcap⟩ := h
  exact ⟨_, by simp only [tryRecord, hbreached, htime, horders, hfit, hcap, if_false, Option.map_some]; rfl⟩

theorem admits_of_tryRecord (h : b.tryRecord A notional now later = some (.ok (), b')) : b.Admits A notional now := by
  obtain ⟨hbreached, htime, horders, hfit, hcap, -⟩ := tryRecord_ok h
  exact ⟨hbreached, htime, horders, _, hfit, hcap⟩

theorem tryRecord_breached {r : Except BudgetBreach Unit} (h : b.tryRecord A notional now later = some (r, b'))
    (hb : b.breached = true) : b' = b := by
  simp only [tryRecord, hb, if_true, Option.some.injEq, Prod.mk.injEq] at h
  exact h.2.symm

/-- What is used of the notional does not shrink, though a sum with many digits
is rounded. -/
theorem tryRecord_notional {r : Except BudgetBreach Unit} (h : b.tryRecord .dec96 notional now later = some (r, b'))
    (hdec : IsDecimal b.notionalUsed) : IsDecimal b'.notionalUsed ∧ b.notionalUsed ≤ b'.notionalUsed := by
  cases r with
  | error e =>
    rw [(tryRecord_error h).2]
    exact ⟨hdec, le_rfl⟩
  | ok _ =>
    obtain ⟨-, -, -, hfit, -, -⟩ := tryRecord_ok h
    exact ⟨isDecimal_fit hfit, hdec.le_fit (le_add_of_nonneg_right (le_max_right _ _)) hfit⟩

end SessionBudget

/-! ## The budget as a meter -/

/-- A call of a budget: an order, with the two readings of the clock, or a reset. -/
inductive BudgetCall where
  | record (notional : ℚ) (now later : Instant)
  | reset (now : Instant)

def BudgetCall.toMeter : BudgetCall → Meter.Call ℚ
  | .record notional now _ => .spend notional now
  | .reset now => .restart now

/-- Caps of zero are no caps. -/
def meterCaps (count : UInt32) (total : ℚ) (time : ℕ) : Meter.Caps ℚ where
  count := if count > 0 then some count.toNat else none
  total := if total > 0 then some total else none
  time := if time ≠ 0 then some time else none

/-- The counters of a budget say what the meter's do, which stays below a cap
on the number; without one the counter of `u32` starts over. -/
structure Metered (maxCount : UInt32) (count : UInt32) (total : ℚ) (started : Instant) (breached : Bool)
    (m : Meter ℚ) : Prop where
  count : count = .ofNat m.count
  within : maxCount > 0 → m.count ≤ maxCount.toNat
  total : total = m.total
  started : started = m.started
  breached : breached = m.latched

namespace Metered

variable {maxCount count : UInt32} {maxTotal total : ℚ} {maxTime : ℕ} {started : Instant} {breached : Bool}
  {m : Meter ℚ}

theorem new (maxCount : UInt32) (now : Instant) : Metered maxCount 0 0 now false (Meter.new now) :=
  ⟨rfl, fun _ => Nat.zero_le _, rfl, rfl, rfl⟩

theorem count_spent_iff (h : Metered maxCount count total started breached m) (maxTotal : ℚ) (maxTime : ℕ) :
    (maxCount > 0 ∧ count ≥ maxCount) ↔ ∃ k ∈ (meterCaps maxCount maxTotal maxTime).count, k ≤ m.count := by
  unfold meterCaps
  by_cases hpos : maxCount > 0
  · have hle := h.within hpos
    have hlt := maxCount.toNat_lt
    have hcount : count.toNat = m.count := by
      rw [h.count, UInt32.toNat_ofNat', Nat.mod_eq_of_lt (by omega)]
    simp [hpos, UInt32.le_iff_toNat_le, hcount]
  · simp [hpos]

theorem time_spent_iff (h : Metered maxCount count total started breached m) (maxTotal : ℚ) (now : Instant) :
    (maxTime ≠ 0 ∧ now - started ≥ maxTime) ↔
      ∃ t ∈ (meterCaps maxCount maxTotal maxTime).time, t ≤ now - m.started := by
  unfold meterCaps
  by_cases hpos : maxTime = 0 <;> simp [hpos, h.started]

theorem admits_iff (h : Metered maxCount count total started breached m) (maxTotal : ℚ) (maxTime : ℕ) (notional : ℚ)
    (now : Instant) :
    m.admits (meterCaps maxCount maxTotal maxTime) notional now = true ↔
      breached = false ∧ ¬ (maxTime ≠ 0 ∧ now - started ≥ maxTime) ∧ ¬ (maxCount > 0 ∧ count ≥ maxCount) ∧
        ¬ (maxTotal > 0 ∧ total + max notional 0 > maxTotal) := by
  have htotal : (∀ t ∈ (meterCaps maxCount maxTotal maxTime).total, m.total + max notional 0 ≤ t) ↔
      ¬ (maxTotal > 0 ∧ total + max notional 0 > maxTotal) := by
    unfold meterCaps
    by_cases hpos : maxTotal > 0 <;> simp [hpos, h.total]
  rw [Meter.admits_iff, h.count_spent_iff maxTotal maxTime,
    h.time_spent_iff maxTotal, htotal, h.breached]
  simp only [not_exists, not_and, not_le]

theorem book (h : Metered maxCount count total started breached m) {notional : ℚ} {now : Instant}
    (hadmits : m.admits (meterCaps maxCount maxTotal maxTime) notional now = true) :
    Metered maxCount (count + 1) (total + max notional 0) started breached
      (m.spend (meterCaps maxCount maxTotal maxTime) notional now) := by
  rw [Meter.spend, if_pos hadmits]
  refine ⟨?_, fun hpos => ?_, by rw [h.total], h.started, h.breached⟩
  · rw [h.count, UInt32.ofNat_add]
    rfl
  · have hcount := (Meter.admits_iff.mp hadmits).2.2.1 maxCount.toNat (by simp [meterCaps, hpos])
    exact hcount

theorem refuse (h : Metered maxCount count total started breached m) {notional : ℚ} {now : Instant}
    (hno : m.admits (meterCaps maxCount maxTotal maxTime) notional now = false) :
    Metered maxCount count total started true (m.spend (meterCaps maxCount maxTotal maxTime) notional now) := by
  rw [Meter.spend, if_neg (by simp [hno])]
  exact ⟨h.count, h.within, h.total, h.started, rfl⟩

end Metered

/-- The four guards of a budget, in a row: where one does not pass there is an error,
and the budget is the latched one. -/
theorem refused_of_guards {ε σ : Type} {p q r t : Prop} [Decidable p] [Decidable q] [Decidable r] [Decidable t]
    {e₁ e₂ e₃ e₄ : ε} {s latched : σ} {taken : Except ε Unit × σ} (hp : p → latched = s)
    (h : ¬ (¬ p ∧ ¬ q ∧ ¬ r ∧ ¬ t)) :
    ∃ e, (if p then some (.error e₁, s) else if q then some (.error e₂, latched)
      else if r then some (.error e₃, latched) else some (if t then (.error e₄, latched) else taken)) =
        some ((.error e, latched) : Except ε Unit × σ) := by
  by_cases hp' : p
  · exact ⟨e₁, by rw [if_pos hp', hp hp']⟩
  · by_cases hq : q
    · exact ⟨e₂, by rw [if_neg hp', if_pos hq]⟩
    · by_cases hr : r
      · exact ⟨e₃, by rw [if_neg hp', if_neg hq, if_pos hr]⟩
      · have ht : t := not_not.mp fun ht => h ⟨hp', hq, hr, ht⟩
        exact ⟨e₄, by rw [if_neg hp', if_neg hq, if_neg hr, if_pos ht]⟩

namespace SessionBudget

/-- Calls of a session budget, each with its answer. -/
def system (A : Arith) : Lts SessionBudget BudgetCall (Meter.Answer ℚ) where
  step b
    | .record notional now later => (b.tryRecord A notional now later).map fun r =>
        (r.2, .spent ⟨notional, now, r.1.isOk⟩)
    | .reset now => some (b.reset now, .restarted now)

def Meters (caps : BudgetCaps) (b : SessionBudget) (m : Meter ℚ) : Prop :=
  b.caps = caps ∧ Metered caps.maxOrders b.ordersUsed b.notionalUsed b.started b.breached m

variable {caps : BudgetCaps} {b : SessionBudget} {m : Meter ℚ}

/-- What does not fit is refused and latches the budget. -/
theorem tryRecord_refuses {notional : ℚ} {now : Instant} (later : Instant)
    (h : ¬ (b.breached = false ∧ ¬ b.TimeSpent now ∧ ¬ b.OrdersSpent ∧
      ¬ (b.caps.maxNotional > 0 ∧ b.notionalUsed + max notional 0 > b.caps.maxNotional))) :
    ∃ e, b.tryRecord .exact notional now later = some (.error e, { b with breached := true }) := by
  rw [← Bool.not_eq_true] at h
  exact refused_of_guards (fun hbreached => by rw [← hbreached]) h

/-- `try_record` answers what the meter does, and stays with it. -/
theorem tryRecord_meters (h : b.Meters caps m) (notional : ℚ) (now later : Instant) :
    ∃ r b', b.tryRecord .exact notional now later = some (r, b') ∧
      r.isOk = m.admits (meterCaps caps.maxOrders caps.maxNotional caps.maxDuration) notional now ∧
      b'.Meters caps (m.spend (meterCaps caps.maxOrders caps.maxNotional caps.maxDuration) notional now) := by
  obtain ⟨rfl, hm⟩ := h
  have hiff := hm.admits_iff b.caps.maxNotional b.caps.maxDuration notional now
  cases hadm : m.admits (meterCaps b.caps.maxOrders b.caps.maxNotional b.caps.maxDuration) notional now with
  | true =>
    obtain ⟨hbreached, htime, horders, htotal⟩ := hiff.mp hadm
    have htime' : ¬ b.TimeSpent now := htime
    have horders' : ¬ b.OrdersSpent := horders
    refine ⟨.ok (), { b with ordersUsed := b.ordersUsed + 1, notionalUsed := b.notionalUsed + max notional 0 },
      ?_, rfl, rfl, hm.book hadm⟩
    simp [tryRecord, hbreached, htime', horders', Arith.exact, htotal]
  | false =>
    have hno := mt hiff.mpr (by simp [hadm])
    obtain ⟨e, he⟩ := tryRecord_refuses (b := b) later hno
    exact ⟨.error e, { b with breached := true }, he, rfl, rfl, hm.refuse hadm⟩

theorem step_meters (b : SessionBudget) (m : Meter ℚ) (call : BudgetCall) (h : b.Meters caps m) :
    ∃ b' m' o, (system .exact).step b call = some (b', o) ∧
      (Meter.system (meterCaps caps.maxOrders caps.maxNotional caps.maxDuration)).step m call.toMeter =
        some (m', o) ∧ b'.Meters caps m' := by
  cases call with
  | record notional now later =>
    obtain ⟨r, b', hr, hok, hm⟩ := tryRecord_meters h notional now later
    refine ⟨b', _, .spent ⟨notional, now, r.isOk⟩, ?_, ?_, hm⟩
    · simp only [system, hr, Option.map_some]
    · rw [hok]
      rfl
  | reset now => exact ⟨b.reset now, Meter.new now, .restarted now, rfl, rfl, h.1, .new _ now⟩

end SessionBudget

end Sherwood
