/-
# The wallet budget

`WalletBudget` of `crates/wallets/src/budget.rs`, a spend ceiling for one
wallet with a latch of its own, and what it has in common with the budget of a
session. Both are the meter with their caps, call by call (`step_meters`), so
driven by the same calls they answer the same, and what holds of the meter
holds of both: in every stretch between two resets they stay within their caps
and refuse everything after the first refusal (`budgets_within_and_agree`).

Key definitions: `WalletLimits`, `WalletBudget`, `WalletBudget.tryReserve`.
Key theorems: `WalletBudget.step_meters`, `budgets_within_and_agree`.
-/
import Sherwood.Server.Budget

namespace Sherwood

/-- The caps of a wallet; zero is no limit. The duration is in nanoseconds. -/
structure WalletLimits where
  maxTxCount : UInt32
  maxNotional : ℚ
  maxDuration : ℕ
  deriving DecidableEq

/-- Why a spend was refused. -/
inductive WalletBreach where
  | txCount (cap : UInt32)
  | notional (wouldBe cap : ℚ)
  | duration (elapsedSecs capSecs : ℕ)
  deriving DecidableEq

/-- `WalletBreach`'s `Display`. -/
def WalletBreach.text : WalletBreach → String
  | .txCount cap => s!"wallet transaction limit reached ({cap.toNat})"
  | .notional wouldBe cap =>
    s!"wallet notional limit reached ({Decimal.display wouldBe} would exceed {Decimal.display cap})"
  | .duration elapsedSecs capSecs => s!"wallet time limit reached ({elapsedSecs}s of {capSecs}s)"

structure WalletBudget where
  limits : WalletLimits
  txUsed : UInt32
  notionalUsed : ℚ
  started : Instant
  breached : Bool
  deriving DecidableEq

namespace WalletBudget

/-- `WalletBudget::new`. -/
def new (limits : WalletLimits) (now : Instant) : WalletBudget := ⟨limits, 0, 0, now, false⟩

/-- `started.elapsed()`, which saturates. -/
def elapsed (b : WalletBudget) (now : Instant) : ℕ := now - b.started

def TxSpent (b : WalletBudget) : Prop := b.limits.maxTxCount > 0 ∧ b.txUsed ≥ b.limits.maxTxCount

def TimeSpent (b : WalletBudget) (now : Instant) : Prop :=
  b.limits.maxDuration ≠ 0 ∧ b.elapsed now ≥ b.limits.maxDuration

instance (b : WalletBudget) : Decidable b.TxSpent := inferInstanceAs (Decidable (_ ∧ _))

instance (b : WalletBudget) (now : Instant) : Decidable (b.TimeSpent now) :=
  inferInstanceAs (Decidable (_ ∧ _))

def durationBreach (b : WalletBudget) (later : Instant) : WalletBreach :=
  .duration (b.elapsed later / 10 ^ 9) (b.limits.maxDuration / 10 ^ 9)

/-- `first_breach`: the cap to report. -/
def firstBreach (b : WalletBudget) (now later : Instant) : WalletBreach :=
  if b.TxSpent then .txCount b.limits.maxTxCount
  else if b.TimeSpent now then b.durationBreach later
  else .notional b.notionalUsed b.limits.maxNotional

/-- `try_reserve`: book a spend of `notional`, or refuse it. `none` is a panic of
the sum. -/
def tryReserve (A : Arith) (b : WalletBudget) (notional : ℚ) (now later : Instant) :
    Option (Except WalletBreach Unit × WalletBudget) :=
  if b.breached then some (.error (b.firstBreach now later), b)
  else if b.TimeSpent now then some (.error (b.durationBreach later), { b with breached := true })
  else if b.TxSpent then some (.error (.txCount b.limits.maxTxCount), { b with breached := true })
  else
    (A.fit (b.notionalUsed + max notional 0)).map fun wouldBe =>
      if b.limits.maxNotional > 0 ∧ wouldBe > b.limits.maxNotional then
        (.error (.notional wouldBe b.limits.maxNotional), { b with breached := true })
      else (.ok (), { b with txUsed := b.txUsed + 1, notionalUsed := wouldBe })

/-- `reset`: zero the counters and restart the clock. -/
def reset (b : WalletBudget) (now : Instant) : WalletBudget := new b.limits now

/-- Calls of a wallet budget, each with its answer. -/
def system (A : Arith) : Lts WalletBudget BudgetCall (Meter.Answer ℚ) where
  step b
    | .record notional now later => (b.tryReserve A notional now later).map fun r =>
        (r.2, .spent ⟨notional, now, r.1.isOk⟩)
    | .reset now => some (b.reset now, .restarted now)

def Meters (limits : WalletLimits) (b : WalletBudget) (m : Meter ℚ) : Prop :=
  b.limits = limits ∧ Metered limits.maxTxCount b.txUsed b.notionalUsed b.started b.breached m

variable {limits : WalletLimits} {b : WalletBudget} {m : Meter ℚ}

theorem tryReserve_refuses {notional : ℚ} {now : Instant} (later : Instant)
    (h : ¬ (b.breached = false ∧ ¬ b.TimeSpent now ∧ ¬ b.TxSpent ∧
      ¬ (b.limits.maxNotional > 0 ∧ b.notionalUsed + max notional 0 > b.limits.maxNotional))) :
    ∃ e, b.tryReserve .exact notional now later = some (.error e, { b with breached := true }) := by
  rw [← Bool.not_eq_true] at h
  exact refused_of_guards (fun hbreached => by rw [← hbreached]) h

/-- `try_reserve` answers what the meter does, and stays with it. -/
theorem tryReserve_meters (h : b.Meters limits m) (notional : ℚ) (now later : Instant) :
    ∃ r b', b.tryReserve .exact notional now later = some (r, b') ∧
      r.isOk = m.admits (meterCaps limits.maxTxCount limits.maxNotional limits.maxDuration) notional now ∧
      b'.Meters limits (m.spend (meterCaps limits.maxTxCount limits.maxNotional limits.maxDuration) notional now) := by
  obtain ⟨rfl, hm⟩ := h
  have hiff := hm.admits_iff b.limits.maxNotional b.limits.maxDuration notional now
  cases hadm : m.admits (meterCaps b.limits.maxTxCount b.limits.maxNotional b.limits.maxDuration) notional now with
  | true =>
    obtain ⟨hbreached, htime, htx, htotal⟩ := hiff.mp hadm
    have htime' : ¬ b.TimeSpent now := htime
    have htx' : ¬ b.TxSpent := htx
    refine ⟨.ok (), { b with txUsed := b.txUsed + 1, notionalUsed := b.notionalUsed + max notional 0 },
      ?_, rfl, rfl, hm.book hadm⟩
    simp [tryReserve, hbreached, htime', htx', Arith.exact, htotal]
  | false =>
    have hno := mt hiff.mpr (by simp [hadm])
    obtain ⟨e, he⟩ := tryReserve_refuses (b := b) later hno
    exact ⟨.error e, { b with breached := true }, he, rfl, rfl, hm.refuse hadm⟩

theorem tryReserve_error {b' : WalletBudget} {notional : ℚ} {now later : Instant} {e : WalletBreach}
    (h : b.tryReserve .exact notional now later = some (.error e, b')) :
    b'.txUsed = b.txUsed ∧ b'.notionalUsed = b.notionalUsed := by
  by_cases hfits : b.breached = false ∧ ¬ b.TimeSpent now ∧ ¬ b.TxSpent ∧
      ¬ (b.limits.maxNotional > 0 ∧ b.notionalUsed + max notional 0 > b.limits.maxNotional)
  · obtain ⟨hbreached, htime, htx, htotal⟩ := hfits
    simp [tryReserve, hbreached, htime, htx, Arith.exact, htotal] at h
  · obtain ⟨e', he'⟩ := tryReserve_refuses later hfits
    rw [he', Option.some.injEq, Prod.mk.injEq] at h
    rw [← h.2]
    exact ⟨rfl, rfl⟩

theorem step_meters (b : WalletBudget) (m : Meter ℚ) (call : BudgetCall) (h : b.Meters limits m) :
    ∃ b' m' o, (system .exact).step b call = some (b', o) ∧
      (Meter.system (meterCaps limits.maxTxCount limits.maxNotional limits.maxDuration)).step m call.toMeter =
        some (m', o) ∧ b'.Meters limits m' := by
  cases call with
  | record notional now later =>
    obtain ⟨r, b', hr, hok, hm⟩ := tryReserve_meters h notional now later
    refine ⟨b', _, .spent ⟨notional, now, r.isOk⟩, ?_, ?_, hm⟩
    · simp only [system, hr, Option.map_some]
    · rw [hok]
      rfl
  | reset now => exact ⟨b.reset now, Meter.new now, .restarted now, rfl, rfl, h.1, .new _ now⟩

end WalletBudget

/-- The limits that are a session's caps. -/
def BudgetCaps.toWallet (caps : BudgetCaps) : WalletLimits := ⟨caps.maxOrders, caps.maxNotional, caps.maxDuration⟩

/-- **Budgets bound spend and agree.** Driven by the same calls, a session's
budget and a wallet's answer the same. Since the last reset, or since the
start: the orders booked are within the cap on orders and their notionals
within the cap on notional, both counters say what was booked, nothing was
booked once the time was up, and after a refusal everything was refused. A
refusal changes no counter. -/
theorem budgets_within_and_agree (caps : BudgetCaps) (t₀ : Instant) (calls : List BudgetCall) :
    ∃ b w answers start spendings,
      (SessionBudget.system .exact).exec (.new caps t₀) calls = some (b, answers) ∧
      (WalletBudget.system .exact).exec (.new caps.toWallet t₀) calls = some (w, answers) ∧
      Meter.segment t₀ answers = (start, spendings) ∧
      (caps.maxOrders > 0 → (Meter.booked spendings).length ≤ caps.maxOrders.toNat) ∧
      (caps.maxNotional > 0 → Meter.bookedTotal spendings ≤ caps.maxNotional) ∧
      (b.ordersUsed = .ofNat (Meter.booked spendings).length ∧ b.notionalUsed = Meter.bookedTotal spendings) ∧
      (w.txUsed = .ofNat (Meter.booked spendings).length ∧ w.notionalUsed = Meter.bookedTotal spendings) ∧
      (caps.maxDuration ≠ 0 → ∀ s ∈ Meter.booked spendings, s.now - start < caps.maxDuration) ∧
      spendings.Pairwise (fun s s' => s.ok = false → s'.ok = false) ∧
      (∀ notional now later e b', b.tryRecord .exact notional now later = some (.error e, b') →
        b'.ordersUsed = b.ordersUsed ∧ b'.notionalUsed = b.notionalUsed) ∧
      (∀ notional now later e w', w.tryReserve .exact notional now later = some (.error e, w') →
        w'.txUsed = w.txUsed ∧ w'.notionalUsed = w.notionalUsed) := by
  have hstart : (SessionBudget.new caps t₀).Meters caps (Meter.new t₀) := ⟨rfl, .new _ t₀⟩
  have hstartW : (WalletBudget.new caps.toWallet t₀).Meters caps.toWallet (Meter.new t₀) := ⟨rfl, .new _ t₀⟩
  obtain ⟨b, m, answers, hb, hm, hbm⟩ := Lts.exec_of_sim SessionBudget.step_meters calls hstart
  obtain ⟨w, m', answers', hw, hm', hwm⟩ := Lts.exec_of_sim WalletBudget.step_meters calls hstartW
  obtain ⟨rfl, rfl⟩ : m = m' ∧ answers = answers' := by
    rw [BudgetCaps.toWallet, hm, Option.some.injEq, Prod.mk.injEq] at hm'
    exact hm'
  obtain ⟨htracks, hwithin⟩ := Meter.run_within (Lts.Run.of_exec hm)
  refine ⟨b, w, answers, (Meter.segment t₀ answers).1, (Meter.segment t₀ answers).2, hb, hw, rfl, fun hpos => ?_,
    fun hpos => ?_, ⟨?_, ?_⟩, ⟨?_, ?_⟩, fun hpos => ?_, hwithin.latch,
    fun _ _ _ _ _ h => SessionBudget.tryRecord_error h, fun _ _ _ _ _ h => WalletBudget.tryReserve_error h⟩
  · exact hwithin.count _ (by simp [meterCaps, hpos])
  · exact hwithin.total _ (by simp [meterCaps, hpos]) hpos.le
  · rw [hbm.2.count, htracks.count]
  · rw [hbm.2.total, htracks.total]
  · rw [hwm.2.count, htracks.count]
  · rw [hwm.2.total, htracks.total]
  · exact hwithin.time _ (by simp [meterCaps, hpos])

/-- One order of two, and none after it. -/
theorem budgets_within_and_agree_oneOrder :
    ∃ b w answers, (SessionBudget.system .exact).exec (.new ⟨1, 100, 60⟩ 0)
        [.record 40 1 1, .record (-5) 2 2, .record 1 3 3] = some (b, answers) ∧
      (WalletBudget.system .exact).exec (.new ⟨1, 100, 60⟩ 0)
        [.record 40 1 1, .record (-5) 2 2, .record 1 3 3] = some (w, answers) ∧
      b.notionalUsed = w.notionalUsed := by
  obtain ⟨b, w, answers, _, _, hb, hw, -, -, -, ⟨-, hused⟩, ⟨-, husedW⟩, -⟩ :=
    budgets_within_and_agree ⟨1, 100, 60⟩ 0 [.record 40 1 1, .record (-5) 2 2, .record 1 3 3]
  exact ⟨b, w, answers, hb, hw, hused.trans husedW.symm⟩

end Sherwood
