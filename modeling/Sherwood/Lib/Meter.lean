/-
# Metered spending

A meter books spendings under three caps, any of which may be missing: on
their number, on their total, and on the time since the meter was started. A
spending adds its amount to the total, or nothing if the amount is negative.
The first spending that does not fit is refused and latches the meter: what
comes after it is refused too, until the meter is restarted.

So over the spendings since the last restart the caps hold, the counters say
what was booked, and the refused ones come last (`Within`, `run_within`).

Key definitions: `Meter`, `Meter.step`, `Meter.segment`, `Meter.Within`.
Key theorems: `Meter.run_within`, `Meter.run_latched`.
-/
import Mathlib.Algebra.BigOperators.Group.List.Basic
import Mathlib.Algebra.Order.Monoid.Defs
import Sherwood.Lib.Lts

/-- What is booked since the start, and whether a spending was refused. -/
@[ext] structure Meter (𝕜 : Type) where
  count : ℕ
  total : 𝕜
  started : ℕ
  latched : Bool

namespace Meter

/-- The caps; `none` is no limit. -/
structure Caps (𝕜 : Type) where
  count : Option ℕ
  total : Option 𝕜
  time : Option ℕ

inductive Call (𝕜 : Type)
  | spend (amount : 𝕜) (now : ℕ)
  | restart (now : ℕ)

/-- A spending asked for at a time, and whether it was booked. -/
structure Spending (𝕜 : Type) where
  amount : 𝕜
  now : ℕ
  ok : Bool
  deriving DecidableEq

inductive Answer (𝕜 : Type)
  | spent (s : Spending 𝕜)
  | restarted (now : ℕ)
  deriving DecidableEq

variable {𝕜 : Type}

/-- What an answer adds to the spendings since a time. -/
def extend (seg : ℕ × List (Spending 𝕜)) : Answer 𝕜 → ℕ × List (Spending 𝕜)
  | .spent s => (seg.1, seg.2 ++ [s])
  | .restarted now => (now, [])

/-- The time of the last restart, and the spendings since. -/
def segment (start : ℕ) (os : List (Answer 𝕜)) : ℕ × List (Spending 𝕜) := os.foldl extend (start, [])

@[simp] theorem segment_nil (start : ℕ) : segment start ([] : List (Answer 𝕜)) = (start, []) := rfl

@[simp] theorem segment_spent (start : ℕ) (os : List (Answer 𝕜)) (s : Spending 𝕜) :
    segment start (os ++ [.spent s]) = ((segment start os).1, (segment start os).2 ++ [s]) := by
  simp [segment, extend]

@[simp] theorem segment_restarted (start : ℕ) (os : List (Answer 𝕜)) (now : ℕ) :
    segment start (os ++ [.restarted now]) = (now, []) := by
  simp [segment, extend]

def booked (ss : List (Spending 𝕜)) : List (Spending 𝕜) := ss.filter (·.ok)

theorem booked_concat (ss : List (Spending 𝕜)) (s : Spending 𝕜) :
    booked (ss ++ [s]) = booked ss ++ if s.ok then [s] else [] := by
  cases h : s.ok <;> simp [booked, h]

variable [AddCommMonoid 𝕜] [LinearOrder 𝕜]

def new (now : ℕ) : Meter 𝕜 := ⟨0, 0, now, false⟩

/-- The meter is not latched and the spending fits all caps. -/
def admits (c : Caps 𝕜) (m : Meter 𝕜) (amount : 𝕜) (now : ℕ) : Bool :=
  !m.latched && c.time.all (fun t => decide (now - m.started < t)) &&
    c.count.all (fun k => decide (m.count < k)) && c.total.all (fun t => decide (m.total + max amount 0 ≤ t))

/-- The meter after a spending. -/
def spend (c : Caps 𝕜) (m : Meter 𝕜) (amount : 𝕜) (now : ℕ) : Meter 𝕜 :=
  if m.admits c amount now then { m with count := m.count + 1, total := m.total + max amount 0 }
  else { m with latched := true }

def step (c : Caps 𝕜) (m : Meter 𝕜) : Call 𝕜 → Meter 𝕜 × Answer 𝕜
  | .spend amount now => (m.spend c amount now, .spent ⟨amount, now, m.admits c amount now⟩)
  | .restart now => (new now, .restarted now)

def system (c : Caps 𝕜) : Lts (Meter 𝕜) (Call 𝕜) (Answer 𝕜) where
  step m a := some (m.step c a)

/-- The sum of what was booked. -/
def bookedTotal (ss : List (Spending 𝕜)) : 𝕜 := ((booked ss).map fun s => max s.amount 0).sum

/-- Since `start`: the caps hold of what was booked, and after a refusal nothing was. -/
structure Within (c : Caps 𝕜) (start : ℕ) (ss : List (Spending 𝕜)) : Prop where
  count : ∀ k ∈ c.count, (booked ss).length ≤ k
  total : ∀ t ∈ c.total, 0 ≤ t → bookedTotal ss ≤ t
  time : ∀ t ∈ c.time, ∀ s ∈ booked ss, s.now - start < t
  latch : ss.Pairwise fun s s' => s.ok = false → s'.ok = false

/-- The meter says what was booked since `start`. -/
structure Tracks (m : Meter 𝕜) (start : ℕ) (ss : List (Spending 𝕜)) : Prop where
  count : m.count = (booked ss).length
  total : m.total = bookedTotal ss
  started : m.started = start
  latched : m.latched = false → ∀ s ∈ ss, s.ok = true

theorem bookedTotal_concat (ss : List (Spending 𝕜)) (s : Spending 𝕜) :
    bookedTotal (ss ++ [s]) = bookedTotal ss + if s.ok then max s.amount 0 else 0 := by
  rw [bookedTotal, booked_concat]
  cases h : s.ok <;> simp [bookedTotal]

theorem new_tracks (c : Caps 𝕜) (now : ℕ) : (new now : Meter 𝕜).Tracks now [] ∧ Within c now [] :=
  ⟨⟨rfl, rfl, rfl, by simp⟩, ⟨by simp [booked], fun _ _ h => by simpa [bookedTotal, booked] using h,
    by simp [booked], .nil⟩⟩

variable {c : Caps 𝕜} {m : Meter 𝕜} {start now : ℕ} {ss : List (Spending 𝕜)} {amount : 𝕜}

theorem admits_iff : m.admits c amount now = true ↔ m.latched = false ∧
    (∀ t ∈ c.time, now - m.started < t) ∧ (∀ k ∈ c.count, m.count < k) ∧
      ∀ t ∈ c.total, m.total + max amount 0 ≤ t := by
  simp [admits, Option.all_eq_true, and_assoc]

/-- One spending keeps the books and the caps: booked where it fits, refused
and latched where it does not. -/
theorem spend_tracks (ht : m.Tracks start ss) (hw : Within c start ss) :
    (m.spend c amount now).Tracks start (ss ++ [⟨amount, now, m.admits c amount now⟩]) ∧
      Within c start (ss ++ [⟨amount, now, m.admits c amount now⟩]) := by
  by_cases h : m.admits c amount now
  · obtain ⟨hlatched, htime, hcount, htotal⟩ := admits_iff.mp h
    have hall := ht.latched hlatched
    simp only [spend, h, if_true]
    refine ⟨⟨?_, ?_, ht.started, fun _ s hs => ?_⟩, ⟨fun k hk => ?_, fun t htt _ => ?_, fun t htt s hs => ?_, ?_⟩⟩
    · simp [booked_concat, ht.count]
    · simp [bookedTotal_concat, ht.total]
    · rcases List.mem_append.mp hs with hs | hs
      · exact hall s hs
      · rw [List.mem_singleton.mp hs]
    · have := hcount k hk
      simp only [booked_concat, if_true, List.length_append, List.length_singleton, ← ht.count]
      omega
    · have := htotal t htt
      simpa only [bookedTotal_concat, if_true, ← ht.total] using this
    · rw [booked_concat, if_pos rfl] at hs
      rcases List.mem_append.mp hs with hs | hs
      · exact hw.time t htt s hs
      · rw [List.mem_singleton.mp hs, ← ht.started]
        exact htime t htt
    · refine List.pairwise_append.mpr ⟨hw.latch, List.pairwise_singleton _ _, fun s hs s' _ hno => ?_⟩
      exact absurd (hall s hs) (by simp [hno])
  · have hno : m.admits c amount now = false := by simpa using h
    simp only [spend, hno, Bool.false_eq_true, if_false]
    refine ⟨⟨?_, ?_, ht.started, fun hl => absurd hl (by simp)⟩, ⟨?_, ?_, ?_, ?_⟩⟩
    · simp [booked_concat, ht.count]
    · simp [bookedTotal_concat, ht.total]
    · simpa [booked_concat] using hw.count
    · simpa [bookedTotal_concat] using hw.total
    · simpa [booked_concat] using hw.time
    · refine List.pairwise_append.mpr ⟨hw.latch, List.pairwise_singleton _ _, fun s _ s' hs' _ => ?_⟩
      rw [List.mem_singleton.mp hs']

/-- **Caps hold since the last restart.** In every run the meter says what was
booked since, which is within the caps, and a refusal is followed by refusals only. -/
theorem run_within {os : List (Answer 𝕜)} (h : (system c).Run (new start) os m) :
    m.Tracks (segment start os).1 (segment start os).2 ∧ Within c (segment start os).1 (segment start os).2 := by
  refine Lts.Run.inv
    (P := fun os m => m.Tracks (segment start os).1 (segment start os).2 ∧
      Within c (segment start os).1 (segment start os).2) (new_tracks c start) ?_ h
  intro os m a m' o _ ih hstep
  simp only [system, Option.some.injEq, step] at hstep
  cases a with
  | spend amount now =>
    obtain ⟨rfl, rfl⟩ := Prod.mk.inj hstep
    simpa only [segment_spent] using spend_tracks ih.1 ih.2
  | restart now =>
    obtain ⟨rfl, rfl⟩ := Prod.mk.inj hstep
    simpa only [segment_restarted] using new_tracks c now

theorem spend_latched (c : Caps 𝕜) (m : Meter 𝕜) (amount : 𝕜) (now : ℕ) :
    (m.spend c amount now).latched = (m.latched || !m.admits c amount now) := by
  unfold spend
  by_cases h : m.admits c amount now
  · simp [h]
  · simp [h]

/-- A meter is latched exactly if a spending was refused since it was restarted. -/
theorem run_latched {os : List (Answer 𝕜)} (h : (system c).Run (new start) os m) :
    m.latched = true ↔ ∃ s ∈ (segment start os).2, s.ok = false := by
  refine Lts.Run.inv (P := fun os m => m.latched = true ↔ ∃ s ∈ (segment start os).2, s.ok = false)
    (by simp [new]) ?_ h
  intro os m a m' o _ ih hstep
  simp only [system, Option.some.injEq, step] at hstep
  cases a with
  | spend amount now =>
    obtain ⟨rfl, rfl⟩ := Prod.mk.inj hstep
    rw [spend_latched, Bool.or_eq_true, Bool.not_eq_true', ih]
    simp [or_and_right, exists_or]
  | restart now =>
    obtain ⟨rfl, rfl⟩ := Prod.mk.inj hstep
    simp [new]

end Meter
