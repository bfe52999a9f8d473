/-
# The rate limiter

`RateLimiter` of `crates/server/src/limit.rs` lets `max` requests through in a window, which starts
at the first request after the last one is over. Where it limits at all, it is the counter of windows
(`Counts.step`), and what holds of that holds of it: no interval as long as a window sees more than twice
`max` requests let through (`rate_limiter_bounds`).

Key definition: `RateLimiter.check`.
Key theorems: `Counts.step`, `rate_limiter_bounds`.
-/
import Sherwood.Lib.FixedWindow
import Sherwood.Server.Budget

namespace Sherwood

/-- A limit, the start of the window and how many requests it has let through. The window is in
nanoseconds. -/
structure RateLimiter where
  max : UInt32
  window : ℕ
  windowStart : Instant
  count : UInt32

namespace RateLimiter

/-- `max` requests per `window`. Zero disables limiting. -/
def new (max : UInt32) (window : ℕ) (now : Instant) : RateLimiter := ⟨max, window, now, 0⟩

/-- The window is over: `start.elapsed() >= self.window`. -/
def Elapsed (rl : RateLimiter) (now : Instant) : Prop := now - rl.windowStart ≥ rl.window

instance (rl : RateLimiter) (now : Instant) : Decidable (rl.Elapsed now) := inferInstanceAs (Decidable (_ ≥ _))

/-- `true` if the request is within budget. A new window starts at a second reading of the clock. -/
def check (rl : RateLimiter) (now later : Instant) : Bool × RateLimiter :=
  if rl.max = 0 then (true, rl)
  else
    let rl := if rl.Elapsed now then { rl with windowStart := later, count := 0 } else rl
    if rl.count ≥ rl.max then (false, rl) else (true, { rl with count := rl.count + 1 })

/-- Calls of `check`, each at one reading of the clock. -/
def system : Lts RateLimiter Instant (FixedWindow.Call Instant) where
  step rl now := some ((rl.check now now).2, ⟨now, rl.Elapsed now, (rl.check now now).1⟩)

/-- The limiter is the counter of windows. -/
structure Counts (max : UInt32) (window : ℕ) (rl : RateLimiter) (c : FixedWindow Instant) : Prop where
  max : rl.max = max
  window : rl.window = window
  start : rl.windowStart = c.start
  count : rl.count.toNat = c.count
  le : rl.count ≤ rl.max

variable {max : UInt32} {window : ℕ} {rl : RateLimiter} {c : FixedWindow Instant}

theorem le_sub_iff_of_pos {n : ℕ} (hn : 0 < n) (a b : ℕ) : n ≤ b - a ↔ a + n ≤ b := by
  omega

theorem Counts.elapsed_iff (hwindow : 0 < window) (h : rl.Counts max window c) (now : Instant) :
    rl.Elapsed now ↔ c.Over window now := by
  unfold Elapsed FixedWindow.Over
  rw [h.window, h.start]
  exact le_sub_iff_of_pos hwindow _ _

theorem toNat_succ {count max : UInt32} (h : ¬ count ≥ max) :
    (count + 1).toNat = count.toNat + 1 ∧ count + 1 ≤ max := by
  rw [ge_iff_le, UInt32.le_iff_toNat_le] at h
  have := max.toNat_lt
  have hone : (1 : UInt32).toNat = 1 := rfl
  have hsucc : (count + 1).toNat = count.toNat + 1 := by
    rw [UInt32.toNat_add, hone]
    omega
  refine ⟨hsucc, ?_⟩
  rw [UInt32.le_iff_toNat_le, hsucc]
  omega

/-- **Refinement.** A call is one of the counter. -/
theorem Counts.step (hmax : 0 < max) (hwindow : 0 < window) (h : rl.Counts max window c) (now : Instant) :
    ∃ rl' c' o, system.step rl now = some (rl', o) ∧
      (FixedWindow.system max.toNat window).step c now = some (c', o) ∧ rl'.Counts max window c' := by
  have hmax' : 0 < max.toNat := UInt32.lt_iff_toNat_lt.mp hmax
  have hon : rl.max ≠ 0 := by
    rw [h.max]
    rintro rfl
    exact absurd hmax (by decide)
  have hroom : ¬ rl.count ≥ rl.max ↔ c.count < max.toNat := by
    rw [ge_iff_le, UInt32.le_iff_toNat_le, h.count, h.max, not_le]
  rcases c.check_cases hmax' now with ⟨hover, hcheck⟩ | ⟨hopen, hlt, hcheck⟩ | ⟨hopen, hfull, hcheck⟩
  · have helapsed := (h.elapsed_iff hwindow now).mpr hover
    have hfirst : ¬ (0 : UInt32) ≥ rl.max := by
      rw [h.max]
      exact UInt32.not_le.mpr hmax
    refine ⟨{ rl with windowStart := now, count := 0 + 1 }, ⟨now, 1⟩, ⟨now, true, true⟩, ?_, congrArg some hcheck,
      h.max, h.window, rfl, rfl, (toNat_succ hfirst).2⟩
    simp only [system, check, if_neg hon, if_pos helapsed, if_neg hfirst, decide_eq_true helapsed]
  · have helapsed := mt (h.elapsed_iff hwindow now).mp hopen
    have hcount := hroom.mpr hlt
    refine ⟨{ rl with count := rl.count + 1 }, _, _, ?_, congrArg some hcheck, h.max, h.window, h.start, ?_,
      (toNat_succ hcount).2⟩
    · simp [system, check, hon, helapsed, UInt32.not_le.mpr (UInt32.not_le.mp hcount)]
    · exact (toNat_succ hcount).1.trans (congrArg (· + 1) h.count)
  · have helapsed := mt (h.elapsed_iff hwindow now).mp hopen
    have hcount : rl.count ≥ rl.max := by
      rw [ge_iff_le, UInt32.le_iff_toNat_le, h.count, h.max]
      exact hfull
    refine ⟨rl, _, _, ?_, congrArg some hcheck, h⟩
    simp [system, check, hon, helapsed, hcount]

theorem counts_new (max : UInt32) (window : ℕ) (t₀ : Instant) :
    (new max window t₀).Counts max window (FixedWindow.new t₀) :=
  ⟨rfl, rfl, rfl, rfl, UInt32.zero_le⟩

theorem now_of_exec {times : List Instant} {rl rl' : RateLimiter} {calls : List (FixedWindow.Call Instant)}
    (h : system.exec rl times = some (rl', calls)) : calls.map (·.now) = times := by
  induction times generalizing rl calls with
  | nil =>
    obtain ⟨-, rfl⟩ := Prod.mk.inj (Option.some.inj h)
    rfl
  | cons now times ih =>
    simp only [Lts.exec, system, Option.bind_some, Option.map_eq_some_iff, Prod.mk.injEq] at h
    obtain ⟨⟨rl₁, calls⟩, hrest, rfl, rfl⟩ := h
    exact congrArg (now :: ·) (ih hrest)

/-- **Every interval.** Between the starts of two windows that follow each other at most `max` calls are let
through, and as many since the last one; at most `2 * max` in any interval as long as a window. A
call is refused only if at least `max` were let through within a window's length before it. -/
theorem rate_limiter_bounds (max : UInt32) (window : ℕ) (t₀ : Instant) (times : List Instant) (hmax : 0 < max)
    (hwindow : 0 < window) (hsorted : (t₀ :: times).Pairwise (· ≤ ·)) :
    ∃ rl calls, system.exec (new max window t₀) times = some (rl, calls) ∧ calls.map (·.now) = times ∧
      (∀ a b, [a, b] <:+: FixedWindow.starts t₀ calls →
        (FixedWindow.admitted calls).countP (fun t => a ≤ t ∧ t < b) ≤ max.toNat) ∧
      (∀ a, (FixedWindow.starts t₀ calls).getLast? = some a →
        (FixedWindow.admitted calls).countP (fun t => a ≤ t) ≤ max.toNat) ∧
      (∀ a : Instant, (FixedWindow.admitted calls).countP (fun t => a ≤ t ∧ t < a + window) ≤ 2 * max.toNat) ∧
      ∀ before call after, calls = before ++ call :: after → call.ok = false →
        max.toNat ≤ (FixedWindow.admitted before).countP fun t => t ≤ call.now ∧ call.now < t + window := by
  obtain ⟨rl, c, calls, hrl, hc, -⟩ :=
    Lts.exec_of_sim (f := id) (fun _ _ now h => Counts.step hmax hwindow h now) times (counts_new max window t₀)
  have htimes := now_of_exec hrl
  rw [List.map_id] at hc
  rw [← htimes] at hsorted
  have hbounded := FixedWindow.run_bounded (UInt32.lt_iff_toNat_lt.mp hmax) hwindow (.of_exec hc) hsorted
  exact ⟨rl, calls, hrl, htimes, hbounded.between, hbounded.last, hbounded.interval, hbounded.refused⟩

/-- One call in twenty. -/
theorem rate_limiter_bounds_of_one : ∃ rl calls, system.exec (new 1 20 0) [0, 5, 30, 49, 50] = some (rl, calls) ∧
    (FixedWindow.admitted calls).countP (fun t => 30 ≤ t ∧ t < 50) ≤ 2 := by
  obtain ⟨rl, calls, hrun, -, -, -, hinterval, -⟩ :=
    rate_limiter_bounds 1 20 0 [0, 5, 30, 49, 50] (by decide) (by decide) (by decide)
  exact ⟨rl, calls, hrun, hinterval 30⟩

end RateLimiter

end Sherwood
