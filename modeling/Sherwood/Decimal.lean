/-
# `rust_decimal`

A `Decimal` is a 96-bit mantissa and a power of ten up to 28 below it. The
model keeps its value, a rational, and puts the bound into the arithmetic:
an operation computes the exact result and `Arith.fit` makes it a decimal
again, or says that it does not fit. `*`, `/`, `+` and `-` panic then.

Two arithmetics are used. `exact` fits every rational and is the one that many
results about ledgers and limits are stated over; `dec96` is `rust_decimal`'s own, which keeps
the largest scale the result fits at and rounds half to even there. It fails exactly
from `2^96 - 1/2` on (`dec96_fit_eq_none_iff`).

What `Decimal::from_str` reads is part of an arithmetic too, so that results can be
stated for every such reader (`Arith.reading`). The reader that is written out takes a
sign, digits with a point and underscores, and an exponent (`scan`), and rounds half up
what a decimal does not hold.

Key definitions: `Arith`, `Decimal.scan`, `Arith.exact`, `Arith.dec96`, `IsDecimal`, `Dec`,
`Decimal.tryFromI128WithScale`, `Decimal.display`.
Key theorems: `roundHalfEven_le_iff`, `dec96_fit_eq_none_iff`, `dec96_fit_mono`, `IsDecimal.fit_self`,
`abs_fit_sub_le`.
-/
import Mathlib.Algebra.Order.Floor.Ring
import Mathlib.Data.Rat.Floor
import Mathlib.Tactic.Linarith
import Mathlib.Tactic.NormNum
import Mathlib.Tactic.Positivity
import Sherwood.Lib.Outcome

namespace Sherwood

/-- An arithmetic of decimals: the decimal nearest to an exact result, `none` where it does
not fit, and what `Decimal::from_str` makes of a text, `none` its error. -/
structure Arith where
  fit : ℚ → Option ℚ
  fromStr : List Char → Option ℚ

/-! ### Numbers in texts -/

namespace Decimal

/-- The digits of an exponent, with its sign. -/
def scanExponent (cs : List Char) : Option ℤ :=
  let value := fun (ds : List Char) => if ds ≠ [] ∧ ds.all Char.isDigit then some (Nat.ofDigitChars 10 ds 0) else none
  match cs with
  | '-' :: ds => (value ds).map fun n => -(n : ℤ)
  | '+' :: ds => (value ds).map fun n => (n : ℤ)
  | ds => (value ds).map fun n => (n : ℤ)

/-- The digits of a number, with at most one point, and an exponent: the mantissa, how many
digits stand after the point, and the exponent. `seen` says that a digit was read. -/
def scanDigits : List Char → (acc : ℕ) → (scale : Option ℕ) → (seen : Bool) → Option (ℕ × ℕ × ℤ)
  | [], acc, scale, seen => if seen then some (acc, scale.getD 0, 0) else none
  | c :: cs, acc, scale, seen =>
    if c.isDigit then scanDigits cs (acc * 10 + (c.toNat - '0'.toNat)) (scale.map (· + 1)) true
    else if c = '.' ∧ scale = none then scanDigits cs acc (some 0) seen
    else if c = '_' ∧ seen then scanDigits cs acc scale seen
    else if (c = 'e' ∨ c = 'E') ∧ seen then (scanExponent cs).map fun e => (acc, scale.getD 0, e)
    else none

/-- `q` times a power of ten. -/
def shift (q : ℚ) (e : ℤ) : ℚ := if 0 ≤ e then q * 10 ^ e.toNat else q / 10 ^ (-e).toNat

/-- The number a text denotes: an optional sign, then digits and an exponent. -/
def scan (cs : List Char) : Option ℚ :=
  let value := fun ds => (scanDigits ds 0 none false).map fun r => shift ((r.1 : ℚ) / 10 ^ r.2.1) r.2.2
  match cs with
  | '-' :: ds => (value ds).map (- ·)
  | '+' :: ds => value ds
  | ds => value ds

example : ["1e2", "-1.5E3", "25e-1", "1_000", "e5"].map (fun s => scan s.toList) =
    [some 100, some (-1500), some (5 / 2), some 1000, none] := by decide +kernel

/-- `Decimal::from_str`: `none` is its error, also for a number that does not
fit. -/
def fromStr (A : Arith) (s : List Char) : Option ℚ := A.fromStr s

end Decimal

namespace Arith

variable {ε : Type} (A : Arith)

/-- The arithmetic with another reader of texts. -/
def reading (fromStr : List Char → Option ℚ) : Arith := { A with fromStr }

/-- `a * b`. -/
def mul (a b : ℚ) : Outcome ε ℚ := .unwrap (A.fit (a * b))

/-- `a + b`. -/
def add (a b : ℚ) : Outcome ε ℚ := .unwrap (A.fit (a + b))

/-- `a / b`, which also panics on a zero divisor. -/
def div (a b : ℚ) : Outcome ε ℚ := if b = 0 then .panic else .unwrap (A.fit (a / b))

/-- Unbounded decimals: every result fits. -/
def exact : Arith := ⟨some, Decimal.scan⟩

@[simp] theorem exact_mul (a b : ℚ) : (exact.mul a b : Outcome ε ℚ) = .ok (a * b) := rfl

@[simp] theorem exact_add (a b : ℚ) : (exact.add a b : Outcome ε ℚ) = .ok (a + b) := rfl

theorem exact_div {a b : ℚ} (hb : b ≠ 0) : (exact.div a b : Outcome ε ℚ) = .ok (a / b) := by
  simp [div, hb, exact, Outcome.unwrap]

end Arith

/-! ### 96-bit decimals -/

/-- The largest mantissa, `2^96 - 1`. -/
def maxMantissa : ℤ := 79228162514264337593543950335

/-- The nearest integer, and of two nearest the even one. -/
def roundHalfEven (q : ℚ) : ℤ :=
  let n := ⌊q⌋
  let r := q - n
  if r < 1 / 2 then n else if 1 / 2 < r then n + 1 else if n % 2 = 0 then n else n + 1

/-- The nearest integer, and of two nearest the one away from zero. -/
def roundHalfUp (q : ℚ) : ℤ := if 0 ≤ q then ⌊q + 1 / 2⌋ else -⌊-q + 1 / 2⌋

/-- `q` rounded to `s` digits after the point, if the mantissa fits. -/
def atScale (round : ℚ → ℤ) (q : ℚ) (s : ℕ) : Option ℚ :=
  let m := round (q * 10 ^ s)
  if |m| ≤ maxMantissa then some (m / 10 ^ s) else none

/-- The decimal a number in a text is rounded to: the largest scale up to 28 at which it
fits. -/
def Decimal.round (q : ℚ) : Option ℚ := (List.range 29).reverse.findSome? (atScale roundHalfUp q)

/-- The decimals of `rust_decimal`: the largest scale up to 28 at which the
result fits. -/
def Arith.dec96 : Arith where
  fit q := (List.range 29).reverse.findSome? (atScale roundHalfEven q)
  fromStr s := (Decimal.scan s).bind Decimal.round

/-- The result is within a half of the argument, and even where it is a half
away. -/
theorem roundHalfEven_spec (q : ℚ) : q ≤ roundHalfEven q + 1 / 2 ∧ roundHalfEven q - 1 / 2 ≤ q ∧
    (q = roundHalfEven q + 1 / 2 ∨ q = roundHalfEven q - 1 / 2 → roundHalfEven q % 2 = 0) := by
  have h1 := Int.floor_le q
  have h2 := Int.lt_floor_add_one q
  unfold roundHalfEven
  simp only
  split_ifs with hlo hhi heven
  · refine ⟨by linarith, by linarith, fun h => ?_⟩
    rcases h with h | h <;> exfalso <;> linarith
  · push_cast
    refine ⟨by linarith, by linarith, fun h => ?_⟩
    rcases h with h | h <;> exfalso <;> linarith
  · exact ⟨by linarith, by linarith, fun _ => heven⟩
  · push_cast
    exact ⟨by linarith, by linarith, fun _ => by omega⟩

/-- Rounding stays at or below an odd bound exactly below its upper half. -/
theorem roundHalfEven_le_iff {q : ℚ} {N : ℤ} (hN : N % 2 = 1) :
    roundHalfEven q ≤ N ↔ q < N + 1 / 2 := by
  obtain ⟨hup, hlo, htie⟩ := roundHalfEven_spec q
  constructor
  · intro h
    have hc : (roundHalfEven q : ℚ) ≤ N := by exact_mod_cast h
    refine lt_of_le_of_ne (by linarith) fun he => ?_
    have hn : (roundHalfEven q : ℚ) = N := le_antisymm hc (by linarith)
    have : roundHalfEven q = N := by exact_mod_cast hn
    have := htie (.inl (by linarith))
    omega
  · intro h
    by_contra hlt
    have hc : ((N + 1 : ℤ) : ℚ) ≤ roundHalfEven q := by exact_mod_cast (by omega : N + 1 ≤ roundHalfEven q)
    push_cast at hc
    linarith

/-- Rounding stays at or above an odd bound exactly above its lower half. -/
theorem le_roundHalfEven_iff {q : ℚ} {N : ℤ} (hN : N % 2 = 1) :
    N ≤ roundHalfEven q ↔ N - 1 / 2 < q := by
  obtain ⟨hup, hlo, htie⟩ := roundHalfEven_spec q
  constructor
  · intro h
    have hc : (N : ℚ) ≤ roundHalfEven q := by exact_mod_cast h
    refine lt_of_le_of_ne (by linarith) fun he => ?_
    have hn : (roundHalfEven q : ℚ) = N := le_antisymm (by linarith) hc
    have : roundHalfEven q = N := by exact_mod_cast hn
    have := htie (.inr (by linarith))
    omega
  · intro h
    by_contra hlt
    have hc : (roundHalfEven q : ℚ) ≤ ((N - 1 : ℤ) : ℚ) := by
      exact_mod_cast (by omega : roundHalfEven q ≤ N - 1)
    push_cast at hc
    linarith

theorem abs_roundHalfEven_le_iff {q : ℚ} : |roundHalfEven q| ≤ maxMantissa ↔ |q| < 2 ^ 96 - 1 / 2 := by
  rw [abs_le, abs_lt, roundHalfEven_le_iff (by decide), le_roundHalfEven_iff (by decide)]
  norm_num [maxMantissa]

theorem atScale_eq_none_iff {q : ℚ} {s : ℕ} :
    atScale roundHalfEven q s = none ↔ 2 ^ 96 - 1 / 2 ≤ |q| * 10 ^ s := by
  unfold atScale
  simp only
  have : |q * 10 ^ s| = |q| * 10 ^ s := by rw [abs_mul, abs_of_pos (by positivity : (0 : ℚ) < 10 ^ s)]
  rw [ite_eq_right_iff, ← this]
  simp only [reduceCtorEq, imp_false]
  rw [abs_roundHalfEven_le_iff, not_lt]

/-- **What does not fit.** A result has no decimal exactly when it is at
least `2^96 - 1/2` in size. -/
theorem dec96_fit_eq_none_iff {q : ℚ} : Arith.dec96.fit q = none ↔ 2 ^ 96 - 1 / 2 ≤ |q| := by
  simp only [Arith.dec96, List.findSome?_eq_none_iff, List.mem_reverse, List.mem_range, atScale_eq_none_iff]
  constructor
  · intro h
    simpa using h 0 (by norm_num)
  · intro h s _
    have h10 : (1 : ℚ) ≤ 10 ^ s := one_le_pow₀ (by norm_num)
    calc (2 : ℚ) ^ 96 - 1 / 2 ≤ |q| := h
      _ = |q| * 1 := (mul_one _).symm
      _ ≤ |q| * 10 ^ s := mul_le_mul_of_nonneg_left h10 (abs_nonneg q)

/-- The values that `rust_decimal` can hold. -/
def IsDecimal (v : ℚ) : Prop := ∃ (m : ℤ) (s : ℕ), |m| ≤ maxMantissa ∧ s ≤ 28 ∧ v = m / 10 ^ s

/-- A value that is given as a `Decimal`. -/
abbrev Dec := {v : ℚ // IsDecimal v}

/-- The `Decimal` of a mantissa and a scale. -/
def Dec.of (m : ℤ) (s : ℕ) (h : |m| ≤ maxMantissa ∧ s ≤ 28) : Dec := ⟨m / 10 ^ s, m, s, h.1, h.2, rfl⟩

section Scales

variable {round : ℚ → ℤ} {q w : ℚ}

/-- The scale a number is rounded at: it fits there, and at no larger one. -/
theorem findSome?_atScale_eq_some (h : (List.range 29).reverse.findSome? (atScale round q) = some w) : ∃ t ≤ 28,
    |round (q * 10 ^ t)| ≤ maxMantissa ∧ w = round (q * 10 ^ t) / 10 ^ t ∧
      ∀ s, t < s → s ≤ 28 → atScale round q s = none := by
  obtain ⟨larger, t, smaller, hscales, hat, hnone⟩ := List.findSome?_eq_some_iff.mp h
  -- the scales are tried from the largest on
  have hdown : (larger ++ t :: smaller).Pairwise (· > ·) := by
    rw [← hscales, List.pairwise_reverse]
    exact List.pairwise_lt_range
  have hmem : ∀ s, s ∈ larger ++ t :: smaller ↔ s < 29 := by
    intro s
    rw [← hscales, List.mem_reverse, List.mem_range]
  have ht : t < 29 := (hmem t).mp (by simp)
  unfold atScale at hat
  simp only at hat
  split_ifs at hat with hfits
  refine ⟨t, by omega, hfits, (Option.some.inj hat).symm, fun s hlt hs => ?_⟩
  rcases List.mem_append.mp ((hmem s).mpr (by omega)) with hlarger | hrest
  · exact hnone _ hlarger
  · have hsmaller := (List.pairwise_cons.mp (List.pairwise_append.mp hdown).2.1).1
    rcases List.mem_cons.mp hrest with heq | hsmall
    · omega
    · have := hsmaller _ hsmall
      omega

theorem isDecimal_of_findSome? (h : (List.range 29).reverse.findSome? (atScale round q) = some w) : IsDecimal w := by
  obtain ⟨t, ht, hfits, hw, -⟩ := findSome?_atScale_eq_some h
  exact ⟨_, t, hfits, ht, hw⟩

theorem div_mul_pow_of_le {m : ℤ} {s t : ℕ} (hst : s ≤ t) :
    (m : ℚ) / 10 ^ s * 10 ^ t = ((m * 10 ^ (t - s) : ℤ) : ℚ) := by
  have hs : (0 : ℚ) < 10 ^ s := by positivity
  push_cast
  rw [div_mul_eq_mul_div, div_eq_iff hs.ne', mul_assoc, ← pow_add, Nat.sub_add_cancel hst]

/-- A decimal is found as it is, whatever the rounding does between whole numbers. -/
theorem IsDecimal.findSome?_atScale {v : ℚ} (hround : ∀ k : ℤ, round k = k) (hv : IsDecimal v) :
    (List.range 29).reverse.findSome? (atScale round v) = some v := by
  obtain ⟨m, s, hm, hs, rfl⟩ := hv
  have hown : atScale round ((m : ℚ) / 10 ^ s) s = some ((m : ℚ) / 10 ^ s) := by
    unfold atScale
    rw [div_mul_pow_of_le le_rfl, hround, Nat.sub_self, pow_zero, mul_one]
    exact if_pos hm
  obtain ⟨w, hw⟩ : ∃ w, (List.range 29).reverse.findSome? (atScale round (m / 10 ^ s)) = some w := by
    refine Option.ne_none_iff_exists'.mp fun hnone => ?_
    have hat := List.findSome?_eq_none_iff.mp hnone s (by simp; omega)
    rw [hown] at hat
    cases hat
  rw [hw, Option.some.injEq]
  obtain ⟨t, ht, -, rfl, hlarger⟩ := findSome?_atScale_eq_some hw
  rcases Nat.lt_or_ge t s with hlt | hst
  · -- its own scale was tried before
    have hnone := hlarger s hlt hs
    rw [hown] at hnone
    cases hnone
  · have hpos : (0 : ℚ) < 10 ^ t := by positivity
    rw [div_mul_pow_of_le hst, hround, ← div_mul_pow_of_le hst, mul_div_cancel_right₀ _ hpos.ne']

end Scales

/-- The scale a result is rounded at: with one digit more it would not fit. -/
theorem dec96_fit_eq_some {q w : ℚ} (h : Arith.dec96.fit q = some w) : ∃ t ≤ 28,
    |roundHalfEven (q * 10 ^ t)| ≤ maxMantissa ∧ w = roundHalfEven (q * 10 ^ t) / 10 ^ t ∧
      (t < 28 → 2 ^ 96 - 1 / 2 ≤ |q| * 10 ^ (t + 1)) := by
  obtain ⟨t, ht, hfits, hw, hlarger⟩ := findSome?_atScale_eq_some h
  exact ⟨t, ht, hfits, hw, fun hlt => atScale_eq_none_iff.mp (hlarger (t + 1) (by omega) (by omega))⟩

theorem isDecimal_fit {q w : ℚ} (h : Arith.dec96.fit q = some w) : IsDecimal w := isDecimal_of_findSome? h

/-! ### The order of results -/

theorem roundHalfEven_mono {q q' : ℚ} (h : q ≤ q') : roundHalfEven q ≤ roundHalfEven q' := by
  obtain ⟨-, hlo, -⟩ := roundHalfEven_spec q
  obtain ⟨hup, -, -⟩ := roundHalfEven_spec q'
  by_contra hlt
  have hc : (roundHalfEven q' : ℚ) + 1 ≤ roundHalfEven q := by exact_mod_cast Int.not_le.mp hlt
  obtain rfl : q = q' := le_antisymm h (by linarith)
  exact hlt le_rfl

theorem maxMantissa_div (t : ℕ) : (maxMantissa : ℚ) / 10 ^ (t + 1) = 7922816251426433759354395033.5 / 10 ^ t := by
  rw [pow_succ, mul_comm, ← div_div]
  norm_num [maxMantissa]

/-- What is too large for one digit more has a mantissa of more than a tenth of the largest. -/
theorem lt_round_of_large {q : ℚ} {t : ℕ} (h : 2 ^ 96 - 1 / 2 ≤ q * 10 ^ (t + 1)) :
    7922816251426433759354395033 < roundHalfEven (q * 10 ^ t) := by
  have hup := (roundHalfEven_spec (q * 10 ^ t)).1
  rw [pow_succ 10 t, ← mul_assoc] at h
  have : (7922816251426433759354395033 : ℚ) < roundHalfEven (q * 10 ^ t) := by linarith
  exact_mod_cast this

/-- It is rounded to no less than the largest number with that digit. -/
theorem le_of_large {q : ℚ} {t : ℕ} (h : 2 ^ 96 - 1 / 2 ≤ q * 10 ^ (t + 1)) :
    (maxMantissa : ℚ) / 10 ^ (t + 1) ≤ roundHalfEven (q * 10 ^ t) / 10 ^ t := by
  have hcast : (7922816251426433759354395034 : ℚ) ≤ roundHalfEven (q * 10 ^ t) := by
    exact_mod_cast lt_round_of_large h
  rw [maxMantissa_div, div_le_div_iff_of_pos_right (by positivity)]
  linarith

theorem le_of_neg_large {q : ℚ} {t : ℕ} (h : q * 10 ^ (t + 1) ≤ -(2 ^ 96 - 1 / 2)) :
    (roundHalfEven (q * 10 ^ t) : ℚ) / 10 ^ t ≤ -(maxMantissa / 10 ^ (t + 1)) := by
  have hlo := (roundHalfEven_spec (q * 10 ^ t)).2.1
  rw [pow_succ 10 t, ← mul_assoc] at h
  have hround : roundHalfEven (q * 10 ^ t) ≤ -7922816251426433759354395034 := by
    have : (roundHalfEven (q * 10 ^ t) : ℚ) < -7922816251426433759354395033 := by linarith
    have : roundHalfEven (q * 10 ^ t) < -7922816251426433759354395033 := by exact_mod_cast this
    omega
  have hcast : (roundHalfEven (q * 10 ^ t) : ℚ) ≤ -7922816251426433759354395034 := by exact_mod_cast hround
  rw [maxMantissa_div, ← neg_div, div_le_div_iff_of_pos_right (by positivity)]
  linarith

/-- A number at a finer scale is smaller than one that does not fit there. -/
theorem abs_lt_of_scales {q q' : ℚ} {t t' : ℕ} (hlt : t < t') (hfits : |roundHalfEven (q' * 10 ^ t')| ≤ maxMantissa)
    (hlarge : 2 ^ 96 - 1 / 2 ≤ |q| * 10 ^ (t + 1)) : |q'| < |q| := by
  have hsmall := abs_roundHalfEven_le_iff.mp hfits
  rw [abs_mul, abs_of_pos (by positivity : (0 : ℚ) < 10 ^ t')] at hsmall
  have hpow : (10 : ℚ) ^ (t + 1) ≤ 10 ^ t' := pow_le_pow_right₀ (by norm_num) hlt
  have hle : |q'| * 10 ^ (t + 1) ≤ |q'| * 10 ^ t' := mul_le_mul_of_nonneg_left hpow (abs_nonneg _)
  exact lt_of_mul_lt_mul_right (hle.trans_lt (hsmall.trans_le hlarge)) (by positivity)

/-- The largest mantissa is worth less at a finer scale. -/
theorem abs_div_le_of_scales {m : ℤ} {t t' : ℕ} (hlt : t < t') (hm : |m| ≤ maxMantissa) :
    |(m : ℚ) / 10 ^ t'| ≤ maxMantissa / 10 ^ (t + 1) := by
  rw [abs_div, abs_of_pos (by positivity : (0 : ℚ) < 10 ^ t')]
  have hm' : |(m : ℚ)| ≤ maxMantissa := by exact_mod_cast hm
  have hpow : (10 : ℚ) ^ (t + 1) ≤ 10 ^ t' := pow_le_pow_right₀ (by norm_num) hlt
  exact div_le_div₀ (by norm_num [maxMantissa]) hm' (by positivity) hpow

/-- **Results keep their order**, also where they are rounded at different scales. -/
theorem dec96_fit_mono {q q' v v' : ℚ} (h : q ≤ q') (hv : Arith.dec96.fit q = some v)
    (hv' : Arith.dec96.fit q' = some v') : v ≤ v' := by
  obtain ⟨t, ht, hm, rfl, hnext⟩ := dec96_fit_eq_some hv
  obtain ⟨t', ht', hm', rfl, hnext'⟩ := dec96_fit_eq_some hv'
  rcases lt_trichotomy t t' with hlt | rfl | hgt
  · have hlarge := hnext (by omega)
    have hneg : q < 0 := by
      by_contra hpos
      have hsmaller := abs_lt_of_scales hlt hm' hlarge
      rw [abs_of_nonneg (not_lt.mp hpos)] at hsmaller
      exact absurd (h.trans (le_abs_self q')) (not_le.mpr hsmaller)
    rw [abs_of_neg hneg] at hlarge
    exact (le_of_neg_large (by linarith)).trans (neg_le_of_abs_le (abs_div_le_of_scales hlt hm'))
  · rw [div_le_div_iff_of_pos_right (by positivity)]
    exact_mod_cast roundHalfEven_mono (mul_le_mul_of_nonneg_right h (by positivity))
  · have hlarge := hnext' (by omega)
    have hpos : 0 < q' := by
      by_contra hneg
      have hsmaller := abs_lt_of_scales hgt hm hlarge
      rw [abs_of_nonpos (not_lt.mp hneg), abs_of_nonpos (h.trans (not_lt.mp hneg))] at hsmaller
      linarith
    rw [abs_of_pos hpos] at hlarge
    exact (le_of_abs_le (abs_div_le_of_scales hgt hm)).trans (le_of_large hlarge)

theorem roundHalfEven_intCast (k : ℤ) : roundHalfEven k = k := by
  obtain ⟨hup, hlo, -⟩ := roundHalfEven_spec k
  have hle : k < roundHalfEven k + 1 := by
    have : (k : ℚ) < roundHalfEven k + 1 := by linarith
    exact_mod_cast this
  have hge : roundHalfEven k < k + 1 := by
    have : (roundHalfEven k : ℚ) < k + 1 := by linarith
    exact_mod_cast this
  omega

theorem roundHalfUp_intCast (k : ℤ) : roundHalfUp k = k := by
  have hhalf : ⌊(1 / 2 : ℚ)⌋ = 0 := by norm_num [Int.floor_eq_iff]
  unfold roundHalfUp
  split_ifs
  · rw [Int.floor_intCast_add, hhalf, add_zero]
  · rw [← Int.cast_neg, Int.floor_intCast_add, hhalf, add_zero, neg_neg]

/-- **Decimals stay.** A decimal is its own result. -/
theorem IsDecimal.fit_self {v : ℚ} (hv : IsDecimal v) : Arith.dec96.fit v = some v :=
  hv.findSome?_atScale roundHalfEven_intCast

theorem Decimal.round_self_iff {q : ℚ} : Decimal.round q = some q ↔ IsDecimal q :=
  ⟨isDecimal_of_findSome?, fun hq => hq.findSome?_atScale roundHalfUp_intCast⟩

/-- What is documented of `Decimal::from_str` on a text: what it reads is a decimal, and that of the
number the text denotes where a decimal holds it. -/
def Arith.ReadsNumber (A : Arith) (s : List Char) : Prop :=
  ∀ v, A.fromStr s = some v → IsDecimal v ∧ ∃ q, Decimal.scan s = some q ∧ (IsDecimal q → v = q)

theorem dec96_readsNumber (s : List Char) : Arith.dec96.ReadsNumber s := by
  intro v h
  obtain ⟨q, hq, hv⟩ := Option.bind_eq_some_iff.mp h
  refine ⟨isDecimal_of_findSome? hv, q, hq, fun hdecimal => ?_⟩
  exact Option.some.inj (hv.symm.trans (Decimal.round_self_iff.mpr hdecimal))

/-- A decimal at or below a result is at or below what the result is rounded to, also
where that has fewer digits after the point. -/
theorem IsDecimal.le_fit {v q w : ℚ} (hv : IsDecimal v) (hle : v ≤ q) (h : Arith.dec96.fit q = some w) : v ≤ w :=
  dec96_fit_mono hle hv.fit_self h

/-- A decimal at or above a result is at or above what the result is rounded to. -/
theorem IsDecimal.fit_le {v q w : ℚ} (hv : IsDecimal v) (hle : q ≤ v) (h : Arith.dec96.fit q = some w) : w ≤ v :=
  dec96_fit_mono hle h hv.fit_self

/-! ### What rounding loses -/

theorem dec96_fit_of_lt {q : ℚ} (h : |q| < 2 ^ 96 - 1 / 2) : ∃ w, Arith.dec96.fit q = some w :=
  Option.ne_none_iff_exists'.mp fun hnone => not_le.mpr h (dec96_fit_eq_none_iff.mp hnone)

theorem isDecimal_zero : IsDecimal 0 := ⟨0, 0, by decide, by omega, by simp⟩

theorem fit_nonneg {q w : ℚ} (hq : 0 ≤ q) (h : Arith.dec96.fit q = some w) : 0 ≤ w := isDecimal_zero.le_fit hq h

/-- Half a digit in the last place that a decimal can have. -/
def halfPlace : ℚ := 1 / (2 * 10 ^ 28)

/-- A result is positive exactly if it is not rounded to nothing: if it is more than half a digit in
the last place. -/
theorem fit_pos_iff {q w : ℚ} (h : Arith.dec96.fit q = some w) : 0 < w ↔ halfPlace < q := by
  constructor
  · intro hpos
    by_contra hle
    have hzero : Arith.dec96.fit halfPlace = some 0 := by decide +kernel
    exact absurd (dec96_fit_mono (not_lt.mp hle) h hzero) (not_le.mpr hpos)
  · intro hlt
    obtain ⟨t, ht, -, rfl, hnext⟩ := dec96_fit_eq_some h
    have hq : 0 < q := lt_trans (by norm_num [halfPlace]) hlt
    have hscaled : (1 : ℤ) - 1 / 2 < q * 10 ^ t := by
      rcases eq_or_lt_of_le ht with rfl | hlt28
      · unfold halfPlace at hlt
        norm_num at hlt ⊢
        linarith
      · -- one digit more would not fit, so there are digits enough
        have hlarge := hnext hlt28
        rw [abs_of_pos hq, pow_succ 10 t, ← mul_assoc] at hlarge
        rw [Int.cast_one]
        linarith
    have hone : (1 : ℚ) ≤ roundHalfEven (q * 10 ^ t) := by
      exact_mod_cast (le_roundHalfEven_iff (by decide)).mpr hscaled
    exact div_pos (lt_of_lt_of_le one_pos hone) (by positivity)

theorem fit_of_le {q q' w' : ℚ} (h0 : 0 ≤ q) (hle : q ≤ q') (h : Arith.dec96.fit q' = some w') :
    ∃ w, Arith.dec96.fit q = some w ∧ 0 ≤ w ∧ w ≤ w' := by
  have hlt : |q| < 2 ^ 96 - 1 / 2 := by
    have hq' : ¬ 2 ^ 96 - 1 / 2 ≤ |q'| := fun hlarge => by
      rw [dec96_fit_eq_none_iff.mpr hlarge] at h
      cases h
    rw [abs_of_nonneg h0]
    exact hle.trans_lt ((le_abs_self q').trans_lt (not_le.mp hq'))
  obtain ⟨w, hw⟩ := dec96_fit_of_lt hlt
  exact ⟨w, hw, fit_nonneg h0 hw, dec96_fit_mono hle hw h⟩

/-- A decimal other than zero is no smaller than one in the 28th place. -/
theorem IsDecimal.le_abs {v : ℚ} (hv : IsDecimal v) (hne : v ≠ 0) : 1 / 10 ^ 28 ≤ |v| := by
  obtain ⟨m, s, -, hs, rfl⟩ := hv
  have hm : (1 : ℚ) ≤ |(m : ℚ)| := by
    have : m ≠ 0 := by
      rintro rfl
      simp at hne
    exact_mod_cast Int.one_le_abs this
  rw [abs_div, abs_of_pos (by positivity : (0 : ℚ) < 10 ^ s)]
  exact div_le_div₀ (abs_nonneg _) hm (by positivity) (pow_le_pow_right₀ (by norm_num) hs)

/-- A result is off by no more than a digit in the 28th place, after the point or of all it
has. -/
theorem abs_fit_sub_le {q w : ℚ} (h : Arith.dec96.fit q = some w) : |w - q| ≤ max 1 |q| / 10 ^ 28 := by
  obtain ⟨t, ht, -, rfl, hnext⟩ := dec96_fit_eq_some h
  have hpos : (0 : ℚ) < 10 ^ t := by positivity
  have hhalf : |(roundHalfEven (q * 10 ^ t) : ℚ) / 10 ^ t - q| ≤ 1 / 2 / 10 ^ t := by
    obtain ⟨hup, hlo, -⟩ := roundHalfEven_spec (q * 10 ^ t)
    have hsub : (roundHalfEven (q * 10 ^ t) : ℚ) / 10 ^ t - q = (roundHalfEven (q * 10 ^ t) - q * 10 ^ t) / 10 ^ t := by
      rw [sub_div, mul_div_cancel_right₀ _ hpos.ne']
    rw [hsub, abs_div, abs_of_pos hpos]
    exact div_le_div_of_nonneg_right (abs_le.mpr ⟨by linarith, by linarith⟩) hpos.le
  refine hhalf.trans ?_
  rcases eq_or_lt_of_le ht with rfl | hlt
  · exact div_le_div_of_nonneg_right (le_max_of_le_left (by norm_num)) hpos.le
  · -- at a smaller scale the number is large
    have hlarge := hnext hlt
    rw [pow_succ 10 t, ← mul_assoc] at hlarge
    calc (1 : ℚ) / 2 / 10 ^ t ≤ |q| / 10 ^ 28 := by
          rw [div_le_div_iff₀ hpos (by positivity)]
          linarith
      _ ≤ max 1 |q| / 10 ^ 28 := div_le_div_of_nonneg_right (le_max_right _ _) (by positivity)

/-! ### Results in other units -/

section Shift

variable {q w : ℚ} {d : ℕ}

theorem exists_scale_of_lt (h : Arith.dec96.fit q = some w) (h0 : 0 ≤ q) (hlt : q * 10 ^ d < 2 ^ 96 - 1 / 2)
    (hd : d ≤ 28) : ∃ t ≤ 28, d ≤ t ∧ |roundHalfEven (q * 10 ^ t)| ≤ maxMantissa ∧
      w * 10 ^ d = roundHalfEven (q * 10 ^ t) / 10 ^ (t - d) ∧ (t < 28 → 2 ^ 96 - 1 / 2 ≤ q * 10 ^ (t + 1)) := by
  obtain ⟨t, ht, hfits, rfl, hnext⟩ := dec96_fit_eq_some h
  rw [abs_of_nonneg h0] at hnext
  have hdt : d ≤ t := by
    by_contra hlow
    have hpow : (10 : ℚ) ^ (t + 1) ≤ 10 ^ d := pow_le_pow_right₀ (by norm_num) (by omega)
    linarith [hnext (by omega), mul_le_mul_of_nonneg_left hpow h0]
  refine ⟨t, ht, hdt, hfits, ?_, hnext⟩
  generalize roundHalfEven (q * 10 ^ t) = m
  rw [div_mul_eq_mul_div, div_eq_div_iff (by positivity) (by positivity), mul_assoc, ← pow_add, Nat.add_sub_cancel' hdt]

/-- **Units of the last digits.** A result of which the exact number fits with `d` digits more is a decimal in units
of them, and within a half of it. -/
theorem shift_of_lt (h : Arith.dec96.fit q = some w) (h0 : 0 ≤ q) (hlt : q * 10 ^ d < 2 ^ 96 - 1 / 2) (hd : d ≤ 28) :
    Arith.dec96.fit (w * 10 ^ d) = some (w * 10 ^ d) ∧ |w * 10 ^ d - q * 10 ^ d| ≤ 1 / 2 := by
  obtain ⟨t, ht, hdt, hfits, hw, -⟩ := exists_scale_of_lt h h0 hlt hd
  have hdecimal : IsDecimal (w * 10 ^ d) := ⟨_, t - d, hfits, by omega, hw⟩
  refine ⟨hdecimal.fit_self, ?_⟩
  have hq : q * 10 ^ d = q * 10 ^ t / 10 ^ (t - d) := by
    rw [eq_div_iff (by positivity), mul_assoc, ← pow_add, Nat.add_sub_cancel' hdt]
  obtain ⟨hup, hlo, -⟩ := roundHalfEven_spec (q * 10 ^ t)
  rw [hw, hq, ← sub_div, abs_div, abs_of_pos (by positivity : (0 : ℚ) < 10 ^ (t - d))]
  refine (div_le_self (abs_nonneg _) (one_le_pow₀ (by norm_num))).trans ?_
  exact abs_le.mpr ⟨by linarith, by linarith⟩

/-- What does not fit in those units does not fit when it is rounded first. -/
theorem shift_of_large (h : Arith.dec96.fit q = some w) (h0 : 0 ≤ q) (hlarge : 2 ^ 96 - 1 / 2 ≤ q * 10 ^ d)
    (hd : d ≤ 28) : Arith.dec96.fit (w * 10 ^ d) = none := by
  obtain ⟨t, ht, hfits, rfl, hnext⟩ := dec96_fit_eq_some h
  have hsmall := abs_roundHalfEven_le_iff.mp hfits
  rw [abs_of_nonneg h0] at hnext
  rw [abs_of_nonneg (by positivity)] at hsmall
  have htd : t < d := by
    by_contra hge
    have hpow : (10 : ℚ) ^ d ≤ 10 ^ t := pow_le_pow_right₀ (by norm_num) (not_lt.mp hge)
    linarith [mul_le_mul_of_nonneg_left hpow h0]
  -- the mantissa is more than a tenth of the largest, and is multiplied by ten at least
  have hround : (7922816251426433759354395034 : ℚ) ≤ roundHalfEven (q * 10 ^ t) := by
    exact_mod_cast lt_round_of_large (hnext (by omega))
  have hpow : (10 : ℚ) ^ 1 ≤ 10 ^ (d - t) := pow_le_pow_right₀ (by norm_num) (by omega)
  have hunits : (roundHalfEven (q * 10 ^ t) : ℚ) / 10 ^ t * 10 ^ d = roundHalfEven (q * 10 ^ t) * 10 ^ (d - t) := by
    rw [div_mul_eq_mul_div, div_eq_iff (by positivity), mul_assoc, ← pow_add, Nat.sub_add_cancel htd.le]
  rw [hunits, dec96_fit_eq_none_iff, abs_of_nonneg (mul_nonneg (by linarith) (by positivity))]
  calc (2 ^ 96 - 1 / 2 : ℚ) ≤ 7922816251426433759354395034 * 10 ^ 1 := by norm_num
    _ ≤ (roundHalfEven (q * 10 ^ t) : ℚ) * 10 ^ (d - t) := mul_le_mul hround hpow (by positivity) (by linarith)

/-- **Below a whole number.** A result is below a small number of units exactly if the exact one is, by more than
half of the last digit. -/
theorem shift_lt_iff (h : Arith.dec96.fit q = some w) (h0 : 0 ≤ q) (hd : 4 ≤ d) (hd' : d < 28) {N : ℕ}
    (hN : N ≤ 10 ^ 4) : w * 10 ^ d < N ↔ q * 10 ^ d < N - 1 / (2 * 10 ^ (28 - d)) := by
  have hhalf : (0 : ℚ) < 1 / (2 * 10 ^ (28 - d)) := by positivity
  have hN' : (N : ℚ) ≤ 10 ^ 4 := by exact_mod_cast hN
  rcases le_or_gt (N : ℚ) (q * 10 ^ d) with hle | hlt
  · have hdecimal : IsDecimal (N / 10 ^ d) := by
      refine ⟨N, d, ?_, by omega, by simp⟩
      rw [Nat.abs_cast]
      exact (Int.ofNat_le.mpr hN).trans (by decide)
    have hge := hdecimal.le_fit ((div_le_iff₀ (by positivity)).mpr hle) h
    rw [div_le_iff₀ (by positivity)] at hge
    exact iff_of_false (not_lt.mpr hge) (by linarith)
  · have hsplit : (10 : ℚ) ^ 28 = 10 ^ d * 10 ^ (28 - d) := by rw [← pow_add, Nat.add_sub_cancel' hd'.le]
    have hall : q * 10 ^ 28 < 2 ^ 96 - 1 / 2 := by
      have hpow : (10 : ℚ) ^ (28 - d) ≤ 10 ^ 24 := pow_le_pow_right₀ (by norm_num) (by omega)
      calc q * 10 ^ 28 = q * 10 ^ d * 10 ^ (28 - d) := by rw [hsplit, mul_assoc]
        _ ≤ 10 ^ 4 * 10 ^ 24 := mul_le_mul (by linarith) hpow (by positivity) (by positivity)
        _ < 2 ^ 96 - 1 / 2 := by norm_num
    obtain ⟨t, ht, hdt, -, hw, hnext⟩ := exists_scale_of_lt h h0 (d := d) (by linarith) hd'.le
    -- so small a number keeps all its digits
    obtain rfl : t = 28 := by
      by_contra hne
      have hpow : (10 : ℚ) ^ (t + 1) ≤ 10 ^ 28 := pow_le_pow_right₀ (by norm_num) (by omega)
      linarith [hnext (by omega), mul_le_mul_of_nonneg_left hpow h0]
    have hodd : ((N : ℤ) * 10 ^ (28 - d) - 1) % 2 = 1 := by
      obtain ⟨s, hs⟩ : ∃ s, 28 - d = s + 1 := ⟨27 - d, by omega⟩
      rw [hs, pow_succ, ← mul_assoc]
      omega
    have hpos : (0 : ℚ) < 10 ^ (28 - d) := by positivity
    have hmantissa : ((roundHalfEven (q * 10 ^ 28) : ℤ) : ℚ) < N * 10 ^ (28 - d) ↔
        roundHalfEven (q * 10 ^ 28) ≤ N * 10 ^ (28 - d) - 1 := by
      rw [Int.le_sub_one_iff]
      exact_mod_cast Iff.rfl
    have hunit : 1 / (2 * 10 ^ (28 - d)) * 10 ^ (28 - d) = (1 / 2 : ℚ) := by field_simp
    have hexact : q * 10 ^ d < N - 1 / (2 * 10 ^ (28 - d)) ↔ q * 10 ^ 28 < N * 10 ^ (28 - d) - 1 / 2 := by
      rw [← mul_lt_mul_iff_left₀ hpos, sub_mul, hunit, hsplit, mul_assoc]
    rw [hw, div_lt_iff₀ hpos, hmantissa, roundHalfEven_le_iff hodd, hexact]
    push_cast
    constructor <;> intro hlt <;> linarith

end Shift

/-! ### Whole mantissas -/

/-- `Decimal::try_from_i128_with_scale`, its error as its text. -/
def Decimal.tryFromI128WithScale {ε : Type} (num : ℤ) (scale : ℕ) (error : String → ε) : Outcome ε ℚ := do
  .reject (scale > 28) (error s!"Scale exceeds the maximum precision allowed: {scale} > 28")
  .reject (num > maxMantissa) (error "Number exceeds maximum value that can be represented.")
  .reject (num < -maxMantissa) (error "Number less than minimum value that can be represented.")
  return num / 10 ^ scale

theorem Decimal.tryFromI128WithScale_eq_ok {ε : Type} {num : ℤ} {scale : ℕ} {error : String → ε} {d : ℚ} :
    tryFromI128WithScale num scale error = .ok d ↔ scale ≤ 28 ∧ |num| ≤ maxMantissa ∧ d = num / 10 ^ scale := by
  unfold tryFromI128WithScale
  simp only [Outcome.bind_eq_ok, Outcome.reject_eq_ok, exists_const, Outcome.pure_eq_ok, Outcome.ok.injEq, not_lt,
    gt_iff_lt, abs_le, eq_comm (a := d)]
  tauto

theorem Decimal.tryFromI128WithScale_ne_panic {ε : Type} {num : ℤ} {scale : ℕ} {error : String → ε} :
    tryFromI128WithScale num scale error ≠ .panic := by
  simp [tryFromI128WithScale, Outcome.bind_eq_panic]

namespace Decimal

/-! ### `Display` -/

/-- The text of a decimal, at the smallest scale that holds it. A `Decimal`
also keeps the zeros it was computed with; they are not part of its value. -/
def display (q : ℚ) : String :=
  let scale := ((List.range 29).find? fun s => (q * 10 ^ s).isInt).getD 28
  let digits := (toString (q * 10 ^ scale).floor.natAbs).toList.leftpad (scale + 1) '0'
  let whole := digits.take (digits.length - scale)
  let part := digits.drop (digits.length - scale)
  (if q < 0 then "-" else "") ++ String.ofList whole ++
    if scale = 0 then "" else "." ++ String.ofList part

example : [display (-3 / 2), display 100, display (5 / 1000)] = ["-1.5", "100", "0.005"] := by decide +kernel

end Decimal

end Sherwood
