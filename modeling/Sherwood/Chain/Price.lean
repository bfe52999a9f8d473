/-
# The price of a pool

A pool holds `sqrtPriceX96`, the root of its price times `2^96`. The code drops the low 48
bits of it, divides by `2^48`, squares and shifts by the difference of the decimals, each a
`Decimal` operation (`shiftedPrice`). Whoever makes the pool chooses the price, and a token its
decimals, so all three are any numbers.

Of these operations only the last product can fail, and it panics (`price_panic_iff`); a price that is returned
is inverted without one. The price is off where the low bits are much of the root, or where it is
small against a `Decimal`'s last place (`price_accuracy`); a price that is neither is within `2^-40`
(`price_accurate_of_large`).

Key definitions: `priceFromSqrtPriceX96`, `orient`, `shiftedPrice`, `exactPrice`, `dropped`, `rounding`.
Key theorems: `priceFromSqrtPriceX96_eq`, `shiftedPrice_eq_none_iff`, `price_panic_iff`, `abs_shiftedPrice_sub_le`,
`price_accuracy`, `price_accurate_of_large`.
-/
import Mathlib.Algebra.Order.Field.Power
import Sherwood.Chain.Amount

namespace Sherwood.Chain

def u128ToDecimal (v : BitVec 128) : Outcome ChainError ℚ := do
  .reject (v.toNat ≥ 2 ^ 127) (.decode "value exceeds Decimal (128-bit signed)")
  Decimal.tryFromI128WithScale v.toNat 0 fun e => .decode s!"value exceeds Decimal: {e}"

/-- The loop of `pow10`. -/
def timesTen : ℕ → ℚ → Outcome ChainError ℚ
  | 0, r => .ok r
  | n + 1, r => do timesTen n (← Arith.dec96.mul r 10)

def pow10 (exp : ℤ) : Outcome ChainError ℚ := do
  .reject (¬ (0 ≤ exp ∧ exp ≤ 28)) (.decode s!"decimal-adjustment exponent {exp} out of supported range")
  timesTen exp.toNat 1

def priceFromSqrtPriceX96 (sqrtPriceX96 : BitVec 128) (decimals0 decimals1 : UInt8) : Outcome ChainError ℚ := do
  let hi ← u128ToDecimal (sqrtPriceX96 >>> 48)
  let divisor ← u128ToDecimal ((1 : BitVec 128) <<< (96 - 48))
  let ratio ← Arith.dec96.div hi divisor
  let rawPrice ← Arith.dec96.mul ratio ratio
  let scale : ℤ := decimals0.toNat - decimals1.toNat
  if scale ≥ 0 then Arith.dec96.mul rawPrice (← pow10 scale)
  else Arith.dec96.div rawPrice (← pow10 (-scale))

/-- The end of `quote_pool`: the price of the token in the other currency. -/
def orient (tokenIsCurrency0 : Bool) (price1Per0 : ℚ) : Outcome ChainError ℚ :=
  if tokenIsCurrency0 then .ok price1Per0
  else if price1Per0 = 0 then .err (.decode "pool price is zero")
  else Arith.dec96.div 1 price1Per0

/-! ### One formula -/

/-- The price as three results, each rounded: of the high bits, and shifted by `k` decimals. -/
def shiftedPrice (hi : ℕ) (k : ℤ) : Option ℚ :=
  (Arith.dec96.fit (hi / 2 ^ 48)).bind fun ratio => (Arith.dec96.fit (ratio * ratio)).bind fun raw =>
    Arith.dec96.fit (raw * 10 ^ k)

/-- By how many decimals a price is shifted. -/
def shift (decimals0 decimals1 : UInt8) : ℤ := decimals0.toNat - decimals1.toNat

theorem u128ToDecimal_eq {v : BitVec 128} (h : (v.toNat : ℤ) ≤ maxMantissa) : u128ToDecimal v = .ok v.toNat := by
  have habs : |((v.toNat : ℕ) : ℤ)| = v.toNat := abs_of_nonneg (by omega)
  have hsmall : ¬ v.toNat ≥ 2 ^ 127 := by
    unfold maxMantissa at h
    omega
  have hfrom : (Decimal.tryFromI128WithScale v.toNat 0 fun e => ChainError.decode s!"value exceeds Decimal: {e}") =
      .ok (v.toNat : ℚ) := Decimal.tryFromI128WithScale_eq_ok.mpr ⟨by omega, by rwa [habs], by simp⟩
  rw [u128ToDecimal, Outcome.reject, if_neg hsmall, Outcome.ok_bind, hfrom]

theorem isDecimal_pow10 {m : ℕ} (h : m ≤ 28) : IsDecimal (10 ^ m) := by
  have hle : (10 : ℤ) ^ m ≤ 10 ^ 28 := pow_le_pow_right₀ (by norm_num) h
  refine ⟨10 ^ m, 0, ?_, by omega, by simp⟩
  rw [abs_of_pos (by positivity)]
  exact hle.trans (by decide)

theorem timesTen_eq {n m : ℕ} (h : m + n ≤ 28) : timesTen n (10 ^ m) = .ok (10 ^ (m + n)) := by
  induction n generalizing m with
  | zero => rfl
  | succ n ih =>
    have hmul : (Arith.dec96.mul (10 ^ m) 10 : Outcome ChainError ℚ) = .ok (10 ^ (m + 1)) := by
      rw [Arith.mul, ← pow_succ, (isDecimal_pow10 (by omega)).fit_self]
      rfl
    rw [timesTen, hmul, Outcome.ok_bind, ih (by omega), Nat.add_right_comm, Nat.add_assoc]

theorem pow10_eq {exp : ℤ} (h0 : 0 ≤ exp) (h28 : exp ≤ 28) : pow10 exp = .ok (10 ^ exp) := by
  have hloop := timesTen_eq (n := exp.toNat) (m := 0) (by omega)
  rw [pow_zero, Nat.zero_add, ← zpow_natCast, Int.toNat_of_nonneg h0] at hloop
  rw [pow10, Outcome.reject, if_neg (not_not.mpr ⟨h0, h28⟩), Outcome.ok_bind, hloop]

theorem pow10_of_lt {exp : ℤ} (h : 28 < exp) :
    pow10 exp = .err (.decode s!"decimal-adjustment exponent {exp} out of supported range") := by
  rw [pow10, Outcome.reject, if_pos (by omega)]
  rfl

theorem hi_lt (sqrtPriceX96 : BitVec 128) : sqrtPriceX96.toNat / 2 ^ 48 < 2 ^ 80 := by
  have := sqrtPriceX96.isLt
  omega

theorem shiftedPrice_mono {hi hi' : ℕ} {k k' : ℤ} {price' : ℚ} (hhi : hi ≤ hi') (hk : k ≤ k')
    (h : shiftedPrice hi' k' = some price') : ∃ price, shiftedPrice hi k = some price ∧ 0 ≤ price ∧ price ≤ price' := by
  obtain ⟨ratio', hratio', h⟩ := Option.bind_eq_some_iff.mp h
  obtain ⟨raw', hraw', hprice'⟩ := Option.bind_eq_some_iff.mp h
  have hle : (hi : ℚ) ≤ hi' := by exact_mod_cast hhi
  obtain ⟨ratio, hratio, hratio0, hratiole⟩ :=
    fit_of_le (by positivity) (div_le_div_of_nonneg_right hle (by positivity : (0 : ℚ) ≤ 2 ^ 48)) hratio'
  obtain ⟨raw, hraw, hraw0, hrawle⟩ := fit_of_le (by positivity) (mul_self_le_mul_self hratio0 hratiole) hraw'
  have hpow : (10 : ℚ) ^ k ≤ 10 ^ k' := zpow_le_zpow_right₀ (by norm_num) hk
  obtain ⟨price, hprice, hprice0, hpricele⟩ :=
    fit_of_le (by positivity) (mul_le_mul hrawle hpow (by positivity) (hraw0.trans hrawle)) hprice'
  exact ⟨price, by rw [shiftedPrice, hratio, Option.bind_some, hraw, Option.bind_some, hprice], hprice0, hpricele⟩

theorem shiftedPrice_natCast (hi k : ℕ) : shiftedPrice hi k = (Arith.dec96.fit (hi / 2 ^ 48)).bind fun ratio =>
    (Arith.dec96.fit (ratio * ratio)).bind fun raw => Arith.dec96.fit (raw * 10 ^ k) := by
  simp only [shiftedPrice, zpow_natCast]

/-- The largest price there is, shifted by nine decimals, fits. -/
theorem shiftedPrice_largest : ∃ price, shiftedPrice (2 ^ 80 - 1) (9 : ℕ) = some price := by
  rw [shiftedPrice_natCast, ← Option.isSome_iff_exists]
  decide +kernel

theorem rawPrice_isSome {hi : ℕ} (h : hi < 2 ^ 80) : ∃ ratio raw, Arith.dec96.fit (hi / 2 ^ 48) = some ratio ∧
    Arith.dec96.fit (ratio * ratio) = some raw := by
  obtain ⟨_, hlargest⟩ := shiftedPrice_largest
  obtain ⟨_, hprice, -⟩ := shiftedPrice_mono (Nat.le_sub_one_of_lt h) le_rfl hlargest
  obtain ⟨ratio, hratio, hprice⟩ := Option.bind_eq_some_iff.mp hprice
  obtain ⟨raw, hraw, -⟩ := Option.bind_eq_some_iff.mp hprice
  exact ⟨ratio, raw, hratio, hraw⟩

theorem priceFromSqrtPriceX96_eq (sqrtPriceX96 : BitVec 128) (decimals0 decimals1 : UInt8) :
    priceFromSqrtPriceX96 sqrtPriceX96 decimals0 decimals1 =
      if |shift decimals0 decimals1| ≤ 28 then
        .unwrap (shiftedPrice (sqrtPriceX96.toNat / 2 ^ 48) (shift decimals0 decimals1))
      else .err (.decode
        s!"decimal-adjustment exponent {|shift decimals0 decimals1|} out of supported range") := by
  have hlt := hi_lt sqrtPriceX96
  have hhi : u128ToDecimal (sqrtPriceX96 >>> 48) = .ok ((sqrtPriceX96.toNat / 2 ^ 48 : ℕ) : ℚ) := by
    have hvalue : (sqrtPriceX96 >>> 48).toNat = sqrtPriceX96.toNat / 2 ^ 48 := by
      rw [BitVec.toNat_ushiftRight, Nat.shiftRight_eq_div_pow]
    rw [u128ToDecimal_eq (by rw [hvalue]; unfold maxMantissa; omega), hvalue]
  have hdivisor : u128ToDecimal ((1 : BitVec 128) <<< (96 - 48)) = .ok (2 ^ 48) := by
    rw [u128ToDecimal_eq (by decide)]
    exact congrArg Outcome.ok (by norm_num [show ((1 : BitVec 128) <<< (96 - 48)).toNat = 2 ^ 48 from rfl])
  obtain ⟨ratio, raw, hratio, hraw⟩ := rawPrice_isSome hlt
  have hdiv : (Arith.dec96.div ((sqrtPriceX96.toNat / 2 ^ 48 : ℕ) : ℚ) (2 ^ 48) : Outcome ChainError ℚ) =
      .ok ratio := by
    rw [Arith.div, if_neg (by norm_num), hratio]
    rfl
  have hmul : (Arith.dec96.mul ratio ratio : Outcome ChainError ℚ) = .ok raw := by
    rw [Arith.mul, hraw]
    rfl
  have hshifted : shiftedPrice (sqrtPriceX96.toNat / 2 ^ 48) (shift decimals0 decimals1) =
      Arith.dec96.fit (raw * 10 ^ shift decimals0 decimals1) := by
    rw [shiftedPrice, hratio, Option.bind_some, hraw, Option.bind_some]
  rw [priceFromSqrtPriceX96, hhi, Outcome.ok_bind, hdivisor, Outcome.ok_bind, hdiv, Outcome.ok_bind, hmul,
    Outcome.ok_bind, hshifted]
  show (if shift decimals0 decimals1 ≥ 0 then pow10 (shift decimals0 decimals1) >>= fun p => Arith.dec96.mul raw p
    else pow10 (-shift decimals0 decimals1) >>= fun p => Arith.dec96.div raw p) = _
  generalize shift decimals0 decimals1 = k
  rcases le_or_gt 0 k with hk | hk
  · rw [if_pos hk, abs_of_nonneg hk]
    split
    · next h28 => rw [pow10_eq hk h28, Outcome.ok_bind, Arith.mul]
    · next h28 => rw [pow10_of_lt (by omega), Outcome.err_bind]
  · rw [if_neg (by omega), abs_of_neg hk]
    split
    · next h28 =>
      rw [pow10_eq (by omega) h28, Outcome.ok_bind, Arith.div, if_neg (by positivity), zpow_neg, div_inv_eq_mul]
    · next h28 => rw [pow10_of_lt (by omega), Outcome.err_bind]

/-! ### What panics -/

/-- The price would be no less than `2^96 - 1/2`. -/
def Overflows (hi k : ℕ) : Prop := (2 ^ 97 - 1) * 2 ^ 95 ≤ hi ^ 2 * 10 ^ k

instance (hi k : ℕ) : Decidable (Overflows hi k) := inferInstanceAs (Decidable (_ ≤ _))

theorem Overflows.mono {hi hi' k : ℕ} (hle : hi ≤ hi') (h : Overflows hi k) : Overflows hi' k :=
  le_trans h (Nat.mul_le_mul_right _ (Nat.pow_le_pow_left hle 2))

/-- From which high bits on a price shifted by ten decimals, and by each number up to 28, does
not fit. -/
def overflowsFrom : List ℕ :=
  [792281625142643375935440, 250541448375047931186414, 79228162514264337593544, 25054144837504793118642,
    7922816251426433759355, 2505414483750479311865, 792281625142643375936, 250541448375047931187,
    79228162514264337594, 25054144837504793119, 7922816251426433760, 2505414483750479312, 792281625142643376,
    250541448375047932, 79228162514264338, 25054144837504794, 7922816251426434, 2505414483750480, 792281625142644]

/-- `first` is the first number of high bits that does not fit, and the first that overflows. -/
def Separates (first k : ℕ) : Prop :=
  shiftedPrice first k = none ∧ Overflows first k ∧ (shiftedPrice (first - 1) k).isSome ∧ ¬ Overflows (first - 1) k

/-- Both change at one number, since the first has no predecessor that does not fit. -/
theorem Separates.shiftedPrice_eq_none_iff {first k hi : ℕ} (h : Separates first k) :
    shiftedPrice hi k = none ↔ Overflows hi k := by
  obtain ⟨hnone, hover, hsome, hunder⟩ := h
  rcases Nat.lt_or_ge hi first with hlt | hge
  · obtain ⟨_, hbelow⟩ := Option.isSome_iff_exists.mp hsome
    obtain ⟨_, hprice, -⟩ := shiftedPrice_mono (Nat.le_sub_one_of_lt hlt) le_rfl hbelow
    have hover' : ¬ Overflows hi k := fun hhi => hunder (hhi.mono (Nat.le_sub_one_of_lt hlt))
    simp [hprice, hover']
  · have hnone' : shiftedPrice hi k = none := by
      cases hhi : shiftedPrice hi k with
      | none => rfl
      | some price =>
        obtain ⟨_, hprice, -⟩ := shiftedPrice_mono hge le_rfl hhi
        rw [hnone] at hprice
        cases hprice
    exact iff_of_true hnone' (hover.mono hge)

theorem separates_overflowsFrom (i : Fin overflowsFrom.length) : Separates (overflowsFrom.get i) (10 + i) := by
  have hcheck : ∀ i, Overflows (overflowsFrom.get i) (10 + i) ∧ ¬ Overflows (overflowsFrom.get i - 1) (10 + i) := by
    decide +kernel
  have hprices : ∀ i, shiftedPrice (overflowsFrom.get i) (10 + i : ℕ) = none ∧
      (shiftedPrice (overflowsFrom.get i - 1) (10 + i : ℕ)).isSome := by
    simp only [shiftedPrice_natCast]
    decide +kernel
  exact ⟨(hprices i).1, (hcheck i).1, (hprices i).2, (hcheck i).2⟩

theorem not_overflows_of_small {hi k : ℕ} (hhi : hi < 2 ^ 80) (hk : k < 10) : ¬ Overflows hi k := by
  have hlargest : ¬ Overflows (2 ^ 80 - 1) 9 := by decide
  intro h
  refine hlargest ((h.trans (Nat.mul_le_mul_left _ (Nat.pow_le_pow_right (by omega) (Nat.lt_succ_iff.mp hk)))).trans ?_)
  exact Nat.mul_le_mul_right _ (Nat.pow_le_pow_left (Nat.le_sub_one_of_lt hhi) 2)

theorem shiftedPrice_eq_none_iff {hi : ℕ} {k : ℤ} (hhi : hi < 2 ^ 80) (h28 : k ≤ 28) :
    shiftedPrice hi k = none ↔ ∃ n : ℕ, k = n ∧ Overflows hi n := by
  obtain ⟨_, hlargest⟩ := shiftedPrice_largest
  rcases le_or_gt k 9 with hsmall | hlarge
  · obtain ⟨_, hprice, -⟩ := shiftedPrice_mono (Nat.le_sub_one_of_lt hhi) hsmall hlargest
    simp only [hprice, reduceCtorEq, false_iff, not_exists, not_and]
    rintro n rfl
    exact not_overflows_of_small hhi (by omega)
  · obtain ⟨n, rfl⟩ := Int.eq_ofNat_of_zero_le (by omega : 0 ≤ k)
    have hsep := separates_overflowsFrom ⟨n - 10, show n - 10 < 19 by omega⟩
    rw [show 10 + (n - 10) = n by omega] at hsep
    rw [hsep.shiftedPrice_eq_none_iff]
    simp

theorem shift_eq_iff {decimals0 decimals1 : UInt8} {n : ℕ} :
    shift decimals0 decimals1 = n ↔ decimals0.toNat = decimals1.toNat + n := by
  unfold shift
  omega

theorem priceFromSqrtPriceX96_eq_panic_iff {sqrtPriceX96 : BitVec 128} {decimals0 decimals1 : UInt8} :
    priceFromSqrtPriceX96 sqrtPriceX96 decimals0 decimals1 = .panic ↔ ∃ k ≤ 28,
      decimals0.toNat = decimals1.toNat + k ∧ Overflows (sqrtPriceX96.toNat / 2 ^ 48) k := by
  rw [priceFromSqrtPriceX96_eq]
  split
  · next h28 =>
    rw [Outcome.unwrap_eq_panic, shiftedPrice_eq_none_iff (hi_lt _) (abs_le.mp h28).2]
    simp only [shift_eq_iff]
    constructor
    · rintro ⟨k, hshift, hover⟩
      have := shift_eq_iff.mpr hshift
      exact ⟨k, by have := (abs_le.mp h28).2; omega, hshift, hover⟩
    · rintro ⟨k, -, hshift, hover⟩
      exact ⟨k, hshift, hover⟩
  · next h28 =>
    simp only [reduceCtorEq, false_iff]
    rintro ⟨k, hk, hshift, -⟩
    have := shift_eq_iff.mpr hshift
    exact h28 (by rw [this, abs_of_nonneg (by omega)]; omega)

theorem isDecimal_of_price {sqrtPriceX96 : BitVec 128} {decimals0 decimals1 : UInt8} {price : ℚ}
    (h : priceFromSqrtPriceX96 sqrtPriceX96 decimals0 decimals1 = .ok price) : IsDecimal price := by
  rw [priceFromSqrtPriceX96_eq] at h
  split at h
  · rw [Outcome.unwrap_eq_ok] at h
    obtain ⟨ratio, -, h⟩ := Option.bind_eq_some_iff.mp h
    obtain ⟨raw, -, h⟩ := Option.bind_eq_some_iff.mp h
    exact isDecimal_fit h
  · cases h

theorem shiftedPrice_nonneg {hi : ℕ} {k : ℤ} {price : ℚ} (h : shiftedPrice hi k = some price) : 0 ≤ price := by
  obtain ⟨price', hprice, h0, -⟩ := shiftedPrice_mono le_rfl le_rfl h
  rw [h] at hprice
  exact (Option.some.inj hprice).symm ▸ h0

theorem orient_nonneg {tokenIsCurrency0 : Bool} {price1Per0 price : ℚ} (h0 : 0 ≤ price1Per0)
    (h : orient tokenIsCurrency0 price1Per0 = .ok price) : 0 ≤ price := by
  unfold orient at h
  split_ifs at h with hcurrency hzero
  · exact Outcome.ok.inj h ▸ h0
  · rw [Arith.div, if_neg hzero, Outcome.unwrap_eq_ok] at h
    exact fit_nonneg (by positivity) h

/-- One over a decimal is no more than `10^28`. -/
theorem orient_ne_panic {tokenIsCurrency0 : Bool} {price : ℚ} (h : IsDecimal price) :
    orient tokenIsCurrency0 price ≠ .panic := by
  unfold orient
  split
  · simp
  · split
    · simp
    · next hne =>
      have hsmall : |1 / price| < 2 ^ 96 - 1 / 2 := by
        have hle := one_div_le_one_div_of_le (by positivity) (h.le_abs hne)
        rw [one_div_one_div] at hle
        rw [abs_div, abs_one]
        exact hle.trans_lt (by norm_num)
      obtain ⟨inverse, hinverse⟩ := dec96_fit_of_lt hsmall
      rw [Arith.div, if_neg hne, hinverse]
      simp [Outcome.unwrap]

/-- Price and inverted price are computed without a panic. -/
def PriceTotal (sqrtPriceX96 : BitVec 128) (decimals0 decimals1 : UInt8) : Prop :=
  priceFromSqrtPriceX96 sqrtPriceX96 decimals0 decimals1 ≠ .panic ∧
    ∀ price, priceFromSqrtPriceX96 sqrtPriceX96 decimals0 decimals1 = .ok price →
      ∀ tokenIsCurrency0, orient tokenIsCurrency0 price ≠ .panic

theorem pow10_ne_panic (exp : ℤ) : pow10 exp ≠ .panic := by
  by_cases h : 0 ≤ exp ∧ exp ≤ 28
  · rw [pow10_eq h.1 h.2]
    simp
  · rw [pow10, Outcome.reject, if_pos h, Outcome.err_bind]
    simp

/-- **No panic.** A price is computed exactly if it is not shifted up to `2^96 - 1/2` or more.
That is all that can panic: no number of high bits overflows as a ratio or its square, no
power of ten does, and no price does when it is inverted. -/
theorem price_panic_iff (sqrtPriceX96 : BitVec 128) (decimals0 decimals1 : UInt8) :
    (PriceTotal sqrtPriceX96 decimals0 decimals1 ↔
      ¬ ∃ k ≤ 28, decimals0.toNat = decimals1.toNat + k ∧ Overflows (sqrtPriceX96.toNat / 2 ^ 48) k) ∧
    (∃ ratio raw, Arith.dec96.fit ((sqrtPriceX96.toNat / 2 ^ 48 : ℕ) / 2 ^ 48) = some ratio ∧
      Arith.dec96.fit (ratio * ratio) = some raw) ∧
    ∀ exp, pow10 exp ≠ .panic := by
  refine ⟨?_, rawPrice_isSome (hi_lt _), pow10_ne_panic⟩
  rw [← priceFromSqrtPriceX96_eq_panic_iff]
  exact ⟨fun h => h.1, fun h => ⟨h, fun _ hprice _ => orient_ne_panic (isDecimal_of_price hprice)⟩⟩

/-- At a price of 16, and with 28 decimals more, it panics. -/
theorem large_price_panics : ¬ ∀ sqrtPriceX96 decimals0 decimals1, PriceTotal sqrtPriceX96 decimals0 decimals1 := by
  intro hclaim
  refine (hclaim (.ofNat 128 (2 ^ 98)) 28 0).1 (priceFromSqrtPriceX96_eq_panic_iff.mpr ⟨28, le_rfl, rfl, ?_⟩)
  decide

/-! ### What is lost -/

/-- The price that `sqrtPriceX96` stands for. -/
def exactPrice (sqrtPriceX96 : ℕ) (k : ℤ) : ℚ := (sqrtPriceX96 / 2 ^ 96) ^ 2 * 10 ^ k

/-- The part of the price that the low 48 bits make up. -/
def dropped (sqrtPriceX96 : ℕ) (k : ℤ) : ℚ :=
  exactPrice sqrtPriceX96 k - exactPrice (sqrtPriceX96 / 2 ^ 48 * 2 ^ 48) k

/-- What three results can be off: one in the 28th place each, of the root twice, the square
and, where it is not shifted into sight, the price. -/
def rounding (sqrtPriceX96 : ℕ) (k : ℤ) : ℚ :=
  (7 * (max 1 (((sqrtPriceX96 / 2 ^ 48 : ℕ) : ℚ) / 2 ^ 48) ^ 2 * 10 ^ k) + 1) / 10 ^ 28

theorem exactPrice_high (sqrtPriceX96 : ℕ) (k : ℤ) : exactPrice (sqrtPriceX96 / 2 ^ 48 * 2 ^ 48) k =
    (((sqrtPriceX96 / 2 ^ 48 : ℕ) : ℚ) / 2 ^ 48) ^ 2 * 10 ^ k := by
  rw [exactPrice, Nat.cast_mul, Nat.cast_pow, Nat.cast_ofNat, show (2 : ℚ) ^ 96 = 2 ^ 48 * 2 ^ 48 by norm_num,
    mul_div_mul_right _ _ (by positivity)]

theorem exactPrice_mono {m n : ℕ} (h : m ≤ n) (k : ℤ) : exactPrice m k ≤ exactPrice n k := by
  have hle : (m : ℚ) ≤ n := by exact_mod_cast h
  unfold exactPrice
  gcongr

theorem exactPrice_pos {n : ℕ} (h : 0 < n) (k : ℤ) : 0 < exactPrice n k := by
  have hpos : (0 : ℚ) < n := by exact_mod_cast h
  unfold exactPrice
  positivity

theorem dropped_nonneg (sqrtPriceX96 : ℕ) (k : ℤ) : 0 ≤ dropped sqrtPriceX96 k :=
  sub_nonneg.mpr (exactPrice_mono (Nat.div_mul_le_self _ _) k)

/-- The square of a rounded root is off by no more than five in the 28th place. -/
theorem abs_rawPrice_sub_le {x ratio raw : ℚ} (hx : 0 ≤ x) (hratio : Arith.dec96.fit x = some ratio)
    (hraw : Arith.dec96.fit (ratio * ratio) = some raw) : |raw - x ^ 2| ≤ 5 * max 1 x ^ 2 / 10 ^ 28 := by
  have hr0 := fit_nonneg hx hratio
  have hr := abs_le.mp (abs_fit_sub_le hratio)
  have hq := abs_le.mp (abs_fit_sub_le hraw)
  rw [abs_of_nonneg hx] at hr
  rw [abs_of_nonneg (mul_nonneg hr0 hr0)] at hq
  have h1 : 1 ≤ max 1 x := le_max_left _ _
  have hxM : x ≤ max 1 x := le_max_right _ _
  generalize max 1 x = M at *
  have hsquare : max 1 (ratio * ratio) ≤ 2 * M ^ 2 := max_le (by nlinarith) (by nlinarith)
  rw [abs_le]
  constructor <;> nlinarith

/-- **The error.** A price is off from that of the high bits by no more than the roundings. -/
theorem abs_shiftedPrice_sub_le {sqrtPriceX96 : ℕ} {k : ℤ} {price : ℚ}
    (h : shiftedPrice (sqrtPriceX96 / 2 ^ 48) k = some price) :
    |price - exactPrice (sqrtPriceX96 / 2 ^ 48 * 2 ^ 48) k| ≤ rounding sqrtPriceX96 k := by
  rw [exactPrice_high, rounding]
  obtain ⟨ratio, hratio, h⟩ := Option.bind_eq_some_iff.mp h
  obtain ⟨raw, hraw, hprice⟩ := Option.bind_eq_some_iff.mp h
  have hx : (0 : ℚ) ≤ ((sqrtPriceX96 / 2 ^ 48 : ℕ) : ℚ) / 2 ^ 48 := by positivity
  generalize ((sqrtPriceX96 / 2 ^ 48 : ℕ) : ℚ) / 2 ^ 48 = x at *
  have hraw0 := fit_nonneg (mul_self_nonneg ratio) hraw
  have hten : (0 : ℚ) < 10 ^ k := by positivity
  generalize (10 : ℚ) ^ k = ten at *
  have hsquare := abs_le.mp (abs_rawPrice_sub_le hx hratio hraw)
  have hlast := abs_le.mp (abs_fit_sub_le hprice)
  rw [abs_of_nonneg (mul_nonneg hraw0 hten.le)] at hlast
  have hM : x ^ 2 ≤ max 1 x ^ 2 := pow_le_pow_left₀ hx (le_max_right _ _) 2
  have hM1 : 1 ≤ max 1 x ^ 2 := one_le_pow₀ (le_max_left _ _)
  generalize max 1 x ^ 2 = M at *
  have hrawM : raw ≤ 2 * M := by linarith
  have hmax : max 1 (raw * ten) ≤ 1 + 2 * (M * ten) :=
    max_le (by nlinarith) (by nlinarith)
  rw [abs_le]
  constructor <;> nlinarith

/-- The price is positive and within `2^-40` of itself. -/
def Accurate (sqrtPriceX96 : ℕ) (k : ℤ) (price : ℚ) : Prop :=
  0 < price ∧ |price - exactPrice sqrtPriceX96 k| ≤ exactPrice sqrtPriceX96 k / 2 ^ 40

theorem accurate_of_shiftedPrice {sqrtPriceX96 : ℕ} {k : ℤ} {price : ℚ} (hpos : 0 < sqrtPriceX96)
    (h : shiftedPrice (sqrtPriceX96 / 2 ^ 48) k = some price)
    (hsmall : dropped sqrtPriceX96 k + rounding sqrtPriceX96 k ≤ exactPrice sqrtPriceX96 k / 2 ^ 40) :
    Accurate sqrtPriceX96 k price := by
  have herror := abs_le.mp (abs_shiftedPrice_sub_le h)
  have hexact := exactPrice_pos hpos k
  have hdropped := dropped_nonneg sqrtPriceX96 k
  unfold dropped at hsmall hdropped
  have hnear : |price - exactPrice sqrtPriceX96 k| ≤ exactPrice sqrtPriceX96 k / 2 ^ 40 :=
    abs_le.mpr ⟨by linarith, by linarith⟩
  exact ⟨by linarith [(abs_le.mp hnear).1], hnear⟩

/-- Nothing accurate is left where the low bits are too much of the price, or all there is of
the root, or the price is below a `Decimal`'s last place. -/
theorem Accurate.bounds {sqrtPriceX96 : ℕ} {k : ℤ} {price : ℚ}
    (h : shiftedPrice (sqrtPriceX96 / 2 ^ 48) k = some price) (haccurate : Accurate sqrtPriceX96 k price) :
    dropped sqrtPriceX96 k - rounding sqrtPriceX96 k ≤ exactPrice sqrtPriceX96 k / 2 ^ 40 ∧
      2 ^ 48 ≤ sqrtPriceX96 ∧ 1 / 10 ^ 28 ≤ (1 + 1 / 2 ^ 40) * exactPrice sqrtPriceX96 k := by
  obtain ⟨hpos, hnear⟩ := haccurate
  have hnear' := abs_le.mp hnear
  refine ⟨?_, ?_, ?_⟩
  · have herror := abs_le.mp (abs_shiftedPrice_sub_le h)
    unfold dropped
    linarith
  · by_contra hlow
    have hzero : sqrtPriceX96 / 2 ^ 48 = 0 := Nat.div_eq_of_lt (not_le.mp hlow)
    rw [hzero, shiftedPrice] at h
    simp only [Nat.cast_zero, zero_div, isDecimal_zero.fit_self, Option.bind_some, mul_zero, zero_mul,
      Option.some.injEq] at h
    exact hpos.ne h
  · obtain ⟨ratio, -, h⟩ := Option.bind_eq_some_iff.mp h
    obtain ⟨raw, -, h⟩ := Option.bind_eq_some_iff.mp h
    have hlast := (isDecimal_fit h).le_abs hpos.ne'
    rw [abs_of_pos hpos] at hlast
    linarith

theorem shiftedPrice_of_price {sqrtPriceX96 : BitVec 128} {decimals0 decimals1 : UInt8} {price : ℚ}
    (h : priceFromSqrtPriceX96 sqrtPriceX96 decimals0 decimals1 = .ok price) :
    shiftedPrice (sqrtPriceX96.toNat / 2 ^ 48) (shift decimals0 decimals1) = some price := by
  rw [priceFromSqrtPriceX96_eq] at h
  split at h
  · exact Outcome.unwrap_eq_ok.mp h
  · cases h

theorem price_of_shiftedPrice {sqrtPriceX96 : BitVec 128} {decimals0 decimals1 : UInt8} {price : ℚ}
    (h28 : |shift decimals0 decimals1| ≤ 28)
    (h : shiftedPrice (sqrtPriceX96.toNat / 2 ^ 48) (shift decimals0 decimals1) = some price) :
    priceFromSqrtPriceX96 sqrtPriceX96 decimals0 decimals1 = .ok price := by
  rw [priceFromSqrtPriceX96_eq, if_pos h28, h]
  rfl

/-- **Accuracy.** A price is accurate if the low bits and the roundings are no more than `2^-40` of it
together, and only if the low bits less the roundings are, the root has high bits and the
price is not below a `Decimal`'s last place. -/
theorem price_accuracy (sqrtPriceX96 : BitVec 128) (decimals0 decimals1 : UInt8) (price : ℚ)
    (hpos : 0 < sqrtPriceX96.toNat) (hprice : priceFromSqrtPriceX96 sqrtPriceX96 decimals0 decimals1 = .ok price) :
    (dropped sqrtPriceX96.toNat (shift decimals0 decimals1) + rounding sqrtPriceX96.toNat (shift decimals0 decimals1) ≤
        exactPrice sqrtPriceX96.toNat (shift decimals0 decimals1) / 2 ^ 40 →
      Accurate sqrtPriceX96.toNat (shift decimals0 decimals1) price) ∧
    (Accurate sqrtPriceX96.toNat (shift decimals0 decimals1) price →
      dropped sqrtPriceX96.toNat (shift decimals0 decimals1) - rounding sqrtPriceX96.toNat (shift decimals0 decimals1) ≤
          exactPrice sqrtPriceX96.toNat (shift decimals0 decimals1) / 2 ^ 40 ∧
        2 ^ 48 ≤ sqrtPriceX96.toNat ∧
        1 / 10 ^ 28 ≤ (1 + 1 / 2 ^ 40) * exactPrice sqrtPriceX96.toNat (shift decimals0 decimals1)) :=
  ⟨accurate_of_shiftedPrice hpos (shiftedPrice_of_price hprice), Accurate.bounds (shiftedPrice_of_price hprice)⟩

/-- One stock unit of 18 decimals in dollars of 6. -/
theorem price_accuracy_usdg_pool :
    priceFromSqrtPriceX96 (.ofNat 128 5614838607502676772851347767430022) 6 18 =
        .ok (50224472881449187787639567 / 10 ^ 28) ∧
      Accurate 5614838607502676772851347767430022 (shift 6 18) (50224472881449187787639567 / 10 ^ 28) := by
  have hprice : priceFromSqrtPriceX96 (.ofNat 128 5614838607502676772851347767430022) 6 18 =
      .ok (50224472881449187787639567 / 10 ^ 28) := price_of_shiftedPrice (by decide) (by decide +kernel)
  refine ⟨hprice, (price_accuracy (.ofNat 128 5614838607502676772851347767430022) 6 18 _ (by decide) hprice).1 ?_⟩
  decide +kernel

theorem dropped_le {n : ℕ} (k : ℤ) (hroot : 2 ^ 90 ≤ n) : dropped n k ≤ exactPrice n k / 2 ^ 41 := by
  have hle : ((n / 2 ^ 48 * 2 ^ 48 : ℕ) : ℚ) ≤ n := by exact_mod_cast Nat.div_mul_le_self n (2 ^ 48)
  have hlt : (n : ℚ) ≤ (n / 2 ^ 48 * 2 ^ 48 : ℕ) + 2 ^ 48 := by
    exact_mod_cast (by omega : n ≤ n / 2 ^ 48 * 2 ^ 48 + 2 ^ 48)
  have hn : (2 : ℚ) ^ 90 ≤ n := by exact_mod_cast hroot
  unfold dropped exactPrice
  generalize ((n / 2 ^ 48 * 2 ^ 48 : ℕ) : ℚ) = m at *
  generalize (n : ℚ) = N at *
  have hsquares : (N / 2 ^ 96) ^ 2 - (m / 2 ^ 96) ^ 2 ≤ (N / 2 ^ 96) ^ 2 / 2 ^ 41 := by
    have : N ^ 2 - m ^ 2 ≤ N ^ 2 / 2 ^ 41 := by
      calc N ^ 2 - m ^ 2 = (N - m) * (N + m) := by ring
        _ ≤ 2 ^ 48 * (2 * N) := by
          refine mul_le_mul (by linarith) (by linarith) ?_ (by positivity)
          linarith
        _ ≤ N ^ 2 / 2 ^ 41 := by nlinarith
    rw [div_pow, div_pow, ← sub_div, div_right_comm]
    exact div_le_div_of_nonneg_right this (by positivity)
  rw [← sub_mul, ← div_mul_eq_mul_div]
  exact mul_le_mul_of_nonneg_right hsquares (by positivity)

theorem rounding_le {n : ℕ} {k : ℤ} (hroot : 2 ^ 90 ≤ n) (hlarge : 1 / 10 ^ 15 ≤ exactPrice n k) :
    rounding n k ≤ exactPrice n k / 2 ^ 42 := by
  have hhigh := exactPrice_high n k ▸ exactPrice_mono (Nat.div_mul_le_self n (2 ^ 48)) k
  have hx : 1 / 2 ^ 6 ≤ ((n / 2 ^ 48 : ℕ) : ℚ) / 2 ^ 48 := by
    have : ((2 ^ 42 : ℕ) : ℚ) ≤ (n / 2 ^ 48 : ℕ) := by exact_mod_cast (by omega : 2 ^ 42 ≤ n / 2 ^ 48)
    rw [le_div_iff₀ (by positivity)]
    exact le_trans (by norm_num) this
  unfold rounding
  generalize ((n / 2 ^ 48 : ℕ) : ℚ) / 2 ^ 48 = x at *
  have hmax : max 1 x ≤ 2 ^ 6 * x := max_le (by linarith) (by linarith)
  have hsquare : max 1 x ^ 2 * 10 ^ k ≤ 2 ^ 12 * (x ^ 2 * 10 ^ k) := by
    calc max 1 x ^ 2 * 10 ^ k ≤ (2 ^ 6 * x) ^ 2 * 10 ^ k := by gcongr
      _ = 2 ^ 12 * (x ^ 2 * 10 ^ k) := by ring
  rw [div_le_iff₀ (by positivity)]
  linarith

/-- Prices some way above a last place, of roots with 42 high bits, are accurate. -/
theorem price_accurate_of_large {sqrtPriceX96 : BitVec 128} {decimals0 decimals1 : UInt8} {price : ℚ}
    (hroot : 2 ^ 90 ≤ sqrtPriceX96.toNat)
    (hlarge : 1 / 10 ^ 15 ≤ exactPrice sqrtPriceX96.toNat (shift decimals0 decimals1))
    (hprice : priceFromSqrtPriceX96 sqrtPriceX96 decimals0 decimals1 = .ok price) :
    Accurate sqrtPriceX96.toNat (shift decimals0 decimals1) price := by
  refine accurate_of_shiftedPrice (by omega) (shiftedPrice_of_price hprice) ?_
  generalize sqrtPriceX96.toNat = n at *
  generalize shift decimals0 decimals1 = k at *
  have hexact := exactPrice_pos (by omega : 0 < n) k
  linarith [dropped_le k hroot, rounding_le hroot hlarge]

/-- A millionth of a dollar for a token of 18 decimals keeps five digits. -/
theorem small_root_inaccurate : ¬ ∀ (sqrtPriceX96 : BitVec 128) (decimals0 decimals1 : UInt8) (price : ℚ),
    0 < sqrtPriceX96.toNat → priceFromSqrtPriceX96 sqrtPriceX96 decimals0 decimals1 = .ok price →
      Accurate sqrtPriceX96.toNat (shift decimals0 decimals1) price := by
  intro hclaim
  have hprice : priceFromSqrtPriceX96 (.ofNat 128 87868000000000000000) 18 6 = .ok (12299854177 / 10 ^ 16) :=
    price_of_shiftedPrice (by decide) (by decide +kernel)
  refine absurd (hclaim _ _ _ _ (by decide) hprice).2 ?_
  decide +kernel

end Sherwood.Chain
