/-
# The bounds of a previewed swap

What a preview promises at least is computed in three steps: the expected amount as a `Decimal`, of it the whole
part, and of that the part that is kept, rounded down again. Against the exact product (`exactOut`) it is never
too high by more than the rounding up (`minimum_le`). It is computed exactly if amount and product fit into 96 bits
(`expectedOutRaw_of_fits`, `expectedOutRaw_of_not_fits`): `Decimal::from` and `*` panic otherwise, though the
conversion after them has an error for what does not fit.

The whole part is taken before the slippage, so an amount between what is kept as one unit and the next whole number
loses all of it (`minimum_pos_iff`). A minimum of zero bounds nothing.

Key definitions: `exactOut`, `Quotes`, `MinimumSafe`.
Key theorems: `expectedOutRaw_of_fits`, `minimum_le`, `minimum_pos_iff`, `preview_bounds_iff`.
-/
import Mathlib.Data.Nat.Cast.Order.Field
import Sherwood.Cli.DexPreview

namespace Sherwood

open Chain Dex

deriving instance DecidableEq for Slot0

/-- Known tokens have 6 or 18 decimals, and others are taken to have 18. -/
theorem resolve_decimals (token : String) : (resolve token).decimals = 6 ∨ (resolve token).decimals = 18 := by
  have hknown : ∀ t ∈ knownTokens, t.decimals = 6 ∨ t.decimals = 18 := by decide
  unfold resolve
  cases hfind : knownTokens.find? fun t => eqIgnoreAsciiCase t.symbol token with
  | none => exact .inr rfl
  | some t => exact hknown t (List.mem_of_find?_eq_some hfind)

theorem resolve_decimals_toNat (token : String) :
    (resolve token).decimals.toNat = 6 ∨ (resolve token).decimals.toNat = 18 := by
  rcases resolve_decimals token with h | h <;> simp [h]

namespace DexPreview

/-! ### The expected amount -/

/-- What a price promises for an amount, in units of the last of `denomDec` digits. -/
def exactOut (amountIn tokenDec denomDec : ℕ) (price : ℚ) : ℚ := amountIn / 10 ^ tokenDec * price * 10 ^ denomDec

variable {checks : Bool} {unfit : String} {amountIn : BitVec 128} {tokenDec denomDec : UInt8} {price : ℚ}

theorem u128Pow10_eq {ε : Type} {exp : UInt8} (h : exp.toNat ≤ 28) :
    (u128Pow10 checks exp : Outcome ε ℕ) = .ok (10 ^ exp.toNat) := by
  have hle : 10 ^ exp.toNat ≤ 10 ^ 28 := Nat.pow_le_pow_right (by norm_num) h
  exact if_pos (hle.trans_lt (by norm_num))

theorem fromU128_pow10 {ε : Type} {n : ℕ} (h : n ≤ 28) :
    (Decimal.fromU128 (10 ^ n) : Outcome ε ℚ) = .ok ((10 : ℚ) ^ n) := by
  have hle : 10 ^ n ≤ 10 ^ 28 := Nat.pow_le_pow_right (by norm_num) h
  rw [Decimal.fromU128, if_pos ((Int.ofNat_le.mpr hle).trans (by decide)), Nat.cast_pow, Nat.cast_ofNat]

theorem fit_amount {n : ℕ} (h : (n : ℤ) ≤ maxMantissa) {d : ℕ} (hd : d ≤ 28) :
    Arith.dec96.fit ((n : ℚ) / 10 ^ d) = some ((n : ℚ) / 10 ^ d) := by
  refine IsDecimal.fit_self ⟨n, d, ?_, hd, by simp⟩
  rwa [Nat.abs_cast]

theorem toU128_eq {v : ℚ} (h0 : 0 ≤ v) : Decimal.toU128 v = some (.ofNat 128 ⌊v⌋₊) := if_pos h0

section Expected

variable (hprice : 0 ≤ price) (htoken : tokenDec.toNat ≤ 28) (hdenom : denomDec.toNat ≤ 28)

include htoken hdenom

/-- Amount in tokens, and what it is worth: all but the two products is exact. -/
theorem expectedOutRaw_eq : expectedOutRaw checks unfit amountIn tokenDec denomDec price =
    if amountIn.toNat < 2 ^ 96 then do
      let human ← .unwrap (Arith.dec96.fit (amountIn.toNat / 10 ^ tokenDec.toNat * price))
      let scaled ← .unwrap (Arith.dec96.fit (human * 10 ^ denomDec.toNat))
      .okOr (Decimal.toU128 scaled) s!"expected output does not fit u128: {unfit}"
    else .panic := by
  have hfrom : (Decimal.fromU128 amountIn.toNat : Outcome String ℚ) =
      if amountIn.toNat < 2 ^ 96 then .ok (amountIn.toNat : ℚ) else .panic :=
    if_congr (by unfold maxMantissa; omega) rfl rfl
  rw [expectedOutRaw, u128Pow10_eq hdenom, Outcome.ok_bind, hfrom]
  split
  · next hlt =>
    have hle : (amountIn.toNat : ℤ) ≤ maxMantissa := by
      unfold maxMantissa
      omega
    have hdiv : (Arith.dec96.div amountIn.toNat (10 ^ tokenDec.toNat) : Outcome String ℚ) =
        .ok (amountIn.toNat / 10 ^ tokenDec.toNat) := by
      rw [Arith.div, if_neg (by positivity), fit_amount hle htoken]
      rfl
    rw [Outcome.ok_bind, u128Pow10_eq htoken, Outcome.ok_bind, fromU128_pow10 htoken, Outcome.ok_bind, hdiv,
      Outcome.ok_bind, fromU128_pow10 hdenom]
    rfl
  · rfl

include hprice

/-- **What fits** is computed: the whole part of the rounded amount, in the last digits. -/
theorem expectedOutRaw_of_fits (hamount : amountIn.toNat < 2 ^ 96)
    (hfits : exactOut amountIn.toNat tokenDec.toNat denomDec.toNat price < 2 ^ 96 - 1 / 2) :
    ∃ human expected, Arith.dec96.fit (amountIn.toNat / 10 ^ tokenDec.toNat * price) = some human ∧
      expectedOutRaw checks unfit amountIn tokenDec denomDec price = .ok expected ∧
      expected.toNat = ⌊human * 10 ^ denomDec.toNat⌋₊ ∧ expected.toNat ≤ 2 ^ 96 := by
  have h0 : 0 ≤ (amountIn.toNat : ℚ) / 10 ^ tokenDec.toNat * price := by positivity
  have hone : (1 : ℚ) ≤ 10 ^ denomDec.toNat := one_le_pow₀ (by norm_num)
  obtain ⟨human, hhuman⟩ := dec96_fit_of_lt (q := (amountIn.toNat : ℚ) / 10 ^ tokenDec.toNat * price) (by
    rw [abs_of_nonneg h0]
    exact (le_mul_of_one_le_right h0 hone).trans_lt hfits)
  obtain ⟨hscaled, hnear⟩ := shift_of_lt hhuman h0 hfits hdenom
  have hnonneg : 0 ≤ human * 10 ^ denomDec.toNat := mul_nonneg (fit_nonneg h0 hhuman) (by positivity)
  have hle : ⌊human * 10 ^ denomDec.toNat⌋₊ ≤ 2 ^ 96 := by
    refine Nat.floor_le_of_le ?_
    have := (abs_le.mp hnear).2
    unfold exactOut at hfits
    push_cast
    linarith
  have hvalue : (BitVec.ofNat 128 ⌊human * 10 ^ denomDec.toNat⌋₊).toNat = ⌊human * 10 ^ denomDec.toNat⌋₊ := by
    rw [BitVec.toNat_ofNat]
    exact Nat.mod_eq_of_lt (by omega)
  refine ⟨human, .ofNat 128 ⌊human * 10 ^ denomDec.toNat⌋₊, hhuman, ?_, hvalue, hvalue.le.trans hle⟩
  rw [expectedOutRaw_eq htoken hdenom, if_pos hamount, hhuman]
  show Outcome.bind (.unwrap (Arith.dec96.fit (human * 10 ^ denomDec.toNat))) _ = _
  rw [hscaled]
  show Outcome.okOr (Decimal.toU128 (human * 10 ^ denomDec.toNat)) _ = _
  rw [toU128_eq hnonneg]
  rfl

/-- **What does not fit** panics. -/
theorem expectedOutRaw_of_not_fits (h : ¬ (amountIn.toNat < 2 ^ 96 ∧
    exactOut amountIn.toNat tokenDec.toNat denomDec.toNat price < 2 ^ 96 - 1 / 2)) :
    expectedOutRaw checks unfit amountIn tokenDec denomDec price = .panic := by
  rw [expectedOutRaw_eq htoken hdenom]
  split
  · next hamount =>
    have hlarge := not_lt.mp fun hlt => h ⟨hamount, hlt⟩
    have h0 : 0 ≤ (amountIn.toNat : ℚ) / 10 ^ tokenDec.toNat * price := by positivity
    cases hhuman : Arith.dec96.fit (amountIn.toNat / 10 ^ tokenDec.toNat * price) with
    | none => rfl
    | some human =>
      show Outcome.bind (.unwrap (Arith.dec96.fit (human * 10 ^ denomDec.toNat))) _ = _
      rw [shift_of_large hhuman h0 hlarge hdenom]
      rfl
  · rfl

end Expected

/-! ### The minimum -/

theorem amountOutMinimum_of_lt {expected : BitVec 128} {slippageBps : UInt32} (hbps : slippageBps.toNat < 10000)
    (hle : expected.toNat ≤ 2 ^ 96) : ∃ minimum, amountOutMinimum expected slippageBps = .ok minimum ∧
      minimum.toNat = expected.toNat * (10000 - slippageBps.toNat) / 10000 := by
  have hkeep : (10000 - slippageBps).toNat = 10000 - slippageBps.toNat :=
    UInt32.toNat_sub_of_le _ _ (UInt32.le_iff_toNat_le.mpr hbps.le)
  have hsmall : expected.toNat * (10000 - slippageBps.toNat) < 2 ^ 128 :=
    calc expected.toNat * (10000 - slippageBps.toNat) ≤ expected.toNat * 10000 := Nat.mul_le_mul_left _ (Nat.sub_le _ _)
      _ < 2 ^ 128 := by omega
  have hbps' : ¬ slippageBps ≥ 10000 := by
    rw [ge_iff_le, UInt32.le_iff_toNat_le]
    exact not_le.mpr hbps
  rw [amountOutMinimum, if_neg hbps', hkeep, if_neg (not_le.mpr hsmall)]
  refine ⟨_, rfl, ?_⟩
  rw [BitVec.toNat_ofNat]
  exact Nat.mod_eq_of_lt ((Nat.div_le_self _ _).trans_lt hsmall)

theorem amountOutMinimum_of_ge (expected : BitVec 128) {slippageBps : UInt32} (hbps : 10000 ≤ slippageBps.toNat) :
    amountOutMinimum expected slippageBps = .error (.invalidSlippage slippageBps) := by
  have hge : slippageBps ≥ 10000 := UInt32.le_iff_toNat_le.mpr (by simpa using hbps)
  rw [amountOutMinimum, if_pos hge]
  rfl

/-- What is kept of the whole part is no more than what is kept of the exact amount, rounded up. -/
theorem minimum_le {n k : ℕ} {exact : ℚ} (hn : (n : ℚ) ≤ exact + 1 / 2) (hk : k ≤ 10000) :
    ((n * k / 10000 : ℕ) : ℤ) ≤ ⌈exact * k / 10000⌉ := by
  have hk' : (k : ℚ) ≤ 10000 := by exact_mod_cast hk
  have hlt : ((n * k / 10000 : ℕ) : ℚ) < ⌈exact * k / 10000⌉ + 1 :=
    calc ((n * k / 10000 : ℕ) : ℚ) ≤ (n * k : ℕ) / (10000 : ℕ) := Nat.cast_div_le
      _ = n * k / 10000 := by push_cast; rfl
      _ ≤ (exact + 1 / 2) * k / 10000 := by gcongr
      _ ≤ exact * k / 10000 + 1 / 2 := by linarith
      _ < ⌈exact * k / 10000⌉ + 1 := by linarith [Int.le_ceil (exact * k / 10000)]
  rw [← Int.lt_add_one_iff, ← Int.cast_lt (R := ℚ), Int.cast_natCast, Int.cast_add, Int.cast_one]
  exact hlt

theorem minimum_pos_iff {n k : ℕ} (hk : 0 < k) : 0 < n * k / 10000 ↔ ⌈(10000 / k : ℚ)⌉₊ ≤ n := by
  have hk' : (0 : ℚ) < k := by exact_mod_cast hk
  rw [Nat.div_pos_iff, Nat.ceil_le, div_le_iff₀ hk']
  constructor
  · exact fun h => by exact_mod_cast h.2
  · exact fun h => ⟨by decide, by exact_mod_cast h⟩

/-- The least amount of which a whole unit is kept. -/
def unitKept (slippageBps : UInt32) : ℚ := 10000 / (10000 - slippageBps.toNat : ℕ)

/-- The minimum bounds the swap: it is not zero where a unit of the exact amount should be kept, and no
more than should be kept, rounded up. -/
structure MinimumSafe (exact : ℚ) (slippageBps : UInt32) (minimum : BitVec 128) : Prop where
  pos : 1 ≤ exact * (10000 - slippageBps.toNat : ℕ) / 10000 → 0 < minimum.toNat
  le : minimum.toNat ≤ ⌈exact * (10000 - slippageBps.toNat : ℕ) / 10000⌉

/-- `build` returns, and what it previews is bounded. -/
structure Safe (exact : ℚ) (slippageBps : UInt32) (o : Outcome String Preview) : Prop where
  returns : o ≠ .panic
  minimum : ∀ preview, o = .ok preview → MinimumSafe exact slippageBps preview.amountOutMinimum

theorem safe_iff {exact : ℚ} {slippageBps : UInt32} {o : Outcome String Preview} : Safe exact slippageBps o ↔
    o.Meets fun preview => MinimumSafe exact slippageBps preview.amountOutMinimum := by
  rw [Outcome.meets_iff]
  exact ⟨fun h => ⟨h.returns, h.minimum⟩, fun h => ⟨h.1, h.2⟩⟩

/-- **Safe minimums.** Of an amount that fits, the minimum is safe unless the amount is less than a whole number,
and a unit is kept of it but not of its whole part. -/
theorem minimumSafe_iff {q human : ℚ} {d : ℕ} {slippageBps : UInt32} {minimum : BitVec 128}
    (h : Arith.dec96.fit q = some human) (h0 : 0 ≤ q) (hfits : q * 10 ^ d < 2 ^ 96 - 1 / 2) (hd : 4 ≤ d) (hd' : d < 28)
    (hbps : slippageBps.toNat < 10000)
    (hminimum : minimum.toNat = ⌊human * 10 ^ d⌋₊ * (10000 - slippageBps.toNat) / 10000) :
    MinimumSafe (q * 10 ^ d) slippageBps minimum ↔
      q * 10 ^ d < unitKept slippageBps ∨ ⌈unitKept slippageBps⌉₊ - 1 / (2 * 10 ^ (28 - d)) ≤ q * 10 ^ d := by
  have hnonneg : 0 ≤ human * 10 ^ d := mul_nonneg (fit_nonneg h0 h) (by positivity)
  have hkeep : 0 < 10000 - slippageBps.toNat := by omega
  have hnear := abs_le.mp (shift_of_lt h h0 hfits hd'.le).2
  have hle : (minimum.toNat : ℤ) ≤ ⌈q * 10 ^ d * (10000 - slippageBps.toNat : ℕ) / 10000⌉ := by
    rw [hminimum]
    exact minimum_le ((Nat.floor_le hnonneg).trans (by linarith)) (Nat.sub_le _ _)
  have hceil : ⌈unitKept slippageBps⌉₊ ≤ 10 ^ 4 := by
    have hone : (1 : ℚ) ≤ (10000 - slippageBps.toNat : ℕ) := by exact_mod_cast hkeep
    exact Nat.ceil_le.mpr ((div_le_self (by norm_num) hone).trans (by norm_num))
  have hpos : 0 < minimum.toNat ↔ ⌈unitKept slippageBps⌉₊ - 1 / (2 * 10 ^ (28 - d)) ≤ q * 10 ^ d := by
    rw [hminimum, minimum_pos_iff hkeep, Nat.le_floor_iff hnonneg, ← not_lt, ← not_lt]
    exact not_congr (shift_lt_iff h h0 hd hd' hceil)
  have hunit : 1 ≤ q * 10 ^ d * (10000 - slippageBps.toNat : ℕ) / 10000 ↔ unitKept slippageBps ≤ q * 10 ^ d := by
    rw [unitKept, div_le_iff₀ (by exact_mod_cast hkeep), one_le_div₀ (by norm_num)]
  constructor
  · intro hsafe
    rcases lt_or_ge (q * 10 ^ d) (unitKept slippageBps) with hlt | hge
    · exact .inl hlt
    · exact .inr (hpos.mp (hsafe.pos (hunit.mpr hge)))
  · intro hcond
    exact ⟨fun hone => hpos.mpr (hcond.resolve_left (not_lt.mpr (hunit.mp hone))), hle⟩

/-! ### A run of `build` -/

/-- The reads of a preview return: the height, a pool, and its price. -/
def Quotes (crates : Crates) (node : Node) (tokenArg denomArg : String) (asked : List Request) (best : RankedPool)
    (spotPrice : ℚ) : Prop :=
  ∃ head asked₁ asked₂ asked₃, (blockNumber crates).run node asked = (.ok head, asked₁) ∧
    (findBestPool crates ⟨poolManager, stateView⟩ (resolve tokenArg).address (resolve denomArg).address 0 head).run
      node asked₁ = (.ok best, asked₂) ∧
    (quotePool crates stateView best.key (resolve tokenArg).address
      ⟨(resolve tokenArg).decimals, (resolve denomArg).decimals⟩).run node asked₂ = (.ok spotPrice, asked₃)

variable {crates : Crates} {now : UInt64} {node : Node} {tokenArg denomArg : String} {slippageBps : UInt32}
  {asked : List Request} {best : RankedPool} {spotPrice : ℚ}

/-- **After the reads** only the expected amount can panic, and the calldata is there. -/
theorem meets_build_iff (h : Quotes crates node tokenArg denomArg asked best spotPrice) {P : BitVec 128 → Prop} :
    ((build crates unfit now tokenArg amountIn denomArg slippageBps).run node asked).1.Meets
        (fun preview => P preview.amountOutMinimum) ↔
      (expectedOutRaw crates.checks unfit amountIn (resolve tokenArg).decimals (resolve denomArg).decimals
        spotPrice).Meets fun expected =>
          ∀ minimum, amountOutMinimum expected slippageBps = .ok minimum → P minimum := by
  obtain ⟨head, asked₁, asked₂, asked₃, hhead, hbest, hprice⟩ := h
  obtain ⟨⟨id, hid⟩, -⟩ := quotePool_spec hprice
  obtain ⟨raw0, raw1, rawHooks, h0, h1, hh⟩ := isAddress_of_poolId hid
  rw [build, Dialogue.run_bind, run_context_eq_ok.mpr hhead]
  simp only
  rw [Dialogue.run_bind, run_context_eq_ok.mpr hbest]
  simp only
  rw [Dialogue.run_bind, run_context_eq_ok.mpr hprice]
  simp only
  rw [Dialogue.meets_run_bind_done]
  refine iff_of_eq (congrArg (Outcome.Meets · _) (funext fun expected => propext ?_))
  rw [Dialogue.meets_run_bind_done]
  cases amountOutMinimum expected slippageBps with
  | error e => simp [Except.mapError, Outcome.ofExcept, Outcome.Meets]
  | ok minimum =>
    have hdata := executeCalldata_eq
      (s := ⟨best.key, zeroForOne best.key (resolve tokenArg).address, amountIn, minimum⟩) h0 h1 hh crates.keccak256
      (deadlineFromNow now 1800)
    simp only [Except.mapError, Outcome.ofExcept, Outcome.meets_ok]
    rw [Dialogue.meets_run_bind_done, hdata]
    simp

theorem decimals_le (token : String) : (resolve token).decimals.toNat ≤ 28 := by
  rcases resolve_decimals_toNat token with h | h <;> omega

theorem nonneg_of_quotes (h : Quotes crates node tokenArg denomArg asked best spotPrice) : 0 ≤ spotPrice := by
  obtain ⟨_, _, _, _, -, -, hprice⟩ := h
  exact (quotePool_spec hprice).2

/-- An amount that does not fit makes `build` panic. -/
theorem not_safe_of_not_fits (h : Quotes crates node tokenArg denomArg asked best spotPrice) {exact : ℚ}
    (hfits : ¬ (amountIn.toNat < 2 ^ 96 ∧ exactOut amountIn.toNat (resolve tokenArg).decimals.toNat
      (resolve denomArg).decimals.toNat spotPrice < 2 ^ 96 - 1 / 2)) :
    ¬ Safe exact slippageBps
      ((build crates unfit now tokenArg amountIn denomArg slippageBps).run node asked).1 := by
  rw [safe_iff, meets_build_iff h,
    expectedOutRaw_of_not_fits (nonneg_of_quotes h) (decimals_le _) (decimals_le _) hfits]
  exact id

/-- **Bounds of a preview.** After the reads, `build` returns, and with a safe minimum, exactly if the amount is
less than `2^96`, the exact product fits into 96 bits, and it is none of those that are less than a whole number by more
than the rounding where only the whole number leaves a unit after the slippage. -/
theorem preview_bounds_iff {crates : Crates} {unfit : String} {now : UInt64} {node : Node}
    {tokenArg denomArg : String} {amountIn : BitVec 128} {slippageBps : UInt32} {asked : List Request}
    {best : RankedPool} {spotPrice exact : ℚ} (hquotes : Quotes crates node tokenArg denomArg asked best spotPrice)
    (hexact : exact = exactOut amountIn.toNat (resolve tokenArg).decimals.toNat (resolve denomArg).decimals.toNat
      spotPrice) :
    Safe exact slippageBps ((build crates unfit now tokenArg amountIn denomArg slippageBps).run node asked).1 ↔
      amountIn.toNat < 2 ^ 96 ∧ exact < 2 ^ 96 - 1 / 2 ∧ (slippageBps.toNat < 10000 →
        exact < unitKept slippageBps ∨
          ⌈unitKept slippageBps⌉₊ - 1 / (2 * 10 ^ (28 - (resolve denomArg).decimals.toNat)) ≤ exact) := by
  subst hexact
  have hprice := nonneg_of_quotes hquotes
  have hdenom : 4 ≤ (resolve denomArg).decimals.toNat ∧ (resolve denomArg).decimals.toNat < 28 := by
    rcases resolve_decimals_toNat denomArg with h | h <;> omega
  rw [← and_assoc]
  by_cases hfits : amountIn.toNat < 2 ^ 96 ∧ exactOut amountIn.toNat (resolve tokenArg).decimals.toNat
      (resolve denomArg).decimals.toNat spotPrice < 2 ^ 96 - 1 / 2
  · obtain ⟨human, expected, hhuman, hexpected, hvalue, hle⟩ := @expectedOutRaw_of_fits crates.checks unfit _ _ _ _
      hprice (decimals_le tokenArg) hdenom.2.le hfits.1 hfits.2
    have h0 : 0 ≤ (amountIn.toNat : ℚ) / 10 ^ (resolve tokenArg).decimals.toNat * spotPrice := by positivity
    rw [safe_iff, meets_build_iff hquotes, hexpected, Outcome.meets_ok, and_iff_right hfits]
    rcases lt_or_ge slippageBps.toNat 10000 with hbps | hbps
    · obtain ⟨minimum, hminimum, hkept⟩ := amountOutMinimum_of_lt hbps hle
      rw [hvalue] at hkept
      have hsafe := minimumSafe_iff hhuman h0 hfits.2 hdenom.1 hdenom.2 hbps hkept
      constructor
      · exact fun h _ => hsafe.mp (h minimum hminimum)
      · intro h minimum' hminimum'
        obtain rfl := Except.ok.inj (hminimum.symm.trans hminimum')
        exact hsafe.mpr (h hbps)
    · rw [amountOutMinimum_of_ge _ hbps]
      simp [not_lt.mpr hbps]
  · exact iff_of_false (not_safe_of_not_fits hquotes hfits) fun h => hfits h.1

/-! ### A quoted pool -/

/-- `Slot0` of a pool at this root. -/
def slot0Words (sqrtPriceX96 : BitVec 128) : List UInt8 :=
  uintWord sqrtPriceX96 ++ intWord 0 ++ uintWord 0 ++ uintWord 0

/-- The height, the pool with its liquidity, and a root of one. -/
def quotedReplies : List Json := .str "0x10" :: (wethReplies ++ [.str (toHex (slot0Words (.ofNat 128 (2 ^ 96))))])

def quotedNode : Node := fun asked _ => .ok (quotedReplies.getD asked.length .null)

theorem decodeSlot0_words : decodeSlot0 (slot0Words (.ofNat 128 (2 ^ 96))) = .ok ⟨.ofNat 128 (2 ^ 96), 0, 0, 0⟩ :=
  Outcome.value_eq_some.mp (by decide +kernel)

theorem blockNumber_quoted : (blockNumber poolCrates).run quotedNode [] = (.ok 16, [⟨"eth_blockNumber", .arr []⟩]) := by
  rfl

theorem quotedNode_reply (i : ℕ) (asked : List Request) (q : Request) (hi : i < 3)
    (hlen : asked.length = ([⟨"eth_blockNumber", .arr []⟩] : List Request).length + i) :
    quotedNode asked q = .ok (wethReplies.getD i .null) := by
  rw [quotedNode, hlen]
  match i, hi with
  | 0, _ => rfl
  | 1, _ => rfl
  | 2, _ => rfl

theorem quotePool_weth {node : Node} {asked : List Request}
    (hnode : ∀ q, node asked q = .ok (.str (toHex (slot0Words (.ofNat 128 (2 ^ 96)))))) :
    ∃ asked', (quotePool poolCrates stateView wethPool "0x0Bd7D308f8E1639FAb988df18A8011f41EAcAD73" ⟨18, 6⟩).run node
      asked = (.ok (10 ^ 12), asked') := by
  obtain ⟨id, hid⟩ := poolId_weth
  have hcurrency : eqIgnoreAsciiCase wethPool.currency0 "0x0Bd7D308f8E1639FAb988df18A8011f41EAcAD73" = true := by
    decide +kernel
  have hprice : priceFromSqrtPriceX96 (.ofNat 128 (2 ^ 96)) 18 6 = .ok (10 ^ 12) :=
    price_of_shiftedPrice (by decide) (by decide +kernel)
  have hcall (data : String) : (call poolCrates (toAsciiLowercase stateView) data).run node asked =
      (.ok (slot0Words (.ofNat 128 (2 ^ 96))), asked ++ [callRequest none (toAsciiLowercase stateView) data]) := by
    have hbytes : bytesOf poolCrates (.str (toHex (slot0Words (.ofNat 128 (2 ^ 96))))) = .ok _ :=
      congrArg Outcome.ofExcept (fromHex_toHex readsHex_hexDecode _)
    rw [call, run_callInner, hnode, Outcome.ok_bind, hbytes]
  have hslot0 : ((StateView.new stateView).getSlot0 poolCrates id).run node asked = _ :=
    Dialogue.run_bind_done_eq_ok.mpr ⟨_, hcall _, decodeSlot0_words⟩
  rw [quotePool, hid, hcurrency]
  exact ⟨_, Dialogue.run_bind_eq_ok.mpr ⟨id, _, rfl, Dialogue.run_bind_eq_ok.mpr ⟨_, _, hslot0,
    Dialogue.run_bind_eq_ok.mpr ⟨_, _, congrArg (·, _) hprice, rfl⟩⟩⟩⟩

theorem resolve_weth : resolve "WETH" = ⟨"WETH", "0x0Bd7D308f8E1639FAb988df18A8011f41EAcAD73", 18⟩ := rfl

theorem resolve_usdg : resolve "USDG" = ⟨"USDG", "0x5fc5360D0400a0Fd4f2af552ADD042D716F1d168", 6⟩ := rfl

theorem quotes_weth : ∃ best, Quotes poolCrates quotedNode "WETH" "USDG" [] best (10 ^ 12) := by
  obtain ⟨best, asked, hkey, hasked, hbest⟩ := findBestPool_weth quotedNode_reply
  obtain ⟨asked', hprice⟩ := @quotePool_weth quotedNode asked fun q => by
    rw [quotedNode, hasked]
    rfl
  refine ⟨best, 16, _, asked, asked', blockNumber_quoted, ?_, ?_⟩
  · rw [resolve_weth, resolve_usdg]
    exact hbest
  · rw [resolve_weth, resolve_usdg, hkey]
    exact hprice

theorem unitKept_of_half : unitKept 50 = 10000 / 9950 := by
  have hbps : (50 : UInt32).toNat = 50 := rfl
  rw [unitKept, hbps]
  norm_num

/-- A thousand units, less half a per cent. -/
theorem preview_bounds_of_weth :
    Safe 1000 50 ((build poolCrates "" 0 "WETH" 1000 "USDG" 50).run quotedNode []).1 := by
  obtain ⟨best, hquotes⟩ := quotes_weth
  have htoken : (resolve "WETH").decimals.toNat = 18 := by rw [resolve_weth]; rfl
  have hdenom : (resolve "USDG").decimals.toNat = 6 := by rw [resolve_usdg]; rfl
  have hamount : (1000 : BitVec 128).toNat = 1000 := rfl
  have hexact : (1000 : ℚ) = exactOut (1000 : BitVec 128).toNat (resolve "WETH").decimals.toNat
      (resolve "USDG").decimals.toNat (10 ^ 12) := by
    rw [hamount, htoken, hdenom]
    norm_num [exactOut]
  have hceil : (⌈unitKept 50⌉₊ : ℚ) ≤ 2 := by
    exact_mod_cast Nat.ceil_le.mpr (unitKept_of_half ▸ by norm_num : unitKept 50 ≤ (2 : ℕ))
  have hfits : (1000 : BitVec 128).toNat < 2 ^ 96 ∧ (1000 : ℚ) < 2 ^ 96 - 1 / 2 := by
    rw [hamount]
    norm_num
  have hkept : ⌈unitKept 50⌉₊ - 1 / (2 * 10 ^ (28 - (resolve "USDG").decimals.toNat)) ≤ (1000 : ℚ) := by
    rw [hdenom]
    linarith [(by norm_num : (0 : ℚ) < 1 / (2 * 10 ^ (28 - 6)))]
  exact (preview_bounds_iff hquotes hexact).mpr ⟨hfits.1, hfits.2, fun _ => .inr hkept⟩

/-- An amount of `2^96` panics. -/
theorem large_amount_panics : ¬ ∀ (crates : Crates) (unfit : String) (now : UInt64) (node : Node)
    (tokenArg denomArg : String) (amountIn : BitVec 128) (slippageBps : UInt32) (asked : List Request)
    (best : RankedPool) (spotPrice : ℚ), Quotes crates node tokenArg denomArg asked best spotPrice →
    Safe (exactOut amountIn.toNat (resolve tokenArg).decimals.toNat (resolve denomArg).decimals.toNat spotPrice)
      slippageBps ((build crates unfit now tokenArg amountIn denomArg slippageBps).run node asked).1 := by
  intro hclaim
  obtain ⟨best, hquotes⟩ := quotes_weth
  have hamount : (BitVec.ofNat 128 (2 ^ 96)).toNat = 2 ^ 96 := BitVec.toNat_ofNat _ _
  refine not_safe_of_not_fits hquotes (fun hfits => ?_) (hclaim _ "" 0 _ _ _ (.ofNat 128 (2 ^ 96)) 50 _ _ _ hquotes)
  rw [hamount] at hfits
  exact lt_irrefl _ hfits.1

end DexPreview

end Sherwood
