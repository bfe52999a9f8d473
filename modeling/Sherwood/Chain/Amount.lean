/-
# Amounts in whole tokens

A token counts in base units and says how many decimals a whole one has. `scale` makes a
`Decimal` of an amount, and an amount that does not fit is an error. A `Decimal` has at most
28 decimals, though, and a token may say up to 255: `scale` then divides by `10^28` all the
same and says nothing (`scale_exact_iff`, `many_decimals_misscaled`). Scaled amounts of one token keep
their order and add up in any case.

Key definitions: `scale`, `Erc20.totalSupply`, `Erc20.balanceOf`.
Key theorems: `scale_eq_ok`, `scale_exact_iff`, `many_decimals_misscaled`.
-/
import Sherwood.Chain.Probe
import Sherwood.Decimal

namespace Sherwood.Chain

def scale (raw : BitVec 128) (decimals : UInt8) : Outcome ChainError ℚ := do
  .reject (raw.toNat ≥ 2 ^ 127) (.decode "amount exceeds i128")
  Decimal.tryFromI128WithScale raw.toNat (min decimals.toNat 28) fun e =>
    .decode s!"amount does not fit Decimal: {e}"

namespace Erc20

variable (crates : Crates) (token : Erc20)

/-- `totalSupply()` in whole tokens. -/
def totalSupply (decimals : UInt8) : Rpc ℚ := do
  let raw ← token.totalSupplyRaw crates
  .done (scale raw decimals)

/-- `balanceOf(account)` in whole tokens. -/
def balanceOf (account : String) (decimals : UInt8) : Rpc ℚ := do
  let raw ← token.balanceOfRaw crates account
  .done (scale raw decimals)

end Erc20

/-! ### What is returned -/

theorem scale_ne_panic (raw : BitVec 128) (decimals : UInt8) : scale raw decimals ≠ .panic := by
  simp [scale, Outcome.bind_eq_panic, Decimal.tryFromI128WithScale_ne_panic]

/-- An amount that fits a mantissa is divided by as much as a `Decimal` can be. -/
theorem scale_eq_ok {raw : BitVec 128} {decimals : UInt8} {d : ℚ} : scale raw decimals = .ok d ↔
    (raw.toNat : ℤ) ≤ maxMantissa ∧ d = raw.toNat / 10 ^ min decimals.toNat 28 := by
  have habs : |((raw.toNat : ℕ) : ℤ)| = raw.toNat := abs_of_nonneg (by omega)
  simp only [scale, Outcome.bind_eq_ok, Outcome.reject_eq_ok, exists_const, Decimal.tryFromI128WithScale_eq_ok, habs,
    Int.cast_natCast, not_le, ge_iff_le]
  constructor
  · rintro ⟨-, -, hle, hd⟩
    exact ⟨hle, hd⟩
  · rintro ⟨hle, hd⟩
    have hsmall : raw.toNat < 2 ^ 127 := by
      unfold maxMantissa at hle
      omega
    exact ⟨hsmall, min_le_right _ _, hle, hd⟩

/-- Whether a scaled amount is the amount. -/
def ScalesExactly (raw : BitVec 128) (decimals : UInt8) : Prop :=
  scale raw decimals ≠ .panic ∧ ∀ d, scale raw decimals = .ok d → d * 10 ^ decimals.toNat = raw.toNat

theorem scalesExactly_iff (raw : BitVec 128) (decimals : UInt8) : ScalesExactly raw decimals ↔
    decimals.toNat ≤ 28 ∨ raw = 0 ∨ maxMantissa < raw.toNat := by
  have hpow : (10 : ℚ) ^ 28 ≠ 0 := by positivity
  constructor
  · rintro ⟨-, hexact⟩
    by_contra hnot
    push Not at hnot
    obtain ⟨hmany, hne, hfits⟩ := hnot
    have hraw : (raw.toNat : ℚ) ≠ 0 := by
      intro hzero
      exact hne (BitVec.eq_of_toNat_eq (by exact_mod_cast hzero))
    have hd := hexact _ (scale_eq_ok.mpr ⟨hfits, rfl⟩)
    rw [min_eq_right hmany.le, div_mul_eq_mul_div, div_eq_iff hpow, mul_right_inj' hraw] at hd
    exact (pow_lt_pow_right₀ (by norm_num : (1 : ℚ) < 10) hmany).ne' hd
  · intro h
    refine ⟨scale_ne_panic raw decimals, fun d hd => ?_⟩
    obtain ⟨hfits, rfl⟩ := scale_eq_ok.mp hd
    rcases h with hfew | rfl | hlarge
    · rw [min_eq_left hfew, div_mul_cancel₀ _ (by positivity)]
    · simp
    · omega

/-- Amounts of one token are returned in their order. -/
theorem scale_le_iff {raw raw' : BitVec 128} {decimals : UInt8} {d d' : ℚ} (h : scale raw decimals = .ok d)
    (h' : scale raw' decimals = .ok d') : d ≤ d' ↔ raw.toNat ≤ raw'.toNat := by
  obtain ⟨-, rfl⟩ := scale_eq_ok.mp h
  obtain ⟨-, rfl⟩ := scale_eq_ok.mp h'
  rw [div_le_div_iff_of_pos_right (by positivity), Nat.cast_le]

theorem scale_add {raw raw' sum : BitVec 128} {decimals : UInt8} {d d' s : ℚ} (h : scale raw decimals = .ok d)
    (h' : scale raw' decimals = .ok d') (hs : scale sum decimals = .ok s) (hsum : sum.toNat = raw.toNat + raw'.toNat) :
    s = d + d' := by
  obtain ⟨-, rfl⟩ := scale_eq_ok.mp h
  obtain ⟨-, rfl⟩ := scale_eq_ok.mp h'
  obtain ⟨-, rfl⟩ := scale_eq_ok.mp hs
  rw [hsum, Nat.cast_add, add_div]

/-- **Scaling.** An amount that is returned is the amount exactly if there are at most 28
decimals, or it is zero, or it does not fit and is refused. The two reads return an amount
scaled, and what is scaled by one token's decimals keeps its order and its sums. -/
theorem scale_exact_iff (raw : BitVec 128) (decimals : UInt8) :
    (ScalesExactly raw decimals ↔ decimals.toNat ≤ 28 ∨ raw = 0 ∨ maxMantissa < raw.toNat) ∧
      (∀ (raw' : BitVec 128) d d', scale raw decimals = .ok d → scale raw' decimals = .ok d' →
        (d ≤ d' ↔ raw.toNat ≤ raw'.toNat) ∧ ∀ (sum : BitVec 128) s, scale sum decimals = .ok s →
          sum.toNat = raw.toNat + raw'.toNat → s = d + d') ∧
      ∀ (crates : Crates) (node : Node) (token : Erc20) (asked asked' : List Request) (d : ℚ),
        ((token.totalSupply crates decimals).run node asked = (.ok d, asked') ↔
          ∃ raw, (token.totalSupplyRaw crates).run node asked = (.ok raw, asked') ∧ scale raw decimals = .ok d) ∧
        ∀ account, (token.balanceOf crates account decimals).run node asked = (.ok d, asked') ↔
          ∃ raw, (token.balanceOfRaw crates account).run node asked = (.ok raw, asked') ∧
            scale raw decimals = .ok d :=
  ⟨scalesExactly_iff raw decimals, fun _ _ _ h h' => ⟨scale_le_iff h h', fun _ _ hs hsum => scale_add h h' hs hsum⟩,
    fun _ _ _ _ _ _ => ⟨Dialogue.run_bind_done_eq_ok, fun _ => Dialogue.run_bind_done_eq_ok⟩⟩

/-- One base unit of a token of 29 decimals is returned as ten of them. -/
theorem many_decimals_misscaled : ¬ ∀ raw decimals, ScalesExactly raw decimals := by
  intro hclaim
  have hexact := (hclaim (.ofNat 128 1) 29).2 (1 / 10 ^ 28) (scale_eq_ok.mpr ⟨by decide, by simp⟩)
  have hdecimals : (29 : UInt8).toNat = 29 := rfl
  have hraw : (BitVec.ofNat 128 1).toNat = 1 := rfl
  rw [hdecimals, hraw] at hexact
  norm_num at hexact

end Sherwood.Chain
