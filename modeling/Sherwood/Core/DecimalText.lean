/-
# Decimals read from their text

A decimal is read back from its text: at the smallest scale that holds it, its digits are
those of a whole number, and the point is put where it stood.

Key theorems: `Decimal.scan_display`, `Decimal.fromStr_display`.
-/
import Sherwood.Decimal
import Sherwood.Lib.Digits

namespace Sherwood.Decimal

variable {ds rest : List Char} {acc : ℕ} {scale : Option ℕ} {seen : Bool}

theorem scanDigits_append (h : ∀ c ∈ ds, c.isDigit = true) : scanDigits (ds ++ rest) acc scale seen =
    scanDigits rest (Nat.ofDigitChars 10 ds acc) (scale.map (· + ds.length)) (seen || !ds.isEmpty) := by
  induction ds generalizing acc scale seen with
  | nil => simp
  | cons c ds ih =>
    have hvalue : Nat.ofDigitChars 10 (c :: ds) acc = Nat.ofDigitChars 10 ds (acc * 10 + (c.toNat - '0'.toNat)) := by
      rw [Nat.ofDigitChars_cons, Nat.mul_comm]
    have hscale : scale.map (· + (c :: ds).length) = (scale.map (· + 1)).map (· + ds.length) := by
      rw [Option.map_map]
      congr 1
      funext s
      simp only [Function.comp_apply, List.length_cons]
      omega
    rw [List.cons_append, scanDigits, if_pos (h c List.mem_cons_self), ih fun d hd => h d (List.mem_cons_of_mem _ hd),
      hvalue, hscale]
    simp

theorem scanDigits_of_digits (h : ∀ c ∈ ds, c.isDigit = true) : scanDigits ds acc scale true =
    some (Nat.ofDigitChars 10 ds acc, (scale.map (· + ds.length)).getD 0, 0) := by
  have hall : scanDigits (ds ++ []) acc scale true =
      scanDigits [] (Nat.ofDigitChars 10 ds acc) (scale.map (· + ds.length)) (true || !ds.isEmpty) :=
    scanDigits_append h
  rw [List.append_nil] at hall
  rw [hall, scanDigits, Bool.true_or, if_pos rfl]

@[simp] theorem shift_zero (q : ℚ) : shift q 0 = q := by simp [shift]

/-- What a text without a sign denotes. -/
theorem scan_of_isDigit {c : Char} {cs : List Char} (hc : c.isDigit = true) :
    scan (c :: cs) = (scanDigits (c :: cs) 0 none false).map fun r => shift ((r.1 : ℚ) / 10 ^ r.2.1) r.2.2 := by
  unfold scan
  split
  · next heq =>
    obtain ⟨rfl, -⟩ := List.cons.inj heq
    exact absurd hc (by decide)
  · next heq =>
    obtain ⟨rfl, -⟩ := List.cons.inj heq
    exact absurd hc (by decide)
  · rfl

theorem exists_scale {v : ℚ} (h : IsDecimal v) : ∃ (s : ℕ) (z : ℤ),
    ((List.range 29).find? fun s => (v * 10 ^ s).isInt).getD 28 = s ∧ v * 10 ^ s = z := by
  obtain ⟨m, t, -, ht, hv⟩ := h
  have hfound : ((List.range 29).find? fun s => (v * 10 ^ s).isInt).isSome := by
    refine List.find?_isSome.mpr ⟨t, List.mem_range.mpr (by omega), ?_⟩
    have hwhole : v * 10 ^ t = (m : ℚ) := by
      rw [hv]
      exact div_mul_cancel₀ _ (pow_ne_zero _ (by norm_num))
    rw [hwhole]
    rfl
  obtain ⟨s, hs⟩ := Option.isSome_iff_exists.mp hfound
  have hint := List.find?_some hs
  refine ⟨s, (v * 10 ^ s).num, by rw [hs, Option.getD_some], ?_⟩
  exact (Rat.coe_int_num_of_den_eq_one (of_decide_eq_true hint)).symm

/-- The digits of a decimal at a scale, with the point where it belongs. -/
def pointed (n s : ℕ) : List Char :=
  let digits := Digits.padded (s + 1) n
  digits.take (digits.length - s) ++ if s = 0 then [] else '.' :: digits.drop (digits.length - s)

theorem scanDigits_pointed (n s : ℕ) : scanDigits (pointed n s) 0 none false = some (n, s, 0) := by
  obtain ⟨digits, hdigits⟩ : ∃ digits, digits = Digits.padded (s + 1) n := ⟨_, rfl⟩
  have hlength : s + 1 ≤ digits.length := hdigits ▸ Digits.le_length_padded
  have hdigit : ∀ c ∈ digits, c.isDigit = true := fun c hc => Digits.isDigit_of_mem_padded (hdigits ▸ hc)
  have hvalue : Nat.ofDigitChars 10 digits 0 = n := hdigits ▸ Digits.ofDigitChars_padded
  have hsome : (digits.take (digits.length - s)).isEmpty = false := by
    rw [← Bool.not_eq_true, List.isEmpty_iff_length_eq_zero, List.length_take]
    omega
  simp only [pointed, ← hdigits]
  rw [scanDigits_append fun c hc => hdigit c (List.mem_of_mem_take hc), hsome]
  by_cases hs : s = 0
  · have hall : digits.take (digits.length - s) = digits := List.take_of_length_le (by omega)
    rw [if_pos hs, hall, hvalue, hs]
    rfl
  · rw [if_neg hs]
    show scanDigits (digits.drop (digits.length - s)) (Nat.ofDigitChars 10 (digits.take (digits.length - s)) 0)
      (some 0) true = _
    rw [scanDigits_of_digits fun c hc => hdigit c (List.mem_of_mem_drop hc), ← Nat.ofDigitChars_append,
      List.take_append_drop, hvalue, List.length_drop, Option.map_some, Option.getD_some, Nat.zero_add,
      Nat.sub_sub_self (by omega)]

theorem exists_head_pointed (n s : ℕ) : ∃ c cs, pointed n s = c :: cs ∧ c.isDigit = true := by
  have hlength : s + 1 ≤ (Digits.padded (s + 1) n).length := Digits.le_length_padded
  obtain ⟨c, cs, hcs⟩ : ∃ c cs, (Digits.padded (s + 1) n).take ((Digits.padded (s + 1) n).length - s) = c :: cs := by
    refine List.exists_cons_of_ne_nil (List.ne_nil_of_length_pos ?_)
    rw [List.length_take]
    omega
  refine ⟨c, _, by rw [pointed, hcs, List.cons_append], ?_⟩
  exact Digits.isDigit_of_mem_padded (List.mem_of_mem_take (hcs ▸ List.mem_cons_self))

theorem display_toList {v : ℚ} {s : ℕ} {z : ℤ} (hv : v * 10 ^ s = z)
    (hscale : ((List.range 29).find? fun s => (v * 10 ^ s).isInt).getD 28 = s) :
    (display v).toList = (if v < 0 then ['-'] else []) ++ pointed z.natAbs s := by
  have hfloor : (v * 10 ^ s).floor = z := by
    rw [hv]
    exact Rat.floor_intCast z
  obtain ⟨digits, hdigits⟩ : ∃ digits, digits = Digits.padded (s + 1) z.natAbs := ⟨_, rfl⟩
  have htext : (toString z.natAbs).toList.leftpad (s + 1) '0' = digits := by
    rw [Nat.toString_eq_repr, Nat.toList_repr, hdigits]
    rfl
  have hsign : (if v < 0 then "-" else "").toList = if v < 0 then ['-'] else [] := by
    split_ifs
    · decide
    · rfl
  have hpart : (if s = 0 then "" else "." ++ String.ofList (digits.drop (digits.length - s))).toList =
      if s = 0 then [] else '.' :: digits.drop (digits.length - s) := by
    split_ifs
    · rfl
    · exact String.toList_append.trans (congrArg ('.' :: ·) String.toList_ofList)
  simp only [display, hscale, hfloor, htext]
  rw [String.toList_append, String.toList_append, String.toList_ofList, hsign, hpart, List.append_assoc, pointed,
    hdigits]

/-- **Decimals.** The text of a decimal denotes it. -/
theorem scan_display {v : ℚ} (h : IsDecimal v) : scan (display v).toList = some v := by
  obtain ⟨s, z, hscale, hz⟩ := exists_scale h
  have hpow : (0 : ℚ) < 10 ^ s := pow_pos (by norm_num) s
  have hv : v = z / 10 ^ s := eq_div_of_mul_eq hpow.ne' hz
  have hread : (scanDigits (pointed z.natAbs s) 0 none false).map (fun r => shift ((r.1 : ℚ) / 10 ^ r.2.1) r.2.2) =
      some ((z.natAbs : ℚ) / 10 ^ s) := by
    rw [scanDigits_pointed, Option.map_some, shift_zero]
  rw [display_toList hz hscale]
  by_cases hneg : v < 0
  · have hzneg : z < 0 := by
      have hlt : (z : ℚ) < 0 := hz ▸ mul_neg_of_neg_of_pos hneg hpow
      exact_mod_cast hlt
    have habs : (z.natAbs : ℚ) = -z := by
      rw [Nat.cast_natAbs, abs_of_neg hzneg, Int.cast_neg]
    rw [if_pos hneg, List.singleton_append]
    show ((scanDigits (pointed z.natAbs s) 0 none false).map fun r => shift ((r.1 : ℚ) / 10 ^ r.2.1) r.2.2).map (- ·) = _
    rw [hread, Option.map_some, habs, hv, neg_div, neg_neg]
  · have hzpos : 0 ≤ z := by
      have hle : (0 : ℚ) ≤ z := hz ▸ mul_nonneg (not_lt.mp hneg) hpow.le
      exact_mod_cast hle
    have habs : (z.natAbs : ℚ) = z := by
      rw [Nat.cast_natAbs, abs_of_nonneg hzpos]
    obtain ⟨c, cs, hcs, hc⟩ := exists_head_pointed z.natAbs s
    rw [hcs] at hread
    rw [if_neg hneg, List.nil_append, hcs, scan_of_isDigit hc, hread, habs, ← hv]

theorem fromStr_display {v : ℚ} (h : IsDecimal v) : fromStr .dec96 (display v).toList = some v := by
  show (scan (display v).toList).bind round = some v
  rw [scan_display h, Option.bind_some]
  exact round_self_iff.mpr h

end Sherwood.Decimal
