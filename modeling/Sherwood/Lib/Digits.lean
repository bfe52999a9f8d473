/-
# Numbers in digits

A number is written in at least so many digits (`padded`), and read from just so many
(`scan`) or from as many as there are (`digitsThen`).

Key definitions: `Digits.padded`, `Digits.scan`, `Digits.digitsThen`.
Key theorems: `Digits.scan_padded`, `Digits.digitsThen_padded`.
-/
import Mathlib.Algebra.Ring.Nat
import Mathlib.Data.List.Basic
import Mathlib.Tactic.Common

namespace Digits

/-- A number in at least `w` digits. -/
def padded (w n : ℕ) : List Char := (Nat.toDigits 10 n).leftpad w '0'

/-- The number in the first `w` characters, if they are digits, and what comes after. -/
def scan (w : ℕ) (cs : List Char) : Option (ℕ × List Char) :=
  if (cs.take w).length = w ∧ (cs.take w).all Char.isDigit then some (Nat.ofDigitChars 10 (cs.take w) 0, cs.drop w)
  else none

/-- The digits at the front, and what comes after. -/
def digitsThen (cs : List Char) : List Char × List Char := (cs.takeWhile Char.isDigit, cs.dropWhile Char.isDigit)

variable {w n : ℕ} {cs rest : List Char} {c : Char}

theorem isDigit_of_mem_padded (h : c ∈ padded w n) : c.isDigit = true := by
  rcases List.mem_append.mp h with hzero | hdigit
  · rw [List.eq_of_mem_replicate hzero]
    decide
  · exact Nat.isDigit_of_mem_toDigits (by decide) (by decide) hdigit

theorem le_length_padded : w ≤ (padded w n).length := by
  rw [padded, List.length_leftpad]
  exact Nat.le_max_left _ _

theorem length_padded (hw : 0 < w) (h : n < 10 ^ w) : (padded w n).length = w := by
  rw [padded, List.length_leftpad]
  exact Nat.max_eq_left ((Nat.length_toDigits_le_iff (by decide) hw).mpr h)

theorem ofDigitChars_padded : Nat.ofDigitChars 10 (padded w n) 0 = n := by
  rw [padded, List.leftpad, Nat.ofDigitChars_append, Nat.ofDigitChars_replicate_zero, Nat.mul_zero,
    Nat.ofDigitChars_ten_toDigits]

/-- What is written in `w` digits is read from them. -/
theorem scan_padded (hw : 0 < w) (h : n < 10 ^ w) (rest : List Char) :
    scan w (padded w n ++ rest) = some (n, rest) := by
  have hlength := length_padded hw h
  have htake : (padded w n ++ rest).take w = padded w n := List.take_left' hlength
  have hdrop : (padded w n ++ rest).drop w = rest := List.drop_left' hlength
  rw [scan, htake, hdrop, if_pos ⟨hlength, List.all_eq_true.mpr fun c hc => isDigit_of_mem_padded hc⟩, ofDigitChars_padded]

theorem scan_of_not_isDigit (hw : 0 < w) (hc : c.isDigit = false) : scan w (c :: cs) = none := by
  obtain ⟨w, rfl⟩ : ∃ k, w = k + 1 := ⟨w - 1, by omega⟩
  refine if_neg fun h => ?_
  have hdigit := List.all_eq_true.mp h.2 c (by rw [List.take_succ_cons]; exact List.mem_cons_self)
  rw [hc] at hdigit
  cases hdigit

theorem digitsThen_padded (hc : c.isDigit = false) : digitsThen (padded w n ++ c :: cs) = (padded w n, c :: cs) := by
  have htake : (padded w n ++ c :: cs).takeWhile Char.isDigit = padded w n := by
    rw [List.takeWhile_append_of_pos fun d hd => isDigit_of_mem_padded hd, List.takeWhile_cons_of_neg (by simp [hc]),
      List.append_nil]
  have hdrop : (padded w n ++ c :: cs).dropWhile Char.isDigit = c :: cs := by
    rw [List.dropWhile_append_of_pos fun d hd => isDigit_of_mem_padded hd, List.dropWhile_cons_of_neg (by simp [hc])]
  rw [digitsThen, htake, hdrop]

end Digits
