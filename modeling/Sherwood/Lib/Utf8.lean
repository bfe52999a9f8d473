/-
# Texts cut by bytes

A text is a list of characters of one to four bytes each, and some operations
count its bytes: they cut it at a byte, and there is no such cut inside a
character. `splitAt?` is the cut; it exists exactly if the text is a part of so
many bytes and a rest (`splitAt?_eq_some`).

Bytes that need not be a text are read as one by `lossy`: what is no character
becomes a replacement character, one for each longest start of a character. The
bytes of a text are read as the text (`lossy_flatMap_utf8EncodeChar`).

Key definitions: `byteLen`, `splitAt?`, `IsBoundary`, `lossy`.
Key theorems: `splitAt?_eq_some`, `lossy_flatMap_utf8EncodeChar`.
-/
import Mathlib.Data.List.Basic
import Mathlib.Tactic.Common

namespace Sherwood
namespace Utf8

/-- How many bytes the text has. -/
def byteLen : List Char → ℕ
  | [] => 0
  | c :: cs => c.utf8Size + byteLen cs

@[simp] theorem byteLen_nil : byteLen [] = 0 := rfl

@[simp] theorem byteLen_cons (c : Char) (cs : List Char) : byteLen (c :: cs) = c.utf8Size + byteLen cs := rfl

/-- The text cut at a byte; `none` past its end or inside a character. -/
def splitAt? : ℕ → List Char → Option (List Char × List Char)
  | 0, cs => some ([], cs)
  | _ + 1, [] => none
  | n + 1, c :: cs =>
    if c.utf8Size ≤ n + 1 then (splitAt? (n + 1 - c.utf8Size) cs).map fun parts => (c :: parts.1, parts.2) else none

theorem byteLen_eq_zero {cs : List Char} : byteLen cs = 0 ↔ cs = [] := by
  cases cs with
  | nil => simp
  | cons c cs =>
    have := c.utf8Size_pos
    simp
    omega

theorem splitAt?_zero {cs a b : List Char} : splitAt? 0 cs = some (a, b) ↔ cs = a ++ b ∧ byteLen a = 0 := by
  simp only [splitAt?, Option.some.injEq, Prod.mk.injEq, byteLen_eq_zero]
  constructor
  · rintro ⟨rfl, rfl⟩
    exact ⟨rfl, rfl⟩
  · rintro ⟨h, rfl⟩
    exact ⟨rfl, h⟩

/-- A cut behind the first character is one of the rest, so many bytes earlier. -/
theorem cons_eq_append {c : Char} {cs a b : List Char} {n : ℕ} :
    c :: cs = a ++ b ∧ byteLen a = n + 1 ↔
      c.utf8Size ≤ n + 1 ∧ ∃ a', cs = a' ++ b ∧ byteLen a' = n + 1 - c.utf8Size ∧ a = c :: a' := by
  constructor
  · rintro ⟨hcs, hlen⟩
    cases a with
    | nil => simp at hlen
    | cons c' a =>
      obtain ⟨rfl, rfl⟩ := List.cons.inj hcs
      rw [byteLen_cons] at hlen
      exact ⟨by omega, a, rfl, by omega, rfl⟩
  · rintro ⟨hle, a, rfl, hlen, rfl⟩
    exact ⟨rfl, by rw [byteLen_cons, hlen]; omega⟩

theorem splitAt?_eq_some {n : ℕ} {cs a b : List Char} : splitAt? n cs = some (a, b) ↔ cs = a ++ b ∧ byteLen a = n := by
  induction cs generalizing n a b with
  | nil =>
    cases n with
    | zero => exact splitAt?_zero
    | succ n =>
      simp only [splitAt?, reduceCtorEq, false_iff, not_and]
      intro h
      obtain ⟨rfl, -⟩ := List.append_eq_nil_iff.mp h.symm
      simp
  | cons c cs ih =>
    cases n with
    | zero => exact splitAt?_zero
    | succ n =>
      rw [splitAt?, cons_eq_append]
      split
      · next hle =>
        simp only [Option.map_eq_some_iff, Prod.mk.injEq, Prod.exists, ih, hle, true_and]
        constructor
        · rintro ⟨a, b, ⟨hcs, hlen⟩, rfl, rfl⟩
          exact ⟨a, hcs, hlen, rfl⟩
        · rintro ⟨a, hcs, hlen, rfl⟩
          exact ⟨a, b, ⟨hcs, hlen⟩, rfl, rfl⟩
      · next hgt => simp only [reduceCtorEq, hgt, false_and]

/-- Byte `n` begins a character or ends the text: `str::is_char_boundary`. -/
def IsBoundary (n : ℕ) (cs : List Char) : Prop := (splitAt? n cs).isSome

instance (n : ℕ) (cs : List Char) : Decidable (IsBoundary n cs) := inferInstanceAs (Decidable (_ = true))

theorem not_isBoundary {n : ℕ} {cs : List Char} : splitAt? n cs = none ↔ ¬ IsBoundary n cs := by
  rw [IsBoundary, Bool.not_eq_true, Option.isSome_eq_false_iff, Option.isNone_iff_eq_none]

/-! ### Bytes read as a text -/

/-- U+FFFD. -/
def replacement : Char := '\uFFFD'

/-- A character begun: how many bytes it lacks, the bounds of the next, and its bits. -/
structure Begun where
  lacks : ℕ
  low : UInt8
  high : UInt8
  bits : ℕ

/-- What a first byte begins: a character that is already whole, or one that lacks
bytes. The bounds of the second byte leave out overlong forms and surrogates. -/
def first (b : UInt8) : Char ⊕ Begun :=
  if b < 0x80 then .inl (.ofNat b.toNat)
  else if 0xC2 ≤ b ∧ b ≤ 0xDF then .inr ⟨1, 0x80, 0xBF, b.toNat - 0xC0⟩
  else if 0xE0 ≤ b ∧ b ≤ 0xEF then
    .inr ⟨2, if b = 0xE0 then 0xA0 else 0x80, if b = 0xED then 0x9F else 0xBF, b.toNat - 0xE0⟩
  else if 0xF0 ≤ b ∧ b ≤ 0xF4 then
    .inr ⟨3, if b = 0xF0 then 0x90 else 0x80, if b = 0xF4 then 0x8F else 0xBF, b.toNat - 0xF0⟩
  else .inl replacement

/-- The next byte of a character begun, if it is one: what it makes of it. -/
def Begun.next (c : Begun) (b : UInt8) : Option (Char ⊕ Begun) :=
  let bits := c.bits * 64 + (b.toNat - 0x80)
  if c.low ≤ b ∧ b ≤ c.high then
    some (if c.lacks = 1 then .inl (.ofNat bits) else .inr ⟨c.lacks - 1, 0x80, 0xBF, bits⟩)
  else none

/-- The text of the bytes, with a character begun before them. A byte that does not
continue it ends it, and is read again as a first byte. -/
def lossyFrom : Option Begun → List UInt8 → List Char
  | none, [] => []
  | some _, [] => [replacement]
  | begun, b :: bs =>
    let step := begun.bind (·.next b)
    let read := step.getD (first b)
    (if begun.isSome ∧ step.isNone then [replacement] else []) ++
      match read with
      | .inl c => c :: lossyFrom none bs
      | .inr c => lossyFrom (some c) bs

/-- `String::from_utf8_lossy`. -/
def lossy (bytes : List UInt8) : List Char := lossyFrom none bytes

/-- A euro sign, then one cut short, then a byte that begins nothing. -/
example : lossy [0xE2, 0x82, 0xAC, 0xE2, 0x82, 0x41, 0xFF] = ['€', replacement, 'A', replacement] := by decide

/-! ### A text read back -/

theorem toNat_ofNat {n : ℕ} (h : n < 256) : (UInt8.ofNat n).toNat = n := by
  rw [UInt8.toNat_ofNat', Nat.mod_eq_of_lt h]

theorem first_one {n : ℕ} (h : n < 0x80) : first (.ofNat n) = .inl (.ofNat n) := by
  have hn := toNat_ofNat (n := n) (by omega)
  rw [first, if_pos (UInt8.lt_iff_toNat_lt.mpr (by rw [hn]; exact h)), hn]

theorem first_two {n : ℕ} (h : 0xC2 ≤ n) (h' : n ≤ 0xDF) : first (.ofNat n) = .inr ⟨1, 0x80, 0xBF, n - 0xC0⟩ := by
  have hn := toNat_ofNat (n := n) (by omega)
  simp only [first, UInt8.lt_iff_toNat_lt, UInt8.le_iff_toNat_le, hn, UInt8.reduceToNat]
  rw [if_neg (by omega), if_pos ⟨h, h'⟩]

theorem first_three {n : ℕ} (h : 0xE0 ≤ n) (h' : n ≤ 0xEF) : first (.ofNat n) =
    .inr ⟨2, if n = 0xE0 then 0xA0 else 0x80, if n = 0xED then 0x9F else 0xBF, n - 0xE0⟩ := by
  have hn := toNat_ofNat (n := n) (by omega)
  simp only [first, UInt8.lt_iff_toNat_lt, UInt8.le_iff_toNat_le, ← UInt8.toNat_inj, hn, UInt8.reduceToNat]
  rw [if_neg (by omega), if_neg (by omega), if_pos ⟨h, h'⟩]

theorem first_four {n : ℕ} (h : 0xF0 ≤ n) (h' : n ≤ 0xF4) : first (.ofNat n) =
    .inr ⟨3, if n = 0xF0 then 0x90 else 0x80, if n = 0xF4 then 0x8F else 0xBF, n - 0xF0⟩ := by
  have hn := toNat_ofNat (n := n) (by omega)
  simp only [first, UInt8.lt_iff_toNat_lt, UInt8.le_iff_toNat_le, ← UInt8.toNat_inj, hn, UInt8.reduceToNat]
  rw [if_neg (by omega), if_neg (by omega), if_neg (by omega), if_pos ⟨h, h'⟩]

theorem lossyFrom_whole {b : UInt8} {c : Char} (h : first b = .inl c) (bs : List UInt8) :
    lossyFrom none (b :: bs) = c :: lossyFrom none bs := by
  simp [lossyFrom, h]

theorem lossyFrom_first {b : UInt8} {c : Begun} (h : first b = .inr c) (bs : List UInt8) :
    lossyFrom none (b :: bs) = lossyFrom (some c) bs := by
  simp [lossyFrom, h]

section Continue

variable {low high : UInt8} {bits n : ℕ} (hlow : low.toNat ≤ n) (hhigh : n ≤ high.toNat) (bs : List UInt8)

include hlow hhigh

/-- A byte within the bounds ends a character that lacks one, -/
theorem lossyFrom_last : lossyFrom (some ⟨1, low, high, bits⟩) (.ofNat n :: bs) =
    .ofNat (bits * 64 + (n - 0x80)) :: lossyFrom none bs := by
  have hn := toNat_ofNat (Nat.lt_of_le_of_lt hhigh high.toNat_lt)
  have hnext : Begun.next ⟨1, low, high, bits⟩ (.ofNat n) = some (.inl (.ofNat (bits * 64 + (n - 0x80)))) := by
    simp only [Begun.next, UInt8.le_iff_toNat_le, hn, hlow, hhigh, and_self, if_true]
  simp [lossyFrom, hnext]

/-- and continues one that lacks more. -/
theorem lossyFrom_next (lacks : ℕ) : lossyFrom (some ⟨lacks + 2, low, high, bits⟩) (.ofNat n :: bs) =
    lossyFrom (some ⟨lacks + 1, 0x80, 0xBF, bits * 64 + (n - 0x80)⟩) bs := by
  have hn := toNat_ofNat (Nat.lt_of_le_of_lt hhigh high.toNat_lt)
  have hnext : Begun.next ⟨lacks + 2, low, high, bits⟩ (.ofNat n) =
      some (.inr ⟨lacks + 1, 0x80, 0xBF, bits * 64 + (n - 0x80)⟩) := by
    simp only [Begun.next, UInt8.le_iff_toNat_le, hn, hlow, hhigh, and_self, if_true]
    rfl
  simp [lossyFrom, hnext]

end Continue

theorem lossyFrom_utf8EncodeChar (c : Char) (bs : List UInt8) :
    lossyFrom none (String.utf8EncodeChar c ++ bs) = c :: lossyFrom none bs := by
  have hvalid := c.valid
  have hc : Char.ofNat c.val.toNat = c := Char.ofNat_toNat c
  rw [UInt32.isValidChar, Nat.isValidChar] at hvalid
  generalize hv : c.val.toNat = v at hvalid hc
  simp only [String.utf8EncodeChar, hv]
  split_ifs with h1 h2 h3
  · rw [List.singleton_append, lossyFrom_whole (first_one (n := v) (by omega)), hc]
  · have hbits : (v / 64 % 32 + 192 - 0xC0) * 64 + (v % 64 + 128 - 0x80) = v := by omega
    rw [List.cons_append, List.singleton_append,
      lossyFrom_first (first_two (n := v / 64 % 32 + 192) (by omega) (by omega)),
      lossyFrom_last (by simp) (by simp; omega), hbits, hc]
  · have hbits : ((v / 4096 % 16 + 224 - 0xE0) * 64 + (v / 64 % 64 + 128 - 0x80)) * 64 + (v % 64 + 128 - 0x80) = v := by
      omega
    rw [List.cons_append, List.cons_append, List.singleton_append,
      lossyFrom_first (first_three (n := v / 4096 % 16 + 224) (by omega) (by omega)),
      -- no overlong form and no surrogate
      lossyFrom_next (by split <;> simp; omega) (by split <;> simp <;> omega),
      lossyFrom_last (by simp) (by simp; omega), hbits, hc]
  · have hbits : (((v / 262144 % 8 + 240 - 0xF0) * 64 + (v / 4096 % 64 + 128 - 0x80)) * 64 +
        (v / 64 % 64 + 128 - 0x80)) * 64 + (v % 64 + 128 - 0x80) = v := by
      omega
    rw [List.cons_append, List.cons_append, List.cons_append, List.singleton_append,
      lossyFrom_first (first_four (n := v / 262144 % 8 + 240) (by omega) (by omega)),
      lossyFrom_next (by split <;> simp; omega) (by split <;> simp <;> omega),
      lossyFrom_next (by simp) (by simp; omega), lossyFrom_last (by simp) (by simp; omega), hbits, hc]

/-- **Round trip.** The bytes of a text are read as the text. -/
theorem lossy_flatMap_utf8EncodeChar (cs : List Char) : lossy (cs.flatMap String.utf8EncodeChar) = cs := by
  rw [lossy]
  induction cs with
  | nil => rfl
  | cons c cs ih => rw [List.flatMap_cons, lossyFrom_utf8EncodeChar, ih]

theorem length_flatMap_utf8EncodeChar {cs : List Char} (h : ∀ c ∈ cs, c.utf8Size = 1) :
    (cs.flatMap String.utf8EncodeChar).length = cs.length := by
  induction cs with
  | nil => rfl
  | cons c cs ih =>
    rw [List.flatMap_cons, List.length_append, String.length_utf8EncodeChar, h c List.mem_cons_self,
      ih fun d hd => h d (List.mem_cons_of_mem _ hd), List.length_cons, Nat.add_comm]

theorem take_flatMap_utf8EncodeChar {cs : List Char} (h : ∀ c ∈ cs, c.utf8Size = 1) (n : ℕ) :
    (cs.flatMap String.utf8EncodeChar).take n = (cs.take n).flatMap String.utf8EncodeChar := by
  induction cs generalizing n with
  | nil => simp
  | cons c cs ih =>
    cases n with
    | zero => rfl
    | succ n =>
      have hlen : (String.utf8EncodeChar c).length = 1 := by
        rw [String.length_utf8EncodeChar]
        exact h c List.mem_cons_self
      rw [List.take_succ_cons, List.flatMap_cons, List.flatMap_cons, List.take_append, hlen, Nat.add_sub_cancel,
        ih fun d hd => h d (List.mem_cons_of_mem _ hd), List.take_of_length_le (by omega)]

end Utf8
end Sherwood
