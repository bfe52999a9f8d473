/-
# Big-endian numbers as byte strings

`value` reads a byte string as a number, most significant byte first;
`bytes w n` writes the last `w` bytes of `n`, and `shortest n` as many bytes
as `n` needs and no more (none for zero). A byte string is short when it does
not start with a zero byte; there is one such string of each value
(`eq_shortest`), so to drop the leading zero bytes of a string is to write
its value shortest (`dropWhile_zero_eq`).

Key definitions: `BigEndian.value`, `BigEndian.bytes`, `BigEndian.shortest`, `BigEndian.Short`.
Key theorems: `BigEndian.value_bytes`, `BigEndian.value_shortest`, `BigEndian.eq_shortest`.
-/
import Mathlib.Data.Nat.Digits.Lemmas
import Mathlib.Tactic.Common

namespace BigEndian

/-- The number a byte string spells. -/
def value (bs : List UInt8) : ℕ := Nat.ofDigits 256 (bs.reverse.map UInt8.toNat)

/-- The last `w` bytes of `n`. -/
def bytes : (w : ℕ) → (n : ℕ) → List UInt8
  | 0, _ => []
  | w + 1, n => bytes w (n / 256) ++ [.ofNat n]

/-- The bytes of `n`, without a leading zero byte. -/
def shortest (n : ℕ) : List UInt8 := ((Nat.digits 256 n).map UInt8.ofNat).reverse

/-- The string does not start with a zero byte. -/
def Short (bs : List UInt8) : Prop := bs.head? ≠ some 0

instance (bs : List UInt8) : Decidable (Short bs) := inferInstanceAs (Decidable (_ ≠ _))

@[simp] theorem value_nil : value [] = 0 := rfl

@[simp] theorem value_singleton (b : UInt8) : value [b] = b.toNat := by simp [value]

/-- The first string stands above the bytes of the second. -/
theorem value_append (as bs : List UInt8) :
    value (as ++ bs) = value as * 256 ^ bs.length + value bs := by
  simp only [value, List.reverse_append, List.map_append, Nat.ofDigits_append, List.length_map,
    List.length_reverse]
  ring

theorem value_zero_cons (bs : List UInt8) : value (0 :: bs) = value bs := by
  have h := value_append [0] bs
  simpa using h

theorem value_lt (bs : List UInt8) : value bs < 256 ^ bs.length := by
  have h := Nat.ofDigits_lt_base_pow_length (b := 256) (l := bs.reverse.map UInt8.toNat) (by decide)
    (by
      intro d hd
      obtain ⟨b, -, rfl⟩ := List.mem_map.mp hd
      exact b.toNat_lt)
  simpa [value] using h

@[simp] theorem bytes_length : ∀ w n : ℕ, (bytes w n).length = w
  | 0, _ => rfl
  | w + 1, n => by simp [bytes, bytes_length w]

theorem value_bytes : ∀ w n : ℕ, value (bytes w n) = n % 256 ^ w
  | 0, n => by simp [bytes, Nat.mod_one]
  | w + 1, n => by
    have hmod : n % 256 ^ (w + 1) = n % 256 + 256 * (n / 256 % 256 ^ w) := by
      rw [Nat.pow_succ, Nat.mul_comm, Nat.mod_mul]
    rw [bytes, value_append, value_bytes w (n / 256), value_singleton, UInt8.toNat_ofNat', hmod]
    simp only [List.length_singleton, Nat.pow_one, Nat.reducePow]
    ring

theorem value_bytes_of_lt {w n : ℕ} (h : n < 256 ^ w) : value (bytes w n) = n := by
  rw [value_bytes, Nat.mod_eq_of_lt h]

theorem bytes_value (bs : List UInt8) : bytes bs.length (value bs) = bs := by
  induction bs using List.reverseRecOn with
  | nil => rfl
  | append_singleton bs b ih =>
    have hb := b.toNat_lt
    have hvalue : value (bs ++ [b]) = value bs * 256 + b.toNat := by
      rw [value_append, value_singleton, List.length_singleton, Nat.pow_one]
    have hlow : UInt8.ofNat (value bs * 256 + b.toNat) = b := by
      rw [← UInt8.toNat_inj, UInt8.toNat_ofNat']
      omega
    rw [List.length_append, List.length_singleton, bytes, hvalue, hlow,
      show (value bs * 256 + b.toNat) / 256 = value bs by omega, ih]

theorem bytes_zero : ∀ w : ℕ, bytes w 0 = List.replicate w 0
  | 0 => rfl
  | w + 1 => by
    rw [bytes, Nat.zero_div, bytes_zero w, List.replicate_succ']
    rfl

theorem bytes_add (k : ℕ) : ∀ {w n : ℕ}, n < 256 ^ w →
    bytes (k + w) n = List.replicate k 0 ++ bytes w n
  | 0, n, h => by
    have hn : n = 0 := by omega
    rw [hn, Nat.add_zero, bytes_zero, bytes, List.append_nil]
  | w + 1, n, h => by
    have hdiv : n / 256 < 256 ^ w := by
      rw [Nat.pow_succ] at h
      omega
    rw [← Nat.add_assoc, bytes, bytes_add k hdiv, bytes, List.append_assoc]

/-- The last bytes of a number are those it has in fewer bytes. -/
theorem drop_bytes (k : ℕ) : ∀ w n : ℕ, (bytes (k + w) n).drop k = bytes w n
  | 0, n => by simp [bytes]
  | w + 1, n => by
    rw [← Nat.add_assoc, bytes, List.drop_append_of_le_length (by simp), drop_bytes k w, bytes]

theorem toNat_ofNat_digits (n : ℕ) :
    (Nat.digits 256 n).map (UInt8.toNat ∘ UInt8.ofNat) = Nat.digits 256 n := by
  conv_rhs => rw [← List.map_id (Nat.digits 256 n)]
  refine List.map_congr_left fun d hd => ?_
  have : d < 256 := Nat.digits_lt_base (by decide) hd
  simpa using Nat.mod_eq_of_lt this

theorem le_iff_value_le {as bs : List UInt8} (h : as.length = bs.length) : as ≤ bs ↔ value as ≤ value bs := by
  induction as generalizing bs with
  | nil =>
    obtain rfl := List.length_eq_zero_iff.mp h.symm
    simp
  | cons a as ih =>
    cases bs with
    | nil => simp at h
    | cons b bs =>
      have hlen : as.length = bs.length := by simpa using h
      have hcons : ∀ (b : UInt8) bs, value (b :: bs) = b.toNat * 256 ^ bs.length + value bs := by
        intro b bs
        rw [← List.singleton_append, value_append, value_singleton]
      have ha := value_lt as
      have hb := value_lt bs
      rw [List.cons_le_cons_iff, ih hlen, hcons, hcons, UInt8.lt_iff_toNat_lt, ← UInt8.toNat_inj]
      rw [hlen] at ha ⊢
      constructor
      · rintro (hlt | ⟨heq, hle⟩)
        · have : (a.toNat + 1) * 256 ^ bs.length ≤ b.toNat * 256 ^ bs.length := Nat.mul_le_mul_right _ hlt
          rw [Nat.add_mul, Nat.one_mul] at this
          omega
        · rw [heq]
          omega
      · intro hle
        rcases Nat.lt_trichotomy a.toNat b.toNat with hlt | heq | hgt
        · exact .inl hlt
        · rw [heq] at hle
          exact .inr ⟨heq, by omega⟩
        · have : (b.toNat + 1) * 256 ^ bs.length ≤ a.toNat * 256 ^ bs.length := Nat.mul_le_mul_right _ hgt
          rw [Nat.add_mul, Nat.one_mul] at this
          omega

@[simp] theorem value_shortest (n : ℕ) : value (shortest n) = n := by
  rw [value, shortest, List.reverse_reverse, List.map_map, toNat_ofNat_digits, Nat.ofDigits_digits]

@[simp] theorem shortest_zero : shortest 0 = [] := by simp [shortest]

/-- A short string is how its value is written shortest. -/
theorem eq_shortest {bs : List UInt8} (h : Short bs) : bs = shortest (value bs) := by
  have hdigits : Nat.digits 256 (value bs) = bs.reverse.map UInt8.toNat := by
    refine Nat.digits_ofDigits 256 (by decide) _ ?_ ?_
    · intro d hd
      obtain ⟨b, -, rfl⟩ := List.mem_map.mp hd
      exact b.toNat_lt
    · intro hne hlast
      have hhead : (bs.head (by simpa using hne)).toNat = 0 := by simpa using hlast
      refine h ?_
      have hzero : bs.head (by simpa using hne) = 0 := by simpa [← UInt8.toNat_inj] using hhead
      rw [List.head?_eq_some_head (by simpa using hne), hzero]
  simp [shortest, hdigits, Function.comp_def]

theorem short_shortest (n : ℕ) : Short (shortest n) := by
  intro h
  have hne : Nat.digits 256 n ≠ [] := by
    intro he
    simp [shortest, he] at h
  have hn : n ≠ 0 := Nat.digits_ne_nil_iff_ne_zero.mp hne
  have hlast := Nat.getLast_digit_ne_zero 256 (m := n) hn
  rw [shortest, List.head?_reverse, List.getLast?_map, List.getLast?_eq_some_getLast hne] at h
  have hz : UInt8.ofNat ((Nat.digits 256 n).getLast hne) = 0 := by simpa using h
  have hlt : (Nat.digits 256 n).getLast hne < 256 :=
    Nat.digits_lt_base (by decide) (List.getLast_mem hne)
  refine hlast ?_
  have := congrArg UInt8.toNat hz
  rw [UInt8.toNat_ofNat', Nat.mod_eq_of_lt hlt] at this
  exact this

@[simp] theorem shortest_eq_nil {n : ℕ} : shortest n = [] ↔ n = 0 := by
  refine ⟨fun h => ?_, fun h => by rw [h, shortest_zero]⟩
  rw [← value_shortest n, h, value_nil]

theorem shortest_length_le {w n : ℕ} (h : n < 256 ^ w) : (shortest n).length ≤ w := by
  simp only [shortest, List.length_reverse, List.length_map]
  exact (Nat.digits_length_le_iff (by decide) n).mpr h

/-- Without its leading zero bytes a string is its value, written shortest. -/
theorem dropWhile_zero_eq : ∀ bs : List UInt8, bs.dropWhile (· == 0) = shortest (value bs)
  | [] => by simp
  | b :: bs => by
    by_cases hb : b = 0
    · subst hb
      rw [List.dropWhile_cons_of_pos (by simp), dropWhile_zero_eq bs, value_zero_cons]
    · rw [List.dropWhile_cons_of_neg (by simpa using hb)]
      exact eq_shortest (by simpa [Short] using hb)

end BigEndian
