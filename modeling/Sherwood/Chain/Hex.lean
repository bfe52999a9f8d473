/-
# Addresses by their spelling

`hex::decode` is documented to read pairs of hex digits in either case and nothing
else (`ReadsHex`). So an address may be spelled in several ways: in lower or upper case,
after `0x`, after `0X` or bare. What the spellings of one address share is
their lowercase digits (`isAddress_iff`), and those of an address behind `0x` are one text in
lower case (`toAsciiLowercase_of_prefixed`).

Key definitions: `ReadsHex`, `Prefixed`.
Key theorems: `isAddress_iff`, `toAsciiLowercase_of_prefixed`, `IsAddress.lowercase`, `readsHex_hexDecode`.
-/
import Sherwood.Chain.Decode

namespace Sherwood.Chain

/-! ### Lower case -/

theorem toNat_toLower (c : Char) :
    c.toLower.toNat = if 65 ≤ c.toNat ∧ c.toNat ≤ 90 then c.toNat + 32 else c.toNat := by
  have h65 : 'A'.val.toNat = 65 := rfl
  have h90 : 'Z'.val.toNat = 90 := rfl
  have h32 : ('a'.val - 'A'.val).toNat = 32 := rfl
  unfold Char.toLower Char.toNat
  simp only [UInt32.le_iff_toNat_le, ge_iff_le, h65, h90]
  split
  · next h =>
    show (c.val + ('a'.val - 'A'.val)).toNat = _
    rw [UInt32.toNat_add, h32]
    omega
  · rfl

theorem toLower_toLower (c : Char) : c.toLower.toLower = c.toLower := by
  rw [← Char.toNat_inj, toNat_toLower, toNat_toLower]
  by_cases h : 65 ≤ c.toNat ∧ c.toNat ≤ 90
  · rw [if_pos h, if_neg (by omega)]
  · rw [if_neg h, if_neg h]

theorem toAsciiLowercase_toList (s : String) : (toAsciiLowercase s).toList = s.toList.map Char.toLower :=
  String.toList_ofList

@[simp] theorem toAsciiLowercase_toAsciiLowercase (s : String) :
    toAsciiLowercase (toAsciiLowercase s) = toAsciiLowercase s := by
  rw [← String.toList_inj, toAsciiLowercase_toList, toAsciiLowercase_toList, List.map_map]
  exact List.map_congr_left fun c _ => toLower_toLower c

/-! ### Digits -/

theorem toNat_digitChar : ∀ d < 16, (Nat.digitChar d).toNat = if d < 10 then 48 + d else 87 + d := by
  decide

theorem toLower_digitChar : ∀ d < 16, (Nat.digitChar d).toLower = Nat.digitChar d := by
  decide

@[simp] theorem toAsciiLowercase_hex (bytes : List UInt8) : toAsciiLowercase (hex bytes) = hex bytes := by
  rw [← String.toList_inj, toAsciiLowercase_toList, hex, String.toList_ofList]
  induction bytes with
  | nil => rfl
  | cons b bytes ih =>
    have hb := b.toNat_lt
    rw [List.flatMap_cons, List.map_append, ih, hexByte, List.map_cons, List.map_cons, List.map_nil,
      toLower_digitChar _ (by omega), toLower_digitChar _ (by omega)]

theorem hex_length (bytes : List UInt8) : (hex bytes).toList.length = 2 * bytes.length := by
  rw [hex, String.toList_ofList]
  induction bytes with
  | nil => rfl
  | cons b bytes ih =>
    rw [List.flatMap_cons, List.length_append, ih, hexByte, List.length_cons, List.length_cons]
    simp
    omega

/-- A digit is known by its lower case. -/
theorem hexDigit?_eq_some {c : Char} {d : ℕ} : Dex.hexDigit? c = some d ↔ d < 16 ∧ c.toLower = Nat.digitChar d := by
  have hbounds : ∀ a b : Char, a ≤ c ∧ c ≤ b ↔ a.toNat ≤ c.toNat ∧ c.toNat ≤ b.toNat := fun _ _ => Iff.rfl
  have hlower := toNat_toLower c
  have hdigit : c.toLower = Nat.digitChar d ↔ c.toLower.toNat = (Nat.digitChar d).toNat := Char.toNat_inj.symm
  simp only [Dex.hexDigit?, hbounds, Char.reduceToNat]
  rw [hdigit]
  constructor
  · intro h
    have hd : d < 16 := by split_ifs at h <;> simp only [Option.some.injEq] at h <;> omega
    refine ⟨hd, ?_⟩
    rw [toNat_digitChar d hd, hlower]
    split_ifs at h <;> simp only [Option.some.injEq] at h <;> split_ifs <;> omega
  · rintro ⟨hd, h⟩
    rw [toNat_digitChar d hd, hlower] at h
    split_ifs at h ⊢ <;> first | omega | (simp only [Option.some.injEq]; omega)

theorem hexByte_eq {c d : Char} {b : UInt8} : [c.toLower, d.toLower] = hexByte b ↔
    ∃ hi lo, Dex.hexDigit? c = some hi ∧ Dex.hexDigit? d = some lo ∧ UInt8.ofNat (16 * hi + lo) = b := by
  have hb := b.toNat_lt
  simp only [hexByte, List.cons.injEq, and_true, hexDigit?_eq_some, ← UInt8.toNat_inj, UInt8.toNat_ofNat']
  constructor
  · rintro ⟨hc, hd⟩
    exact ⟨b.toNat / 16, b.toNat % 16, ⟨by omega, hc⟩, ⟨by omega, hd⟩, by omega⟩
  · rintro ⟨hi, lo, ⟨hhi, hc⟩, ⟨hlo, hd⟩, hsum⟩
    obtain rfl : b.toNat / 16 = hi := by omega
    obtain rfl : b.toNat % 16 = lo := by omega
    exact ⟨hc, hd⟩

/-- Bytes are read from their digits, in either case. -/
theorem hexBytes?_eq_some {cs : List Char} {raw : List UInt8} :
    Dex.hexBytes? cs = some raw ↔ cs.map Char.toLower = raw.flatMap hexByte := by
  induction cs using Dex.hexBytes?.induct generalizing raw with
  | case1 => cases raw <;> simp [Dex.hexBytes?, hexByte]
  | case2 c => cases raw <;> simp [Dex.hexBytes?, hexByte]
  | case3 c d cs ih =>
    cases raw with
    | nil => simp [Dex.hexBytes?, Option.bind_eq_some_iff]
    | cons b raw =>
      have hsplit : (c :: d :: cs).map Char.toLower = (b :: raw).flatMap hexByte ↔
          [c.toLower, d.toLower] = hexByte b ∧ cs.map Char.toLower = raw.flatMap hexByte := by
        simp [hexByte, and_assoc]
      rw [hsplit, hexByte_eq, ← ih]
      simp only [Dex.hexBytes?, Option.bind_eq_some_iff, Option.map_eq_some_iff, List.cons.injEq]
      constructor
      · rintro ⟨hi, hhi, lo, hlo, raw, hraw, rfl, rfl⟩
        exact ⟨⟨hi, lo, hhi, hlo, rfl⟩, hraw⟩
      · rintro ⟨⟨hi, lo, hhi, hlo, rfl⟩, hraw⟩
        exact ⟨hi, hhi, lo, hlo, raw, hraw, rfl, rfl⟩

/-! ### What the crate reads -/

/-- `hex::decode` reads a text exactly if its lower case is the hex of the bytes. -/
structure ReadsHex (decode : HexDecode) : Prop where
  ok_iff : ∀ text raw, decode text = .ok raw ↔ toAsciiLowercase text = hex raw

theorem readsHex_hexDecode : ReadsHex Dex.hexDecode := by
  refine ⟨fun text raw => ?_⟩
  have hdecode : Dex.hexDecode text = .ok raw ↔ Dex.hexBytes? text.toList = some raw := by
    rw [Dex.hexDecode]
    cases Dex.hexBytes? text.toList <;> simp
  rw [hdecode, hexBytes?_eq_some, ← String.toList_inj, toAsciiLowercase_toList, hex, String.toList_ofList]

/-! ### Spellings of an address -/

/-- The text begins with `0x` or `0X`. -/
def Prefixed (text : String) : Prop := ['0', 'x'] <+: text.toList ∨ ['0', 'X'] <+: text.toList

instance (text : String) : Decidable (Prefixed text) := inferInstanceAs (Decidable (_ ∨ _))

theorem strip0x_cases (text : String) :
    (∃ x cs, (x = 'x' ∨ x = 'X') ∧ text.toList = '0' :: x :: cs ∧ strip0x text = .ofList cs ∧ Prefixed text) ∨
      (strip0x text = text ∧ ¬ Prefixed text) := by
  unfold strip0x Prefixed
  split
  · next cs h => exact .inl ⟨'x', cs, .inl rfl, h, rfl, by simp [h]⟩
  · next cs h => exact .inl ⟨'X', cs, .inr rfl, h, rfl, by simp [h]⟩
  · next hx hX =>
    refine .inr ⟨rfl, ?_⟩
    rintro (⟨cs, h⟩ | ⟨cs, h⟩)
    · exact hx cs h.symm
    · exact hX cs h.symm

theorem toLower_eq_zero {c : Char} : c.toLower = '0' ↔ c = '0' := by
  rw [← Char.toNat_inj, ← Char.toNat_inj, toNat_toLower]
  simp only [Char.reduceToNat]
  split <;> omega

theorem toLower_eq_x {c : Char} : c.toLower = 'x' ↔ c = 'x' ∨ c = 'X' := by
  rw [← Char.toNat_inj, ← Char.toNat_inj, ← Char.toNat_inj, toNat_toLower]
  simp only [Char.reduceToNat]
  split <;> omega

theorem prefixed_iff {text : String} : Prefixed text ↔ ['0', 'x'] <+: (toAsciiLowercase text).toList := by
  rw [toAsciiLowercase_toList, Prefixed]
  rcases text.toList with _ | ⟨c, _ | ⟨d, cs⟩⟩
  · simp
  · simp
  · simp [toLower_eq_zero, toLower_eq_x, eq_comm (a := '0'), eq_comm (a := 'x'), eq_comm (a := 'X'), and_or_left]

theorem toAsciiLowercase_of_prefixed {text : String} (h : Prefixed text) :
    toAsciiLowercase text = "0x" ++ toAsciiLowercase (strip0x text) := by
  rcases strip0x_cases text with ⟨x, cs, hx, htext, hstrip, -⟩ | ⟨-, hnot⟩
  · have hcs : (strip0x text).toList = cs := by rw [hstrip, String.toList_ofList]
    rw [← String.toList_inj, String.toList_append, toAsciiLowercase_toList, toAsciiLowercase_toList, hcs, htext,
      List.map_cons, List.map_cons, toLower_eq_zero.mpr rfl, toLower_eq_x.mpr hx]
    rfl
  · exact absurd h hnot

theorem strip0x_of_not_prefixed {text : String} (h : ¬ Prefixed text) : strip0x text = text := by
  rcases strip0x_cases text with ⟨-, -, -, -, -, hpre⟩ | ⟨hstrip, -⟩
  · exact absurd hpre h
  · exact hstrip

theorem strip0x_append (text : String) : strip0x ("0x" ++ text) = text := by
  rw [strip0x, String.toList_append]
  exact String.ofList_toList

theorem prefixed_append (text : String) : Prefixed ("0x" ++ text) := by
  simp [Prefixed, String.toList_append]

theorem strip0x_toAsciiLowercase (text : String) :
    strip0x (toAsciiLowercase text) = toAsciiLowercase (strip0x text) := by
  by_cases h : Prefixed text
  · rw [toAsciiLowercase_of_prefixed h, strip0x_append]
  · rw [strip0x_of_not_prefixed h, strip0x_of_not_prefixed]
    rwa [prefixed_iff, toAsciiLowercase_toAsciiLowercase, ← prefixed_iff]

theorem addressWord_eq_ok {decode : HexDecode} {addr : String} {w : List UInt8} :
    addressWord decode addr = .ok w ↔ ∃ raw, IsAddress decode addr raw ∧ w = List.replicate 12 0 ++ raw := by
  constructor
  · intro h
    rw [addressWord, fromHex] at h
    cases hraw : decode (strip0x addr) with
    | error e =>
      rw [hraw] at h
      cases h
    | ok raw =>
      rw [hraw] at h
      simp only [Except.mapError, Except.bind] at h
      split at h
      · cases h
      · next hlen => exact ⟨raw, ⟨hraw, not_not.mp hlen⟩, (Except.ok.inj h).symm⟩
  · rintro ⟨raw, hraw, rfl⟩
    rw [addressWord, fromHex, hraw.decodes]
    simp [Except.mapError, Except.bind, hraw.length]

section

variable {decode : HexDecode} (hdecode : ReadsHex decode) {addr : String} {raw : List UInt8}

include hdecode

/-- A spelling of an address is its digits, in any case and behind any prefix. -/
theorem isAddress_iff : IsAddress decode addr raw ↔
    toAsciiLowercase (strip0x addr) = hex raw ∧ raw.length = 20 :=
  ⟨fun h => ⟨(hdecode.ok_iff _ _).mp h.decodes, h.length⟩, fun h => ⟨(hdecode.ok_iff _ _).mpr h.1, h.2⟩⟩

theorem IsAddress.lowercase (h : IsAddress decode addr raw) : IsAddress decode (toAsciiLowercase addr) raw := by
  rw [isAddress_iff hdecode] at h ⊢
  rw [strip0x_toAsciiLowercase, toAsciiLowercase_toAsciiLowercase]
  exact h

theorem IsAddress.toAsciiLowercase_eq (h : IsAddress decode addr raw) (hpre : Prefixed addr) :
    toAsciiLowercase addr = toHex raw := by
  rw [toAsciiLowercase_of_prefixed hpre, ((isAddress_iff hdecode).mp h).1, toHex]

theorem IsAddress.toAsciiLowercase_bare (h : IsAddress decode addr raw) (hbare : ¬ Prefixed addr) :
    toAsciiLowercase addr = hex raw := by
  rw [← ((isAddress_iff hdecode).mp h).1, strip0x_of_not_prefixed hbare]

theorem isAddress_toHex (h : raw.length = 20) : IsAddress decode (toHex raw) raw := by
  rw [isAddress_iff hdecode, toHex, strip0x_append, toAsciiLowercase_hex]
  exact ⟨rfl, h⟩

theorem fromHex_toHex (bytes : List UInt8) : fromHex decode (toHex bytes) = .ok bytes := by
  rw [fromHex, toHex, strip0x_append, (hdecode.ok_iff (hex bytes) bytes).mpr (toAsciiLowercase_hex bytes)]
  rfl

end

end Sherwood.Chain
