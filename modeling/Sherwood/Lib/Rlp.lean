/-
# Recursive length prefix

An item is a byte string or a list of items, and its encoding is a prefix
with the length of what follows, and that. A byte below 128 is its own
encoding. A length below 56 stands in the prefix byte itself; for a longer
one the byte says how many length bytes come next.

The decoder is strict: it takes the shortest encoding only (no prefix before
a byte below 128, no length bytes for a length below 56, no leading zero in
them), and a whole input must be one item. It reads back every encoding short
enough for eight length bytes (`decode_encode`). An item read as an integer
has no leading zero byte (`Item.toNat?`).

Key definitions: `Item`, `Item.encode`, `decode`, `Item.ofNat`, `Item.toNat?`.
Key theorems: `decodeItem_encode`, `decode_encode`.
-/
import Sherwood.Lib.BigEndian

namespace Rlp

inductive Item
  | str (bs : List UInt8)
  | list (items : List Item)

/-- A single byte below 128. -/
def Bare (bs : List UInt8) : Prop := bs.length = 1 ∧ ∀ b ∈ bs, b < 128

instance (bs : List UInt8) : Decidable (Bare bs) := inferInstanceAs (Decidable (_ ∧ _))

/-- What the prefix byte says of a length, and the length bytes after it. -/
def mark (len : ℕ) : ℕ × List UInt8 :=
  if len < 56 then (len, [])
  else (55 + (BigEndian.shortest len).length, BigEndian.shortest len)

/-- The prefix for `len` bytes; strings count from 128, lists from 192. -/
def header (base len : ℕ) : List UInt8 := .ofNat (base + (mark len).1) :: (mark len).2

mutual

def Item.encode : Item → List UInt8
  | .str bs => if Bare bs then bs else header 128 bs.length ++ bs
  | .list items => header 192 (encodeAll items).length ++ encodeAll items

def encodeAll : List Item → List UInt8
  | [] => []
  | i :: is => i.encode ++ encodeAll is

end

/-- The first `n` bytes, if there are as many, and the rest. -/
def takeExactly (n : ℕ) (bs : List UInt8) : Option (List UInt8 × List UInt8) :=
  if n ≤ bs.length then some (bs.take n, bs.drop n) else none

/-- What a prefix byte `d` above its base announces, and the rest. -/
def payload (d : ℕ) (bs : List UInt8) : Option (List UInt8 × List UInt8) :=
  if d < 56 then takeExactly d bs
  else (takeExactly (d - 55) bs).bind fun p =>
    if BigEndian.Short p.1 ∧ 56 ≤ BigEndian.value p.1 then takeExactly (BigEndian.value p.1) p.2 else none

mutual

/-- The item at the front of the input, and the rest. -/
def decodeItem : (fuel : ℕ) → List UInt8 → Option (Item × List UInt8)
  | 0, _ => none
  | _ + 1, [] => none
  | fuel + 1, b :: bs =>
    if b.toNat < 128 then some (.str [b], bs)
    else if b.toNat < 192 then
      (payload (b.toNat - 128) bs).bind fun p => if Bare p.1 then none else some (.str p.1, p.2)
    else (payload (b.toNat - 192) bs).bind fun p =>
      (decodeItems fuel p.1).bind fun items => some (.list items, p.2)

/-- The items that make up the input. -/
def decodeItems : (fuel : ℕ) → List UInt8 → Option (List Item)
  | _, [] => some []
  | 0, _ :: _ => none
  | fuel + 1, b :: bs => (decodeItem fuel (b :: bs)).bind fun p =>
      (decodeItems fuel p.2).bind fun items => some (p.1 :: items)

end

/-- The item the whole input encodes. -/
def decode (bs : List UInt8) : Option Item :=
  (decodeItem (2 * bs.length) bs).bind fun p => if p.2 = [] then some p.1 else none

/-- The item of an integer: its bytes, without leading zeros. -/
def Item.ofNat (n : ℕ) : Item := .str (BigEndian.shortest n)

/-- The bytes of a string. -/
def Item.toBytes? : Item → Option (List UInt8)
  | .str bs => some bs
  | .list _ => none

/-- The items of a list. -/
def Item.toItems? : Item → Option (List Item)
  | .str _ => none
  | .list items => some items

/-- The integer of a string without a leading zero byte. -/
def Item.toNat? (i : Item) : Option ℕ :=
  i.toBytes?.bind fun bs => if BigEndian.Short bs then some (BigEndian.value bs) else none

@[simp] theorem Item.toBytes?_str (bs : List UInt8) : (Item.str bs).toBytes? = some bs := rfl

@[simp] theorem Item.toItems?_list (items : List Item) : (Item.list items).toItems? = some items := rfl

@[simp] theorem Item.toNat?_ofNat (n : ℕ) : (Item.ofNat n).toNat? = some n := by
  simp [Item.toNat?, Item.ofNat, BigEndian.short_shortest]

theorem takeExactly_append (as bs : List UInt8) :
    takeExactly as.length (as ++ bs) = some (as, bs) := by
  simp [takeExactly]

theorem shortest_length_le_eight {len : ℕ} (h : len < 2 ^ 64) : (BigEndian.shortest len).length ≤ 8 :=
  BigEndian.shortest_length_le (by simpa using h)

theorem mark_lt {len : ℕ} (h : len < 2 ^ 64) : (mark len).1 < 64 := by
  have h8 := shortest_length_le_eight h
  unfold mark
  split
  · omega
  · show 55 + _ < 64
    omega

/-- The length a prefix was made for is the one it announces. -/
theorem payload_mark (p r : List UInt8) :
    payload (mark p.length).1 ((mark p.length).2 ++ (p ++ r)) = some (p, r) := by
  unfold payload mark
  by_cases hshort : p.length < 56
  · simp only [if_pos hshort, List.nil_append]
    exact takeExactly_append p r
  · simp only [if_neg hshort]
    have hne : BigEndian.shortest p.length ≠ [] := by
      rw [Ne, BigEndian.shortest_eq_nil]
      omega
    have hpos : 0 < (BigEndian.shortest p.length).length := List.length_pos_of_ne_nil hne
    rw [if_neg (by omega), Nat.add_sub_cancel_left, takeExactly_append, Option.bind_some,
      if_pos ⟨BigEndian.short_shortest _, by rw [BigEndian.value_shortest]; omega⟩,
      BigEndian.value_shortest]
    exact takeExactly_append p r

theorem header_byte {base len : ℕ} (hb : base ≤ 192) (h : len < 2 ^ 64) :
    (UInt8.ofNat (base + (mark len).1)).toNat = base + (mark len).1 := by
  have := mark_lt h
  rw [UInt8.toNat_ofNat', Nat.mod_eq_of_lt (by omega)]

theorem encodeAll_append (is js : List Item) : encodeAll (is ++ js) = encodeAll is ++ encodeAll js := by
  induction is with
  | nil => rfl
  | cons i is ih => simp [encodeAll, ih]

theorem header_length_le (base : ℕ) {len : ℕ} (h : len < 2 ^ 64) : (header base len).length ≤ 9 := by
  have h8 := shortest_length_le_eight h
  unfold header mark
  split
  · simp
  · simpa using Nat.lt_succ_of_le h8

theorem Item.encode_ne_nil (i : Item) : i.encode ≠ [] := by
  cases i with
  | str bs =>
    unfold Item.encode
    split
    · rename_i hbare
      intro h
      simp [Bare, h] at hbare
    · simp [header]
  | list items => simp [Item.encode, header]

theorem Item.encode_str_length_le (bs : List UInt8) (h : bs.length < 2 ^ 64) :
    (Item.str bs).encode.length ≤ bs.length + 9 := by
  have hheader := header_length_le 128 h
  unfold Item.encode
  split
  · omega
  · rw [List.length_append]
    omega

theorem Item.encode_list_length_le (items : List Item) (h : (encodeAll items).length < 2 ^ 64) :
    (Item.list items).encode.length ≤ (encodeAll items).length + 9 := by
  have hheader := header_length_le 192 h
  rw [Item.encode, List.length_append]
  omega

theorem decodeItem_bare {bs : List UInt8} (hbare : Bare bs) (r : List UInt8) (fuel : ℕ) :
    decodeItem (fuel + 1) (bs ++ r) = some (.str bs, r) := by
  obtain ⟨b, rfl⟩ := List.length_eq_one_iff.mp hbare.1
  have hlt : b.toNat < 128 := hbare.2 b List.mem_cons_self
  rw [List.singleton_append, decodeItem, if_pos hlt]

theorem decodeItem_str {bs : List UInt8} (hbare : ¬ Bare bs) (hlen : bs.length < 2 ^ 64)
    (r : List UInt8) (fuel : ℕ) :
    decodeItem (fuel + 1) (header 128 bs.length ++ (bs ++ r)) = some (.str bs, r) := by
  have hmark := mark_lt hlen
  have hbyte := header_byte (show 128 ≤ 192 by decide) hlen
  rw [header, List.cons_append, decodeItem, hbyte, if_neg (by omega), if_pos (by omega),
    Nat.add_sub_cancel_left, payload_mark, Option.bind_some, if_neg hbare]

theorem decodeItem_list {body : List UInt8} {items : List Item} {fuel : ℕ} (hlen : body.length < 2 ^ 64)
    (hitems : decodeItems fuel body = some items) (r : List UInt8) :
    decodeItem (fuel + 1) (header 192 body.length ++ (body ++ r)) = some (.list items, r) := by
  have hmark := mark_lt hlen
  have hbyte := header_byte (show 192 ≤ 192 by decide) hlen
  rw [header, List.cons_append, decodeItem, hbyte, if_neg (by omega), if_neg (by omega),
    Nat.add_sub_cancel_left, payload_mark, Option.bind_some, hitems, Option.bind_some]

theorem decodeItems_cons {i : Item} {is : List Item} {fuel : ℕ}
    (hfirst : decodeItem fuel (i.encode ++ encodeAll is) = some (i, encodeAll is))
    (hrest : decodeItems fuel (encodeAll is) = some is) :
    decodeItems (fuel + 1) (encodeAll (i :: is)) = some (i :: is) := by
  obtain ⟨b, bs, hb⟩ : ∃ b bs, i.encode ++ encodeAll is = b :: bs :=
    List.exists_cons_of_ne_nil (by simp [i.encode_ne_nil])
  rw [encodeAll, hb, decodeItems, ← hb, hfirst, Option.bind_some, hrest, Option.bind_some]

mutual

/-- An encoding at the front of the input is read back, given two steps of
fuel for each of its bytes but one. -/
theorem decodeItem_encode : ∀ (i : Item) (r : List UInt8) (fuel : ℕ), i.encode.length < 2 ^ 64 →
    2 * i.encode.length ≤ fuel + 2 → decodeItem (fuel + 1) (i.encode ++ r) = some (i, r)
  | .str bs, r, fuel, hlen, _ => by
    unfold Item.encode at hlen ⊢
    by_cases hbare : Bare bs
    · rw [if_pos hbare]
      exact decodeItem_bare hbare r fuel
    · rw [if_neg hbare, List.length_append] at hlen
      rw [if_neg hbare, List.append_assoc]
      exact decodeItem_str hbare (by omega) r fuel
  | .list items, r, fuel, hlen, hfuel => by
    rw [Item.encode, List.length_append] at hlen hfuel
    rw [Item.encode, List.append_assoc]
    have hhead : 1 ≤ (header 192 (encodeAll items).length).length := by simp [header]
    exact decodeItem_list (by omega) (decodeItems_encodeAll items fuel (by omega) (by omega)) r

theorem decodeItems_encodeAll : ∀ (items : List Item) (fuel : ℕ), (encodeAll items).length < 2 ^ 64 →
    2 * (encodeAll items).length ≤ fuel → decodeItems fuel (encodeAll items) = some items
  | [], fuel, _, _ => by
    cases fuel <;> simp [encodeAll, decodeItems]
  | i :: is, fuel, hlen, hfuel => by
    have hpos := List.length_pos_of_ne_nil i.encode_ne_nil
    simp only [encodeAll, List.length_append] at hlen hfuel
    obtain ⟨fuel, rfl⟩ : ∃ f, fuel = f + 2 := ⟨fuel - 2, by omega⟩
    exact decodeItems_cons (decodeItem_encode i (encodeAll is) fuel (by omega) (by omega))
      (decodeItems_encodeAll is (fuel + 1) (by omega) (by omega))

end

/-- **Round trip.** An encoding short enough for eight length bytes is the
encoding of one item, the one it was made from. -/
theorem decode_encode (i : Item) (h : i.encode.length < 2 ^ 64) : decode i.encode = some i := by
  have hpos := List.length_pos_of_ne_nil i.encode_ne_nil
  obtain ⟨fuel, hfuel⟩ : ∃ f, 2 * i.encode.length = f + 1 := ⟨2 * i.encode.length - 1, by omega⟩
  have hread := decodeItem_encode i [] fuel h (by omega)
  rw [List.append_nil] at hread
  simp [decode, hfuel, hread]

end Rlp
