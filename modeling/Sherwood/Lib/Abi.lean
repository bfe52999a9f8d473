/-
# Contract ABI

Values of integer, byte-string, array and tuple types, and their encoding into
32-byte words. A tuple is laid out as a head and a tail: a component of fixed
size stands in the head itself, one of variable size in the tail, and the head
holds the offset of it, counted from the start of the tuple. An array is its
length and its elements laid out as a tuple.

The decoder reads a value of a given type from the front of its input. It
follows the offsets, fails on a read past the end, and takes no integer out
of its type's range and no padding but zeros. It reads back what was encoded,
whatever comes after it (`decode_encode`).

Key definitions: `Ty`, `Val`, `Val.encode`, `decode`.
Key theorems: `readAll_layout`, `decode_encode`, `decode_uints`.
-/
import Sherwood.Lib.BigEndian
import Mathlib.Algebra.Order.Ring.Int

namespace Abi

inductive Ty
  | uint (bits : ℕ)
  | int (bits : ℕ)
  | bytes
  | array (t : Ty)
  | tuple (ts : List Ty)

inductive Val
  | uint (bits n : ℕ)
  | int (bits : ℕ) (i : ℤ)
  | bytes (bs : List UInt8)
  | array (t : Ty) (vs : List Val)
  | tuple (vs : List Val)

mutual

def Ty.dynamic : Ty → Bool
  | .uint _ => false
  | .int _ => false
  | .bytes => true
  | .array _ => true
  | .tuple ts => anyDynamic ts

def anyDynamic : List Ty → Bool
  | [] => false
  | t :: ts => t.dynamic || anyDynamic ts

end

mutual

/-- How many bytes a component of this type takes in the head. -/
def Ty.headSize : Ty → ℕ
  | .tuple ts => if anyDynamic ts then 32 else headSizes ts
  | _ => 32

def headSizes : List Ty → ℕ
  | [] => 0
  | t :: ts => t.headSize + headSizes ts

end

mutual

def Val.ty : Val → Ty
  | .uint bits _ => .uint bits
  | .int bits _ => .int bits
  | .bytes _ => .bytes
  | .array t _ => .array t
  | .tuple vs => .tuple (tys vs)

def tys : List Val → List Ty
  | [] => []
  | v :: vs => v.ty :: tys vs

end

mutual

/-- Integers are in range and arrays have elements of one type. -/
def Val.WellFormed : Val → Prop
  | .uint bits n => bits ≤ 256 ∧ n < 2 ^ bits
  | .int bits i => 0 < bits ∧ bits ≤ 256 ∧ -2 ^ (bits - 1) ≤ i ∧ i < 2 ^ (bits - 1)
  | .bytes _ => True
  | .array t vs => vs.length < 2 ^ 256 ∧ (∀ v ∈ vs, v.ty = t) ∧ AllWellFormed vs
  | .tuple vs => AllWellFormed vs

def AllWellFormed : List Val → Prop
  | [] => True
  | v :: vs => v.WellFormed ∧ AllWellFormed vs

end

/-! ## Encoding -/

def word (n : ℕ) : List UInt8 := BigEndian.bytes 32 n

/-- How many zeros fill the last word of `n` bytes. -/
def padding (n : ℕ) : ℕ := (32 - n % 32) % 32

def pad (bs : List UInt8) : List UInt8 := bs ++ List.replicate (padding bs.length) 0

/-- A component, encoded. -/
structure Part where
  dynamic : Bool
  enc : List UInt8

def headLength (ps : List Part) : ℕ := (ps.map fun p => if p.dynamic then 32 else p.enc.length).sum

/-- The head; the tail of the first component stands at `offset`. -/
def heads : (offset : ℕ) → List Part → List UInt8
  | _, [] => []
  | offset, p :: ps =>
    if p.dynamic then word offset ++ heads (offset + p.enc.length) ps else p.enc ++ heads offset ps

def tails (ps : List Part) : List UInt8 := (ps.map fun p => if p.dynamic then p.enc else []).flatten

def layout (ps : List Part) : List UInt8 := heads (headLength ps) ps ++ tails ps

mutual

def Val.encode : Val → List UInt8
  | .uint _ n => word n
  | .int _ i => word (i % 2 ^ 256).toNat
  | .bytes bs => word bs.length ++ pad bs
  | .array _ vs => word vs.length ++ layout (parts vs)
  | .tuple vs => layout (parts vs)

def parts : List Val → List Part
  | [] => []
  | v :: vs => ⟨v.ty.dynamic, v.encode⟩ :: parts vs

end

/-! ## Decoding -/

/-- The number of the first word. -/
def natAt (buf : List UInt8) : Option ℕ :=
  if 32 ≤ buf.length then some (BigEndian.value (buf.take 32)) else none

/-- The number a word stands for in two's complement. -/
def signed (n : ℕ) : ℤ := if n < 2 ^ 255 then n else n - 2 ^ 256

/-- A length and as many bytes, filled with zeros up to the next word. -/
def bytesAt (buf : List UInt8) : Option (List UInt8) :=
  (natAt buf).bind fun n =>
    if 32 + n + padding n ≤ buf.length ∧
        ((buf.drop (32 + n)).take (padding n)) = List.replicate (padding n) 0 then
      some ((buf.drop 32).take n)
    else none

/-- How a component is read: in place, or where the offset in its place says. -/
structure Reader where
  dynamic : Bool
  size : ℕ
  read : List UInt8 → Option Val

def Reader.at (r : Reader) (buf : List UInt8) (pos : ℕ) : Option Val :=
  if r.dynamic then (natAt (buf.drop pos)).bind fun offset => r.read (buf.drop offset)
  else r.read (buf.drop pos)

/-- The components of a tuple that starts where the input does, from `pos` of
its head on. -/
def readAll : List Reader → (buf : List UInt8) → (pos : ℕ) → Option (List Val)
  | [], _, _ => some []
  | r :: rs, buf, pos =>
    (r.at buf pos).bind fun v => (readAll rs buf (pos + r.size)).map (v :: ·)

mutual

/-- The value of this type at the front of the input. -/
def decode : Ty → List UInt8 → Option Val
  | .uint bits => fun buf => (natAt buf).bind fun n => if n < 2 ^ bits then some (.uint bits n) else none
  | .int bits => fun buf => (natAt buf).bind fun n =>
    if -2 ^ (bits - 1) ≤ signed n ∧ signed n < 2 ^ (bits - 1) then some (.int bits (signed n)) else none
  | .bytes => fun buf => (bytesAt buf).map .bytes
  | .array t => fun buf => (natAt buf).bind fun n =>
    (readAll (List.replicate n ⟨t.dynamic, t.headSize, decode t⟩) (buf.drop 32) 0).map (.array t)
  | .tuple ts => fun buf => (readAll (readers ts) buf 0).map .tuple

def readers : List Ty → List Reader
  | [] => []
  | t :: ts => ⟨t.dynamic, t.headSize, decode t⟩ :: readers ts

end

/-! ## Words -/

@[simp] theorem word_length (n : ℕ) : (word n).length = 32 := BigEndian.bytes_length 32 n

theorem natAt_word {n : ℕ} (h : n < 2 ^ 256) (rest : List UInt8) : natAt (word n ++ rest) = some n := by
  have hval : BigEndian.value (word n) = n := BigEndian.value_bytes_of_lt (by simpa using h)
  rw [natAt, if_pos (by simp), List.take_left' (word_length n), hval]

theorem signed_emod {i : ℤ} (hlo : -2 ^ 255 ≤ i) (hhi : i < 2 ^ 255) :
    signed (i % 2 ^ 256).toNat = i := by
  unfold signed
  by_cases hneg : i < 0
  · have hmod : i % 2 ^ 256 = i + 2 ^ 256 := by omega
    rw [hmod, if_neg (by omega)]
    omega
  · have hmod : i % 2 ^ 256 = i := by omega
    rw [hmod, if_pos (by omega), Int.toNat_of_nonneg (by omega)]

theorem signed_emod_bits {bits : ℕ} {i : ℤ} (hpos : 0 < bits) (hbits : bits ≤ 256)
    (hlo : -2 ^ (bits - 1) ≤ i) (hhi : i < 2 ^ (bits - 1)) : signed (i % 2 ^ 256).toNat = i := by
  have hpow : (2 : ℤ) ^ (bits - 1) ≤ 2 ^ 255 := pow_le_pow_right₀ (by decide) (by omega)
  exact signed_emod (by omega) (by omega)

theorem bytesAt_encode {bs : List UInt8} (h : bs.length < 2 ^ 256) (rest : List UInt8) :
    bytesAt (word bs.length ++ pad bs ++ rest) = some bs := by
  have hafter : (word bs.length ++ pad bs ++ rest).drop 32 = bs ++
      (List.replicate (padding bs.length) 0 ++ rest) := by
    rw [List.append_assoc, List.drop_left' (word_length _), pad, List.append_assoc]
  have hend : (word bs.length ++ pad bs ++ rest).drop (32 + bs.length) =
      List.replicate (padding bs.length) 0 ++ rest := by
    rw [← List.drop_drop, hafter, List.drop_left]
  have hfits : 32 + bs.length + padding bs.length ≤ (word bs.length ++ pad bs ++ rest).length := by
    simp only [pad, List.length_append, word_length, List.length_replicate]
    omega
  rw [bytesAt, List.append_assoc, natAt_word h, Option.bind_some, ← List.append_assoc, hafter, hend,
    List.take_left, List.take_left' List.length_replicate, if_pos ⟨hfits, rfl⟩]

/-! ## Layout -/

theorem heads_length : ∀ (offset : ℕ) (ps : List Part), (heads offset ps).length = headLength ps
  | _, [] => rfl
  | offset, p :: ps => by
    by_cases hp : p.dynamic
    · simp [heads, headLength, hp, heads_length _ ps]
    · simp [heads, headLength, hp, heads_length _ ps]

theorem layout_length (ps : List Part) : (layout ps).length = headLength ps + (tails ps).length := by
  rw [layout, List.length_append, heads_length]

theorem drop_headLength (ps : List Part) (rest : List UInt8) :
    (layout ps ++ rest).drop (headLength ps) = tails ps ++ rest := by
  rw [layout, List.append_assoc, List.drop_left' (heads_length _ ps)]

theorem headSize_of_dynamic {t : Ty} (h : t.dynamic = true) : t.headSize = 32 := by
  cases t with
  | tuple ts =>
    rw [Ty.dynamic] at h
    rw [Ty.headSize, if_pos h]
  | _ => rfl

def part (v : Val) : Part := ⟨v.ty.dynamic, v.encode⟩

def reader (t : Ty) : Reader := ⟨t.dynamic, t.headSize, decode t⟩

theorem parts_eq_map (vs : List Val) : parts vs = vs.map part := by
  induction vs with
  | nil => rfl
  | cons v vs ih => rw [parts, ih]; rfl

theorem tys_eq_map (vs : List Val) : tys vs = vs.map Val.ty := by
  induction vs with
  | nil => rfl
  | cons v vs ih => rw [tys, ih]; rfl

theorem readers_eq_map (ts : List Ty) : readers ts = ts.map reader := by
  induction ts with
  | nil => rfl
  | cons t ts ih => rw [readers, ih]; rfl

/-- A component is nowhere longer than the layout it is part of. -/
theorem encode_length_le_layout {v : Val} : ∀ {vs : List Val}, v ∈ vs →
    v.encode.length ≤ (layout (vs.map part)).length
  | w :: vs, h => by
    have hrest : ∀ u ∈ vs, u.encode.length ≤ (layout (vs.map part)).length :=
      fun u hu => encode_length_le_layout hu
    rw [layout_length] at hrest ⊢
    rcases List.mem_cons.mp h with rfl | hv
    · by_cases hd : v.ty.dynamic
      · simp [headLength, tails, part, hd]
        omega
      · simp [headLength, tails, part, hd]
        omega
    · have := hrest v hv
      simp only [headLength, tails, List.map_cons, List.sum_cons, List.flatten_cons,
        List.length_append] at this ⊢
      omega

/-- What the decoder has to do for a component: read it back, in the size its
place in the head has. -/
structure ReadsBack (v : Val) : Prop where
  read : ∀ rest, decode v.ty (v.encode ++ rest) = some v
  size : v.ty.dynamic = false → v.encode.length = v.ty.headSize

theorem reader_at {v : Val} (hv : ReadsBack v) {buf rest₁ rest₂ : List UInt8} {offset pos : ℕ}
    (hhead : buf.drop pos = (if v.ty.dynamic then word offset else v.encode) ++ rest₁)
    (htail : v.ty.dynamic = true → buf.drop offset = v.encode ++ rest₂)
    (hlt : offset < 2 ^ 256) : (reader v.ty).at buf pos = some v := by
  unfold Reader.at reader
  by_cases hd : v.ty.dynamic
  · simp only [hd, if_true] at hhead ⊢
    rw [hhead, natAt_word hlt, Option.bind_some, htail hd, hv.read]
  · simp only [hd, if_false, Bool.false_eq_true] at hhead ⊢
    rw [hhead, hv.read]

/-- **Head and tail.** Where the heads of components stand at one place and
their tails at the offset they were made for, all are read back. The
induction moves both places: past the component's head, and past its tail. -/
theorem readAll_layout : ∀ (vs : List Val) (buf rest₁ rest₂ : List UInt8) (offset pos : ℕ),
    (∀ v ∈ vs, ReadsBack v) → buf.drop pos = heads offset (vs.map part) ++ rest₁ →
    buf.drop offset = tails (vs.map part) ++ rest₂ → offset + (tails (vs.map part)).length < 2 ^ 256 →
    readAll (vs.map (reader ∘ Val.ty)) buf pos = some vs
  | [], _, _, _, _, _, _, _, _, _ => rfl
  | v :: vs, buf, rest₁, rest₂, offset, pos, hvs, hhead, htail, hlt => by
    have hv : ReadsBack v := hvs v List.mem_cons_self
    have hrest : ∀ u ∈ vs, ReadsBack u := fun u hu => hvs u (List.mem_cons_of_mem v hu)
    rw [List.map_cons, readAll]
    by_cases hd : v.ty.dynamic
    · have hsize : (reader v.ty).size = 32 := headSize_of_dynamic hd
      simp only [List.map_cons, heads, tails, part, hd, if_true, List.flatten_cons, List.append_assoc,
        List.length_append] at hhead htail hlt
      have hnow : (reader v.ty).at buf pos = some v := by
        refine @reader_at v hv buf (heads (offset + v.encode.length) (vs.map part) ++ rest₁) _ offset pos ?_
          (fun _ => htail) (by omega)
        simpa only [hd, if_true] using hhead
      have hnext := readAll_layout vs buf rest₁ rest₂ (offset + v.encode.length) (pos + 32) hrest
        (by rw [← List.drop_drop, hhead, List.drop_left' (word_length _)])
        (by rw [← List.drop_drop, htail, List.drop_left]; rfl) (by rw [tails]; omega)
      rw [Function.comp_apply, hnow, Option.bind_some, hsize, hnext, Option.map_some]
    · have hsize : (reader v.ty).size = v.encode.length := (hv.size (by simpa using hd)).symm
      simp only [List.map_cons, heads, tails, part, hd, if_false, List.flatten_cons, List.append_assoc,
        Bool.false_eq_true, List.nil_append] at hhead htail hlt
      have hnow : (reader v.ty).at buf pos = some v := by
        refine @reader_at v hv buf (heads offset (vs.map part) ++ rest₁) [] offset pos ?_ (fun h => absurd h hd)
          (by omega)
        simpa only [hd, if_false, Bool.false_eq_true] using hhead
      have hnext := readAll_layout vs buf rest₁ rest₂ offset (pos + v.encode.length) hrest
        (by rw [← List.drop_drop, hhead, List.drop_left]) htail (by rw [tails]; omega)
      rw [Function.comp_apply, hnow, Option.bind_some, hsize, hnext, Option.map_some]

/-- What is laid out at the front of the input is read back. -/
theorem readAll_front {vs : List Val} (hvs : ∀ v ∈ vs, ReadsBack v)
    (hlt : (layout (vs.map part)).length < 2 ^ 256) (rest : List UInt8) :
    readAll (vs.map (reader ∘ Val.ty)) (layout (vs.map part) ++ rest) 0 = some vs := by
  rw [layout_length] at hlt
  refine readAll_layout vs _ (tails (vs.map part) ++ rest) rest (headLength (vs.map part)) 0 hvs ?_
    (drop_headLength _ rest) hlt
  rw [List.drop_zero, layout, List.append_assoc]

theorem layout_length_of_static : ∀ {vs : List Val}, (∀ v ∈ vs, ReadsBack v) →
    anyDynamic (tys vs) = false → (layout (vs.map part)).length = headSizes (tys vs)
  | [], _, _ => rfl
  | v :: vs, hvs, h => by
    rw [tys, anyDynamic, Bool.or_eq_false_iff] at h
    have hsize := (hvs v List.mem_cons_self).size h.1
    have ih := layout_length_of_static (fun u hu => hvs u (List.mem_cons_of_mem v hu)) h.2
    rw [layout_length] at ih ⊢
    simp only [headLength, tails, List.map_cons, part, h.1, tys, headSizes, List.sum_cons,
      List.flatten_cons, Bool.false_eq_true, if_false, List.nil_append] at ih ⊢
    omega

/-! ## Round trip -/

theorem readsBack_uint {bits n : ℕ} (hbits : bits ≤ 256) (hn : n < 2 ^ bits) : ReadsBack (.uint bits n) where
  read rest := by
    have hlt : n < 2 ^ 256 := lt_of_lt_of_le hn (Nat.pow_le_pow_right (by decide) hbits)
    simp only [Val.ty, Val.encode, decode]
    rw [natAt_word hlt, Option.bind_some, if_pos hn]
  size _ := word_length n

theorem readsBack_int {bits : ℕ} {i : ℤ} (hpos : 0 < bits) (hbits : bits ≤ 256)
    (hlo : -2 ^ (bits - 1) ≤ i) (hhi : i < 2 ^ (bits - 1)) : ReadsBack (.int bits i) where
  read rest := by
    have hsigned := signed_emod_bits hpos hbits hlo hhi
    have hlt : (i % 2 ^ 256).toNat < 2 ^ 256 := by omega
    simp only [Val.ty, Val.encode, decode]
    rw [natAt_word hlt, Option.bind_some, hsigned, if_pos ⟨hlo, hhi⟩]
  size _ := word_length _

theorem readsBack_bytes {bs : List UInt8} (h : bs.length < 2 ^ 256) : ReadsBack (.bytes bs) where
  read rest := by
    simp only [Val.ty, Val.encode, decode]
    rw [bytesAt_encode h, Option.map_some]
  size h := absurd h (by simp [Val.ty, Ty.dynamic])

theorem readsBack_array {t : Ty} {vs : List Val} (hlen : vs.length < 2 ^ 256) (hty : ∀ v ∈ vs, v.ty = t)
    (hvs : ∀ v ∈ vs, ReadsBack v) (hlt : (layout (vs.map part)).length < 2 ^ 256) :
    ReadsBack (.array t vs) where
  read rest := by
    have hreaders : List.replicate vs.length (reader t) = vs.map (reader ∘ Val.ty) := by
      rw [← List.map_const']
      exact List.map_congr_left fun v hv => by rw [Function.comp_apply, hty v hv]
    have hread := readAll_front hvs hlt rest
    rw [← hreaders] at hread
    simp only [Val.ty, Val.encode, decode, List.append_assoc, parts_eq_map]
    rw [natAt_word hlen, Option.bind_some, List.drop_left' (word_length _)]
    exact congrArg (Option.map (Val.array t)) hread
  size h := absurd h (by simp [Val.ty, Ty.dynamic])

theorem readsBack_tuple {vs : List Val} (hvs : ∀ v ∈ vs, ReadsBack v)
    (hlt : (layout (vs.map part)).length < 2 ^ 256) : ReadsBack (.tuple vs) where
  read rest := by
    have hread := readAll_front hvs hlt rest
    simp only [Val.ty, Val.encode, decode, readers_eq_map, tys_eq_map, List.map_map, parts_eq_map]
    rw [hread, Option.map_some]
  size h := by
    have hany : anyDynamic (tys vs) = false := h
    rw [Val.encode, parts_eq_map, layout_length_of_static hvs hany, Val.ty, Ty.headSize, if_neg (by simp [hany])]

mutual

theorem Val.readsBack (v : Val) (hwf : v.WellFormed) (hlen : v.encode.length < 2 ^ 256) : ReadsBack v := by
  cases v with
  | uint bits n => exact readsBack_uint hwf.1 hwf.2
  | int bits i => exact readsBack_int hwf.1 hwf.2.1 hwf.2.2.1 hwf.2.2.2
  | bytes bs =>
    simp only [Val.encode, pad, List.length_append] at hlen
    exact readsBack_bytes (by omega)
  | array t vs =>
    simp only [Val.encode, List.length_append, parts_eq_map] at hlen
    have hlt : (layout (vs.map part)).length < 2 ^ 256 := by omega
    have hvs := allReadBack vs hwf.2.2 fun v hv => (encode_length_le_layout hv).trans_lt hlt
    exact readsBack_array hwf.1 hwf.2.1 hvs hlt
  | tuple vs =>
    simp only [Val.encode, parts_eq_map] at hlen
    have hvs := allReadBack vs hwf fun v hv => (encode_length_le_layout hv).trans_lt hlen
    exact readsBack_tuple hvs hlen
termination_by structural v

theorem allReadBack (vs : List Val) (hwf : AllWellFormed vs) (hlen : ∀ v ∈ vs, v.encode.length < 2 ^ 256) :
    ∀ v ∈ vs, ReadsBack v := by
  cases vs with
  | nil => simp
  | cons v vs =>
    intro u hu
    rcases List.mem_cons.mp hu with h | h
    · rw [h]
      exact Val.readsBack v hwf.1 (hlen v List.mem_cons_self)
    · exact allReadBack vs hwf.2 (fun w hw => hlen w (List.mem_cons_of_mem v hw)) u h
termination_by structural vs

end

/-- **Round trip.** A well-formed value is read back at its type, whatever
comes after its encoding. -/
theorem decode_encode {v : Val} (hwf : v.WellFormed) (hlen : v.encode.length < 2 ^ 256)
    (rest : List UInt8) : decode v.ty (v.encode ++ rest) = some v :=
  (v.readsBack hwf hlen).read rest

theorem decode_encode_self {t : Ty} {v : Val} (hty : v.ty = t) (hwf : v.WellFormed)
    (hlen : v.encode.length < 2 ^ 256) : decode t v.encode = some v := by
  have h := decode_encode hwf hlen []
  rwa [List.append_nil, hty] at h

theorem readAll_uints {buf : List UInt8} : ∀ {ps : List (ℕ × ℕ)} {pos : ℕ}, (∀ p ∈ ps, p.2 < 2 ^ 256) →
    buf.drop pos = (ps.map fun p => word p.2).flatten →
    readAll (readers (ps.map fun p => .uint p.1)) buf pos =
      if ∀ p ∈ ps, p.2 < 2 ^ p.1 then some (ps.map fun p => .uint p.1 p.2) else none
  | [], pos, _, _ => by simp [readers, readAll]
  | p :: ps, pos, hlt, hbuf => by
    have hrest : buf.drop (pos + 32) = (ps.map fun p => word p.2).flatten := by
      rw [← List.drop_drop, hbuf, List.map_cons, List.flatten_cons, List.drop_left' (word_length p.2)]
    have ih := readAll_uints (fun q hq => hlt q (List.mem_cons_of_mem _ hq)) hrest
    rw [List.map_cons, readers, readAll]
    simp only [Reader.at, Ty.dynamic, Bool.false_eq_true, if_false, decode, hbuf, List.map_cons, List.flatten_cons,
      natAt_word (hlt p List.mem_cons_self), Option.bind_some, Ty.headSize, ih, List.forall_mem_cons]
    by_cases hp : p.2 < 2 ^ p.1
    · simp only [hp, if_true, Option.bind_some, true_and]
      split
      · rfl
      · rfl
    · simp [hp]

/-- Numbers are read from their words exactly if they are in range. -/
theorem decode_uints (ps : List (ℕ × ℕ)) (hlt : ∀ p ∈ ps, p.2 < 2 ^ 256) :
    decode (.tuple (ps.map fun p => .uint p.1)) (ps.map fun p => word p.2).flatten =
      if ∀ p ∈ ps, p.2 < 2 ^ p.1 then some (.tuple (ps.map fun p => .uint p.1 p.2)) else none := by
  simp only [decode, readAll_uints hlt List.drop_zero]
  split
  · rfl
  · rfl

end Abi
