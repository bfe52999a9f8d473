/-
# SHA-256

The hash of FIPS 180-4, on lists of bytes, as it is computed: the message is
padded to blocks of sixteen words, each block drives sixty-four rounds on eight
working words, and the schedule of a block is a window of sixteen words that
slides over it. Beside it stand the bytes of a text and the hex text of bytes.

Key definitions: `Sha256.digest`, `utf8`, `hex`.
Key theorems: `utf8_injective`, `hex_injective`, `oneLine_hex`.
-/
import Sherwood.Lib.Lines

/-! ### Bytes and texts -/

/-- The bytes of a text. -/
def utf8 (s : String) : List UInt8 := s.toByteArray.data.toList

theorem utf8_injective : Function.Injective utf8 := fun _ _ h =>
  String.toByteArray_inj.mp (ByteArray.ext (Array.toList_inj.mp h))

theorem utf8_eq_flatMap (s : String) : utf8 s = s.toList.flatMap String.utf8EncodeChar := by
  rw [utf8, ← String.utf8Encode_toList, List.utf8Encode]
  simp

/-- The digits of a byte in base sixteen. -/
def hexByte (b : UInt8) : List Char := [Nat.digitChar (b.toNat / 16), Nat.digitChar (b.toNat % 16)]

/-- Bytes in hex, in lower case. -/
def hex (bs : List UInt8) : String := .ofList (bs.flatMap hexByte)

theorem newline_ne_digitChar : ∀ n < 16, '\n' ≠ Nat.digitChar n := by
  decide

theorem oneLine_hex (bs : List UInt8) : OneLine (hex bs) := by
  rw [hex, oneLine_ofList, List.mem_flatMap]
  rintro ⟨b, -, h⟩
  have hb : b.toNat < 256 := b.toNat_lt
  have h1 := newline_ne_digitChar (b.toNat / 16) (by omega)
  have h2 := newline_ne_digitChar (b.toNat % 16) (by omega)
  simp [hexByte, h1, h2] at h

theorem hexByte_injective : Function.Injective hexByte := by
  have hdigit : ∀ m < 16, ∀ n < 16, Nat.digitChar m = Nat.digitChar n → m = n := by decide
  intro b c h
  have hb : b.toNat < 256 := b.toNat_lt
  have hc : c.toNat < 256 := c.toNat_lt
  simp only [hexByte, List.cons.injEq, and_true] at h
  have hhigh := hdigit (b.toNat / 16) (by omega) (c.toNat / 16) (by omega) h.1
  have hlow := hdigit (b.toNat % 16) (by omega) (c.toNat % 16) (by omega) h.2
  exact UInt8.toNat_inj.mp (by omega)

theorem hex_injective : Function.Injective hex := by
  have hflat : ∀ bs cs : List UInt8, bs.flatMap hexByte = cs.flatMap hexByte → bs = cs := by
    intro bs
    induction bs with
    | nil =>
      intro cs h
      cases cs with
      | nil => rfl
      | cons c cs => simp [hexByte] at h
    | cons b bs ih =>
      intro cs h
      cases cs with
      | nil => simp [hexByte] at h
      | cons c cs =>
        rw [List.flatMap_cons, List.flatMap_cons] at h
        obtain ⟨hbyte, hrest⟩ := List.append_inj h rfl
        rw [hexByte_injective hbyte, ih cs hrest]
  intro bs cs h
  exact hflat bs cs (String.ofList_inj.mp h)

namespace Sha256

/-! ### The compression function -/

abbrev Word := BitVec 32

def ch (x y z : Word) : Word := (x &&& y) ^^^ (~~~x &&& z)

def maj (x y z : Word) : Word := (x &&& y) ^^^ (x &&& z) ^^^ (y &&& z)

def bigSigma0 (x : Word) : Word := x.rotateRight 2 ^^^ x.rotateRight 13 ^^^ x.rotateRight 22

def bigSigma1 (x : Word) : Word := x.rotateRight 6 ^^^ x.rotateRight 11 ^^^ x.rotateRight 25

def smallSigma0 (x : Word) : Word := x.rotateRight 7 ^^^ x.rotateRight 18 ^^^ (x >>> 3)

def smallSigma1 (x : Word) : Word := x.rotateRight 17 ^^^ x.rotateRight 19 ^^^ (x >>> 10)

/-- The constants of the rounds. -/
def roundConstants : List Word :=
  [0x428a2f98, 0x71374491, 0xb5c0fbcf, 0xe9b5dba5, 0x3956c25b, 0x59f111f1, 0x923f82a4, 0xab1c5ed5,
   0xd807aa98, 0x12835b01, 0x243185be, 0x550c7dc3, 0x72be5d74, 0x80deb1fe, 0x9bdc06a7, 0xc19bf174,
   0xe49b69c1, 0xefbe4786, 0x0fc19dc6, 0x240ca1cc, 0x2de92c6f, 0x4a7484aa, 0x5cb0a9dc, 0x76f988da,
   0x983e5152, 0xa831c66d, 0xb00327c8, 0xbf597fc7, 0xc6e00bf3, 0xd5a79147, 0x06ca6351, 0x14292967,
   0x27b70a85, 0x2e1b2138, 0x4d2c6dfc, 0x53380d13, 0x650a7354, 0x766a0abb, 0x81c2c92e, 0x92722c85,
   0xa2bfe8a1, 0xa81a664b, 0xc24b8b70, 0xc76c51a3, 0xd192e819, 0xd6990624, 0xf40e3585, 0x106aa070,
   0x19a4c116, 0x1e376c08, 0x2748774c, 0x34b0bcb5, 0x391c0cb3, 0x4ed8aa4a, 0x5b9cca4f, 0x682e6ff3,
   0x748f82ee, 0x78a5636f, 0x84c87814, 0x8cc70208, 0x90befffa, 0xa4506ceb, 0xbef9a3f7, 0xc67178f2]

/-- The eight working words. -/
structure State where
  a : Word
  b : Word
  c : Word
  d : Word
  e : Word
  f : Word
  g : Word
  h : Word

namespace State

def initial : State :=
  ⟨0x6a09e667, 0xbb67ae85, 0x3c6ef372, 0xa54ff53a, 0x510e527f, 0x9b05688c, 0x1f83d9ab, 0x5be0cd19⟩

def add (s t : State) : State :=
  ⟨s.a + t.a, s.b + t.b, s.c + t.c, s.d + t.d, s.e + t.e, s.f + t.f, s.g + t.g, s.h + t.h⟩

/-- One round, with its constant and its word of the schedule. -/
def round (s : State) (k w : Word) : State :=
  let t₁ := s.h + bigSigma1 s.e + ch s.e s.f s.g + k + w
  let t₂ := bigSigma0 s.a + maj s.a s.b s.c
  ⟨t₁ + t₂, s.a, s.b, s.c, s.d + t₁, s.e, s.f, s.g⟩

/-- The word of the schedule that follows a window of sixteen. -/
def nextWord (window : List Word) : Word :=
  smallSigma1 (window.getD 14 0) + window.getD 9 0 + smallSigma0 (window.getD 1 0) + window.getD 0 0

/-- The rounds, the window sliding one word a round. -/
def rounds : (constants window : List Word) → State → State
  | [], _, s => s
  | k :: ks, window, s => rounds ks (window.tail ++ [nextWord window]) (s.round k (window.headD 0))

def compress (s : State) (block : List Word) : State := s.add (rounds roundConstants block s)

end State

/-! ### Padding and digest -/

/-- A number in `n` bytes, the highest first. -/
def bigEndian (n v : ℕ) : List UInt8 := (List.range n).reverse.map fun i => .ofNat (v >>> (8 * i))

def wordOfBytes (bs : List UInt8) : Word := bs.foldl (fun w b => (w <<< 8) ||| BitVec.ofNat 32 b.toNat) 0

/-- Pieces of `n` bytes, as many as there are up to `k`. -/
def pieces (n : ℕ) : (k : ℕ) → List UInt8 → List (List UInt8)
  | 0, _ => []
  | k + 1, bs => if bs = [] then [] else bs.take n :: pieces n k (bs.drop n)

/-- The message with a one bit, zeros up to a full block, and its length in
bits. -/
def pad (bs : List UInt8) : List UInt8 :=
  bs ++ 0x80 :: List.replicate ((119 - bs.length % 64) % 64) 0 ++ bigEndian 8 (8 * bs.length)

def State.bytes (s : State) : List UInt8 :=
  [s.a, s.b, s.c, s.d, s.e, s.f, s.g, s.h].flatMap fun w => bigEndian 4 w.toNat

/-- SHA-256. -/
def digest (bs : List UInt8) : List UInt8 :=
  let padded := pad bs
  let blocks := pieces 64 padded.length padded
  (blocks.foldl (fun s block => State.compress s ((pieces 4 16 block).map wordOfBytes)) State.initial).bytes

example : hex (digest (utf8 "abc")) = "ba7816bf8f01cfea414140de5dae2223b00361a396177a9cb410ff61f20015ad" := by
  decide +kernel

end Sha256
