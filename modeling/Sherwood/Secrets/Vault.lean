/-
# The vault's file

A vault holds named secrets in one file: a magic line, and salt, nonce and the sealed map in hex, a line each. `set`
and `delete` load the map, change it, seal it under a new salt and nonce and write the file in place.

A write in place is not atomic. From the truncation until all but the last newline is written, the file has
less than its four lines, or a part of the sealed map, which no cipher opens: it is malformed or
does not decrypt, and no secret of the map is left anywhere (`loadMap_torn`). Before and after that the map is the
old or the new one (`update_recovers_iff`).

Key definitions: `FileVault.loadMap`, `FileVault.storeMap`, `FileVault.set`, `FileVault.delete`, `Update`.
Key theorems: `loadMap_whole`, `loadMap_torn`, `update_recovers_iff`, `truncated_vault_lost`.
-/
import Mathlib.Data.Finmap
import Sherwood.Chain.Hex
import Sherwood.Lib.FileWrite

namespace Sherwood.Secrets

open Chain (HexDecode ReadsHex)

/-- The names and values of a vault. -/
abbrev SecretMap := Finmap fun _ : String => String

inductive VaultError where
  | io (path source : String)
  | malformed (what : String)
  | decrypt
  | kdf (e : String)
  | json (e : String)
  deriving DecidableEq

/-- The code that the vault uses and the repository does not hold: `hex`, Argon2, XChaCha20-Poly1305 and
`serde_json`. -/
structure Crates where
  hexDecode : HexDecode
  hashPassword : (passphrase salt : List UInt8) → Except String (Vector UInt8 32)
  encrypt : (key : Vector UInt8 32) → (nonce plaintext : List UInt8) → Option (List UInt8)
  decrypt : (key : Vector UInt8 32) → (nonce ciphertext : List UInt8) → Option (List UInt8)
  toVec : SecretMap → Except String (List UInt8)
  fromSlice : List UInt8 → Except String SecretMap

/-- What they promise: bytes are read back from their hex and a map from its text; what is sealed has a tag, and
the cipher opens all of it and no part. -/
structure Lawful (crates : Crates) : Prop where
  hex : ReadsHex crates.hexDecode
  json : ∀ map text, crates.toVec map = .ok text → crates.fromSlice text = .ok map
  tagged : ∀ key nonce plaintext sealed, crates.encrypt key nonce plaintext = some sealed → 16 ≤ sealed.length
  opens : ∀ key nonce plaintext sealed, crates.encrypt key nonce plaintext = some sealed →
    crates.decrypt key nonce sealed = some plaintext
  rejects : ∀ key nonce plaintext sealed, crates.encrypt key nonce plaintext = some sealed →
    ∀ part, part <+: sealed → part ≠ sealed → crates.decrypt key nonce part = none

structure FileVault where
  path : String
  passphrase : String

def magic : String := "SHERWOOD-VAULT-1"

/-- `read_to_string`, of bytes that may be no text. -/
def readToString (bytes : List UInt8) : Option (List Char) :=
  let text := Utf8.lossy bytes
  if utf8 (.ofList text) = bytes then some text else none

namespace FileVault

variable (crates : Crates) (vault : FileVault)

def deriveKey (salt : List UInt8) : Outcome VaultError (Vector UInt8 32) :=
  .ofExcept ((crates.hashPassword (utf8 vault.passphrase) salt).mapError .kdf)

/-- The closure `field`: the bytes of the next line, and the lines after it. -/
def field (what : String) : List (List Char) → Outcome VaultError (List UInt8 × List (List Char))
  | [] => .err (.malformed s!"missing {what} line")
  | line :: text =>
    match crates.hexDecode (.ofList (trim line)) with
    | .error _ => .err (.malformed s!"{what} is not hex")
    | .ok bytes => .ok (bytes, text)

/-- The map in the lines of the file. -/
def readMap (text : List (List Char)) : Outcome VaultError SecretMap := do
  .reject (text.head? ≠ some magic.toList) (.malformed "missing or wrong magic line")
  let (salt, text) ← field crates "salt" text.tail
  let (nonce, text) ← field crates "nonce" text
  let (ciphertext, _) ← field crates "ciphertext" text
  .reject (salt.length ≠ 16 ∨ nonce.length ≠ 24) (.malformed "salt or nonce has the wrong length")
  let key ← vault.deriveKey crates salt
  let plaintext ← .okOr (crates.decrypt key nonce ciphertext) .decrypt
  .ofExcept ((crates.fromSlice plaintext).mapError .json)

def loadMap : Contents → Outcome VaultError SecretMap
  | none => .ok ∅
  | some bytes => do
    let raw ← .okOr (readToString bytes) (.io vault.path "stream did not contain valid UTF-8")
    vault.readMap crates (readLines raw)

/-- Write the bytes, `0600` on Unix. -/
def writePrivate (bytes : List UInt8) : List FileOp := writeInPlace bytes

def body (salt nonce ciphertext : List UInt8) : String := lines [magic, hex salt, hex nonce, hex ciphertext]

/-- What is done to the file, from a salt and a nonce that are drawn. -/
def storeMap (map : SecretMap) (salt : Vector UInt8 16) (nonce : Vector UInt8 24) :
    Outcome VaultError (List FileOp) := do
  let plaintext ← .ofExcept ((crates.toVec map).mapError .json)
  let key ← vault.deriveKey crates salt.toList
  let ciphertext ← .okOr (crates.encrypt key nonce.toList plaintext) .decrypt
  return writePrivate (utf8 (body salt.toList nonce.toList ciphertext))

def set (file : Contents) (name value : String) (salt : Vector UInt8 16) (nonce : Vector UInt8 24) :
    Outcome VaultError (List FileOp) := do
  let map ← vault.loadMap crates file
  vault.storeMap crates (map.insert name value) salt nonce

/-- Whether a secret was removed, and what is done to the file. -/
def delete (file : Contents) (name : String) (salt : Vector UInt8 16) (nonce : Vector UInt8 24) :
    Outcome VaultError (Bool × List FileOp) := do
  let map ← vault.loadMap crates file
  if name ∈ map then return (true, ← vault.storeMap crates (map.erase name) salt nonce)
  else return (false, [])

end FileVault

/-! ### What the lines hold -/

theorem readToString_utf8 (s : String) : readToString (utf8 s) = some s.toList := by
  have hlossy : Utf8.lossy (utf8 s) = s.toList := by rw [utf8_eq_flatMap, Utf8.lossy_flatMap_utf8EncodeChar]
  rw [readToString, hlossy, String.ofList_toList, if_pos rfl]

theorem utf8_length {s : String} (h : ∀ c ∈ s.toList, c.utf8Size = 1) : (utf8 s).length = s.toList.length := by
  rw [utf8_eq_flatMap, Utf8.length_flatMap_utf8EncodeChar h]

theorem readToString_take {s : String} (h : ∀ c ∈ s.toList, c.utf8Size = 1) (n : ℕ) :
    readToString ((utf8 s).take n) = some (s.toList.take n) := by
  have hbytes : (utf8 s).take n = utf8 (.ofList (s.toList.take n)) := by
    rw [utf8_eq_flatMap, utf8_eq_flatMap, Utf8.take_flatMap_utf8EncodeChar h, String.toList_ofList]
  rw [hbytes, readToString_utf8, String.toList_ofList]

theorem digitChar_plain : ∀ d < 16, (Nat.digitChar d).utf8Size = 1 ∧ isWhitespace (Nat.digitChar d) = false ∧
    Nat.digitChar d ≠ '\n' ∧ Nat.digitChar d ≠ '\r' := by
  decide

theorem hex_plain {bytes : List UInt8} {c : Char} (h : c ∈ (hex bytes).toList) :
    c.utf8Size = 1 ∧ isWhitespace c = false ∧ c ≠ '\n' ∧ c ≠ '\r' := by
  rw [hex, String.toList_ofList, List.mem_flatMap] at h
  obtain ⟨b, -, hc⟩ := h
  have hb := b.toNat_lt
  simp only [hexByte, List.mem_cons, List.not_mem_nil, or_false] at hc
  rcases hc with rfl | rfl
  · exact digitChar_plain _ (by omega)
  · exact digitChar_plain _ (by omega)

theorem unbroken_hex (bytes : List UInt8) : Unbroken (hex bytes).toList :=
  ⟨fun h => (hex_plain h).2.2.1 rfl, fun h => (hex_plain h).2.2.2 rfl⟩

theorem trim_of_plain {cs : List Char} (h : ∀ c ∈ cs, isWhitespace c = false) : trim cs = cs := by
  have hstart : cs.dropWhile isWhitespace = cs := by
    cases cs with
    | nil => rfl
    | cons c cs => rw [List.dropWhile_cons, h c List.mem_cons_self, if_neg (by decide)]
  rw [trim, hstart, List.rdropWhile_eq_self_iff]
  intro hne hspace
  rw [h _ (List.getLast_mem hne)] at hspace
  cases hspace

theorem prefix_of_hex : ∀ {part bytes : List UInt8}, (hex part).toList <+: (hex bytes).toList → part <+: bytes := by
  intro part
  induction part with
  | nil => exact fun _ => List.nil_prefix
  | cons b part ih =>
    intro bytes h
    rw [hex, hex, String.toList_ofList, String.toList_ofList, List.flatMap_cons] at h
    cases bytes with
    | nil => simp [hexByte] at h
    | cons b' bytes =>
      simp only [List.flatMap_cons, hexByte, List.cons_append, List.nil_append, List.cons_prefix_cons] at h
      obtain ⟨hhigh, hlow, hrest⟩ := h
      have hbyte : hexByte b = hexByte b' := by rw [hexByte, hexByte, hhigh, hlow]
      rw [hexByte_injective hbyte, List.cons_prefix_cons]
      refine ⟨rfl, ih ?_⟩
      rwa [hex, hex, String.toList_ofList, String.toList_ofList]

section

variable {crates : Crates} {vault : FileVault}

namespace FileVault

theorem field_eq_ok {what : String} {text rest : List (List Char)} {bytes : List UInt8} :
    field crates what text = .ok (bytes, rest) ↔
      ∃ line, text = line :: rest ∧ crates.hexDecode (.ofList (trim line)) = .ok bytes := by
  cases text with
  | nil => simp [field]
  | cons line text =>
    rw [field]
    cases hdecode : crates.hexDecode (.ofList (trim line)) with
    | error e => simp [hdecode]
    | ok raw => simp [hdecode, and_comm]

/-- **What is read.** A map is read from a magic line and three lines of hex: a salt, a nonce, and what the key of
the passphrase opens to the map's text. -/
theorem readMap_eq_ok {text : List (List Char)} {map : SecretMap} : vault.readMap crates text = .ok map ↔
    ∃ line₁ line₂ line₃ rest salt nonce ciphertext key plaintext,
      text = magic.toList :: line₁ :: line₂ :: line₃ :: rest ∧
      crates.hexDecode (.ofList (trim line₁)) = .ok salt ∧ crates.hexDecode (.ofList (trim line₂)) = .ok nonce ∧
      crates.hexDecode (.ofList (trim line₃)) = .ok ciphertext ∧ salt.length = 16 ∧ nonce.length = 24 ∧
      vault.deriveKey crates salt = .ok key ∧ crates.decrypt key nonce ciphertext = some plaintext ∧
      crates.fromSlice plaintext = .ok map := by
  simp only [readMap, Outcome.bind_eq_ok, Outcome.reject_eq_ok, exists_const, Prod.exists, field_eq_ok,
    Outcome.okOr_eq_ok, Outcome.ofExcept_mapError_eq_ok, not_or, not_not]
  constructor
  · rintro ⟨hmagic, salt, text₁, ⟨line₁, h₁, hsalt⟩, nonce, text₂, ⟨line₂, rfl, hnonce⟩, ciphertext, rest,
      ⟨line₃, rfl, hct⟩, ⟨hlen, hlen'⟩, key, hkey, plaintext, hplain, hmap⟩
    cases text with
    | nil => cases hmagic
    | cons line text =>
      obtain rfl := Option.some.inj hmagic
      obtain rfl : text = _ := h₁
      exact ⟨line₁, line₂, line₃, rest, salt, nonce, ciphertext, key, plaintext, rfl, hsalt, hnonce, hct, hlen, hlen',
        hkey, hplain, hmap⟩
  · rintro ⟨line₁, line₂, line₃, rest, salt, nonce, ciphertext, key, plaintext, rfl, hsalt, hnonce, hct, hlen, hlen',
      hkey, hplain, hmap⟩
    exact ⟨rfl, salt, _, ⟨line₁, rfl, hsalt⟩, nonce, _, ⟨line₂, rfl, hnonce⟩, ciphertext, rest, ⟨line₃, rfl, hct⟩,
      ⟨hlen, hlen'⟩, key, hkey, plaintext, hplain, hmap⟩

/-! ### The text of a vault -/

variable {map : SecretMap} {salt : Vector UInt8 16} {nonce : Vector UInt8 24} {ciphertext : List UInt8}

/-- What is written holds the map, sealed. -/
structure Sealed (crates : Crates) (vault : FileVault) (map : SecretMap) (salt : Vector UInt8 16)
    (nonce : Vector UInt8 24) (ciphertext : List UInt8) (key : Vector UInt8 32) (plaintext : List UInt8) : Prop where
  json : crates.toVec map = .ok plaintext
  derived : vault.deriveKey crates salt.toList = .ok key
  sealed : crates.encrypt key nonce.toList plaintext = some ciphertext

theorem storeMap_eq_ok {ops : List FileOp} : vault.storeMap crates map salt nonce = .ok ops ↔
    ∃ ciphertext key plaintext, Sealed crates vault map salt nonce ciphertext key plaintext ∧
      ops = writePrivate (utf8 (body salt.toList nonce.toList ciphertext)) := by
  simp only [storeMap, Outcome.bind_eq_ok, Outcome.ofExcept_mapError_eq_ok, Outcome.okOr_eq_ok, Outcome.pure_eq_ok,
    Outcome.ok.injEq]
  constructor
  · rintro ⟨plaintext, hjson, key, hkey, ciphertext, hsealed, rfl⟩
    exact ⟨ciphertext, key, plaintext, ⟨hjson, hkey, hsealed⟩, rfl⟩
  · rintro ⟨ciphertext, key, plaintext, ⟨hjson, hkey, hsealed⟩, rfl⟩
    exact ⟨plaintext, hjson, key, hkey, ciphertext, hsealed, rfl⟩

def bodyLines (salt nonce ciphertext : List UInt8) : List (List Char) :=
  [magic.toList, (hex salt).toList, (hex nonce).toList, (hex ciphertext).toList]

theorem body_toList (salt nonce ciphertext : List UInt8) :
    (body salt nonce ciphertext).toList = terminated '\n' (bodyLines salt nonce ciphertext) :=
  toList_lines _

theorem magic_plain : ∀ c ∈ magic.toList, c.utf8Size = 1 ∧ c ≠ '\n' ∧ c ≠ '\r' := by
  have hall : magic.toList.all (fun c => c.utf8Size = 1 ∧ c ≠ '\n' ∧ c ≠ '\r') = true := by decide
  simpa only [List.all_eq_true, decide_eq_true_eq] using hall

theorem bodyLines_plain {salt nonce ciphertext : List UInt8} :
    ∀ line ∈ bodyLines salt nonce ciphertext, Unbroken line ∧ ∀ c ∈ line, c.utf8Size = 1 := by
  have hhex (bytes : List UInt8) : Unbroken (hex bytes).toList ∧ ∀ c ∈ (hex bytes).toList, c.utf8Size = 1 :=
    ⟨unbroken_hex bytes, fun c hc => (hex_plain hc).1⟩
  have hmagic : Unbroken magic.toList ∧ ∀ c ∈ magic.toList, c.utf8Size = 1 :=
    ⟨⟨fun h => (magic_plain _ h).2.1 rfl, fun h => (magic_plain _ h).2.2 rfl⟩, fun c hc => (magic_plain c hc).1⟩
  intro line hline
  simp only [bodyLines, List.mem_cons, List.not_mem_nil, or_false] at hline
  rcases hline with rfl | rfl | rfl | rfl
  · exact hmagic
  · exact hhex salt
  · exact hhex nonce
  · exact hhex ciphertext

theorem body_ascii {salt nonce ciphertext : List UInt8} :
    ∀ c ∈ (body salt nonce ciphertext).toList, c.utf8Size = 1 := by
  intro c hc
  rw [body_toList, terminated, List.mem_flatMap] at hc
  obtain ⟨line, hline, hc⟩ := hc
  rcases List.mem_append.mp hc with hc | hc
  · exact (bodyLines_plain line hline).2 c hc
  · rw [List.mem_singleton.mp hc]
    decide

/-- Of the bytes of the file, the lines are read. -/
theorem loadMap_take (salt nonce ciphertext : List UInt8) (n : ℕ) :
    vault.loadMap crates (some ((utf8 (body salt nonce ciphertext)).take n)) =
      vault.readMap crates (readLines ((terminated '\n' (bodyLines salt nonce ciphertext)).take n)) := by
  rw [loadMap, readToString_take body_ascii, body_toList]
  rfl

section Lawful

variable (hlaw : Lawful crates)

include hlaw

theorem hexDecode_line (bytes : List UInt8) : crates.hexDecode (.ofList (trim (hex bytes).toList)) = .ok bytes := by
  rw [trim_of_plain fun c hc => (hex_plain hc).2.1, String.ofList_toList, hlaw.hex.ok_iff, Chain.toAsciiLowercase_hex]

/-- Of a line of hex, a part is read as a part of the bytes. -/
theorem hexDecode_part {part : List Char} {bytes raw : List UInt8} (hpart : part <+: (hex bytes).toList)
    (h : crates.hexDecode (.ofList (trim part)) = .ok raw) : part = (hex raw).toList ∧ raw <+: bytes := by
  have hlower : part.map Char.toLower = part := by
    have hhex : (hex bytes).toList.map Char.toLower = (hex bytes).toList := by
      rw [← Chain.toAsciiLowercase_toList, Chain.toAsciiLowercase_hex]
    rw [List.prefix_iff_eq_take.mp hpart, List.map_take, hhex]
  rw [trim_of_plain fun c hc => (hex_plain (hpart.subset hc)).2.1, hlaw.hex.ok_iff, ← String.toList_inj,
    Chain.toAsciiLowercase_toList, String.toList_ofList, hlower] at h
  exact ⟨h, prefix_of_hex (h ▸ hpart)⟩

theorem readMap_bodyLines {key : Vector UInt8 32} {plaintext : List UInt8}
    (h : Sealed crates vault map salt nonce ciphertext key plaintext) :
    vault.readMap crates (bodyLines salt.toList nonce.toList ciphertext) = .ok map :=
  readMap_eq_ok.mpr ⟨_, _, _, [], salt.toList, nonce.toList, ciphertext, key, plaintext, rfl, hexDecode_line hlaw _,
    hexDecode_line hlaw _, hexDecode_line hlaw _, salt.length_toList, nonce.length_toList, h.derived,
    hlaw.opens _ _ _ _ h.sealed, hlaw.json _ _ h.json⟩

/-- **A whole file** is read, also without its last newline. -/
theorem loadMap_whole {key : Vector UInt8 32} {plaintext : List UInt8}
    (h : Sealed crates vault map salt nonce ciphertext key plaintext) {n : ℕ}
    (hn : (utf8 (body salt.toList nonce.toList ciphertext)).length ≤ n + 1) :
    vault.loadMap crates (some ((utf8 (body salt.toList nonce.toList ciphertext)).take n)) = .ok map := by
  have hne : (hex ciphertext).toList ≠ [] := by
    have htag := hlaw.tagged _ _ _ _ h.sealed
    intro hnil
    have hlen := Chain.hex_length ciphertext
    rw [hnil, List.length_nil] at hlen
    omega
  have hplain : ∀ line ∈ bodyLines salt.toList nonce.toList ciphertext, Unbroken line :=
    fun line hline => (bodyLines_plain line hline).1
  have hsplit : bodyLines salt.toList nonce.toList ciphertext =
      [magic.toList, (hex salt.toList).toList, (hex nonce.toList).toList] ++ [(hex ciphertext).toList] :=
    rfl
  rw [utf8_length body_ascii, body_toList, hsplit] at hn
  rw [hsplit, List.forall_mem_append, List.forall_mem_singleton] at hplain
  rw [loadMap_take, hsplit, readLines_whole hplain.1 hplain.2 hne hn]
  exact readMap_bodyLines hlaw h

/-- **A torn file** is not: it has less than four lines, or a part of what was sealed. -/
theorem loadMap_torn {key : Vector UInt8 32} {plaintext : List UInt8}
    (h : Sealed crates vault map salt nonce ciphertext key plaintext) {n : ℕ}
    (hn : n + 1 < (utf8 (body salt.toList nonce.toList ciphertext)).length) (map' : SecretMap) :
    vault.loadMap crates (some ((utf8 (body salt.toList nonce.toList ciphertext)).take n)) ≠ .ok map' := by
  intro hload
  rw [utf8_length body_ascii, body_toList] at hn
  obtain ⟨whole, line, rest, part, hlines, hpart, hne, hread⟩ :=
    readLines_torn (fun line hline => (bodyLines_plain line hline).1) hn
  rw [loadMap_take, hread] at hload
  obtain ⟨line₁, line₂, line₃, more, salt', nonce', ciphertext', key', plaintext', htext, hsalt, hnonce, hct, -, -,
    hkey, hopens, -⟩ := readMap_eq_ok.mp hload
  have hfour : 4 = whole.length + (rest.length + 1) := by simpa [bodyLines] using congrArg List.length hlines
  by_cases hnil : part = []
  · rw [if_pos hnil, List.append_nil] at htext
    rw [htext] at hfour
    simp only [List.length_cons] at hfour
    omega
  · -- three whole lines, and a part of the last
    rw [if_neg hnil] at htext
    have hthree : whole.length + 1 = more.length + 4 := by simpa using congrArg List.length htext
    obtain rfl : rest = [] := List.length_eq_zero_iff.mp (by omega)
    have hsplit : [magic.toList, (hex salt.toList).toList, (hex nonce.toList).toList] ++ [(hex ciphertext).toList] =
        whole ++ [line] :=
      hlines
    obtain ⟨hwhole, hlast⟩ := List.append_inj' hsplit rfl
    obtain rfl := List.singleton_inj.mp hlast
    subst hwhole
    simp only [List.cons_append, List.nil_append, List.cons.injEq] at htext
    obtain ⟨-, rfl, rfl, rfl, -⟩ := htext
    obtain ⟨rfl, hprefix⟩ := hexDecode_part hlaw hpart hct
    rw [hexDecode_line hlaw, Except.ok.injEq] at hsalt hnonce
    subst hsalt hnonce
    rw [h.derived, Outcome.ok.injEq] at hkey
    subst hkey
    have hshort : ciphertext' ≠ ciphertext := by
      rintro rfl
      exact hne rfl rfl
    rw [hlaw.rejects _ _ _ _ h.sealed _ hprefix hshort] at hopens
    cases hopens

end Lawful

end FileVault

/-! ### Updates -/

/-- A `set` or a `delete` on a file with the map `map`: the map it makes, and what it does to the file. -/
inductive Update (crates : Crates) (vault : FileVault) (file : Contents) (map : SecretMap) :
    SecretMap → List FileOp → Prop where
  | set {name value : String} {salt : Vector UInt8 16} {nonce : Vector UInt8 24} {ops : List FileOp} :
      vault.set crates file name value salt nonce = .ok ops → Update crates vault file map (map.insert name value) ops
  | delete {name : String} {salt : Vector UInt8 16} {nonce : Vector UInt8 24} {removed : Bool} {ops : List FileOp} :
      vault.delete crates file name salt nonce = .ok (removed, ops) → Update crates vault file map (map.erase name) ops

variable {file after : Contents} {map map' : SecretMap} {ops : List FileOp}

theorem erase_of_not_mem {name : String} (h : name ∉ map) : map.erase name = map := by
  refine Finmap.ext_lookup fun other => ?_
  by_cases hname : other = name
  · rw [hname, Finmap.lookup_erase, Finmap.lookup_eq_none.mpr h]
  · exact Finmap.lookup_erase_ne hname

/-- An update does nothing to the file and leaves the map as it is, or writes the new one. -/
theorem Update.cases_ops (hload : vault.loadMap crates file = .ok map) (h : Update crates vault file map map' ops) :
    (ops = [] ∧ map' = map) ∨ ∃ salt nonce, vault.storeMap crates map' salt nonce = .ok ops := by
  cases h with
  | set hset =>
    rw [FileVault.set, hload, Outcome.ok_bind] at hset
    exact .inr ⟨_, _, hset⟩
  | @delete name _ _ removed ops hdelete =>
    rw [FileVault.delete, hload, Outcome.ok_bind] at hdelete
    split at hdelete
    · obtain ⟨ops', hstore, hpair⟩ := Outcome.bind_eq_ok.mp hdelete
      obtain ⟨-, rfl⟩ := Prod.mk.inj (Outcome.ok.inj hpair)
      exact .inr ⟨_, _, hstore⟩
    · next habsent =>
      obtain ⟨-, rfl⟩ := Prod.mk.inj (Outcome.ok.inj hdelete)
      exact .inl ⟨rfl, erase_of_not_mem habsent⟩

/-- **Interrupted updates.** The old or the new map is read afterwards, exactly if the file was not yet truncated, or
all but its last newline was written. -/
theorem update_recovers_iff (hlaw : Lawful crates) (hload : vault.loadMap crates file = .ok map)
    (hupdate : Update crates vault file map map' ops) (hafter : Interrupted after ops file) :
    (vault.loadMap crates after = .ok map ∨ vault.loadMap crates after = .ok map') ↔
      after = file ∨ ∃ bytes n, ops = FileVault.writePrivate bytes ∧ bytes.length ≤ n + 1 ∧
        after = some (bytes.take n) := by
  rcases hupdate.cases_ops hload with ⟨rfl, rfl⟩ | ⟨salt, nonce, hstore⟩
  · -- nothing was written
    obtain rfl : after = file := hafter
    exact iff_of_true (.inl hload) (.inl rfl)
  · obtain ⟨ciphertext, key, plaintext, hsealed, rfl⟩ := FileVault.storeMap_eq_ok.mp hstore
    constructor
    · intro hrecovers
      rcases interrupted_writeInPlace_iff.mp hafter with rfl | ⟨n, -, rfl⟩
      · exact .inl rfl
      · refine .inr ⟨_, n, rfl, ?_, rfl⟩
        by_contra hshort
        rcases hrecovers with hold | hnew
        · exact FileVault.loadMap_torn hlaw hsealed (not_le.mp hshort) _ hold
        · exact FileVault.loadMap_torn hlaw hsealed (not_le.mp hshort) _ hnew
    · rintro (rfl | ⟨bytes, n, hops, hlen, rfl⟩)
      · exact .inl hload
      · have hbytes : bytes = utf8 (FileVault.body salt.toList nonce.toList ciphertext) := by
          simp only [FileVault.writePrivate, writeInPlace, List.cons.injEq, FileOp.writeAll.injEq] at hops
          exact hops.2.1.symm
        rw [hbytes] at hlen ⊢
        exact .inr (FileVault.loadMap_whole hlaw hsealed hlen)

end

/-! ### A vault of two secrets -/

/-- A map, its text, and what it is sealed to. -/
structure SealedMap where
  map : SecretMap
  text : List UInt8
  nonce : Vector UInt8 24
  sealed : List UInt8

def zeroSalt : Vector UInt8 16 := .replicate 16 0

/-- The key of the passphrase `pw` and a salt of zeros. -/
def pwKey : Vector UInt8 32 :=
  ⟨⟨BigEndian.bytes 32 0xaaeed868d05455d03b5bdd2cd280d5dd0fc1198cbf615871f8195662217c919f⟩, by simp⟩

def oneSecret : SealedMap where
  map := Finmap.singleton "a" "1"
  text := utf8 "\x7b\"a\":\"1\"\x7d"
  nonce := .replicate 24 0
  sealed := BigEndian.bytes 25 0xa23fd77f47e72ca598e83508019b6d95b3ea108fd594945448

def twoSecrets : SealedMap where
  map := (Finmap.singleton "a" "1").insert "b" "2"
  text := utf8 "\x7b\"a\":\"1\",\"b\":\"2\"\x7d"
  nonce := .replicate 24 1
  sealed := BigEndian.bytes 33 0x3b7ba441845ec21a186dbff5f208dbb537598fd363ccb3c63ae751f72a10da0d04

def sealedMaps : List SealedMap := [oneSecret, twoSecrets]

/-- The crates as far as the two maps, the passphrase and the salt go. -/
def tableCrates : Crates where
  hexDecode := Dex.hexDecode
  hashPassword passphrase salt :=
    if passphrase = utf8 "pw" ∧ salt = zeroSalt.toList then .ok pwKey else .error "not known"
  encrypt key nonce plaintext :=
    (sealedMaps.find? fun m => key = pwKey ∧ m.nonce.toList = nonce ∧ m.text = plaintext).map SealedMap.sealed
  decrypt key nonce ciphertext :=
    (sealedMaps.find? fun m => key = pwKey ∧ m.nonce.toList = nonce ∧ m.sealed = ciphertext).map SealedMap.text
  toVec map := ((sealedMaps.find? fun m => m.map = map).map SealedMap.text).elim (.error "not known") .ok
  fromSlice text := ((sealedMaps.find? fun m => m.text = text).map SealedMap.map).elim (.error "not known") .ok

theorem mem_of_encrypt {key : Vector UInt8 32} {nonce plaintext sealed : List UInt8}
    (h : tableCrates.encrypt key nonce plaintext = some sealed) :
    ∃ m ∈ sealedMaps, key = pwKey ∧ m.nonce.toList = nonce ∧ m.text = plaintext ∧ m.sealed = sealed := by
  obtain ⟨m, hfind, hsealed⟩ := Option.map_eq_some_iff.mp h
  have hm := List.find?_some hfind
  obtain ⟨hkey, hnonce, htext⟩ := of_decide_eq_true hm
  exact ⟨m, List.mem_of_find?_eq_some hfind, hkey, hnonce, htext, hsealed⟩

theorem lawful_tableCrates : Lawful tableCrates where
  hex := Chain.readsHex_hexDecode
  json map text h := by
    have hread : ∀ m ∈ sealedMaps, tableCrates.fromSlice m.text = .ok m.map := by decide +kernel
    cases hfind : sealedMaps.find? fun m => m.map = map with
    | none => simp [tableCrates, hfind] at h
    | some m =>
      have hm := List.find?_some hfind
      simp only [tableCrates, hfind, Option.map_some, Option.elim_some, Except.ok.injEq] at h
      rw [← h, hread m (List.mem_of_find?_eq_some hfind), of_decide_eq_true hm]
  tagged key nonce plaintext sealed h := by
    have hlen : ∀ m ∈ sealedMaps, 16 ≤ m.sealed.length := by decide +kernel
    obtain ⟨m, hm, -, -, -, rfl⟩ := mem_of_encrypt h
    exact hlen m hm
  opens key nonce plaintext sealed h := by
    have hopen : ∀ m ∈ sealedMaps, tableCrates.decrypt pwKey m.nonce.toList m.sealed = some m.text := by decide +kernel
    obtain ⟨m, hm, rfl, rfl, rfl, rfl⟩ := mem_of_encrypt h
    exact hopen m hm
  rejects key nonce plaintext sealed h part hpart hne := by
    have honce : ∀ m ∈ sealedMaps, ∀ m' ∈ sealedMaps, m'.nonce.toList = m.nonce.toList → m'.sealed = m.sealed := by
      decide +kernel
    obtain ⟨m, hm, rfl, rfl, rfl, rfl⟩ := mem_of_encrypt h
    refine Option.map_eq_none_iff.mpr (List.find?_eq_none.mpr fun m' hm' heq => ?_)
    obtain ⟨-, hnonce, hsealed⟩ := of_decide_eq_true heq
    exact hne (hsealed.symm.trans (honce m hm m' hm' hnonce))

def pwVault : FileVault := ⟨"v.vault", "pw"⟩

theorem sealed_of_mem : ∀ m ∈ sealedMaps,
    FileVault.Sealed tableCrates pwVault m.map zeroSalt m.nonce m.sealed pwKey m.text := by
  have hjson : ∀ m ∈ sealedMaps, tableCrates.toVec m.map = .ok m.text := by decide +kernel
  have hsealed : ∀ m ∈ sealedMaps, tableCrates.encrypt pwKey m.nonce.toList m.text = some m.sealed := by decide +kernel
  exact fun m hm => ⟨hjson m hm, by decide +kernel, hsealed m hm⟩

/-- The bytes of a file. -/
def fileOf (m : SealedMap) : List UInt8 := utf8 (FileVault.body zeroSalt.toList m.nonce.toList m.sealed)

theorem loadMap_fileOf {m : SealedMap} (hm : m ∈ sealedMaps) :
    pwVault.loadMap tableCrates (some (fileOf m)) = .ok m.map := by
  have hload := FileVault.loadMap_whole lawful_tableCrates (sealed_of_mem m hm) (Nat.le_succ (fileOf m).length)
  have htake : (utf8 (FileVault.body zeroSalt.toList m.nonce.toList m.sealed)).take (fileOf m).length = fileOf m :=
    List.take_length
  rwa [htake] at hload

theorem update_twoSecrets : Update tableCrates pwVault (some (fileOf oneSecret)) oneSecret.map twoSecrets.map
    (FileVault.writePrivate (fileOf twoSecrets)) := by
  have hset : pwVault.set tableCrates (some (fileOf oneSecret)) "b" "2" zeroSalt twoSecrets.nonce =
      .ok (FileVault.writePrivate (fileOf twoSecrets)) := by
    rw [FileVault.set, loadMap_fileOf (List.mem_cons_self), Outcome.ok_bind]
    exact FileVault.storeMap_eq_ok.mpr ⟨_, _, _, sealed_of_mem twoSecrets (by simp [sealedMaps]), rfl⟩
  exact .set hset

/-- All but the last newline is written before the interruption. -/
theorem update_recovers_iff_written :
    pwVault.loadMap tableCrates (some ((fileOf twoSecrets).take 165)) = .ok oneSecret.map ∨
      pwVault.loadMap tableCrates (some ((fileOf twoSecrets).take 165)) = .ok twoSecrets.map := by
  have hlen : (fileOf twoSecrets).length = 166 := by decide +kernel
  refine (update_recovers_iff lawful_tableCrates (loadMap_fileOf List.mem_cons_self) update_twoSecrets
    (interrupted_writeInPlace_iff.mpr (.inr ⟨165, by omega, rfl⟩))).mpr (.inr ⟨_, 165, rfl, by omega, rfl⟩)

/-- The file is truncated and nothing is written: both secrets are lost. -/
theorem truncated_vault_lost : ¬ ∀ (crates : Crates) (vault : FileVault) (file after : Contents) (map map' : SecretMap)
    (ops : List FileOp), Lawful crates → vault.loadMap crates file = .ok map → Update crates vault file map map' ops →
      Interrupted after ops file →
        vault.loadMap crates after = .ok map ∨ vault.loadMap crates after = .ok map' := by
  intro hclaim
  have hempty : pwVault.loadMap tableCrates (some []) = .err (.malformed "missing or wrong magic line") := by
    decide +kernel
  have hrecovers := hclaim tableCrates pwVault _ (some []) _ _ _ lawful_tableCrates (loadMap_fileOf List.mem_cons_self)
    update_twoSecrets (interrupted_writeInPlace_iff.mpr (.inr ⟨0, Nat.zero_le _, rfl⟩))
  rw [hempty] at hrecovers
  rcases hrecovers with h | h
  · cases h
  · cases h

end Sherwood.Secrets
