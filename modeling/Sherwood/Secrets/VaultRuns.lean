/-
# Runs of a vault

The calls of a vault, one after another, each on the file that the one before has left. A call
replies, or fails, or is interrupted while it writes; what it is in the map that the file holds
is its meaning (`VaultCall.meaning`).

So a vault is a map from names to values that the calls read and change (`Explains`): what
fails changes nothing, and as long as the map is there, nothing that only reads fails. An
interrupted write may leave the map as it was, or changed, or lose it; once it is lost it stays
lost, and every call that needs it fails (`vault_runs`).

Key definitions: `FileVault.call`, `VaultCall.meaning`, `FileVault.system`, `Explains`.
Key theorems: `call_eq_ok`, `vault_runs`.
-/
import Mathlib.Data.Finset.Sort
import Sherwood.Lib.Lts
import Sherwood.Secrets.Vault

namespace Sherwood.Secrets

/-! ### Calls -/

inductive VaultCall where
  | get (name : String)
  | list
  | set (name value : String) (salt : Vector UInt8 16) (nonce : Vector UInt8 24)
  | delete (name : String) (salt : Vector UInt8 16) (nonce : Vector UInt8 24)
  /-- `resolve_ref`. -/
  | resolve (value : String)

inductive VaultReply where
  | secret (value : Option String)
  | names (names : List String)
  | stored
  | removed (removed : Bool)
  deriving DecidableEq

/-- The name in a reference `vault:NAME`. -/
def refName (value : String) : Option String :=
  if "vault:".toList <+: value.toList then some (.ofList (trim (value.toList.drop 6))) else none

namespace FileVault

variable (crates : Crates) (vault : FileVault)

def get (file : Contents) (name : String) : Outcome VaultError (Option String) := do
  let map ← vault.loadMap crates file
  return map.lookup name

def list (file : Contents) : Outcome VaultError (List String) := do
  let map ← vault.loadMap crates file
  return map.keys.sort

def resolveRef (file : Contents) (value : String) : Outcome VaultError (Option String) :=
  match refName value with
  | some name => vault.get crates file name
  | none => .ok (some value)

/-- What a call replies, and what it does to the file. -/
def call (file : Contents) : VaultCall → Outcome VaultError (VaultReply × List FileOp)
  | .get name => do return (.secret (← vault.get crates file name), [])
  | .list => do return (.names (← vault.list crates file), [])
  | .set name value salt nonce => do return (.stored, ← vault.set crates file name value salt nonce)
  | .delete name salt nonce => do
    let (removed, ops) ← vault.delete crates file name salt nonce
    return (.removed removed, ops)
  | .resolve value => do return (.secret (← vault.resolveRef crates file value), [])

end FileVault

/-! ### What the calls mean -/

namespace VaultCall

/-- What a call replies to a map, and what it makes of it. -/
def meaning (map : SecretMap) : VaultCall → VaultReply × SecretMap
  | .get name => (.secret (map.lookup name), map)
  | .list => (.names map.keys.sort, map)
  | .set name value _ _ => (.stored, map.insert name value)
  | .delete name _ _ => (.removed (decide (name ∈ map)), map.erase name)
  | .resolve value => (.secret ((refName value).elim (some value) fun name => map.lookup name), map)

/-- A call that may write. -/
def Writes : VaultCall → Prop
  | .set .. => True
  | .delete .. => True
  | _ => False

/-- A call that says itself what it replies. -/
def Plain : VaultCall → Prop
  | .resolve value => refName value = none
  | _ => False

end VaultCall

/-! ### Runs -/

inductive VaultEnd where
  | replied (reply : VaultReply)
  | failed (e : VaultError)
  /-- Also where the system reports an error while the file is written. -/
  | interrupted

structure VaultRecord where
  call : VaultCall
  ending : VaultEnd

instance FileOp.decidableLeaves (before after : Contents) : ∀ op : FileOp, Decidable (op.Leaves before after)
  | .openTruncate => inferInstanceAs (Decidable (_ ∨ _))
  | .writeAll bytes => inferInstanceAs (Decidable (∃ n ≤ bytes.length, after = some (before.getD [] ++ bytes.take n)))
  | .syncAll => inferInstanceAs (Decidable (_ = _))

instance decidableInterrupted (after : Contents) : ∀ (ops : List FileOp) (before : Contents),
    Decidable (Interrupted after ops before)
  | [], _ => inferInstanceAs (Decidable (_ = _))
  | op :: ops, before =>
    have := decidableInterrupted after ops (op.run before)
    inferInstanceAs (Decidable (_ ∨ _))

namespace FileVault

variable (crates : Crates) (vault : FileVault)

/-- One call, which may be interrupted with the file as it is found then. -/
def step (file : Contents) (a : VaultCall × Option Contents) : Option (Contents × VaultRecord) :=
  match vault.call crates file a.1 with
  | .ok (reply, ops) =>
    match a.2 with
    | none => some (ops.foldl FileOp.run file, ⟨a.1, .replied reply⟩)
    | some after => if Interrupted after ops file then some (after, ⟨a.1, .interrupted⟩) else none
  | .err e => some (file, ⟨a.1, .failed e⟩)
  | .panic => none

/-- The file and the calls, as a system. -/
def system : Lts Contents (VaultCall × Option Contents) VaultRecord := ⟨vault.step crates⟩

end FileVault

/-- What the ends of the calls say of the map: which one is there, if it is not lost. -/
inductive Explains : List VaultRecord → Option SecretMap → Prop
  | start : Explains [] (some ∅)
  | replied {os : List VaultRecord} {map : SecretMap} (c : VaultCall) :
      Explains os (some map) → Explains (os ++ [⟨c, .replied (c.meaning map).1⟩]) (some (c.meaning map).2)
  | plain {os : List VaultRecord} {kept : Option SecretMap} (c : VaultCall) : c.Plain →
      Explains os kept → Explains (os ++ [⟨c, .replied (c.meaning ∅).1⟩]) kept
  | failed {os : List VaultRecord} {kept : Option SecretMap} (c : VaultCall) (e : VaultError) :
      (kept = none ∨ c.Writes) → Explains os kept → Explains (os ++ [⟨c, .failed e⟩]) kept
  | interrupted {os : List VaultRecord} {kept kept' : Option SecretMap} (c : VaultCall) :
      (kept' = kept ∨ c.Writes ∧ ∃ map, kept = some map ∧ (kept' = some (c.meaning map).2 ∨ kept' = none)) →
      Explains os kept → Explains (os ++ [⟨c, .interrupted⟩]) kept'

/-! ### One call -/

section

variable {crates : Crates} {vault : FileVault} {file after : Contents} {map : SecretMap} {kept : Option SecretMap}
  {c : VaultCall} {reply : VaultReply} {ops : List FileOp}

namespace FileVault

/-- What the file holds: a map, or none that can be read. -/
def Holds (crates : Crates) (vault : FileVault) (file : Contents) (kept : Option SecretMap) : Prop :=
  ∀ map, vault.loadMap crates file = .ok map ↔ kept = some map

theorem holds_of_ok (h : vault.loadMap crates file = .ok map) : vault.Holds crates file (some map) := by
  intro map'
  rw [h, Outcome.ok.injEq, Option.some.injEq]

theorem holds_none (h : ∀ map, vault.loadMap crates file ≠ .ok map) : vault.Holds crates file none := by
  intro map
  exact iff_of_false (h map) (Option.some_ne_none map).symm

/-- What a call does on a file with a map: it replies what it means, and writes what it means
or nothing. -/
theorem call_eq_ok (hload : vault.loadMap crates file = .ok map) (h : vault.call crates file c = .ok (reply, ops)) :
    reply = (c.meaning map).1 ∧ (ops = [] ∧ (c.meaning map).2 = map ∨
      c.Writes ∧ ∃ salt nonce, vault.storeMap crates (c.meaning map).2 salt nonce = .ok ops) := by
  cases c with
  | get name =>
    rw [call, get, hload] at h
    obtain ⟨rfl, rfl⟩ := Prod.mk.inj (Outcome.ok.inj h)
    exact ⟨rfl, .inl ⟨rfl, rfl⟩⟩
  | list =>
    rw [call, list, hload] at h
    obtain ⟨rfl, rfl⟩ := Prod.mk.inj (Outcome.ok.inj h)
    exact ⟨rfl, .inl ⟨rfl, rfl⟩⟩
  | set name value salt nonce =>
    rw [call, set, hload, Outcome.ok_bind] at h
    obtain ⟨ops', hstore, hpair⟩ := Outcome.bind_eq_ok.mp h
    obtain ⟨rfl, rfl⟩ := Prod.mk.inj (Outcome.ok.inj hpair)
    exact ⟨rfl, .inr ⟨trivial, salt, nonce, hstore⟩⟩
  | delete name salt nonce =>
    rw [call, delete, hload, Outcome.ok_bind] at h
    by_cases hmem : name ∈ map
    · rw [if_pos hmem] at h
      obtain ⟨pair, hdelete, hpair⟩ := Outcome.bind_eq_ok.mp h
      obtain ⟨ops', hstore, hremoved⟩ := Outcome.bind_eq_ok.mp hdelete
      obtain rfl := Outcome.ok.inj hremoved
      obtain ⟨rfl, rfl⟩ := Prod.mk.inj (Outcome.ok.inj hpair)
      exact ⟨congrArg VaultReply.removed (decide_eq_true hmem).symm, .inr ⟨trivial, salt, nonce, hstore⟩⟩
    · rw [if_neg hmem] at h
      obtain ⟨rfl, rfl⟩ := Prod.mk.inj (Outcome.ok.inj h)
      exact ⟨congrArg VaultReply.removed (decide_eq_false hmem).symm, .inl ⟨rfl, erase_of_not_mem hmem⟩⟩
  | resolve value =>
    rw [call, resolveRef] at h
    cases hname : refName value with
    | none =>
      rw [hname] at h
      obtain ⟨rfl, rfl⟩ := Prod.mk.inj (Outcome.ok.inj h)
      exact ⟨by rw [VaultCall.meaning, hname]; rfl, .inl ⟨rfl, rfl⟩⟩
    | some name =>
      simp only [hname, get, hload] at h
      obtain ⟨rfl, rfl⟩ := Prod.mk.inj (Outcome.ok.inj h)
      exact ⟨by rw [VaultCall.meaning, hname]; rfl, .inl ⟨rfl, rfl⟩⟩

theorem writes_of_err (hload : vault.loadMap crates file = .ok map) {e : VaultError}
    (h : vault.call crates file c = .err e) : c.Writes := by
  cases c with
  | set => trivial
  | delete => trivial
  | get name =>
    rw [call, get, hload] at h
    cases h
  | list =>
    rw [call, list, hload] at h
    cases h
  | resolve value =>
    rw [call, resolveRef] at h
    cases hname : refName value with
    | none =>
      rw [hname] at h
      cases h
    | some name =>
      simp only [hname, get, hload] at h
      cases h

theorem plain_of_ok (hlost : ∀ map, vault.loadMap crates file ≠ .ok map)
    (h : vault.call crates file c = .ok (reply, ops)) : c.Plain ∧ reply = (c.meaning ∅).1 ∧ ops = [] := by
  cases c with
  | get name =>
    obtain ⟨value, hget, -⟩ := Outcome.bind_eq_ok.mp h
    obtain ⟨map, hload, -⟩ := Outcome.bind_eq_ok.mp hget
    exact absurd hload (hlost map)
  | list =>
    obtain ⟨names, hlist, -⟩ := Outcome.bind_eq_ok.mp h
    obtain ⟨map, hload, -⟩ := Outcome.bind_eq_ok.mp hlist
    exact absurd hload (hlost map)
  | set name value salt nonce =>
    obtain ⟨ops', hset, -⟩ := Outcome.bind_eq_ok.mp h
    obtain ⟨map, hload, -⟩ := Outcome.bind_eq_ok.mp hset
    exact absurd hload (hlost map)
  | delete name salt nonce =>
    obtain ⟨pair, hdelete, -⟩ := Outcome.bind_eq_ok.mp h
    obtain ⟨map, hload, -⟩ := Outcome.bind_eq_ok.mp hdelete
    exact absurd hload (hlost map)
  | resolve value =>
    rw [call, resolveRef] at h
    cases hname : refName value with
    | none =>
      rw [hname] at h
      obtain ⟨rfl, rfl⟩ := Prod.mk.inj (Outcome.ok.inj h)
      exact ⟨hname, by rw [VaultCall.meaning, hname]; rfl, rfl⟩
    | some name =>
      rw [hname] at h
      obtain ⟨value, hget, -⟩ := Outcome.bind_eq_ok.mp h
      obtain ⟨map, hload, -⟩ := Outcome.bind_eq_ok.mp hget
      exact absurd hload (hlost map)

theorem loadMap_stored (hlaw : Lawful crates) {salt : Vector UInt8 16} {nonce : Vector UInt8 24}
    (h : vault.storeMap crates map salt nonce = .ok ops) :
    vault.loadMap crates (ops.foldl FileOp.run file) = .ok map := by
  obtain ⟨ciphertext, key, plaintext, hsealed, rfl⟩ := storeMap_eq_ok.mp h
  have hwhole := loadMap_whole hlaw hsealed (Nat.le_succ (utf8 (body salt.toList nonce.toList ciphertext)).length)
  rwa [List.take_length] at hwhole

/-- Interrupted, it leaves the file as it was, or with the map, or with none. -/
theorem holds_interrupted (hlaw : Lawful crates) {salt : Vector UInt8 16} {nonce : Vector UInt8 24}
    (h : vault.storeMap crates map salt nonce = .ok ops) (hafter : Interrupted after ops file) :
    after = file ∨ vault.Holds crates after (some map) ∨ vault.Holds crates after none := by
  obtain ⟨ciphertext, key, plaintext, hsealed, rfl⟩ := storeMap_eq_ok.mp h
  rcases interrupted_writeInPlace_iff.mp hafter with rfl | ⟨n, -, rfl⟩
  · exact .inl rfl
  · by_cases hlen : (utf8 (body salt.toList nonce.toList ciphertext)).length ≤ n + 1
    · exact .inr (.inl (holds_of_ok (loadMap_whole hlaw hsealed hlen)))
    · exact .inr (.inr (holds_none (loadMap_torn hlaw hsealed (not_le.mp hlen))))

theorem loadMap_ne_panic : vault.loadMap crates file ≠ .panic := by
  have hfield : ∀ (what : String) (text : List (List Char)), field crates what text ≠ .panic := by
    intro what text
    cases text with
    | nil => simp [field]
    | cons line text =>
      rw [field]
      split
      · simp
      · simp
  cases file with
  | none => simp [loadMap]
  | some bytes => simp [loadMap, readMap, deriveKey, Outcome.bind_eq_panic, hfield]

theorem call_ne_panic : vault.call crates file c ≠ .panic := by
  have hstore : ∀ (map : SecretMap) salt nonce, vault.storeMap crates map salt nonce ≠ .panic := fun _ _ _ => by
    simp [storeMap, deriveKey, Outcome.bind_eq_panic]
  have hget : ∀ name, vault.get crates file name ≠ .panic := fun name => by
    simp [get, Outcome.bind_eq_panic, loadMap_ne_panic]
  cases c with
  | get name => simp [call, Outcome.bind_eq_panic, hget]
  | list => simp [call, list, Outcome.bind_eq_panic, loadMap_ne_panic]
  | set name value salt nonce => simp [call, set, Outcome.bind_eq_panic, loadMap_ne_panic, hstore]
  | delete name salt nonce =>
    have hdelete : vault.delete crates file name salt nonce ≠ .panic := by
      simp only [delete, ne_eq, Outcome.bind_eq_panic, loadMap_ne_panic, false_or, not_exists, not_and]
      intro map _
      by_cases hmem : name ∈ map
      · simp [if_pos hmem, Outcome.bind_eq_panic, hstore]
      · simp [if_neg hmem]
    simp [call, Outcome.bind_eq_panic, hdelete]
  | resolve value =>
    cases hname : refName value with
    | none => simp [call, resolveRef, hname]
    | some name => simp [call, resolveRef, hname, Outcome.bind_eq_panic, hget]

/-! ### Many calls -/

/-- **One step.** -/
theorem explains_step (hlaw : Lawful crates) {os : List VaultRecord} {a : VaultCall × Option Contents}
    {file' : Contents} {o : VaultRecord} (hi : ∃ kept, Explains os kept ∧ vault.Holds crates file kept)
    (hstep : (vault.system crates).step file a = some (file', o)) :
    ∃ kept, Explains (os ++ [o]) kept ∧ vault.Holds crates file' kept := by
  obtain ⟨kept, hexplains, hholds⟩ := hi
  obtain ⟨c, cut⟩ := a
  simp only [system, step] at hstep
  cases hcall : vault.call crates file c with
  | panic =>
    rw [hcall] at hstep
    cases hstep
  | err e =>
    rw [hcall] at hstep
    obtain ⟨rfl, rfl⟩ := Prod.mk.inj (Option.some.inj hstep)
    refine ⟨kept, .failed c e ?_ hexplains, hholds⟩
    cases kept with
    | none => exact .inl rfl
    | some map => exact .inr (writes_of_err ((hholds map).mpr rfl) hcall)
  | ok r =>
    obtain ⟨reply, ops⟩ := r
    rw [hcall] at hstep
    cases kept with
    | none =>
      have hlost : ∀ map, vault.loadMap crates file ≠ .ok map := fun map hload => nomatch (hholds map).mp hload
      obtain ⟨hplain, rfl, rfl⟩ := plain_of_ok hlost hcall
      -- nothing is written, so there is nothing to interrupt
      cases cut with
      | none =>
        obtain ⟨rfl, rfl⟩ := Prod.mk.inj (Option.some.inj hstep)
        exact ⟨none, .plain c hplain hexplains, hholds⟩
      | some after =>
        obtain ⟨hafter, hpair⟩ := Option.ite_none_right_eq_some.mp hstep
        obtain ⟨rfl, rfl⟩ := Prod.mk.inj (Option.some.inj hpair)
        obtain rfl : after = file := hafter
        exact ⟨none, .interrupted c (.inl rfl) hexplains, hholds⟩
    | some map =>
      have hload := (hholds map).mpr rfl
      obtain ⟨rfl, hops⟩ := call_eq_ok hload hcall
      cases cut with
      | none =>
        obtain ⟨rfl, rfl⟩ := Prod.mk.inj (Option.some.inj hstep)
        refine ⟨_, .replied c hexplains, ?_⟩
        rcases hops with ⟨rfl, hsame⟩ | ⟨-, salt, nonce, hstore⟩
        · rwa [hsame]
        · exact holds_of_ok (loadMap_stored hlaw hstore)
      | some after =>
        obtain ⟨hafter, hpair⟩ := Option.ite_none_right_eq_some.mp hstep
        obtain ⟨rfl, rfl⟩ := Prod.mk.inj (Option.some.inj hpair)
        rcases hops with ⟨rfl, -⟩ | ⟨hwrites, salt, nonce, hstore⟩
        · obtain rfl : after = file := hafter
          exact ⟨some map, .interrupted c (.inl rfl) hexplains, hholds⟩
        · rcases holds_interrupted hlaw hstore hafter with rfl | hnew | hlost
          · exact ⟨some map, .interrupted c (.inl rfl) hexplains, hholds⟩
          · exact ⟨_, .interrupted c (.inr ⟨hwrites, map, rfl, .inl rfl⟩) hexplains, hnew⟩
          · exact ⟨none, .interrupted c (.inr ⟨hwrites, map, rfl, .inr rfl⟩) hexplains, hlost⟩

end FileVault

/-- **A vault.** From no file, and whatever fails or is interrupted, the calls read and change a
map from names to values; the file holds it, or holds none that can be read if an interrupted
write has lost it. Every call comes to an end. -/
theorem vault_runs (crates : Crates) (hlaw : Lawful crates) (vault : FileVault) (os : List VaultRecord)
    (file : Contents) (hrun : (vault.system crates).Run none os file) :
    (∃ kept, Explains os kept ∧ ∀ map, vault.loadMap crates file = .ok map ↔ kept = some map) ∧
      ∀ c, ((vault.system crates).step file (c, none)).isSome := by
  refine ⟨?_, fun c => ?_⟩
  · exact Lts.Run.inv (P := fun os file => ∃ kept, Explains os kept ∧ vault.Holds crates file kept)
      ⟨some ∅, .start, FileVault.holds_of_ok rfl⟩
      (fun _ _ _ _ _ _ hi hstep => FileVault.explains_step hlaw hi hstep) hrun
  · simp only [FileVault.system, FileVault.step]
    cases hcall : vault.call crates file c with
    | ok r => rfl
    | err e => rfl
    | panic => exact absurd hcall FileVault.call_ne_panic

end

/-! ### Two secrets, one lost -/

/-- A secret is set and read; the write of a second one is interrupted after the truncation. -/
def lostCalls : List (VaultCall × Option Contents) :=
  [(.set "a" "1" zeroSalt oneSecret.nonce, none), (.resolve "vault: a", none),
    (.set "b" "2" zeroSalt twoSecrets.nonce, some (some [])), (.get "a", none)]

def VaultEnd.reply? : VaultEnd → Option VaultReply
  | .replied reply => some reply
  | _ => none

/-- The first is read, and then nothing is any more. -/
theorem vault_runs_lost : ∃ os file, (pwVault.system tableCrates).Run none os file ∧
    os.map (fun o => o.ending.reply?) = [some .stored, some (.secret (some "1")), none, none] ∧
      ∃ kept, Explains os kept ∧ ∀ map, pwVault.loadMap tableCrates file = .ok map ↔ kept = some map := by
  have hexec : ((pwVault.system tableCrates).exec none lostCalls).map (fun r => decide
      (r.2.map (fun o => o.ending.reply?) = [some .stored, some (.secret (some "1")), none, none])) = some true := by
    decide +kernel
  obtain ⟨⟨file, os⟩, hrun, hreplies⟩ := Option.map_eq_some_iff.mp hexec
  exact ⟨os, file, .of_exec hrun, of_decide_eq_true hreplies,
    (vault_runs tableCrates lawful_tableCrates pwVault os file (.of_exec hrun)).1⟩

end Sherwood.Secrets
