/-
# Backup and restore

`sherwood backup` copies the state database, its `-wal` and `-shm` sidecars and
the vault into a directory, under their file names, and `sherwood restore`
copies each file of such a directory back to where its name belongs. Restore
only ever writes: a sidecar that has come into being since the backup stays
beside the restored database. Names tie the two together, so a vault that is
called like a database file of another directory takes its place in the backup,
a vault whose name is not valid UTF-8 is not restored, and neither is a file
called `MANIFEST.txt`.

Restoring therefore undoes all changes exactly if each durable file was there at
the backup and is mapped back, or is unchanged (`restore_undoes_iff`). Without
`--force` a restore that would overwrite a file changes nothing.

Key definitions: `backup`, `restore`, `target`, `Undone`.
Key theorems: `backed_up`, `restored_apply`, `restore_undoes_iff`, `stale_wal_survives`.
-/
import Sherwood.Lib.Copies
import Mathlib.Data.List.Infix

namespace Sherwood
namespace Backup

open Copies

/-- A file name: text, or bytes that are not valid UTF-8. -/
inductive FileName where
  | text (name : String)
  | raw (bytes : List UInt8)
deriving DecidableEq, Repr

/-- `OsStr::to_str`. -/
def FileName.toStr : FileName → Option String
  | .text name => some name
  | .raw _ => none

abbrev Bytes := List UInt8

/-- The path of a file: its directory and its name. -/
structure Place (δ : Type) where
  dir : δ
  name : FileName
deriving DecidableEq, Repr

/-- Where the durable files are: `[general] state_path` and `vault_path()`. -/
structure Paths (δ : Type) where
  statePath : Option (δ × String)
  vault : Place δ

/-- A directory as `read_dir` lists it, in any order. -/
structure Directory where
  files : FileName → Option Bytes
  entries : List FileName
  nodup : entries.Nodup
  mem_iff : ∀ n, n ∈ entries ↔ (files n).isSome
  named : .text "" ∉ entries

inductive BackupError (δ : Type) where
  | nothingToBackUp
  | copying (dst : FileName)
deriving Repr

inductive RestoreError (δ : Type) where
  | notADirectory
  | nothingMaps
  | refusing (existing : List (Place δ))
  | restoring (target : Place δ)
deriving Repr

section

variable {δ : Type}

/-- The files that hold state, whether they are there or not. -/
def durable (p : Paths δ) : List (Place δ) :=
  (match p.statePath with
    | some (dir, base) => ["", "-wal", "-shm"].map fun suffix => ⟨dir, .text (base ++ suffix)⟩
    | none => []) ++ [p.vault]

/-- `state_files`: whatever exists of them. -/
def stateFiles (p : Paths δ) (live : Place δ → Option Bytes) : List (Place δ) :=
  (durable p).filter fun x => (live x).isSome

/-- `copy_into` for each file: its name in the backup directory and its content. -/
def copiesInto (files : List (Place δ)) (live : Place δ → Option Bytes) : List (FileName × Bytes) :=
  files.filterMap fun src => (live src).map fun bytes => (src.name, bytes)

def utf8 (s : String) : Bytes := s.toByteArray.data.toList

def manifestName : FileName := .text "MANIFEST.txt"

/-- The text of `MANIFEST.txt`. -/
def manifest (display : Place δ → String) (stamp : String) (files : List (Place δ)) (live : Place δ → Option Bytes) :
    String :=
  files.foldl (fun text src => text ++ s!"{display src}  {((live src).getD []).length} bytes\n")
    s!"sherwood backup {stamp}\n"

/-- `backup`, into a directory that holds `out` so far: two backups of one second
share theirs. -/
def backup (left : FileName → Option (Option Bytes)) (display : Place δ → String) (stamp : String) (p : Paths δ)
    (live : Place δ → Option Bytes) (out : FileName → Option Bytes) :
    Except (BackupError δ) Unit × (FileName → Option Bytes) :=
  let files := stateFiles p live
  if files.isEmpty then (.error .nothingToBackUp, out)
  else
    let written := copyAll left
      (copiesInto files live ++ [(manifestName, utf8 (manifest display stamp files live))]) out
    (written.1.mapError .copying, written.2)

/-- Where a file of the backup belongs. -/
def target (p : Paths δ) (name : String) : Option (Place δ) :=
  if name = (p.vault.name.toStr).getD "" then some p.vault
  else
    match p.statePath with
    | some (dir, base) =>
      if name = base ∨ name = base ++ "-wal" ∨ name = base ++ "-shm" then some ⟨dir, .text name⟩ else none
    | none => none

/-- One entry of the backup directory, with its target. -/
def planned (p : Paths δ) (src : FileName → Option Bytes) (entry : FileName) : Option (Place δ × Bytes) := do
  let name ← entry.toStr
  let bytes ← src entry
  if name = "MANIFEST.txt" then none else (target p name).map fun x => (x, bytes)

def plan (p : Paths δ) (src : Directory) : List (Place δ × Bytes) := src.entries.filterMap (planned p src.files)

def existing (plan : List (Place δ × Bytes)) (live : Place δ → Option Bytes) : List (Place δ) :=
  (plan.map Prod.fst).filter fun x => (live x).isSome

/-- `restore`. -/
def restore [DecidableEq δ] (left : Place δ → Option (Option Bytes)) (p : Paths δ) (src : Option Directory)
    (force : Bool) (live : Place δ → Option Bytes) : Except (RestoreError δ) Unit × (Place δ → Option Bytes) :=
  match src with
  | none => (.error .notADirectory, live)
  | some src =>
    if (plan p src).isEmpty then (.error .nothingMaps, live)
    else if !(existing (plan p src) live).isEmpty && !force then (.error (.refusing (existing (plan p src) live)), live)
    else
      let written := copyAll left (plan p src) live
      (written.1.mapError .restoring, written.2)

/-- The file is put back if its name is in the backup. -/
def Kept (p : Paths δ) (x : Place δ) : Prop :=
  ∃ name, x.name = .text name ∧ name ≠ "MANIFEST.txt" ∧ target p name = some x

/-- The file is in the backup and put back, or it has not changed and nothing in
the backup takes its place. -/
def Undone (p : Paths δ) (before after : Place δ → Option Bytes) (out : FileName → Option Bytes) (x : Place δ) : Prop :=
  Kept p x ∧ (before x).isSome ∨
    after x = before x ∧ (Kept p x → out x.name = none ∧ ∀ y ∈ durable p, y.name = x.name → before y = none)

/-! ### What is in the backup -/

variable {p : Paths δ} {before after : Place δ → Option Bytes} {out : FileName → Option Bytes}

theorem mem_copiesInto {name : FileName} {bytes : Bytes} : (name, bytes) ∈ copiesInto (stateFiles p before) before ↔
    ∃ x ∈ durable p, x.name = name ∧ before x = some bytes := by
  simp only [copiesInto, stateFiles, List.mem_filterMap, List.mem_filter, Option.map_eq_some_iff, Prod.mk.injEq]
  constructor
  · rintro ⟨x, ⟨hx, -⟩, bytes', hbytes, rfl, rfl⟩
    exact ⟨x, hx, rfl, hbytes⟩
  · rintro ⟨x, hx, rfl, hbytes⟩
    exact ⟨x, ⟨hx, by rw [hbytes]; rfl⟩, bytes, hbytes, rfl, rfl⟩

/-- Two files of the state database with one name are one file. -/
theorem sidecar_unique {dir : δ} {base : String} {x y : Place δ}
    (hx : x ∈ ["", "-wal", "-shm"].map fun suffix => (⟨dir, .text (base ++ suffix)⟩ : Place δ))
    (hy : y ∈ ["", "-wal", "-shm"].map fun suffix => (⟨dir, .text (base ++ suffix)⟩ : Place δ))
    (hname : y.name = x.name) : y = x := by
  obtain ⟨_, -, rfl⟩ := List.mem_map.mp hx
  obtain ⟨_, -, rfl⟩ := List.mem_map.mp hy
  exact congrArg (Place.mk dir) hname

/-- A durable file that is mapped back is the vault, or no other has its name. -/
theorem kept_unique {x y : Place δ} (hx : x ∈ durable p) (hkept : Kept p x) (hy : y ∈ durable p)
    (hname : y.name = x.name) : x = p.vault ∨ y = x := by
  obtain ⟨name, htext, -, htarget⟩ := hkept
  unfold target at htarget
  split at htarget
  · exact .inl (Option.some.inj htarget).symm
  · next hvault =>
    have hne : ∀ z : Place δ, z.name = x.name → z ≠ p.vault := by
      rintro z hz rfl
      exact hvault (by rw [hz, htext]; rfl)
    unfold durable at hx hy
    cases hstate : p.statePath with
    | none =>
      rw [hstate] at hx
      exact .inl (by simpa using hx)
    | some db =>
      rw [hstate] at hx hy
      have hx' := (List.mem_append.mp hx).resolve_right fun h => hne x rfl (List.mem_singleton.mp h)
      have hy' := (List.mem_append.mp hy).resolve_right fun h => hne y hname (List.mem_singleton.mp h)
      exact .inr (sidecar_unique hx' hy' hname)

section

variable {left : FileName → Option (Option Bytes)} {display : Place δ → String} {stamp : String}
  {copied : FileName → Option Bytes}

theorem backup_ok (h : backup left display stamp p before out = (.ok (), copied)) :
    ∃ text, copied = putAll out (copiesInto (stateFiles p before) before ++ [(manifestName, text)]) := by
  unfold backup at h
  simp only at h
  split at h
  · exact absurd (Prod.mk.inj h).1 (by simp)
  · obtain ⟨hok, rfl⟩ := Prod.mk.inj h
    refine ⟨_, copyAll_ok left (Prod.ext ?_ rfl)⟩
    simp only
    generalize (copyAll left _ out).1 = result at hok ⊢
    cases result with
    | error => cases hok
    | ok => rfl

theorem backed_up_name (h : backup left display stamp p before out = (.ok (), copied)) {name : FileName}
    (hname : name ≠ manifestName) : copied name = putAll out (copiesInto (stateFiles p before) before) name := by
  obtain ⟨text, rfl⟩ := backup_ok h
  rw [putAll_append]
  refine putAll_of_not_mem fun v hv => hname ?_
  exact congrArg Prod.fst (List.mem_singleton.mp hv)

theorem backed_up (h : backup left display stamp p before out = (.ok (), copied)) {x : Place δ} (hx : x ∈ durable p)
    (hkept : Kept p x) {bytes : Bytes} (hbytes : before x = some bytes) : copied x.name = some bytes := by
  have hname : x.name ≠ manifestName := by
    obtain ⟨name, htext, hne, -⟩ := hkept
    simp [htext, manifestName, hne]
  rw [backed_up_name h hname]
  by_cases hvault : x = p.vault
  · -- the vault is copied last
    have hlast : copiesInto (stateFiles p before) before =
        copiesInto ((durable p).dropLast.filter fun x => (before x).isSome) before ++ [(x.name, bytes)] := by
      have hdurable : durable p = (durable p).dropLast ++ [x] := by simp [durable, hvault]
      unfold copiesInto stateFiles
      nth_rewrite 1 [hdurable]
      simp [hbytes]
    rw [hlast, putAll_snoc_self]
  · refine putAll_of_unique (mem_copiesInto.mpr ⟨x, hx, rfl, hbytes⟩) fun bytes' hbytes' => ?_
    obtain ⟨y, hy, hyname, hybytes⟩ := mem_copiesInto.mp hbytes'
    rw [(kept_unique hx hkept hy hyname).resolve_left hvault, hbytes] at hybytes
    exact (Option.some.inj hybytes).symm

theorem backed_up_none (h : backup left display stamp p before out = (.ok (), copied)) {name : FileName}
    (hname : name ≠ manifestName) :
    copied name = none ↔ out name = none ∧ ∀ y ∈ durable p, y.name = name → before y = none := by
  rw [backed_up_name h hname, putAll_eq_none]
  simp only [mem_copiesInto, not_exists, not_and, Option.eq_none_iff_forall_ne_some]
  exact and_congr_right fun _ =>
    ⟨fun hno y hy hyname v => hno v y hy hyname, fun hno v y hy hyname => hno y hy hyname v⟩

end

/-! ### What is put back -/

section

variable {src : Directory} {left : Place δ → Option (Option Bytes)} {force : Bool}

theorem target_name {name : String} (hname : name ≠ "") {x : Place δ} (h : target p name = some x) :
    x.name = .text name := by
  unfold target at h
  split at h
  · next hvault =>
    obtain rfl := Option.some.inj h
    generalize p.vault.name = vault at hvault ⊢
    cases vault with
    | text => exact congrArg FileName.text hvault.symm
    | raw => exact absurd hvault hname
  · split at h
    · split at h
      · exact congrArg Place.name (Option.some.inj h).symm
      · cases h
    · cases h

theorem mem_plan {x : Place δ} {bytes : Bytes} :
    (x, bytes) ∈ plan p src ↔ Kept p x ∧ src.files x.name = some bytes := by
  unfold plan
  rw [List.mem_filterMap]
  constructor
  · rintro ⟨entry, hentry, hplanned⟩
    simp only [planned, Option.bind_eq_bind, Option.bind_eq_some_iff] at hplanned
    obtain ⟨name, hname, bytes', hbytes, hrest⟩ := hplanned
    obtain rfl : entry = .text name := by
      cases entry with
      | text => exact congrArg FileName.text (Option.some.inj hname)
      | raw => cases hname
    split at hrest
    · cases hrest
    · next hmanifest =>
      obtain ⟨x', htarget, hpair⟩ := Option.map_eq_some_iff.mp hrest
      obtain ⟨rfl, rfl⟩ := Prod.mk.inj hpair
      have hne : name ≠ "" := by
        rintro rfl
        exact src.named hentry
      have hx := target_name hne htarget
      exact ⟨⟨name, hx, hmanifest, htarget⟩, by rw [hx]; exact hbytes⟩
  · rintro ⟨⟨name, hname, hmanifest, htarget⟩, hbytes⟩
    refine ⟨x.name, (src.mem_iff _).mpr (by rw [hbytes]; rfl), ?_⟩
    rw [hname] at hbytes ⊢
    simp [planned, hbytes, FileName.toStr, hmanifest, htarget]

variable [DecidableEq δ]

theorem restore_ok {src : Option Directory} (h : restore left p src force before = (.ok (), after)) :
    ∃ dir, src = some dir ∧ after = putAll before (plan p dir) := by
  unfold restore at h
  cases src with
  | none => exact absurd (Prod.mk.inj h).1 (by simp)
  | some dir =>
    simp only at h
    split at h
    · exact absurd (Prod.mk.inj h).1 (by simp)
    · split at h
      · exact absurd (Prod.mk.inj h).1 (by simp)
      · obtain ⟨hok, rfl⟩ := Prod.mk.inj h
        refine ⟨dir, rfl, copyAll_ok left (Prod.ext ?_ rfl)⟩
        simp only
        generalize (copyAll left _ before).1 = result at hok ⊢
        cases result with
        | error => cases hok
        | ok => rfl

/-- What the restore leaves at a place: the content of its name in the backup, if the
name is mapped there, and what was there if it is not. -/
theorem restored_apply (h : restore left p (some src) force before = (.ok (), after)) (x : Place δ) :
    (∀ bytes, Kept p x → src.files x.name = some bytes → after x = some bytes) ∧
      (¬ (Kept p x ∧ (src.files x.name).isSome) → after x = before x) := by
  obtain ⟨_, hsrc, rfl⟩ := restore_ok h
  obtain rfl := Option.some.inj hsrc
  refine ⟨fun bytes hkept hbytes => ?_, fun hno => ?_⟩
  · refine putAll_of_unique (mem_plan.mpr ⟨hkept, hbytes⟩) fun bytes' hbytes' => ?_
    have hsame := (mem_plan.mp hbytes').2
    rw [hbytes] at hsame
    exact (Option.some.inj hsame).symm
  · refine putAll_of_not_mem fun bytes hbytes => hno ?_
    obtain ⟨hkept, hsome⟩ := mem_plan.mp hbytes
    exact ⟨hkept, by rw [hsome]; rfl⟩

/-- Without `--force`, what refuses to overwrite changes nothing. -/
theorem refusing_unchanged {src : Option Directory} {err : RestoreError δ}
    (h : restore left p src false before = (.error err, after)) (hrefuses : ∀ x, err ≠ .restoring x) :
    after = before := by
  unfold restore at h
  cases src with
  | none => exact (Prod.mk.inj h).2.symm
  | some dir =>
    simp only at h
    split at h
    · exact (Prod.mk.inj h).2.symm
    · split at h
      · exact (Prod.mk.inj h).2.symm
      · obtain ⟨herr, -⟩ := Prod.mk.inj h
        generalize (copyAll left _ before).1 = result at herr
        cases result with
        | error x => exact absurd (Except.error.inj herr).symm (hrefuses x)
        | ok => cases herr

end

end

end Backup

/-! ### Restore after backup -/

open Backup in
/-- A backup and a forced restore bring back every durable file as it was exactly if each
of them was there and is mapped back, or has not changed. And a restore without
`--force` that refuses changes nothing. -/
theorem restore_undoes_iff {δ : Type} [DecidableEq δ] (p : Paths δ) :
    (∀ left left' display stamp before after restored out (src : Directory),
      backup left display stamp p before out = (.ok (), src.files) →
      restore left' p (some src) true after = (.ok (), restored) →
      ((∀ x ∈ durable p, restored x = before x) ↔ ∀ x ∈ durable p, Undone p before after out x)) ∧
    ∀ left src live result existing,
      restore left p src false live = (.error (.refusing existing), result) → result = live := by
  refine ⟨fun left left' display stamp before after restored out src hbackup hrestore => ?_,
    fun left src live result existing h => refusing_unchanged h (by simp)⟩
  refine forall₂_congr fun x hx => ?_
  obtain ⟨hput, hkeep⟩ := restored_apply hrestore x
  by_cases hkept : Kept p x
  · have hname : x.name ≠ manifestName := by
      obtain ⟨name, htext, hne, -⟩ := hkept
      simp [htext, manifestName, hne]
    cases hbefore : before x with
    | some bytes =>
      rw [hput bytes hkept (backed_up hbackup hx hkept hbefore)]
      simp [Undone, hkept, hbefore]
    | none =>
      have hnone := backed_up_none hbackup hname
      cases hsrc : src.files x.name with
      | some bytes =>
        -- something else has its name in the backup
        rw [hput bytes hkept hsrc]
        refine iff_of_false (by simp) ?_
        rintro (⟨-, hsome⟩ | ⟨-, hfree⟩)
        · simp [hbefore] at hsome
        · exact absurd (hsrc.symm.trans (hnone.mpr (hfree hkept))) (by simp)
      | none =>
        rw [hkeep (by simp [hsrc])]
        refine ⟨fun h => .inr ⟨h.trans hbefore.symm, fun _ => hnone.mp hsrc⟩, ?_⟩
        rintro (⟨-, hsome⟩ | ⟨hsame, -⟩)
        · simp [hbefore] at hsome
        · exact hsame.trans hbefore
  · rw [hkeep fun h => hkept h.1]
    simp [Undone, hkept]

namespace Backup

open Copies

/-- A database and a vault in one directory. -/
def oneDirectory : Paths Unit := ⟨some ((), "state.db"), ⟨(), .text "secrets.vault"⟩⟩

/-- A database that was closed cleanly, without sidecars. -/
def closed (bytes : Bytes) (x : Place Unit) : Option Bytes := if x.name = .text "state.db" then some bytes else none

def noCopyFails {κ : Type} (_ : κ) : Option (Option Bytes) := none

def displayed (_ : Place Unit) : String := "state.db"

theorem stateFiles_closed (bytes : Bytes) :
    stateFiles oneDirectory (closed bytes) = [⟨(), .text "state.db"⟩] := by
  have hhere : ∀ x : Place Unit, (closed bytes x).isSome = decide (x.name = .text "state.db") := by
    intro x
    by_cases hx : x.name = .text "state.db" <;> simp [closed, hx]
  simp only [stateFiles, hhere]
  decide

/-- Its backup. -/
def closedBackup (bytes : Bytes) : Directory where
  files := putAll (fun _ => none) [(.text "state.db", bytes), (manifestName,
    utf8 (manifest displayed "20260101T000000Z" [⟨(), .text "state.db"⟩] (closed bytes)))]
  entries := [.text "state.db", manifestName]
  nodup := by decide
  mem_iff n := by
    rw [Option.isSome_iff_ne_none, ne_eq, putAll_eq_none]
    simp only [List.mem_cons, List.not_mem_nil, or_false, Prod.mk.injEq, true_and, not_forall, not_not]
    constructor
    · rintro (rfl | rfl)
      · exact ⟨bytes, .inl ⟨rfl, rfl⟩⟩
      · exact ⟨_, .inr ⟨rfl, rfl⟩⟩
    · rintro ⟨_, ⟨hn, -⟩ | ⟨hn, -⟩⟩
      · exact .inl hn
      · exact .inr hn
  named := by decide

theorem backup_closed (bytes : Bytes) : backup noCopyFails displayed "20260101T000000Z" oneDirectory (closed bytes)
    (fun _ => none) = (.ok (), (closedBackup bytes).files) := by
  simp only [backup, stateFiles_closed]
  rfl

theorem restore_closed (bytes : Bytes) (live : Place Unit → Option Bytes) :
    ∃ restored, restore noCopyFails oneDirectory (some (closedBackup bytes)) true live = (.ok (), restored) ∧
      ∀ x : Place Unit, x.name ≠ .text "state.db" → restored x = live x := by
  have hplan : plan oneDirectory (closedBackup bytes) = [(⟨(), .text "state.db"⟩, bytes)] := by
    have hdb : (closedBackup bytes).files (.text "state.db") = some bytes := by
      simp [closedBackup, putAll, manifestName]
    have htarget : target oneDirectory "state.db" = some ⟨(), .text "state.db"⟩ := by decide
    show [FileName.text "state.db", manifestName].filterMap (planned oneDirectory (closedBackup bytes).files) = _
    simp [planned, FileName.toStr, hdb, htarget, manifestName]
  refine ⟨Function.update live ⟨(), .text "state.db"⟩ (some bytes), ?_, fun x hx => ?_⟩
  · simp only [restore, hplan]
    simp [copyAll, noCopyFails, Except.mapError]
  · exact Function.update_of_ne (by rintro rfl; exact hx rfl) ..

end Backup

open Backup in
theorem restore_undoes_iff_corrupted : ∃ restored,
    restore noCopyFails oneDirectory (some (closedBackup [1])) true (closed [2]) = (.ok (), restored) ∧
      ∀ x ∈ durable oneDirectory, restored x = closed [1] x := by
  obtain ⟨restored, hrestore, -⟩ := restore_closed [1] (closed [2])
  refine ⟨restored, hrestore, ((restore_undoes_iff oneDirectory).1 _ _ _ _ _ _ _ _ _ (backup_closed [1])
    hrestore).mpr fun x hx => ?_⟩
  by_cases hname : x.name = .text "state.db"
  · obtain rfl : x = ⟨(), .text "state.db"⟩ := congrArg (Place.mk ()) hname
    exact .inl ⟨⟨"state.db", rfl, by decide, by decide⟩, rfl⟩
  · exact .inr ⟨by simp [closed, hname], fun _ => ⟨rfl, fun y _ hy => by simp [closed, hy, hname]⟩⟩

open Backup in
/-- The write-ahead log that came into being since the backup stays beside the restored
database. -/
theorem stale_wal_survives : ¬ ∀ {δ : Type} [DecidableEq δ] (p : Paths δ)
    (left left' display stamp before after restored out) (src : Directory),
      backup left display stamp p before out = (.ok (), src.files) →
      restore left' p (some src) true after = (.ok (), restored) → ∀ x ∈ durable p, restored x = before x := by
  intro hclaim
  let wal : Place Unit := ⟨(), .text "state.db-wal"⟩
  obtain ⟨restored, hrestore, hrest⟩ := restore_closed [1] (Function.update (closed [2]) wal (some [3]))
  have hwal : restored wal = closed [1] wal :=
    hclaim oneDirectory _ _ _ _ _ _ _ _ _ (backup_closed [1]) hrestore wal (by decide)
  rw [hrest wal (by decide), Function.update_self] at hwal
  exact absurd hwal (by decide)

end Sherwood
