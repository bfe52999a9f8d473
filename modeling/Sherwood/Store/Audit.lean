/-
# The audit log

The hash chain of `crates/store/src/lib.rs`: `append_audit` numbers an entry,
folds the last hash into its own and inserts it, in one transaction, and
`verify_audit_chain` walks the table and recomputes every hash. The digest is a
parameter, `Sha256.digest` being the one the code uses. A table has `seq` for
its primary key, so it is a list sorted by it. `audit_tail` reads its end.

Key definitions: `auditHash`, `AuditLog`, `AuditLog.append`, `AuditLog.verify`,
`AuditLog.auditTail`.
Key theorems: `verify_eq_ok_iff`, `linked_appendAll`.
-/
import Sherwood.Core.Rfc3339
import Sherwood.Json
import Sherwood.Lib.HashChain
import Sherwood.Lib.Sha256
import Std.Data.String.ToInt

namespace Sherwood

/-- A digest of bytes. -/
abbrev Digest := List UInt8 → List UInt8

/-- `GENESIS_HASH`: the `prev_hash` of the first row. -/
def genesisHash : String := "0000000000000000000000000000000000000000000000000000000000000000"

/-- What `audit_hash` hashes: its parts, each with a newline. -/
def auditBytes (prevHash : String) (seq : ℤ) (stamp kind dataJson : String) : List UInt8 :=
  utf8 (lines [prevHash, toString seq, stamp, kind, dataJson])

/-- `audit_hash`. -/
def auditHash (D : Digest) (prevHash : String) (seq : ℤ) (stamp kind dataJson : String) : String :=
  hex (D (auditBytes prevHash seq stamp kind dataJson))

/-- A row of the table `audit_log`; `stamp` is its column `at`. -/
structure AuditRow where
  seq : ℤ
  stamp : String
  kind : String
  dataJson : String
  prevHash : String
  hash : String
  deriving DecidableEq

/-- The bytes a row's hash is of. -/
def AuditRow.bytes (r : AuditRow) : List UInt8 := auditBytes r.prevHash r.seq r.stamp r.kind r.dataJson

/-- The hash a row should have. -/
def AuditRow.rehash (D : Digest) (r : AuditRow) : String :=
  auditHash D r.prevHash r.seq r.stamp r.kind r.dataJson

/-- The table, in the order of its primary key. -/
structure AuditLog where
  rows : List AuditRow
  sorted : rows.Pairwise fun r r' => r.seq < r'.seq
  deriving DecidableEq

/-- The verdict on a table. -/
inductive AuditVerification where
  | ok (entries : ℤ)
  | broken (atSeq : ℤ) (expected found : String)
  deriving DecidableEq

/-- The verdict is `Broken`. -/
def AuditVerification.IsBroken (v : AuditVerification) : Prop :=
  ∃ atSeq expected found, v = .broken atSeq expected found

/-- An `append_audit` call, with the reading of the clock. -/
structure AuditCall where
  now : DateTime
  kind : String
  data : Json

/-- An entry as it is read back, its time and its data parsed. -/
structure AuditEvent where
  seq : ℤ
  stamp : DateTime
  kind : String
  data : Json
  prevHash : String
  hash : String

/-- How the columns `at` and `data_json` are parsed: `DateTime::parse_from_rfc3339` and
`serde_json::from_str`. -/
structure ColumnParsers where
  parseTs : String → Option DateTime
  parseJson : String → Option Json

/-- The entry of a row, if its columns parse. -/
def AuditRow.event? (P : ColumnParsers) (r : AuditRow) : Option AuditEvent := do
  let stamp ← P.parseTs r.stamp
  let data ← P.parseJson r.dataJson
  pure ⟨r.seq, stamp, r.kind, data, r.prevHash, r.hash⟩

namespace AuditLog

def empty : AuditLog := ⟨[], .nil⟩

/-- `audit_tail`: the last `n` entries, oldest first; `none` is its error. -/
def auditTail (P : ColumnParsers) (log : AuditLog) (n : ℕ) : Option (List AuditEvent) :=
  (log.rows.reverse.take n).reverse.mapM (AuditRow.event? P)

/-- The number and the previous hash of the next row. -/
def next (log : AuditLog) : ℤ × String :=
  match log.rows.getLast? with
  | some r => (r.seq + 1, r.hash)
  | none => (1, genesisHash)

/-- The row that `append_audit` inserts. -/
def nextRow (D : Digest) (log : AuditLog) (call : AuditCall) : AuditRow :=
  let dataJson := call.data.render
  let stamp := call.now.toRfc3339
  let (seq, prevHash) := log.next
  ⟨seq, stamp, call.kind, dataJson, prevHash, auditHash D prevHash seq stamp call.kind dataJson⟩

theorem lt_next (log : AuditLog) : ∀ r ∈ log.rows, r.seq < log.next.1 := by
  intro r hr
  rcases List.eq_nil_or_concat' log.rows with hnil | ⟨rows, last, hrows⟩
  · simp [hnil] at hr
  · have hsorted := log.sorted
    rw [hrows] at hr hsorted
    rw [List.pairwise_append] at hsorted
    have hnext : log.next.1 = last.seq + 1 := by simp [next, hrows]
    rcases List.mem_append.mp hr with hr | hr
    · have := hsorted.2.2 r hr last (by simp)
      omega
    · rw [List.mem_singleton.mp hr]
      omega

/-- `append_audit`. -/
def append (D : Digest) (log : AuditLog) (call : AuditCall) : AuditLog where
  rows := log.rows ++ [log.nextRow D call]
  sorted := by
    rw [List.pairwise_append]
    refine ⟨log.sorted, List.pairwise_singleton _ _, fun r hr r' hr' => ?_⟩
    rw [List.mem_singleton.mp hr']
    exact log.lt_next r hr

/-- The calls, one after another. -/
def appendAll (D : Digest) (log : AuditLog) (calls : List AuditCall) : AuditLog := calls.foldl (append D) log

/-- The walk of `verify_audit_chain`, after so many rows. -/
def verifyFrom (D : Digest) : (count : ℕ) → (expectedPrev : String) → List AuditRow → AuditVerification
  | count, _, [] => .ok count
  | count, expectedPrev, r :: rows =>
    let wantSeq : ℤ := count + 1
    if r.seq ≠ wantSeq then .broken r.seq s!"seq {wantSeq}" s!"seq {r.seq}"
    else if r.prevHash ≠ expectedPrev then .broken r.seq expectedPrev r.prevHash
    else if r.rehash D ≠ r.hash then .broken r.seq (r.rehash D) r.hash
    else verifyFrom D (count + 1) r.hash rows

/-- `verify_audit_chain`. -/
def verify (D : Digest) (log : AuditLog) : AuditVerification := verifyFrom D 0 genesisHash log.rows

end AuditLog

/-! ### The log as a hash chain -/

/-- The rows as entries of a hash chain. -/
def auditChain (D : Digest) : HashChain AuditRow String (List UInt8) where
  index := AuditRow.seq
  prev := AuditRow.prevHash
  digest := AuditRow.hash
  pre := AuditRow.bytes
  hash bytes := hex (D bytes)
  genesis := genesisHash

open HashChain

variable {D : Digest}

/-- The walk accepts the rows that continue the chain. -/
theorem verifyFrom_eq_ok_iff {m : ℤ} : ∀ (rows : List AuditRow) {done : List AuditRow},
    (auditChain D).Linked done →
    (AuditLog.verifyFrom D done.length ((auditChain D).last done) rows = .ok m ↔
      (auditChain D).Linked (done ++ rows) ∧ m = done.length + rows.length)
  | [], done, h => by
    simp [AuditLog.verifyFrom, h, eq_comm]
  | r :: rows, done, h => by
    rw [List.append_cons]
    by_cases hr : (auditChain D).Follows done.length ((auditChain D).last done) r
    · have hdone : (auditChain D).Linked (done ++ [r]) := linked_snoc.mpr ⟨h, hr⟩
      have hrest := verifyFrom_eq_ok_iff (m := m) rows hdone
      rw [last_snoc, List.length_append, List.length_singleton] at hrest
      have hseq : r.seq = done.length + 1 := hr.index
      have hprev : r.prevHash = (auditChain D).last done := hr.prev
      have hhash : r.rehash D = r.hash := hr.digest.symm
      have hstep : AuditLog.verifyFrom D done.length ((auditChain D).last done) (r :: rows) =
          AuditLog.verifyFrom D (done.length + 1) r.hash rows := by
        simp [AuditLog.verifyFrom, hseq, hprev, hhash]
      rw [hstep]
      refine hrest.trans (and_congr_right fun _ => ?_)
      rw [List.length_cons]
      omega
    · constructor
      · intro hok
        unfold AuditLog.verifyFrom at hok
        simp only at hok
        split_ifs at hok with hseq hprev hhash
        exact absurd ⟨not_not.mp hseq, not_not.mp hprev, (not_not.mp hhash).symm⟩ hr
      · rintro ⟨hlinked, -⟩
        exact absurd (linked_snoc.mp hlinked.prefix).2 hr

/-- **The verdict.** A table is accepted, with the number of its rows, exactly
when it is a chain. -/
theorem verify_eq_ok_iff {log : AuditLog} {m : ℤ} :
    log.verify D = .ok m ↔ (auditChain D).Linked log.rows ∧ m = log.rows.length := by
  have h : log.verify D = .ok m ↔
      (auditChain D).Linked ([] ++ log.rows) ∧ m = ([] : List AuditRow).length + log.rows.length :=
    verifyFrom_eq_ok_iff log.rows linked_nil
  simpa using h

theorem isBroken_iff {log : AuditLog} : (log.verify D).IsBroken ↔ ¬ (auditChain D).Linked log.rows := by
  cases h : log.verify D with
  | ok m => simp [AuditVerification.IsBroken, (verify_eq_ok_iff.mp h).1]
  | broken atSeq expected found =>
    refine iff_of_true ⟨atSeq, expected, found, rfl⟩ fun hlinked => ?_
    have hok := verify_eq_ok_iff.mpr ⟨hlinked, rfl⟩
    rw [h] at hok
    cases hok

namespace AuditLog

theorem follows_nextRow {log : AuditLog} (h : (auditChain D).Linked log.rows) (call : AuditCall) :
    (auditChain D).Follows log.rows.length ((auditChain D).last log.rows) (log.nextRow D call) := by
  rcases List.eq_nil_or_concat' log.rows with hnil | ⟨rows, last, hrows⟩
  · have hnext : log.next = (1, genesisHash) := by simp [next, hnil]
    exact ⟨by simp [auditChain, nextRow, hnext, hnil], by simp [auditChain, nextRow, hnext, hnil], rfl⟩
  · have hnext : log.next = (last.seq + 1, last.hash) := by simp [next, hrows]
    rw [hrows] at h ⊢
    have hseq : last.seq = rows.length + 1 := (linked_snoc.mp h).2.index
    refine ⟨?_, ?_, rfl⟩
    · simp [auditChain, nextRow, hnext, hseq]
    · rw [last_snoc]
      simp [auditChain, nextRow, hnext]

theorem linked_append {log : AuditLog} (h : (auditChain D).Linked log.rows) (call : AuditCall) :
    (auditChain D).Linked (log.append D call).rows :=
  linked_snoc.mpr ⟨h, log.follows_nextRow h call⟩

theorem linked_appendAll : ∀ (calls : List AuditCall) {log : AuditLog}, (auditChain D).Linked log.rows →
    (auditChain D).Linked (log.appendAll D calls).rows
  | [], _, h => h
  | call :: calls, _, h => linked_appendAll calls (linked_append h call)

theorem length_appendAll : ∀ (calls : List AuditCall) (log : AuditLog),
    (log.appendAll D calls).rows.length = log.rows.length + calls.length
  | [], _ => rfl
  | call :: calls, log => by
    have h := length_appendAll calls (log.append D call)
    simp only [append, List.length_append, List.length_singleton] at h
    rw [List.length_cons, ← Nat.add_assoc, Nat.add_right_comm]
    exact h

theorem mem_appendAll : ∀ (calls : List AuditCall) (log : AuditLog) {r : AuditRow},
    r ∈ (log.appendAll D calls).rows → r ∈ log.rows ∨
      ∃ call ∈ calls, r.stamp = call.now.toRfc3339 ∧ r.kind = call.kind ∧ r.dataJson = call.data.render
  | [], _, _, h => .inl h
  | call :: calls, log, r, h => by
    rcases mem_appendAll calls (log.append D call) h with h | ⟨c, hc, hr⟩
    · rcases List.mem_append.mp h with h | h
      · exact .inl h
      · rw [List.mem_singleton.mp h]
        exact .inr ⟨call, List.mem_cons_self, rfl, rfl, rfl⟩
    · exact .inr ⟨c, List.mem_cons_of_mem _ hc, hr⟩

end AuditLog

end Sherwood
