/-
# Recording a reconciled fill

`record_reconciled_fill` of `crates/server/src/routes.rs` and `record` of
`crates/cli/src/reconcile_cmd.rs`: both load the snapshot, append the fill,
save the snapshot with it and append an audit row, in an order of their own,
and return at the first call of the store that fails. A recording is cut at
these calls (`RecordPhase.advance`); alone, it makes them in a row (`record`).

Nothing ties the calls together: a recording that fails after it appended the
fill leaves it there (`record_atomic_iff`).

Key definitions: `Recorder`, `RecordPhase`, `RecordPhase.advance`, `record`, `RecordAtomic`.
Key theorems: `record_eq`, `record_atomic_iff`, `save_failure_leaves_fill`.
-/
import Sherwood.Store.Store
import Sherwood.Core.Ledger

namespace Sherwood

/-- Who records a fill: the server, which needs a snapshot, or the command line,
which starts from a new portfolio if there is none. -/
inductive Recorder where
  | server
  | cli (startingCash : ℚ)
  deriving DecidableEq

/-- The calls of the store. -/
inductive StoreCall where
  | load
  | appendFill
  | save
  | appendAudit
  deriving DecidableEq

/-- The error a failed call is reported as. -/
def Recorder.errorText : Recorder → StoreCall → (e : String) → String
  | .server, .load, e => s!"loading the portfolio: {e}"
  | .server, .appendFill, e => s!"appending fill: {e}"
  | .server, .save, e => s!"saving the portfolio: {e}"
  | .server, .appendAudit, e => s!"appending the audit row: {e}"
  | .cli _, .load, _ => "loading the portfolio snapshot"
  | .cli _, .appendFill, _ => "appending fill"
  | .cli _, .save, _ => "saving the portfolio snapshot"
  | .cli _, .appendAudit, _ => "appending the audit row"

/-- Where a recording stands, between two calls of the store: the snapshot is
loaded, the fill is appended, both (`booking`), the new snapshot is saved. -/
inductive RecordPhase where
  | starting
  | loaded (p : Portfolio)
  | appended
  | booking (p : Portfolio)
  | saved
  | finished (recorded : Bool)
  | failed (error : String)
  deriving DecidableEq

namespace RecordPhase

/-- The call it makes next. -/
def next (who : Recorder) : RecordPhase → Option StoreCall
  | .starting => match who with
    | .server => some .load
    | .cli _ => some .appendFill
  | .loaded _ => some .appendFill
  | .appended => some .load
  | .booking _ => some .save
  | .saved => some .appendAudit
  | .finished _ => none
  | .failed _ => none

/-- The portfolio a recording starts from. -/
def loadedBy (who : Recorder) (store : Store) : Option Portfolio :=
  match who with
  | .server => store.loadPortfolio
  | .cli startingCash => some (store.loadOrNew startingCash)

/-- The audit row of a recorded fill. -/
def auditCall (fill : Fill) (now : DateTime) : AuditCall := ⟨now, "fill", fillData (some "reconcile") fill⟩

/-- A call that succeeds: where the recording stands then, and what was written.
The server is done when there is no snapshot. -/
def advance (who : Recorder) (fill : Fill) (store : Store) (now : DateTime) :
    RecordPhase → Option (RecordPhase × Option StoreWrite)
  | .starting => match who with
    | .server => some ((loadedBy who store).elim (.finished false) .loaded, none)
    | .cli _ => some (.appended, some (.fill fill))
  | .loaded p => some (.booking p, some (.fill fill))
  | .appended => some ((loadedBy who store).elim (.finished false) .booking, none)
  | .booking p => some (.saved, some (.save (p.apply fill)))
  | .saved => some (.finished true, some (.audit (auditCall fill now)))
  | .finished _ => none
  | .failed _ => none

end RecordPhase

/-- So many calls of a recording in a row; `fails` says which fail. -/
def recordCalls (D : Digest) (who : Recorder) (fill : Fill) (now : DateTime) (fails : StoreCall → Option String) :
    ℕ → Store × RecordPhase → Store × RecordPhase
  | 0, r => r
  | n + 1, (store, phase) =>
    match phase.next who with
    | none => (store, phase)
    | some call =>
      match fails call with
      | some e => (store, .failed (who.errorText call e))
      | none =>
        match phase.advance who fill store now with
        | some (phase', w) => recordCalls D who fill now fails n (store.writeAll D w.toList, phase')
        | none => (store, phase)

/-- A recording from its start to its end: it makes four calls at most. -/
def record (D : Digest) (who : Recorder) (fill : Fill) (now : DateTime) (fails : StoreCall → Option String)
    (store : Store) : Store × RecordPhase :=
  recordCalls D who fill now fails 4 (store, .starting)

/-- The store with a fill recorded: in its table, its snapshot and its audit log. -/
def Store.withFill (D : Digest) (store : Store) (base : Portfolio) (fill : Fill) (now : DateTime) : Store :=
  ((store.appendFill fill).savePortfolio (base.apply fill)).appendAudit D (RecordPhase.auditCall fill now)

/-- **Atomic.** The recording returns; with an error, or where it says that it
recorded nothing, the store is as it was, and otherwise it has the fill. -/
structure RecordAtomic (D : Digest) (who : Recorder) (fill : Fill) (now : DateTime) (before : Store)
    (result : Store × RecordPhase) : Prop where
  returned : result.2.next who = none
  failed : ∀ e, result.2 = .failed e → result.1 = before
  skipped : result.2 = .finished false → result.1 = before
  recorded : result.2 = .finished true →
    ∃ base, RecordPhase.loadedBy who before = some base ∧ result.1 = before.withFill D base fill now

/-- Nothing fails once the fill is appended. -/
def FailsEarly (who : Recorder) (before : Store) (fails : StoreCall → Option String) : Prop :=
  match who with
  | .server => before.loadPortfolio = none ∨ fails .load ≠ none ∨ fails .appendFill ≠ none ∨
      (fails .save = none ∧ fails .appendAudit = none)
  | .cli _ => fails .appendFill ≠ none ∨
      (fails .load = none ∧ fails .save = none ∧ fails .appendAudit = none)

variable {D : Digest} {who : Recorder} {fill : Fill} {now : DateTime} {fails : StoreCall → Option String}

theorem record_eq (store : Store) : record D who fill now (fun _ => none) store =
    match RecordPhase.loadedBy who store with
    | some base => (store.withFill D base fill now, .finished true)
    | none => (store, .finished false) := by
  cases who with
  | server =>
    cases hp : store.loadPortfolio <;>
      simp [record, recordCalls, RecordPhase.next, RecordPhase.advance, RecordPhase.loadedBy, hp, Store.writeAll,
        Store.write, Store.withFill]
  | cli startingCash => rfl

theorem atomic_of_failed (store : Store) (e : String) : RecordAtomic D who fill now store (store, .failed e) :=
  ⟨rfl, fun _ _ => rfl, (fun h => by cases h), (fun h => by cases h)⟩

theorem not_atomic_of_failed {store after : Store} {e : String} (hfills : after.fills = store.fills ++ [fill]) :
    ¬ RecordAtomic D who fill now store (after, .failed e) := by
  intro h
  have hsame : after = store := h.failed e rfl
  rw [hsame] at hfills
  simp at hfills

theorem record_server (store : Store) : record D .server fill now fails store =
    (fails .load).elim
      (store.loadPortfolio.elim (store, .finished false) fun p =>
        (fails .appendFill).elim
          ((fails .save).elim
            ((fails .appendAudit).elim (store.withFill D p fill now, .finished true) fun e =>
              ((store.appendFill fill).savePortfolio (p.apply fill), .failed (Recorder.server.errorText .appendAudit e)))
            fun e => (store.appendFill fill, .failed (Recorder.server.errorText .save e)))
          fun e => (store, .failed (Recorder.server.errorText .appendFill e)))
      fun e => (store, .failed (Recorder.server.errorText .load e)) := by
  cases hl : fails .load <;> cases hp : store.loadPortfolio <;> cases ha : fails .appendFill <;>
    cases hs : fails .save <;> cases hd : fails .appendAudit <;>
    simp [record, recordCalls, RecordPhase.next, RecordPhase.advance, RecordPhase.loadedBy, Store.writeAll,
      Store.write, Store.withFill, hl, hp, ha, hs, hd]

theorem record_cli (startingCash : ℚ) (store : Store) : record D (.cli startingCash) fill now fails store =
    (fails .appendFill).elim
      ((fails .load).elim
        ((fails .save).elim
          ((fails .appendAudit).elim
            (store.withFill D (store.loadOrNew startingCash) fill now, .finished true) fun e =>
              ((store.appendFill fill).savePortfolio ((store.loadOrNew startingCash).apply fill),
                .failed ((Recorder.cli startingCash).errorText .appendAudit e)))
          fun e => (store.appendFill fill, .failed ((Recorder.cli startingCash).errorText .save e)))
        fun e => (store.appendFill fill, .failed ((Recorder.cli startingCash).errorText .load e)))
      fun e => (store, .failed ((Recorder.cli startingCash).errorText .appendFill e)) := by
  have hload : (store.appendFill fill).loadOrNew startingCash = store.loadOrNew startingCash := rfl
  cases hl : fails .load <;> cases ha : fails .appendFill <;> cases hs : fails .save <;>
    cases hd : fails .appendAudit <;>
    simp [record, recordCalls, RecordPhase.next, RecordPhase.advance, RecordPhase.loadedBy, Store.writeAll,
      Store.write, Store.withFill, hl, ha, hs, hd, hload]

/-- **When a recording is atomic.** Exactly when no call fails after the fill is
appended. -/
theorem record_atomic_iff (D : Digest) (who : Recorder) (fill : Fill) (now : DateTime)
    (fails : StoreCall → Option String) (store : Store) :
    RecordAtomic D who fill now store (record D who fill now fails store) ↔ FailsEarly who store fails := by
  have hdone : ∀ base, RecordPhase.loadedBy who store = some base →
      RecordAtomic D who fill now store (store.withFill D base fill now, .finished true) :=
    fun base hbase => ⟨rfl, (fun _ h => by cases h), (fun h => by cases h), fun _ => ⟨base, hbase, rfl⟩⟩
  cases who with
  | server =>
    rw [record_server]
    cases hl : fails .load with
    | some e => exact iff_of_true (atomic_of_failed store _) (by simp [FailsEarly, hl])
    | none =>
      cases hp : store.loadPortfolio with
      | none =>
        exact iff_of_true ⟨rfl, (fun _ h => by cases h), fun _ => rfl, (fun h => by cases h)⟩
          (by simp [FailsEarly, hp])
      | some p =>
        cases ha : fails .appendFill with
        | some e => exact iff_of_true (atomic_of_failed store _) (by simp [FailsEarly, ha])
        | none =>
          cases hs : fails .save with
          | some e => exact iff_of_false (not_atomic_of_failed rfl) (by simp [FailsEarly, hl, hp, ha, hs])
          | none =>
            cases hd : fails .appendAudit with
            | some e => exact iff_of_false (not_atomic_of_failed rfl) (by simp [FailsEarly, hl, hp, ha, hd])
            | none => exact iff_of_true (hdone p hp) (by simp [FailsEarly, hs, hd])
  | cli startingCash =>
    rw [record_cli]
    cases ha : fails .appendFill with
    | some e => exact iff_of_true (atomic_of_failed store _) (by simp [FailsEarly, ha])
    | none =>
      cases hl : fails .load with
      | some e => exact iff_of_false (not_atomic_of_failed rfl) (by simp [FailsEarly, ha, hl])
      | none =>
        cases hs : fails .save with
        | some e => exact iff_of_false (not_atomic_of_failed rfl) (by simp [FailsEarly, ha, hs])
        | none =>
          cases hd : fails .appendAudit with
          | some e => exact iff_of_false (not_atomic_of_failed rfl) (by simp [FailsEarly, ha, hd])
          | none => exact iff_of_true (hdone _ rfl) (by simp [FailsEarly, hl, hs, hd])

/-- Only saving the snapshot fails. -/
def saveFails (call : StoreCall) : Option String := if call = .save then some "disk full" else none

/-- A database with a snapshot. -/
def oneSnapshot : Store := ⟨[.new 1000], [], .empty⟩

/-- A bought share, as a receipt is recorded. -/
def reconciledBuy : Fill :=
  ⟨⟨"reconcile-0xabc"⟩, .ofSymbol "NVDA", .buy, 1 / 2, 200, 1 / 10, .dexRouter, .epoch⟩

/-- A failed save leaves the fill in its table. -/
theorem save_failure_leaves_fill : ¬ ∀ (who : Recorder) (fill : Fill) (now : DateTime)
    (fails : StoreCall → Option String) (store : Store),
    RecordAtomic Sha256.digest who fill now store (record Sha256.digest who fill now fails store) := by
  intro hclaim
  have h := (hclaim .server reconciledBuy .epoch saveFails oneSnapshot).failed "saving the portfolio: disk full"
    (by decide +kernel)
  have hfills := congrArg Store.fills h
  rw [record_server] at hfills
  revert hfills
  decide +kernel

end Sherwood
