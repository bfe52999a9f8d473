/-
# The state store

The three tables of `crates/store/src/lib.rs`: portfolio snapshots, of which
the latest is the balance on restart, the fills, and the audit log. Each call
of the store is one step, whatever runs beside it; what a run of anything did
to the store is the list of its writes (`Store.writeAll`). The store's
subscriber on the bus turns an event into one or two writes.

Key definitions: `Store`, `StoreWrite`, `Store.writeAll`, `fillData`,
`StoreSubscriber.handle`.
Key theorems: `fills_writeAll`, `snapshots_writeAll`, `audit_writeAll`, `fillRows_appendAll`.
-/
import Sherwood.Core.Portfolio
import Sherwood.Events.Bus
import Sherwood.Store.Audit

namespace Sherwood

/-- The tables, their rows in the order in which they were inserted. -/
structure Store where
  snapshots : List Portfolio
  fills : List Fill
  audit : AuditLog
  deriving DecidableEq

/-- A call that writes. -/
inductive StoreWrite where
  | save (p : Portfolio)
  | fill (f : Fill)
  | audit (call : AuditCall)

namespace StoreWrite

def save? : StoreWrite → Option Portfolio
  | .save p => some p
  | _ => none

def fill? : StoreWrite → Option Fill
  | .fill f => some f
  | _ => none

def audit? : StoreWrite → Option AuditCall
  | .audit call => some call
  | _ => none

end StoreWrite

namespace Store

/-- A new database. -/
def empty : Store := ⟨[], [], .empty⟩

/-- `load_portfolio`: the most recent snapshot. -/
def loadPortfolio (s : Store) : Option Portfolio := s.snapshots.getLast?

/-- The snapshot a session starts from: a new portfolio if there is none. -/
def loadOrNew (s : Store) (startingCash : ℚ) : Portfolio := s.loadPortfolio.getD (.new startingCash)

/-- `save_portfolio`. -/
def savePortfolio (s : Store) (p : Portfolio) : Store := { s with snapshots := s.snapshots ++ [p] }

/-- `append_fill`. -/
def appendFill (s : Store) (f : Fill) : Store := { s with fills := s.fills ++ [f] }

/-- `append_audit`. -/
def appendAudit (D : Digest) (s : Store) (call : AuditCall) : Store := { s with audit := s.audit.append D call }

def write (D : Digest) (s : Store) : StoreWrite → Store
  | .save p => s.savePortfolio p
  | .fill f => s.appendFill f
  | .audit call => s.appendAudit D call

/-- The writes, one after another. -/
def writeAll (D : Digest) (s : Store) (ws : List StoreWrite) : Store := ws.foldl (write D) s

variable {D : Digest}

@[simp] theorem writeAll_nil (s : Store) : s.writeAll D [] = s := rfl

@[simp] theorem writeAll_append (s : Store) (ws ws' : List StoreWrite) :
    s.writeAll D (ws ++ ws') = (s.writeAll D ws).writeAll D ws' :=
  List.foldl_append

theorem fills_writeAll : ∀ (ws : List StoreWrite) (s : Store),
    (s.writeAll D ws).fills = s.fills ++ ws.filterMap StoreWrite.fill?
  | [], s => by simp
  | w :: ws, s => by
    calc (s.writeAll D (w :: ws)).fills = ((s.write D w).writeAll D ws).fills := rfl
      _ = (s.write D w).fills ++ ws.filterMap StoreWrite.fill? := fills_writeAll ws _
      _ = s.fills ++ (w :: ws).filterMap StoreWrite.fill? := by
          cases w <;> simp [write, appendFill, appendAudit, savePortfolio, StoreWrite.fill?, List.filterMap_cons]

theorem snapshots_writeAll : ∀ (ws : List StoreWrite) (s : Store),
    (s.writeAll D ws).snapshots = s.snapshots ++ ws.filterMap StoreWrite.save?
  | [], s => by simp
  | w :: ws, s => by
    calc (s.writeAll D (w :: ws)).snapshots = ((s.write D w).writeAll D ws).snapshots := rfl
      _ = (s.write D w).snapshots ++ ws.filterMap StoreWrite.save? := snapshots_writeAll ws _
      _ = s.snapshots ++ (w :: ws).filterMap StoreWrite.save? := by
          cases w <;> simp [write, appendFill, appendAudit, savePortfolio, StoreWrite.save?, List.filterMap_cons]

theorem audit_writeAll : ∀ (ws : List StoreWrite) (s : Store),
    (s.writeAll D ws).audit = s.audit.appendAll D (ws.filterMap StoreWrite.audit?)
  | [], s => rfl
  | w :: ws, s => by
    calc (s.writeAll D (w :: ws)).audit = ((s.write D w).writeAll D ws).audit := rfl
      _ = (s.write D w).audit.appendAll D (ws.filterMap StoreWrite.audit?) := audit_writeAll ws _
      _ = s.audit.appendAll D ((w :: ws).filterMap StoreWrite.audit?) := by cases w <;> rfl

end Store

/-! ### What is written about an event -/

/-- `side_str`. -/
def sideStr : Side → String
  | .buy => "buy"
  | .sell => "sell"

/-- The payload of a `fill` row, with where it comes from if that is said. Its
keys are in their order. -/
def fillData (source : Option String) (f : Fill) : Json :=
  .obj ([("fee", .str (Decimal.display f.fee)), ("order_id", .str f.orderId.val), ("price", .str (Decimal.display f.price)),
    ("qty", .str (Decimal.display f.qty)), ("side", .str (sideStr f.side))] ++
    (source.map fun text => ("source", Json.str text)).toList ++ [("symbol", .str f.asset.symbol)])

/-- The payloads of the `fill` rows of an audit log. -/
def AuditLog.fillRows (log : AuditLog) : List String :=
  (log.rows.filter fun r => r.kind = "fill").map AuditRow.dataJson

theorem fillRows_appendAll {D : Digest} : ∀ (calls : List AuditCall) (log : AuditLog), (log.appendAll D calls).fillRows =
    log.fillRows ++ ((calls.filter fun call => call.kind = "fill").map AuditCall.data).map Json.render
  | [], log => by simp [AuditLog.appendAll]
  | call :: calls, log => by
    have hrow : (log.append D call).fillRows =
        log.fillRows ++ if call.kind = "fill" then [call.data.render] else [] := by
      by_cases hk : call.kind = "fill" <;>
        simp [AuditLog.fillRows, AuditLog.append, AuditLog.nextRow, List.filter_append, hk]
    calc (log.appendAll D (call :: calls)).fillRows = ((log.append D call).appendAll D calls).fillRows := rfl
      _ = (log.append D call).fillRows ++
          ((calls.filter fun call => call.kind = "fill").map AuditCall.data).map Json.render := fillRows_appendAll calls _
      _ = _ := by
          rw [hrow]
          by_cases hk : call.kind = "fill" <;> simp [hk]

/-- What the subscriber does next: wait for an event, append a fill, append an
audit row, or nothing more. -/
inductive Handling where
  | waiting
  | filling (fill : Fill)
  | auditing (kind : String) (data : Json)
  | stopped

/-- `StoreSubscriber::handle`, up to its first call of the store. -/
def StoreSubscriber.handle : Event → Handling
  | .orderFilled fill => .filling fill
  | .riskRejected orderId symbol reason =>
    .auditing "gate_reject" (.obj [("order_id", .str orderId.val), ("reason", .str reason), ("symbol", .str symbol)])
  | .decided tick price decision =>
    .auditing "decision" (.obj [("decision", .str decision), ("price", .str (Decimal.display price)),
      ("tick", .num (.posInt tick.toUInt64))])
  | .runEnded label interrupted cash realizedPnl =>
    .auditing "run_end" (.obj [("cash", .str (Decimal.display cash)), ("label", .str label),
      ("realized_pnl", .str (Decimal.display realizedPnl)),
      ("state", .str (if interrupted then "interrupted" else "done"))])

end Sherwood
