/-
# The rows of the store

`SqliteStore` keeps a fill in columns of text, a portfolio as JSON, and an audit entry in
columns of which the time and the data are text. What is read of a row depends on each of
its columns.

The store reads back what was written, in any order of writes (`store_reads_back`): it is the
store of values. Only a time whose year has not four digits is not read back, and then none of
the fills is.

Key definitions: `FillRow`, `Fill.row`, `FillRow.fill`, `SqliteStore`.
Key theorems: `FillRow.fill_row`, `FillRow.readFills_rows`, `AuditLog.auditTail_appendAll`, `store_reads_back`.
-/
import Sherwood.Core.DecimalText
import Sherwood.Core.Timestamps
import Sherwood.Lib.Cursor
import Sherwood.Store.Store

namespace Sherwood

/-! ### Columns -/

/-- Where a row is not read: the column with its text, or JSON that is not of the type. -/
inductive StoreError where
  | corrupt (column text : String)
  | json (text : String)
  deriving DecidableEq

/-- The columns of the table `fills` that are read. -/
structure FillRow where
  orderId : String
  symbol : String
  address : Option String
  side : String
  qty : String
  price : String
  fee : String
  venue : String
  filledAt : String

namespace FillRow

/-- `venue_str`: the venue's name in JSON. -/
def venueStr : Venue → String
  | .paper => "paper"
  | .robinhoodMcp => "robinhood_mcp"
  | .dexRouter => "dex_router"

def parseVenue (s : String) : Except StoreError Venue :=
  if s = "paper" then .ok .paper
  else if s = "robinhood_mcp" then .ok .robinhoodMcp
  else if s = "dex_router" then .ok .dexRouter
  else .error (.json s)

def parseSide (s : String) : Except StoreError Side :=
  if s = "buy" then .ok .buy else if s = "sell" then .ok .sell else .error (.corrupt "side" s)

def parseTs (P : ColumnParsers) (s : String) : Except StoreError DateTime :=
  match P.parseTs s with
  | some t => .ok t
  | none => .error (.corrupt "timestamp" s)

/-- The closure `dec`. -/
def parseDec (column s : String) : Except StoreError ℚ :=
  match Decimal.fromStr .dec96 s.toList with
  | some v => .ok v
  | none => .error (.corrupt column s)

end FillRow

/-- What `append_fill` inserts. -/
def Fill.row (fill : Fill) : FillRow where
  orderId := fill.orderId.val
  symbol := fill.asset.symbol
  address := fill.asset.address
  side := sideStr fill.side
  qty := Decimal.display fill.qty
  price := Decimal.display fill.price
  fee := Decimal.display fill.fee
  venue := FillRow.venueStr fill.venue
  filledAt := fill.filledAt.toRfc3339

/-- What `fills` makes of a row. -/
def FillRow.fill (P : ColumnParsers) (r : FillRow) : Except StoreError Fill := do
  let side ← parseSide r.side
  let qty ← parseDec "qty" r.qty
  let price ← parseDec "price" r.price
  let fee ← parseDec "fee" r.fee
  let venue ← parseVenue r.venue
  let filledAt ← parseTs P r.filledAt
  return ⟨⟨r.orderId⟩, ⟨r.symbol, r.address⟩, side, qty, price, fee, venue, filledAt⟩

/-- `fills`: the first row that is not read ends it. -/
def readFills (P : ColumnParsers) (rows : List FillRow) : Except StoreError (List Fill) := rows.mapM (FillRow.fill P)

/-! ### The store -/

/-- `serde_json` of a portfolio. -/
structure PortfolioJson where
  toString : Portfolio → String
  fromStr : String → Option Portfolio

/-- The tables, with what is in their columns. -/
structure SqliteStore where
  snapshots : List String
  fillRows : List FillRow
  auditLog : AuditLog

namespace SqliteStore

def empty : SqliteStore := ⟨[], [], .empty⟩

variable (J : PortfolioJson) (D : Digest) (P : ColumnParsers)

def write (s : SqliteStore) : StoreWrite → SqliteStore
  | .save p => { s with snapshots := s.snapshots ++ [J.toString p] }
  | .fill f => { s with fillRows := s.fillRows ++ [f.row] }
  | .audit call => { s with auditLog := s.auditLog.append D call }

def writeAll (s : SqliteStore) (ws : List StoreWrite) : SqliteStore := ws.foldl (write J D) s

def loadPortfolio (s : SqliteStore) : Except StoreError (Option Portfolio) :=
  match s.snapshots.getLast? with
  | none => .ok none
  | some text =>
    match J.fromStr text with
    | some p => .ok (some p)
    | none => .error (.json text)

def fills (s : SqliteStore) : Except StoreError (List Fill) := readFills P s.fillRows

end SqliteStore

/-! ### Columns read back -/

/-- A time whose year has four digits. -/
def DateTime.FourDigits (t : DateTime) : Prop := 0 ≤ t.year ∧ t.year ≤ 9999

instance (t : DateTime) : Decidable t.FourDigits := inferInstanceAs (Decidable (_ ∧ _))

/-- `parse_from_rfc3339` reads the text of a time, if its year has four digits. -/
def ColumnParsers.ReadsTimes (P : ColumnParsers) : Prop :=
  ∀ t : DateTime, P.parseTs t.toRfc3339 = if t.FourDigits then some t else none

/-- The numbers of a fill are decimals. -/
structure Fill.Decimals (fill : Fill) : Prop where
  qty : IsDecimal fill.qty
  price : IsDecimal fill.price
  fee : IsDecimal fill.fee

namespace FillRow

variable {P : ColumnParsers}

theorem parseSide_sideStr (side : Side) : parseSide (sideStr side) = .ok side := by
  cases side with
  | buy => rfl
  | sell => rfl

theorem parseVenue_venueStr (venue : Venue) : parseVenue (venueStr venue) = .ok venue := by
  cases venue with
  | paper => rfl
  | robinhoodMcp => rfl
  | dexRouter => rfl

theorem parseDec_display {v : ℚ} (h : IsDecimal v) (column : String) : parseDec column (Decimal.display v) = .ok v := by
  rw [parseDec, Decimal.fromStr_display h]

theorem parseTs_toRfc3339 (hP : P.ReadsTimes) (t : DateTime) : parseTs P t.toRfc3339 =
    if t.FourDigits then .ok t else .error (.corrupt "timestamp" t.toRfc3339) := by
  rw [parseTs, hP t]
  by_cases ht : t.FourDigits
  · rw [if_pos ht, if_pos ht]
  · rw [if_neg ht, if_neg ht]

/-- **A row.** A fill is read back from its row, but for such a time. -/
theorem fill_row (hP : P.ReadsTimes) {f : Fill} (h : f.Decimals) : f.row.fill P =
    if f.filledAt.FourDigits then .ok f else .error (.corrupt "timestamp" f.filledAt.toRfc3339) := by
  simp only [FillRow.fill, Fill.row, parseSide_sideStr, parseDec_display h.qty, parseDec_display h.price,
    parseDec_display h.fee, parseVenue_venueStr, parseTs_toRfc3339 hP]
  by_cases ht : f.filledAt.FourDigits
  · rw [if_pos ht, if_pos ht]
    rfl
  · rw [if_neg ht, if_neg ht]
    rfl

/-- **The table.** The fills are read back, or the first such time is reported. -/
theorem readFills_rows (hP : P.ReadsTimes) {fs : List Fill} (h : ∀ f ∈ fs, f.Decimals) : readFills P (fs.map Fill.row) =
    match fs.find? fun f => ¬ f.filledAt.FourDigits with
    | none => .ok fs
    | some f => .error (.corrupt "timestamp" f.filledAt.toRfc3339) := by
  induction fs with
  | nil => rfl
  | cons f fs ih =>
    have hrest := ih fun g hg => h g (List.mem_cons_of_mem _ hg)
    rw [readFills] at hrest
    rw [readFills, List.map_cons, List.mapM_cons, fill_row hP (h f List.mem_cons_self), hrest]
    by_cases ht : f.filledAt.FourDigits
    · have hfind : ((f :: fs).find? fun f => ¬ f.filledAt.FourDigits) = fs.find? fun f => ¬ f.filledAt.FourDigits :=
        List.find?_cons_of_neg (by simpa using ht)
      rw [if_pos ht, hfind]
      cases fs.find? fun f => ¬ f.filledAt.FourDigits with
      | none => rfl
      | some g => rfl
    · have hfind : ((f :: fs).find? fun f => ¬ f.filledAt.FourDigits) = some f :=
        List.find?_cons_of_pos (by simpa using ht)
      rw [if_neg ht, hfind]
      rfl

end FillRow

/-! ### Audit entries read back -/

/-- What `append_audit` returns: the row with the time and the data of the call. -/
def AuditCall.event (call : AuditCall) (r : AuditRow) : AuditEvent :=
  ⟨r.seq, call.now, r.kind, call.data, r.prevHash, r.hash⟩

namespace AuditLog

variable {D : Digest} {P : ColumnParsers}

/-- The calls with the rows that they append. -/
def entries (D : Digest) : AuditLog → List AuditCall → List (AuditCall × AuditRow)
  | _, [] => []
  | log, call :: calls => (call, log.nextRow D call) :: entries D (log.append D call) calls

theorem rows_appendAll : ∀ (calls : List AuditCall) (log : AuditLog),
    (log.appendAll D calls).rows = log.rows ++ (entries D log calls).map Prod.snd
  | [], log => (List.append_nil _).symm
  | call :: calls, log => by
    calc (log.appendAll D (call :: calls)).rows
        _ = ((log.append D call).appendAll D calls).rows := rfl
        _ = (log.rows ++ [log.nextRow D call]) ++ (entries D (log.append D call) calls).map Prod.snd :=
          rows_appendAll calls _
        _ = log.rows ++ (entries D log (call :: calls)).map Prod.snd := List.append_assoc _ _ _

theorem calls_entries : ∀ (calls : List AuditCall) (log : AuditLog), (entries D log calls).map Prod.fst = calls
  | [], _ => rfl
  | call :: calls, _ => congrArg (call :: ·) (calls_entries calls _)

theorem columns_of_mem {e : AuditCall × AuditRow} : ∀ {calls : List AuditCall} {log : AuditLog},
    e ∈ entries D log calls → e.2.stamp = e.1.now.toRfc3339 ∧ e.2.dataJson = e.1.data.render
  | [], _, h => nomatch h
  | _ :: _, _, h => by
    rcases List.mem_cons.mp h with rfl | h
    · exact ⟨rfl, rfl⟩
    · exact columns_of_mem h

/-- Rows are read as what the calls returned, but for such a time. -/
theorem mapM_event (hP : P.ReadsTimes) {es : List (AuditCall × AuditRow)}
    (hcolumns : ∀ e ∈ es, e.2.stamp = e.1.now.toRfc3339 ∧ e.2.dataJson = e.1.data.render)
    (hjson : ∀ e ∈ es, P.parseJson e.1.data.render = some e.1.data) :
    (es.map Prod.snd).mapM (AuditRow.event? P) =
      if ∀ e ∈ es, e.1.now.FourDigits then some (es.map fun e => e.1.event e.2) else none := by
  induction es with
  | nil => rfl
  | cons e es ih =>
    have hrest := ih (fun e' he' => hcolumns e' (List.mem_cons_of_mem _ he'))
      fun e' he' => hjson e' (List.mem_cons_of_mem _ he')
    obtain ⟨hstamp, hdata⟩ := hcolumns e List.mem_cons_self
    have hevent : e.2.event? P = if e.1.now.FourDigits then some (e.1.event e.2) else none := by
      rw [AuditRow.event?, hstamp, hdata, hP, hjson e List.mem_cons_self]
      by_cases ht : e.1.now.FourDigits
      · rw [if_pos ht, if_pos ht]
        rfl
      · rw [if_neg ht, if_neg ht]
        rfl
    rw [List.map_cons, List.mapM_cons, hevent, hrest]
    simp only [List.forall_mem_cons]
    by_cases ht : e.1.now.FourDigits
    · by_cases hall : ∀ e ∈ es, e.1.now.FourDigits
      · rw [if_pos ht, if_pos hall, if_pos ⟨ht, hall⟩]
        rfl
      · have hnot : ¬ (e.1.now.FourDigits ∧ ∀ e ∈ es, e.1.now.FourDigits) := fun h => hall h.2
        rw [if_pos ht, if_neg hall, if_neg hnot]
        rfl
    · have hnot : ¬ (e.1.now.FourDigits ∧ ∀ e ∈ es, e.1.now.FourDigits) := fun h => ht h.1
      rw [if_neg ht, if_neg hnot]
      rfl

theorem window_map {α β : Type} (n : ℕ) (f : α → β) (xs : List α) :
    Cursor.window n (xs.map f) = (Cursor.window n xs).map f := by
  rw [Cursor.window, Cursor.window, List.length_map, List.map_drop]

/-- What the calls return. -/
def returned (D : Digest) (calls : List AuditCall) : List AuditEvent :=
  (entries D .empty calls).map fun e => e.1.event e.2

/-- **The tail.** The last entries are read as what the last calls returned, exactly if their
times can be read. -/
theorem auditTail_appendAll (hP : P.ReadsTimes) {calls : List AuditCall}
    (hjson : ∀ call ∈ calls, P.parseJson call.data.render = some call.data) (n : ℕ) :
    (AuditLog.empty.appendAll D calls).auditTail P n =
      if ∀ call ∈ Cursor.window n calls, call.now.FourDigits then some (Cursor.window n (returned D calls))
      else none := by
  have hrows : ((AuditLog.empty.appendAll D calls).rows.reverse.take n).reverse =
      (Cursor.window n (entries D .empty calls)).map Prod.snd := by
    rw [List.reverse_take, List.reverse_reverse, List.length_reverse, rows_appendAll, ← window_map]
    rfl
  have hcalls : Cursor.window n calls = (Cursor.window n (entries D .empty calls)).map Prod.fst := by
    rw [← window_map, calls_entries]
  have hmem {e : AuditCall × AuditRow} (he : e ∈ Cursor.window n (entries D .empty calls)) :
      e ∈ entries D .empty calls := List.mem_of_mem_drop he
  rw [auditTail, hrows, mapM_event hP (fun e he => columns_of_mem (hmem he)), hcalls, returned, window_map]
  · simp only [List.forall_mem_map]
  · intro e he
    have hcall := List.mem_map_of_mem (f := Prod.fst) (hmem he)
    rw [calls_entries] at hcall
    exact hjson _ hcall

end AuditLog

/-! ### The store of values -/

namespace SqliteStore

variable {J : PortfolioJson} {D : Digest}

theorem writeAll_eq : ∀ (ws : List StoreWrite) (s : SqliteStore), s.writeAll J D ws =
    ⟨s.snapshots ++ (ws.filterMap StoreWrite.save?).map J.toString,
      s.fillRows ++ (ws.filterMap StoreWrite.fill?).map Fill.row,
      s.auditLog.appendAll D (ws.filterMap StoreWrite.audit?)⟩
  | [], s => by
    rw [List.filterMap_nil, List.filterMap_nil, List.map_nil, List.map_nil, List.append_nil, List.append_nil]
    rfl
  | w :: ws, s => by
    calc s.writeAll J D (w :: ws) = (s.write J D w).writeAll J D ws := rfl
      _ = _ := writeAll_eq ws _
      _ = _ := by
        cases w with
        | save p => simp [write, StoreWrite.save?, StoreWrite.fill?, StoreWrite.audit?, List.filterMap_cons]
        | fill f => simp [write, StoreWrite.save?, StoreWrite.fill?, StoreWrite.audit?, List.filterMap_cons]
        | audit call => rfl

end SqliteStore

/-- **The store.** After any writes, the portfolio, the fills and the audit entries that are
read are those of the store of values, the entries as they were returned; unless the year of
one of their times has not four digits. -/
theorem store_reads_back (J : PortfolioJson) (D : Digest) (P : ColumnParsers) (hP : P.ReadsTimes) (ws : List StoreWrite)
    (hdecimal : ∀ f ∈ ws.filterMap StoreWrite.fill?, f.Decimals)
    (hdata : ∀ call ∈ ws.filterMap StoreWrite.audit?, P.parseJson call.data.render = some call.data)
    (hsaved : ∀ p ∈ ws.filterMap StoreWrite.save?, J.fromStr (J.toString p) = some p) :
    (SqliteStore.empty.writeAll J D ws).loadPortfolio J = .ok (Store.empty.writeAll D ws).loadPortfolio ∧
      (SqliteStore.empty.writeAll J D ws).fills P =
        (match (Store.empty.writeAll D ws).fills.find? fun f => ¬ f.filledAt.FourDigits with
        | none => .ok (Store.empty.writeAll D ws).fills
        | some f => .error (.corrupt "timestamp" f.filledAt.toRfc3339)) ∧
      (SqliteStore.empty.writeAll J D ws).auditLog = (Store.empty.writeAll D ws).audit ∧
      ∀ n, (SqliteStore.empty.writeAll J D ws).auditLog.auditTail P n =
        if ∀ call ∈ Cursor.window n (ws.filterMap StoreWrite.audit?), call.now.FourDigits
        then some (Cursor.window n (AuditLog.returned D (ws.filterMap StoreWrite.audit?))) else none := by
  rw [SqliteStore.writeAll_eq]
  have hfills : (Store.empty.writeAll D ws).fills = ws.filterMap StoreWrite.fill? := Store.fills_writeAll ws _
  have hsnapshots : (Store.empty.writeAll D ws).snapshots = ws.filterMap StoreWrite.save? :=
    Store.snapshots_writeAll ws _
  have haudit : (Store.empty.writeAll D ws).audit = AuditLog.empty.appendAll D (ws.filterMap StoreWrite.audit?) :=
    Store.audit_writeAll ws _
  refine ⟨?_, ?_, haudit.symm, AuditLog.auditTail_appendAll hP hdata⟩
  · simp only [Store.loadPortfolio, hsnapshots, SqliteStore.loadPortfolio, SqliteStore.empty, List.nil_append,
      List.getLast?_map]
    cases hlast : (ws.filterMap StoreWrite.save?).getLast? with
    | none => rfl
    | some p =>
      rw [Option.map_some]
      dsimp only
      rw [hsaved p (List.mem_of_getLast? hlast)]
  · rw [hfills]
    exact FillRow.readFills_rows hP hdecimal

/-! ### Half a share -/

def nvdaHalf : Fill where
  orderId := ⟨"paper-1"⟩
  asset := ⟨"NVDA", some "0x2"⟩
  side := .sell
  qty := 1 / 2
  price := 180
  fee := 27 / 100
  venue := .dexRouter
  filledAt := .ofSecs 1709210096 (by decide)

def sampleCall : AuditCall := ⟨nvdaHalf.filledAt, "fill", fillData none nvdaHalf⟩

/-- The code that the store uses, as far as the one call and a new portfolio go. -/
def sampleParsers : ColumnParsers where
  parseTs := DateTime.parseFromRfc3339
  parseJson text := if text = sampleCall.data.render then some sampleCall.data else none

def newPortfolioJson : PortfolioJson where
  toString p :=
    "\x7b\"cash\":\"" ++ Decimal.display p.cash ++ "\",\"positions\":\x7b\x7d," ++
      "\"realized_pnl\":\"" ++ Decimal.display p.realizedPnl ++ "\",\"avg_cost\":\x7b\x7d\x7d"
  fromStr text :=
    if text = "\x7b\"cash\":\"1000\",\"positions\":\x7b\x7d,\"realized_pnl\":\"0\",\"avg_cost\":\x7b\x7d\x7d" then
      some (.new 1000)
    else none

theorem readsTimes_sampleParsers : sampleParsers.ReadsTimes := DateTime.parseFromRfc3339_toRfc3339

/-- It is read back, with the audit entry and the portfolio. -/
theorem store_reads_back_nvda :
    (SqliteStore.empty.writeAll newPortfolioJson Sha256.digest
      [.save (.new 1000), .fill nvdaHalf, .audit sampleCall]).fills sampleParsers = .ok [nvdaHalf] := by
  have hdecimal : ∀ f ∈ [nvdaHalf], f.Decimals := by
    refine List.forall_mem_singleton.mpr ⟨⟨5, 1, ?_⟩, ⟨180, 0, ?_⟩, ⟨27, 2, ?_⟩⟩
    · exact ⟨by decide, by decide, by norm_num [nvdaHalf]⟩
    · exact ⟨by decide, by decide, by norm_num [nvdaHalf]⟩
    · exact ⟨by decide, by decide, by norm_num [nvdaHalf]⟩
  have hdata : ∀ call ∈ [sampleCall], sampleParsers.parseJson call.data.render = some call.data :=
    List.forall_mem_singleton.mpr (if_pos rfl)
  have hsaved : ∀ p ∈ [Portfolio.new 1000], newPortfolioJson.fromStr (newPortfolioJson.toString p) = some p :=
    List.forall_mem_singleton.mpr (if_pos (by decide +kernel))
  obtain ⟨-, hfills, -⟩ := store_reads_back newPortfolioJson Sha256.digest sampleParsers readsTimes_sampleParsers
    [.save (.new 1000), .fill nvdaHalf, .audit sampleCall] hdecimal hdata hsaved
  have hyear : ([nvdaHalf].find? fun f => ¬ f.filledAt.FourDigits) = none := by decide +kernel
  rw [hfills]
  show (match [nvdaHalf].find? fun f => ¬ f.filledAt.FourDigits with
    | none => Except.ok [nvdaHalf]
    | some f => Except.error (StoreError.corrupt "timestamp" f.filledAt.toRfc3339)) = _
  rw [hyear]

end Sherwood
