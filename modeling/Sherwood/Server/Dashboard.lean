/-
# The dashboard's event list

The dashboard reads the event stream with `useAuditStream` and keeps the events it shows in
`DashboardPage`. Each frame of the stream is sent as a text, its bytes arrive in pieces of any
size, and the page decodes them, takes whole frames out, parses the rows and merges them into
its list by number, of which it keeps the last 200. When the page connects again, the stream
begins again with the last 200 rows.

As long as the polls of the stream keep up, the page shows, after every step, the last 200
rows of the log up to some row that was sent, and with nothing in flight up to the newest one
(`dashboard_shows_tail`): however the bytes are cut, and however often it connects.

Key definitions: `SseItem`, `DashboardPage.read`, `Live.system`, `Shown`.
Key theorems: `dataOf_audit`, `Shown.frame`, `InFlight.arrive`, `dashboard_shows_tail`.
-/
import Sherwood.Lib.Framing
import Sherwood.Lib.Recent
import Sherwood.Server.EventStream

namespace Sherwood

/-! ### What is sent -/

/-- The code on the way that the repository does not hold: how `chrono` writes a time, and
`JSON.parse` with its value taken as rows, of none where it is no array; `none` where it
throws. -/
structure PageCrates where
  stamp : DateTime → String
  parse : String → Option (List AuditEvent)

variable (C : PageCrates)

/-- An event as `serde_json` writes it. -/
def AuditEvent.json (e : AuditEvent) : Json :=
  let seq : Number := if 0 ≤ e.seq then .posInt (.ofNat e.seq.toNat) else .negInt (.ofInt e.seq)
  .obj [("seq", .num seq), ("at", .str (C.stamp e.stamp)), ("kind", .str e.kind), ("data", e.data),
    ("prev_hash", .str e.prevHash), ("hash", .str e.hash)]

def eventsText (events : List AuditEvent) : String := (Json.arr (events.map (AuditEvent.json C))).render

/-- What the stream writes: events, or a comment that keeps the connection. -/
inductive SseItem where
  | audit (events : List AuditEvent)
  | keepAlive

def SseItem.events : SseItem → List AuditEvent
  | .audit events => events
  | .keepAlive => []

/-- The lines of an item. -/
def SseItem.lines : SseItem → List (List Char)
  | .audit events => ["event: audit".toList, ("data: " ++ eventsText C events).toList]
  | .keepAlive => [[':']]

/-- An item without the blank line that ends it. -/
def SseItem.frame (item : SseItem) : List Char := ['\n'].intercalate (item.lines C)

def blankLine : List Char := ['\n', '\n']

def SseItem.bytes (item : SseItem) : List UInt8 := (item.frame C ++ blankLine).flatMap String.utf8EncodeChar

/-! ### The page -/

def maxEvents : ℕ := 200

/-- The update of `onBatch`. -/
def onBatch (prev rows : List AuditEvent) : List AuditEvent := Recent.mergeLast AuditEvent.seq maxEvents prev rows

/-- What a data line says. -/
def dataValue (line : List Char) : List Char :=
  if [' '] <+: line.drop 5 then line.drop 6 else line.drop 5

/-- What the data lines of a frame say. -/
def dataOf (frame : List Char) : List Char :=
  ['\n'].intercalate (((frame.splitOn '\n').filter fun l => "data:".toList <+: l).map dataValue)

/-- What a frame does to the events shown. -/
def onFrame (events : List AuditEvent) (frame : List Char) : List AuditEvent :=
  match dataOf frame with
  | [] => events
  | data =>
    match C.parse (.ofList data) with
    | none => events
    | some rows => if rows.length > 0 then onBatch events rows else events

/-- A page: the decoder and the buffer of its connection, and the events it shows. -/
structure DashboardPage where
  begun : Option Utf8.Begun
  buf : List Char
  events : List AuditEvent

namespace DashboardPage

/-- One turn of the loop: a piece is decoded, and its frames are taken. (No item begins with a
byte order mark, which the decoder would drop.) -/
def read (page : DashboardPage) (piece : List UInt8) : DashboardPage :=
  let (text, begun) := Utf8.decodeFrom page.begun piece
  let (frames, buf) := Framing.frames blankLine (page.buf ++ text)
  ⟨begun, buf, frames.foldl (onFrame C) page.events⟩

/-- A new connection; the events stay. -/
def connect (page : DashboardPage) : DashboardPage := ⟨none, [], page.events⟩

end DashboardPage

/-- The log with the stream of one connection, what it sent that has not arrived, and the
page. -/
structure Live where
  stream : EventStream
  wire : List UInt8
  page : DashboardPage

inductive LiveAction where
  | stream (a : StreamAction)
  | keepAlive
  | arrive (n : ℕ)
  | connect (reload : Bool)

namespace Live

/-- An empty log, and a page that has connected. -/
def start : Live := ⟨.start, [], ⟨none, [], []⟩⟩

variable (D : Digest) (P : ColumnParsers)

/-- What the stream's step writes. -/
def written (event : StreamEvent) : List UInt8 :=
  match event with
  | .appended => []
  | .frame _ events => (SseItem.audit events).bytes C

def move (s : Live) : LiveAction → Live
  | .stream a => { s with stream := (s.stream.move D P a).1, wire := s.wire ++ written C (s.stream.move D P a).2 }
  | .keepAlive => { s with wire := s.wire ++ SseItem.keepAlive.bytes C }
  | .arrive n => { s with wire := s.wire.drop n, page := s.page.read C (s.wire.take n) }
  | .connect reload => ⟨{ s.stream with lastSeq := 0 }, [],
      if reload then ⟨none, [], []⟩ else s.page.connect⟩

/-- What the stream did in a step, if it did something. -/
def streamRecord (s : Live) : LiveAction → Option StreamRecord
  | .stream a => some ⟨s.stream, (s.stream.move D P a).2, (s.stream.move D P a).1⟩
  | _ => none

/-- The writers of the log, the stream, the network and the page, as a system. -/
def system : Lts Live LiveAction (Option StreamRecord) := ⟨fun s a => some (s.move C D P a, s.streamRecord D P a)⟩

end Live

/-! ### From the text back to the events -/

variable {C} {events rows : List AuditEvent}

theorem eventsText_toList (events : List AuditEvent) : ∃ cs, (eventsText C events).toList = '[' :: cs := by
  rw [eventsText, Json.render, String.toList_append, String.toList_append]
  exact ⟨_, rfl⟩

theorem lines_clean (item : SseItem) : ∀ line ∈ item.lines C, line ≠ [] ∧ '\n' ∉ line := by
  intro line hline
  cases item with
  | audit events =>
    have hdata : ("data: " ++ eventsText C events).toList = "data: ".toList ++ (eventsText C events).toList :=
      String.toList_append
    rcases List.mem_cons.mp hline with rfl | hline
    · exact ⟨by decide, by decide⟩
    · obtain rfl := List.mem_singleton.mp hline
      refine ⟨by rw [hdata]; exact List.cons_ne_nil _ _, ?_⟩
      rw [hdata, List.mem_append, not_or]
      exact ⟨by decide, Json.oneLine_render _⟩
  | keepAlive =>
    obtain rfl := List.mem_singleton.mp hline
    exact ⟨by decide, by decide⟩

theorem lines_ne_nil (item : SseItem) : item.lines C ≠ [] := by
  cases item with
  | audit events => exact List.cons_ne_nil _ _
  | keepAlive => exact List.cons_ne_nil _ _

theorem blankLine_ne_nil : blankLine ≠ [] := List.cons_ne_nil _ _

theorem clean_frame (item : SseItem) : Framing.Clean blankLine (item.frame C) :=
  Framing.clean_lines (lines_ne_nil item) (lines_clean item)

theorem dataOf_audit (events : List AuditEvent) :
    dataOf ((SseItem.audit events).frame C) = (eventsText C events).toList := by
  have hlines : ((SseItem.audit events).frame C).splitOn '\n' = (SseItem.audit events).lines C :=
    List.splitOn_intercalate '\n' (fun line hline => (lines_clean _ line hline).2) (lines_ne_nil _)
  have hfield : "data: ".toList = ['d', 'a', 't', 'a', ':', ' '] := by decide
  have hdata : ("data: " ++ eventsText C events).toList =
      'd' :: 'a' :: 't' :: 'a' :: ':' :: ' ' :: (eventsText C events).toList := by
    rw [String.toList_append, hfield]
    rfl
  have hkept : ((SseItem.audit events).lines C).filter (fun l => "data:".toList <+: l) =
      [("data: " ++ eventsText C events).toList] := by
    simp [SseItem.lines]
  have hvalue : dataValue ("data: " ++ eventsText C events).toList = (eventsText C events).toList := by
    rw [hdata, dataValue]
    exact if_pos ⟨_, rfl⟩
  rw [dataOf, hlines, hkept, List.map_singleton, hvalue, List.intercalate_singleton]

theorem dataOf_keepAlive : dataOf (SseItem.keepAlive.frame C) = [] := by
  have hlines : (SseItem.keepAlive.frame C).splitOn '\n' = SseItem.keepAlive.lines C :=
    List.splitOn_intercalate '\n' (fun line hline => (lines_clean _ line hline).2) (lines_ne_nil _)
  rw [dataOf, hlines, SseItem.lines]
  decide

/-- The page reads the text of the events. -/
def PageCrates.Reads (C : PageCrates) (events : List AuditEvent) : Prop := C.parse (eventsText C events) = some events

/-- The events of an item are merged, if there are any. -/
def merge (shown sent : List AuditEvent) : List AuditEvent := if sent = [] then shown else onBatch shown sent

theorem onFrame_item (item : SseItem) (h : ∀ sent, item = .audit sent → C.Reads sent) (events : List AuditEvent) :
    onFrame C events (item.frame C) = merge events item.events := by
  cases item with
  | keepAlive =>
    rw [onFrame, dataOf_keepAlive]
    rfl
  | audit sent =>
    obtain ⟨cs, hcs⟩ := eventsText_toList (C := C) sent
    have hparse : C.parse (.ofList ('[' :: cs)) = some sent := by
      rw [← hcs, String.ofList_toList]
      exact h sent rfl
    rw [onFrame, dataOf_audit, hcs]
    show (match C.parse (.ofList ('[' :: cs)) with
      | none => events
      | some rows => if rows.length > 0 then onBatch events rows else events) = _
    rw [hparse]
    cases sent with
    | nil => rfl
    | cons e sent => rfl

/-! ### The rows of the events -/

section

variable {D : Digest} {P : ColumnParsers} {rows old : List AuditRow} {events : List AuditEvent}

theorem ordered_of_linked (h : (auditChain D).Linked rows) : rows.Pairwise fun r q => r.seq < q.seq := by
  refine List.pairwise_map.mp ?_
  rw [AuditLog.seqs_of_linked h, List.pairwise_map]
  exact List.pairwise_lt_range.imp fun hlt => by omega

theorem EventsOf.ordered (he : EventsOf P old events) (h : old.Pairwise fun r q => r.seq < q.seq) :
    events.Pairwise fun e f => e.seq < f.seq := by
  refine List.pairwise_map.mp ?_
  rw [he.seqs]
  exact List.pairwise_map.mpr h

theorem EventsOf.window (n : ℕ) (he : EventsOf P old events) :
    EventsOf P (Cursor.window n old) (Cursor.window n events) := by
  rw [Cursor.window, Cursor.window, he.length_eq]
  exact List.forall₂_drop _ he

theorem EventsOf.exists_row (he : EventsOf P old events) {e : AuditEvent} (hmem : e ∈ events) :
    ∃ r ∈ old, r.event? P = some e := by
  induction he with
  | nil => cases hmem
  | @cons r f old events hre _ ih =>
    rcases List.mem_cons.mp hmem with rfl | hmem
    · exact ⟨r, List.mem_cons_self, hre⟩
    · obtain ⟨q, hq, hqe⟩ := ih hmem
      exact ⟨q, List.mem_cons_of_mem _ hq, hqe⟩

end

/-! ### What the page shows -/

/-- The events shown are rows of the first `b` of the log, and where the connection has sent
the first `k`, the last 200 of them. -/
structure Shown (P : ColumnParsers) (rows : List AuditRow) (b k : ℕ) (events : List AuditEvent) : Prop where
  old : ∃ old, old.Sublist (rows.take b) ∧ EventsOf P old events ∧ (k ≠ 0 → old = Cursor.window maxEvents (rows.take k))
  few : events.length ≤ maxEvents
  before : b ≤ rows.length
  sent : k ≤ rows.length

section

variable {D : Digest} {P : ColumnParsers} {rows : List AuditRow} {b k n : ℕ} {shown events : List AuditEvent}

theorem Shown.nil : Shown P rows 0 0 [] :=
  ⟨⟨[], List.nil_sublist _, .nil, fun h => absurd rfl h⟩, Nat.zero_le _, Nat.zero_le _, Nat.zero_le _⟩

theorem Shown.ordered (hs : Shown P rows b k shown) (h : (auditChain D).Linked rows) :
    shown.Pairwise fun e f => e.seq < f.seq := by
  obtain ⟨old, hold, he, -⟩ := hs.old
  exact he.ordered ((ordered_of_linked h).sublist (hold.trans (List.take_sublist _ _)))

theorem Shown.append (hs : Shown P rows b k shown) (more : List AuditRow) : Shown P (rows ++ more) b k shown := by
  obtain ⟨old, hold, he, hwindow⟩ := hs.old
  have hb := hs.before
  have hk := hs.sent
  have hbefore : (rows ++ more).take b = rows.take b := List.take_append_of_le_length hb
  have hsent : (rows ++ more).take k = rows.take k := List.take_append_of_le_length hk
  rw [← hbefore] at hold
  rw [← hsent] at hwindow
  refine ⟨⟨old, hold, he, hwindow⟩, hs.few, ?_, ?_⟩
  · rw [List.length_append]
    omega
  · rw [List.length_append]
    omega

theorem Shown.onBatch_nil (hs : Shown P rows b k shown) (h : (auditChain D).Linked rows) :
    onBatch shown [] = shown := by
  have hfew := hs.few
  rw [onBatch, Recent.mergeLast_of_newer (hs.ordered h) .nil fun _ _ y hy => absurd hy List.not_mem_nil,
    List.append_nil, Cursor.window, Nat.sub_eq_zero_of_le hfew, List.drop_zero]

/-- **The first frame of a connection.** It shows the last rows there are, whatever was shown
before. -/
theorem Shown.frame_first (h : (auditChain D).Linked rows) (hs : Shown P rows b 0 shown) (hb : b ≤ n)
    (he : EventsOf P (Cursor.window maxEvents (rows.take n)) events) : onBatch shown events = events := by
  obtain ⟨old, hold, hshown, -⟩ := hs.old
  have hordered : (rows.take n).Pairwise fun r q => r.seq < q.seq :=
    (ordered_of_linked h).sublist (List.take_sublist _ _)
  have holder : old.Sublist (rows.take n) := hold.trans (List.take_sublist_take_left hb)
  have hevents := he.ordered (hordered.sublist (List.drop_sublist _ _))
  have hlength : events.length = min maxEvents (rows.take n).length := by
    rw [← he.length_eq, Cursor.window, List.length_drop]
    omega
  -- what was shown and is not sent again is older
  have hsplit {e : AuditEvent} (hmem : e ∈ shown) (hnot : e.seq ∉ events.map AuditEvent.seq) :
      ∃ r ∈ (rows.take n).take ((rows.take n).length - maxEvents), r.seq = e.seq := by
    obtain ⟨r, hr, hre⟩ := hshown.exists_row hmem
    have hin := holder.subset hr
    rw [← List.take_append_drop ((rows.take n).length - maxEvents) (rows.take n)] at hin
    rcases List.mem_append.mp hin with hin | hin
    · exact ⟨r, hin, (seq_of_event hre).symm⟩
    · rw [he.seqs, seq_of_event hre] at hnot
      exact absurd (List.mem_map_of_mem hin) hnot
  have hmerge : onBatch shown events =
      Cursor.window maxEvents ((shown.filter fun x => x.seq ∉ events.map AuditEvent.seq) ++ events) := by
    refine Recent.mergeLast_eq (hs.ordered h) hevents (fun x hx y hy heq => ?_) fun x hx hnot y hy => ?_
    · obtain ⟨r, hr, hre⟩ := hshown.exists_row hx
      obtain ⟨q, hq, hqe⟩ := he.exists_row hy
      have hsame : r = q := Recent.eq_of_key hordered (holder.subset hr) (List.mem_of_mem_drop hq)
        ((seq_of_event hre).symm.trans (heq.trans (seq_of_event hqe)))
      rw [← hsame, hre] at hqe
      exact Option.some.inj hqe
    · obtain ⟨r, hr, hrx⟩ := hsplit hx hnot
      obtain ⟨q, hq, hqe⟩ := he.exists_row hy
      rw [← List.take_append_drop ((rows.take n).length - maxEvents) (rows.take n), List.pairwise_append] at hordered
      rw [← hrx, seq_of_event hqe]
      exact hordered.2.2 r hr q hq
  rw [hmerge, Cursor.window]
  by_cases hmany : maxEvents ≤ (rows.take n).length
  · -- it is full
    rw [List.length_append, hlength, Nat.min_eq_left hmany, Nat.add_sub_cancel, List.drop_left]
  · -- nothing is older
    have hnone : (shown.filter fun x => x.seq ∉ events.map AuditEvent.seq) = [] := by
      refine List.filter_eq_nil_iff.mpr fun x hx hnot => ?_
      obtain ⟨r, hr, -⟩ := hsplit hx (of_decide_eq_true hnot)
      rw [Nat.sub_eq_zero_of_le (by omega), List.take_zero] at hr
      cases hr
    rw [hnone, List.nil_append, Nat.sub_eq_zero_of_le (by omega), List.drop_zero]

/-- **A frame.** The last rows up to it are shown then. -/
theorem Shown.frame (h : (auditChain D).Linked rows) (hs : Shown P rows b k shown) (hb : b ≤ n) (hk : k ≤ n)
    (hn : n ≤ rows.length) (hkeeps : k ≠ 0 → n ≤ k + eventsTail)
    (he : EventsOf P (Cursor.unread eventsTail k (rows.take n)) events) : Shown P rows n n (onBatch shown events) := by
  suffices hwindow : EventsOf P (Cursor.window maxEvents (rows.take n)) (onBatch shown events) by
    refine ⟨⟨_, List.drop_sublist _ _, hwindow, fun _ => rfl⟩, ?_, hn, hn⟩
    rw [← hwindow.length_eq, Cursor.window, List.length_drop]
    omega
  by_cases hfirst : k = 0
  · subst hfirst
    rw [Cursor.unread, Nat.zero_max] at he
    rwa [hs.frame_first h hb he]
  · obtain ⟨old, -, hshown, hold⟩ := hs.old
    rw [hold hfirst] at hshown
    have hle := hkeeps hfirst
    have hlength : (rows.take n).length = n := by rw [List.length_take, Nat.min_eq_left hn]
    have hsplit : rows.take n = rows.take k ++ (rows.take n).drop k := by
      have htake : (rows.take n).take k = rows.take k := by rw [List.take_take, Nat.min_eq_left hk]
      rw [← htake, List.take_append_drop]
    rw [Cursor.unread, hlength, Nat.max_eq_left (by omega)] at he
    have hordered : (rows.take n).Pairwise fun r q => r.seq < q.seq :=
      (ordered_of_linked h).sublist (List.take_sublist _ _)
    rw [hsplit, List.pairwise_append] at hordered
    have hnewer : ∀ x ∈ shown, ∀ y ∈ events, x.seq < y.seq := by
      intro x hx y hy
      obtain ⟨r, hr, hre⟩ := hshown.exists_row hx
      obtain ⟨q, hq, hqe⟩ := he.exists_row hy
      rw [seq_of_event hre, seq_of_event hqe]
      exact hordered.2.2 r (List.mem_of_mem_drop hr) q hq
    have hmerge : onBatch shown events = Cursor.window maxEvents (shown ++ events) :=
      Recent.mergeLast_of_newer (hs.ordered h) (he.ordered hordered.2.1) hnewer
    rw [hmerge, hsplit, ← Recent.window_append]
    exact (hshown.append he).window maxEvents

theorem Shown.merge (h : (auditChain D).Linked rows) (hs : Shown P rows b k shown) (hb : b ≤ n) (hk : k ≤ n)
    (hn : n ≤ rows.length) (hkeeps : k ≠ 0 → n ≤ k + eventsTail)
    (he : EventsOf P (Cursor.unread eventsTail k (rows.take n)) events) : Shown P rows n n (merge shown events) := by
  have hmerge : Sherwood.merge shown events = onBatch shown events := by
    by_cases hnil : events = []
    · rw [Sherwood.merge, if_pos hnil, hnil, hs.onBatch_nil h]
    · rw [Sherwood.merge, if_neg hnil]
  rw [hmerge]
  exact hs.frame h hb hk hn hkeeps he

end

/-! ### What is on the way -/

/-- What the stream has sent and the page has not read, where it has read the first `k` rows
and the cursor of the stream is `last`. -/
inductive Feeds (P : ColumnParsers) (rows : List AuditRow) : ℕ → ℕ → List (List AuditEvent) → ℕ → Prop
  | nil {b k : ℕ} : Feeds P rows b k [] k
  | idle {b k last : ℕ} {sent : List (List AuditEvent)} : Feeds P rows b k sent last →
      Feeds P rows b k ([] :: sent) last
  | frame {b k n last : ℕ} {events : List AuditEvent} {sent : List (List AuditEvent)} : b ≤ n → k ≤ n →
      n ≤ rows.length → (k ≠ 0 → n ≤ k + eventsTail) → EventsOf P (Cursor.unread eventsTail k (rows.take n)) events →
      Feeds P rows n n sent last → Feeds P rows b k (events :: sent) last

section

variable {D : Digest} {P : ColumnParsers} {rows : List AuditRow} {b k last : ℕ} {shown events : List AuditEvent}
  {sent : List (List AuditEvent)}

theorem Feeds.le (hf : Feeds P rows b k sent last) : k ≤ last := by
  induction hf with
  | nil => exact le_rfl
  | idle _ ih => exact ih
  | frame _ hk _ _ _ _ ih => exact hk.trans ih

theorem Feeds.append (hf : Feeds P rows b k sent last) (more : List AuditRow) :
    Feeds P (rows ++ more) b k sent last := by
  induction hf with
  | nil => exact .nil
  | idle _ ih => exact .idle ih
  | frame hb hk hn hkeeps he _ ih =>
    rw [← List.take_append_of_le_length hn] at he
    refine .frame hb hk ?_ hkeeps he ih
    rw [List.length_append]
    omega

theorem Feeds.snoc_idle (hf : Feeds P rows b k sent last) : Feeds P rows b k (sent ++ [[]]) last := by
  induction hf with
  | nil => exact .idle .nil
  | idle _ ih => exact .idle ih
  | frame hb hk hn hkeeps he _ ih => exact .frame hb hk hn hkeeps he ih

theorem Feeds.last_le (hf : Feeds P rows b k sent last) (hk : k ≤ rows.length) : last ≤ rows.length := by
  induction hf with
  | nil => exact hk
  | idle _ ih => exact ih hk
  | frame _ _ hn _ _ _ ih => exact ih hn

/-- A poll that reads. -/
theorem Feeds.snoc (hf : Feeds P rows b k sent last) (hb : b ≤ rows.length) (hk : k ≤ rows.length)
    (hkeeps : last ≠ 0 → rows.length ≤ last + eventsTail)
    (he : EventsOf P (Cursor.unread eventsTail last rows) events) :
    Feeds P rows b k (sent ++ [events]) rows.length := by
  induction hf with
  | nil =>
    rw [← List.take_length (l := rows)] at he
    exact .frame hb hk le_rfl hkeeps he .nil
  | idle _ ih => exact .idle (ih hb hk hkeeps he)
  | frame hb' hk' hn hkeeps' he' _ ih => exact .frame hb' hk' hn hkeeps' he' (ih hn hn hkeeps he)

/-- The page reads some of them. -/
theorem Feeds.read (h : (auditChain D).Linked rows) {later : List (List AuditEvent)} :
    ∀ (first : List (List AuditEvent)) {b k : ℕ} {events : List AuditEvent}, Feeds P rows b k (first ++ later) last →
      Shown P rows b k events → ∃ b k, Shown P rows b k (first.foldl merge events) ∧ Feeds P rows b k later last
  | [], b, k, _, hf, hs => ⟨b, k, hs, hf⟩
  | _ :: first, _, _, _, .idle hf, hs => Feeds.read h first hf hs
  | _ :: first, _, _, _, .frame hb hk hn hkeeps he hf, hs => Feeds.read h first hf (hs.merge h hb hk hn hkeeps he)

end

/-- The items that the page has not read are what is left in its buffer and what is on the way. -/
structure InFlight (C : PageCrates) (wire : List UInt8) (page : DashboardPage) (items : List SseItem) : Prop where
  text : ∃ t, Utf8.decodeFrom page.begun wire = (t, none) ∧
    page.buf ++ t = (items.map (SseItem.frame C)).flatMap (· ++ blankLine)
  reads : ∀ item ∈ items, ∀ sent, item = .audit sent → C.Reads sent
  unfinished : (Framing.frames blankLine page.buf).1 = []

section

variable {wire : List UInt8} {page : DashboardPage} {items : List SseItem}

theorem InFlight.nil {events : List AuditEvent} : InFlight C [] ⟨none, [], events⟩ [] :=
  ⟨⟨[], rfl, rfl⟩, fun _ hitem => absurd hitem List.not_mem_nil, rfl⟩

/-- With nothing on the way, all is read. -/
theorem InFlight.all_read (hw : InFlight C [] page items) : items = [] := by
  obtain ⟨t, ht, hbuf⟩ := hw.text
  obtain ⟨rfl, -⟩ := Prod.mk.inj ht
  have hframes := hw.unfinished
  rw [List.append_nil] at hbuf
  rw [hbuf, Framing.frames_written blankLine_ne_nil (List.forall_mem_map.mpr fun item _ => clean_frame item)]
    at hframes
  exact List.map_eq_nil_iff.mp hframes

theorem InFlight.send (hw : InFlight C wire page items) {item : SseItem}
    (hreads : ∀ sent, item = .audit sent → C.Reads sent) :
    InFlight C (wire ++ item.bytes C) page (items ++ [item]) := by
  obtain ⟨t, ht, hbuf⟩ := hw.text
  refine ⟨⟨t ++ (item.frame C ++ blankLine), ?_, ?_⟩, ?_, hw.unfinished⟩
  · rw [Utf8.decodeFrom_append, ht, SseItem.bytes, Utf8.decodeFrom_utf8]
  · rw [← List.append_assoc, hbuf, List.map_append, List.flatMap_append]
    simp
  · exact List.forall_mem_append.mpr ⟨hw.reads, List.forall_mem_singleton.mpr hreads⟩

/-- **A piece arrives.** The page merges the first items that were written, and the others are
still on the way. -/
theorem InFlight.arrive (hw : InFlight C wire page items) (n : ℕ) : ∃ first later, items = first ++ later ∧
    (page.read C (wire.take n)).events = (first.map SseItem.events).foldl merge page.events ∧
      InFlight C (wire.drop n) (page.read C (wire.take n)) later := by
  obtain ⟨t, ht, hbuf⟩ := hw.text
  have hwire := Utf8.decodeFrom_append page.begun (wire.take n) (wire.drop n)
  rw [List.take_append_drop, ht] at hwire
  obtain ⟨htext, hend⟩ := Prod.mk.inj hwire
  have hclean : ∀ frame ∈ items.map (SseItem.frame C), Framing.Clean blankLine frame :=
    List.forall_mem_map.mpr fun item _ => clean_frame item
  rw [htext, ← List.append_assoc] at hbuf
  obtain ⟨frames, hframes, hrest⟩ := Framing.frames_of_written blankLine_ne_nil hclean hbuf
  obtain ⟨first, later, rfl, hfirst, rfl⟩ := List.map_eq_append_iff.mp hframes
  refine ⟨first, later, rfl, ?_, ⟨_, Prod.ext rfl hend.symm, hrest⟩, ?_, ?_⟩
  · show (Framing.frames blankLine (page.buf ++ _)).1.foldl (onFrame C) page.events = _
    rw [← hfirst, List.foldl_map, List.foldl_map]
    refine List.foldl_ext _ _ _ fun shown item hitem => ?_
    exact onFrame_item item (hw.reads item (List.mem_append_left _ hitem)) shown
  · exact fun item hitem => hw.reads item (List.mem_append_right _ hitem)
  · exact Framing.frames_rest blankLine_ne_nil _

end

/-! ### The system -/

namespace Live

variable {D : Digest} {P : ColumnParsers} {os : List (Option StreamRecord)} {s s' : Live}

structure Inv (C : PageCrates) (D : Digest) (P : ColumnParsers) (s : Live) : Prop where
  linked : (auditChain D).Linked s.stream.log.rows
  page : ∃ b k last items, s.stream.lastSeq = (last : ℕ) ∧ Shown P s.stream.log.rows b k s.page.events ∧
    Feeds P s.stream.log.rows b k (items.map SseItem.events) last ∧ InFlight C s.wire s.page items

theorem inv_start : Inv C D P .start :=
  ⟨HashChain.linked_nil, 0, 0, 0, [], rfl, .nil, .nil, .nil⟩

/-- **One step.** -/
theorem inv_step (hi : Inv C D P s) {a : LiveAction} (hkeeps : ∀ r ∈ s.streamRecord D P a, r.KeepsUp)
    (hreads : ∀ r ∈ s.streamRecord D P a, C.Reads r.sent) : Inv C D P (s.move C D P a) := by
  obtain ⟨⟨log, lastSeq⟩, wire, page⟩ := s
  obtain ⟨hlinked, b, k, last, items, hseq, hs, hf, hw⟩ := hi
  obtain rfl : lastSeq = (last : ℤ) := hseq
  have hkeeps := fun r hr => hkeeps r hr
  cases a with
  | stream a =>
    have hkeeps := hkeeps _ rfl
    have hreads := hreads _ rfl
    cases a with
    | append call =>
      refine ⟨AuditLog.linked_append hlinked call, b, k, last, items, rfl, hs.append _, hf.append _, ?_⟩
      show InFlight C (wire ++ []) page items
      rwa [List.append_nil]
    | poll failed =>
      have hreads : ∀ sent, SseItem.audit (poll P (some log) failed last).1 = .audit sent → C.Reads sent := by
        rintro sent ⟨⟩
        exact hreads
      have hw := hw.send hreads
      show Inv C D P ⟨⟨log, (poll P (some log) failed last).2⟩,
        wire ++ (SseItem.audit (poll P (some log) failed last).1).bytes C, page⟩
      cases hread : !failed && (log.auditTail P eventsTail).isSome with
      | false =>
        have hpoll := EventStream.poll_unread last hread
        rw [hpoll] at hw ⊢
        refine ⟨hlinked, b, k, last, _, rfl, hs, ?_, hw⟩
        rw [List.map_append]
        exact hf.snoc_idle
      | true =>
        obtain ⟨rfl, hparses⟩ : failed = false ∧ (log.auditTail P eventsTail).isSome = true := by simpa using hread
        obtain ⟨events, htail⟩ := Option.isSome_iff_exists.mp hparses
        obtain ⟨hfresh, hend⟩ := EventStream.poll_read hlinked (hf.last_le hs.sent) htail
        have hbehind : last ≠ 0 → log.rows.length ≤ last + eventsTail := fun hne => by
          have hle : (log.rows.length : ℤ) ≤ (last : ℤ) + eventsTail := hkeeps hread (Int.natCast_ne_zero.mpr hne)
          omega
        refine ⟨hlinked, b, k, log.rows.length, _, hend, hs, ?_, hw⟩
        rw [List.map_append]
        exact hf.snoc hs.before hs.sent hbehind hfresh
  | keepAlive =>
    have hw : InFlight C (wire ++ SseItem.keepAlive.bytes C) page (items ++ [.keepAlive]) :=
      hw.send fun _ h => nomatch h
    refine ⟨hlinked, b, k, last, _, rfl, hs, ?_, hw⟩
    rw [List.map_append]
    exact hf.snoc_idle
  | arrive n =>
    obtain ⟨first, later, rfl, hevents, hw⟩ := hw.arrive n
    rw [List.map_append] at hf
    obtain ⟨b, k, hs, hf⟩ := hf.read hlinked _ hs
    refine ⟨hlinked, b, k, last, later, rfl, ?_, hf, hw⟩
    rwa [← hevents] at hs
  | connect reload =>
    obtain ⟨old, hold, he, -⟩ := hs.old
    refine ⟨hlinked, ?_⟩
    cases reload with
    | true => exact ⟨0, 0, 0, [], rfl, .nil, .nil, .nil⟩
    | false =>
      exact ⟨b, 0, 0, [], rfl, ⟨⟨old, hold, he, fun h => absurd rfl h⟩, hs.few, hs.before, Nat.zero_le _⟩, .nil, .nil⟩

/-- As long as the polls keep up, and the page reads what is written. -/
theorem inv_run (hrun : (system C D P).Run .start os s) (hkeeps : ∀ o ∈ os, ∀ r ∈ o, r.KeepsUp)
    (hreads : ∀ o ∈ os, ∀ r ∈ o, C.Reads r.sent) : Inv C D P s := by
  induction hrun with
  | nil => exact inv_start
  | snoc hr hstep ih =>
    rw [List.forall_mem_append, List.forall_mem_singleton] at hkeeps hreads
    obtain ⟨rfl, rfl⟩ := Prod.mk.inj (Option.some.inj hstep)
    exact inv_step (ih hkeeps.1 hreads.1) hkeeps.2 hreads.2

end Live

/-- **The page.** As long as the polls of the stream keep up, and `JSON.parse` reads what is
written: however the bytes are cut, and however often the page connects, it shows rows of the
log, each once and in order. Once it has read from a connection they are the last 200 up to a
row that was sent, and with nothing on the way, up to the newest that was sent. -/
theorem dashboard_shows_tail (C : PageCrates) (D : Digest) (P : ColumnParsers) (os : List (Option StreamRecord))
    (s : Live) (hrun : (Live.system C D P).Run .start os s) (hkeeps : ∀ o ∈ os, ∀ r ∈ o, r.KeepsUp)
    (hreads : ∀ o ∈ os, ∀ r ∈ o, C.Reads r.sent) :
    (∃ k : ℕ, (k : ℤ) ≤ s.stream.lastSeq ∧ (s.wire = [] → (k : ℤ) = s.stream.lastSeq) ∧
      (k ≠ 0 → EventsOf P (Cursor.window maxEvents (s.stream.log.rows.take k)) s.page.events)) ∧
    (∃ rows, rows.Sublist s.stream.log.rows ∧ EventsOf P rows s.page.events) ∧
    s.page.events.Pairwise (fun e f => e.seq < f.seq) ∧ s.page.events.length ≤ maxEvents := by
  obtain ⟨hlinked, b, k, last, items, hseq, hs, hf, hw⟩ := Live.inv_run hrun hkeeps hreads
  obtain ⟨old, hold, he, hwindow⟩ := hs.old
  refine ⟨⟨k, ?_, fun hwire => ?_, fun hne => hwindow hne ▸ he⟩, ⟨old, hold.trans (List.take_sublist _ _), he⟩,
    hs.ordered hlinked, hs.few⟩
  · rw [hseq]
    exact Int.ofNat_le.mpr hf.le
  · rw [hwire] at hw
    obtain rfl := hw.all_read
    cases hf
    exact hseq.symm

/-! ### A page that connects again -/

/-- A stream that is polled with one row in the log. -/
def firstPoll : StreamRecord :=
  let s : EventStream := ⟨AuditLog.empty.append Sha256.digest oneCall, 0⟩
  ⟨s, (s.move Sha256.digest oneCallParsers (.poll false)).2, (s.move Sha256.digest oneCallParsers (.poll false)).1⟩

/-- A page that reads the text of its event, and of none. -/
def onePage : PageCrates where
  stamp _ := oneCall.now.toRfc3339
  parse text := if text = "[]" then some [] else some firstPoll.sent

theorem onePage_reads_nil : onePage.Reads [] := by
  have htext : eventsText onePage [] = "[]" := by decide +kernel
  show (if eventsText onePage [] = "[]" then some [] else some firstPoll.sent) = _
  rw [if_pos htext]

theorem onePage_reads : onePage.Reads firstPoll.sent := by
  have htext : eventsText onePage firstPoll.sent ≠ "[]" := by decide +kernel
  show (if eventsText onePage firstPoll.sent = "[]" then some [] else some firstPoll.sent) = _
  rw [if_neg htext]

theorem dashboard_shows_tail_reconnect : ∃ os s, (Live.system onePage Sha256.digest oneCallParsers).Run .start os s ∧
    os.length = 8 ∧ ∃ rows, rows.Sublist s.stream.log.rows ∧ EventsOf oneCallParsers rows s.page.events := by
  let appended : StreamRecord := ⟨.start, .appended, firstPoll.before⟩
  let os := [some appended, some firstPoll, none, none, none, some firstPoll, none, none]
  obtain ⟨s, hexec⟩ : ∃ s, (Live.system onePage Sha256.digest oneCallParsers).exec .start [.stream (.append oneCall),
      .stream (.poll false), .keepAlive, .arrive 40, .connect false, .stream (.poll false), .arrive 30,
      .arrive 10000] = some (s, os) := ⟨_, rfl⟩
  have hrun := Lts.Run.of_exec hexec
  have hos {Q : StreamRecord → Prop} (happended : Q appended) (hpoll : Q firstPoll) : ∀ o ∈ os, ∀ r ∈ o, Q r := by
    simp [os, happended, hpoll]
  obtain ⟨-, hrows, -⟩ := dashboard_shows_tail onePage Sha256.digest oneCallParsers os s hrun
    (hos (fun h => nomatch h) fun _ hne => absurd rfl hne) (hos onePage_reads_nil onePage_reads)
  exact ⟨os, s, hrun, rfl, hrows⟩
end Sherwood
