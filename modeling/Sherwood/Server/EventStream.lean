/-
# The event stream

`get_events` of `crates/server/src/routes.rs`: a stream of frames, one each time
the timer fires, with the audit rows that were appended since the last one. It
reads the last 200 rows and sends those after the newest that it has sent. A read
that fails sends an empty frame and leaves the cursor where it is.

So what it has sent is a stretch of the log (`EventStream.Inv`), and it goes on
without a gap exactly as long as no more than 200 rows come between two polls
that read them (`stream_gap_free`): an older row is never sent
(`burst_leaves_gap`).

Key definitions: `poll`, `EventStream.system`, `GapFree`, `StreamRecord.KeepsUp`.
Key theorems: `inv_step`, `stream_gap_free`, `burst_leaves_gap`.
-/
import Sherwood.Lib.Cursor
import Sherwood.Lib.Lts
import Sherwood.Store.Tamper

namespace Sherwood

/-- How many of the newest rows a poll reads. -/
def eventsTail : ℕ := 200

/-- The rows a poll reads: none without a store, and none where the read fails. -/
def pollRows (P : ColumnParsers) (store : Option AuditLog) (failed : Bool) : List AuditEvent :=
  match store with
  | some log => if failed then [] else (log.auditTail P eventsTail).getD []
  | none => []

/-- One tick of the stream: the events of its frame, and the newest number sent. -/
def poll (P : ColumnParsers) (store : Option AuditLog) (failed : Bool) (lastSeq : ℤ) : List AuditEvent × ℤ :=
  let rows := pollRows P store failed
  let fresh := rows.filter fun r => r.seq > lastSeq
  (fresh, ((fresh.map AuditEvent.seq).max?).getD lastSeq)

/-- The log, and the cursor of one stream over it. -/
structure EventStream where
  log : AuditLog
  lastSeq : ℤ

inductive StreamAction where
  | append (call : AuditCall)
  | poll (failed : Bool)

/-- What was done: a row appended, or a frame sent, and whether its read succeeded. -/
inductive StreamEvent where
  | appended
  | frame (read : Bool) (events : List AuditEvent)

structure StreamRecord where
  before : EventStream
  event : StreamEvent
  after : EventStream

namespace EventStream

/-- An empty log and a stream that is opened on it. -/
def start : EventStream := ⟨.empty, 0⟩

def move (D : Digest) (P : ColumnParsers) (s : EventStream) : StreamAction → EventStream × StreamEvent
  | .append call => ({ s with log := s.log.append D call }, .appended)
  | .poll failed =>
    let r := poll P (some s.log) failed s.lastSeq
    ({ s with lastSeq := r.2 }, .frame (!failed && (s.log.auditTail P eventsTail).isSome) r.1)

/-- The writers of the log and one stream, as a system. -/
def system (D : Digest) (P : ColumnParsers) : Lts EventStream StreamAction StreamRecord :=
  ⟨fun s a => some ((s.move D P a).1, ⟨s, (s.move D P a).2, (s.move D P a).1⟩)⟩

end EventStream

/-- The events of a frame, if one was sent. -/
def StreamRecord.sent (o : StreamRecord) : List AuditEvent :=
  match o.event with
  | .appended => []
  | .frame _ events => events

/-- A poll whose read succeeded. -/
def StreamRecord.isRead (o : StreamRecord) : Bool :=
  match o.event with
  | .appended => false
  | .frame read _ => read

/-- All that was sent. -/
def sentIn (os : List StreamRecord) : List AuditEvent := os.flatMap StreamRecord.sent

/-- What was sent are the rows of the log from the first one sent up to the newest, each
once and in order. -/
def GapFree (P : ColumnParsers) (log : AuditLog) (sent : List AuditEvent) : Prop :=
  ∀ first ∈ sent.head?, List.Forall₂ (fun r e => AuditRow.event? P r = some e)
    (log.rows.filter fun r => first.seq ≤ r.seq) sent

/-- A poll that reads finds no more than 200 rows after the newest one sent, if any was. -/
def StreamRecord.KeepsUp (o : StreamRecord) : Prop :=
  o.isRead → o.before.lastSeq ≠ 0 → (o.before.log.rows.length : ℤ) ≤ o.before.lastSeq + eventsTail

instance (o : StreamRecord) : Decidable o.KeepsUp := inferInstanceAs (Decidable (_ → _ → _))

/-! ### The rows a poll sends -/

section

variable {D : Digest} {P : ColumnParsers}

/-- The rows of the events, in order. -/
def EventsOf (P : ColumnParsers) (rows : List AuditRow) (events : List AuditEvent) : Prop :=
  List.Forall₂ (fun r e => AuditRow.event? P r = some e) rows events

theorem seq_of_event {r : AuditRow} {e : AuditEvent} (h : r.event? P = some e) : e.seq = r.seq := by
  simp only [AuditRow.event?, Option.bind_eq_bind, Option.bind_eq_some_iff, Option.pure_def, Option.some.injEq] at h
  obtain ⟨_, -, _, -, rfl⟩ := h
  rfl

theorem EventsOf.filter (k : ℤ) {rows : List AuditRow} {events : List AuditEvent} (h : EventsOf P rows events) :
    EventsOf P (rows.filter fun r => r.seq > k) (events.filter fun e => e.seq > k) := by
  induction h with
  | nil => exact .nil
  | @cons r e rows events hre _ ih =>
    have hseq := seq_of_event hre
    by_cases hgt : r.seq > k
    · rw [List.filter_cons_of_pos (by simpa using hgt), List.filter_cons_of_pos (by simpa [hseq] using hgt)]
      exact .cons hre ih
    · rw [List.filter_cons_of_neg (by simpa using hgt), List.filter_cons_of_neg (by simpa [hseq] using hgt)]
      exact ih

theorem EventsOf.seqs {rows : List AuditRow} {events : List AuditEvent} (h : EventsOf P rows events) :
    events.map AuditEvent.seq = rows.map AuditRow.seq := by
  induction h with
  | nil => rfl
  | cons hre _ ih => rw [List.map_cons, List.map_cons, seq_of_event hre, ih]

theorem mapM_event_eq_some : ∀ {rows : List AuditRow} {events : List AuditEvent},
    rows.mapM (AuditRow.event? P) = some events ↔ EventsOf P rows events
  | [], events => by
    simp [EventsOf, eq_comm]
  | r :: rows, events => by
    rw [List.mapM_cons]
    simp only [Option.bind_eq_bind, Option.bind_eq_some_iff, Option.pure_def, Option.some.injEq, EventsOf,
      List.forall₂_cons_left_iff]
    constructor
    · rintro ⟨e, he, events, hevents, rfl⟩
      exact ⟨e, events, he, mapM_event_eq_some.mp hevents, rfl⟩
    · rintro ⟨e, events, he, hevents, rfl⟩
      exact ⟨e, he, events, mapM_event_eq_some.mpr hevents, rfl⟩

theorem EventsOf.append {rows rows' : List AuditRow} {events events' : List AuditEvent} (h : EventsOf P rows events)
    (h' : EventsOf P rows' events') : EventsOf P (rows ++ rows') (events ++ events') := List.rel_append h h'

/-- In a chain, the rows with a number above `k` are those after the first `k`. -/
theorem filter_seq_of_linked {rows : List AuditRow} (h : (auditChain D).Linked rows) (k : ℕ) :
    rows.filter (fun r => r.seq > (k : ℤ)) = rows.drop k := by
  induction rows using List.reverseRecOn with
  | nil => simp
  | append_singleton rows r ih =>
    obtain ⟨hrows, hr⟩ := HashChain.linked_snoc.mp h
    have hseq : r.seq = rows.length + 1 := hr.index
    rw [List.filter_append, ih hrows, List.drop_append]
    congr 1
    by_cases hle : k ≤ rows.length
    · rw [List.filter_cons_of_pos (by simp [hseq]; omega), Nat.sub_eq_zero_of_le hle]
      rfl
    · rw [List.filter_cons_of_neg (by simp [hseq]; omega), List.drop_eq_nil_of_le (by simp; omega)]
      rfl

/-- Of the last rows of a chain, those above the cursor are the unread ones. -/
theorem filter_window {rows : List AuditRow} (h : (auditChain D).Linked rows) (n k : ℕ) :
    (Cursor.window n rows).filter (fun r => r.seq > (k : ℤ)) = Cursor.unread n k rows := by
  rw [Cursor.window, Cursor.unread, ← filter_seq_of_linked h, ← filter_seq_of_linked h, List.filter_filter]
  refine List.filter_congr fun r _ => ?_
  rw [← Bool.decide_and, decide_eq_decide]
  omega

theorem seq_of_head {rows : List AuditRow} (h : (auditChain D).Linked rows) {i : ℕ} {r : AuditRow}
    (hr : (rows.drop i).head? = some r) : r.seq = i + 1 := by
  obtain ⟨rest, hrest⟩ := List.head?_eq_some_iff.mp hr
  have hle : i ≤ rows.length := by
    by_contra hlt
    rw [List.drop_eq_nil_of_le (by omega)] at hrest
    cases hrest
  have hsplit : rows = rows.take i ++ r :: rest := by rw [← hrest, List.take_append_drop]
  have hseq : r.seq = (rows.take i).length + 1 := (h _ r rest hsplit).index
  rwa [List.length_take, Nat.min_eq_left hle] at hseq

theorem max_seq {rows : List AuditRow} (h : (auditChain D).Linked rows) {j : ℕ} (hj : j < rows.length) :
    ((rows.drop j).map AuditRow.seq).max? = some (rows.length : ℤ) := by
  rcases List.eq_nil_or_concat' rows with rfl | ⟨front, r, rfl⟩
  · simp at hj
  · have hseq : r.seq = front.length + 1 := (HashChain.linked_snoc.mp h).2.index
    rw [List.length_append, List.length_singleton] at hj ⊢
    rw [List.max?_eq_some_iff]
    constructor
    · rw [List.drop_append_of_le_length (by omega), List.map_append, List.mem_append]
      exact .inr (by simp [hseq])
    · intro seq hmem
      obtain ⟨r', hr', rfl⟩ := List.mem_map.mp hmem
      obtain ⟨us, vs, hsplit⟩ := List.append_of_mem (List.mem_of_mem_drop hr')
      have hseq' : r'.seq = us.length + 1 := (h us r' vs hsplit).index
      have hlen := congrArg List.length hsplit
      simp only [List.length_append, List.length_cons, List.length_nil] at hlen
      push_cast
      omega

end

/-! ### The stream -/

namespace EventStream

variable {D : Digest} {P : ColumnParsers}

/-- The log is a chain, and what was sent is a stretch of it up to the cursor, which is
at the start only as long as nothing was sent. -/
structure Inv (D : Digest) (P : ColumnParsers) (os : List StreamRecord) (s : EventStream) : Prop where
  linked : (auditChain D).Linked s.log.rows
  sent : ∃ i k read, s.lastSeq = (k : ℕ) ∧ Cursor.Stretch s.log.rows i k read ∧ EventsOf P read (sentIn os) ∧
    (k ≠ 0 → i < k)

theorem inv_start : Inv D P [] .start :=
  ⟨HashChain.linked_nil, 0, 0, [], rfl, .nil _ (Nat.zero_le _), .nil, fun h => absurd rfl h⟩

end EventStream

section

variable {D : Digest} {P : ColumnParsers}

/-- The events of a stretch and of what is unread after it are without a gap exactly if no
more than `n` were unread. -/
theorem gapFree_iff {log : AuditLog} (h : (auditChain D).Linked log.rows) {i k n : ℕ} {read : List AuditRow}
    {sent : List AuditEvent} (hread : Cursor.Stretch log.rows i k read)
    (hsent : EventsOf P (read ++ Cursor.unread n k log.rows) sent) (hsome : i < k) :
    GapFree P log sent ↔ log.rows.length ≤ k + n := by
  have hstop := hread.stop
  obtain ⟨r, hr⟩ : ∃ r, (log.rows.drop i).head? = some r :=
    Option.isSome_iff_exists.mp (by simp; omega)
  have hhead : (read ++ Cursor.unread n k log.rows).head? = some r := by
    rw [hread.read_eq, List.drop_take, List.head?_append, List.head?_take, if_neg (by omega), hr, Option.some_or]
  have hfrom : log.rows.filter (fun q => r.seq ≤ q.seq) = log.rows.drop i := by
    rw [← filter_seq_of_linked h, seq_of_head h hr]
    refine List.filter_congr fun q _ => ?_
    rw [decide_eq_decide]
    exact Int.add_one_le_iff
  have hfirst : GapFree P log sent ↔ EventsOf P (log.rows.drop i) sent := by
    obtain ⟨rest, hrest⟩ := List.head?_eq_some_iff.mp hhead
    rw [hrest] at hsent
    obtain ⟨e, events, hre, -, rfl⟩ := List.forall₂_cons_left_iff.mp hsent
    rw [← hfrom, ← seq_of_event hre, GapFree, List.head?_cons]
    exact ⟨fun hall => hall e rfl, fun hall first hfirst => Option.some.inj hfirst ▸ hall⟩
  rw [hfirst, ← hread.length_eq_iff]
  constructor
  · intro hall
    rw [hsent.length_eq, hall.length_eq]
  · intro hlen
    rwa [hread.complete_iff.mpr (hread.length_eq_iff.mp hlen)] at hsent

end

namespace EventStream

variable {D : Digest} {P : ColumnParsers} {os : List StreamRecord} {s s' : EventStream} {a : StreamAction}
  {o : StreamRecord}

/-- A poll that reads sends the unread ones of the last rows, and its cursor is at the end
then. -/
theorem poll_read {log : AuditLog} (h : (auditChain D).Linked log.rows) {k : ℕ} (hk : k ≤ log.rows.length)
    {events : List AuditEvent} (hread : log.auditTail P eventsTail = some events) :
    EventsOf P (Cursor.unread eventsTail k log.rows) (poll P (some log) false k).1 ∧
      (poll P (some log) false k).2 = log.rows.length := by
  have hrows : pollRows P (some log) false = events := by simp [pollRows, hread]
  have hwindow : (log.rows.reverse.take eventsTail).reverse = Cursor.window eventsTail log.rows := by
    rw [List.reverse_take, List.reverse_reverse, List.length_reverse, Cursor.window]
  rw [AuditLog.auditTail, hwindow, mapM_event_eq_some] at hread
  have hfresh := hread.filter (k : ℤ)
  rw [filter_window h] at hfresh
  refine ⟨by simpa only [poll, hrows] using hfresh, ?_⟩
  show (((pollRows P (some log) false).filter fun r => r.seq > (k : ℤ)).map AuditEvent.seq).max?.getD (k : ℤ) = _
  rw [hrows, hfresh.seqs, Cursor.unread]
  by_cases hnew : k < log.rows.length
  · rw [max_seq h (by unfold eventsTail; omega), Option.getD_some]
  · rw [List.drop_eq_nil_of_le (by omega), List.map_nil, List.max?_nil, Option.getD_none]
    omega

theorem poll_unread {log : AuditLog} {failed : Bool} (lastSeq : ℤ)
    (h : (!failed && (log.auditTail P eventsTail).isSome) = false) :
    poll P (some log) failed lastSeq = ([], lastSeq) := by
  have hrows : pollRows P (some log) failed = [] := by
    cases failed with
    | true => rfl
    | false =>
      have hnone : log.auditTail P eventsTail = none := by simpa using h
      simp [pollRows, hnone]
  simp [poll, hrows]

/-- The first poll that reads sends the last rows. -/
theorem first_read {log : AuditLog} (h : (auditChain D).Linked log.rows) {sent : List AuditEvent}
    (hsent : EventsOf P (Cursor.unread eventsTail 0 log.rows) sent) : GapFree P log sent ∧
      ∃ i read, Cursor.Stretch log.rows i log.rows.length read ∧ EventsOf P read sent ∧
        (log.rows.length ≠ 0 → i < log.rows.length) := by
  -- as if the cursor had been right before them
  have hunread : Cursor.unread eventsTail 0 log.rows =
      [] ++ Cursor.unread eventsTail (log.rows.length - eventsTail) log.rows := by
    simp [Cursor.unread]
  rw [hunread] at hsent
  have hstretch := (Cursor.Stretch.nil log.rows (Nat.sub_le _ eventsTail)).look (n := eventsTail) (by omega)
  have hpos : 0 < eventsTail := by decide
  have hsome : log.rows.length ≠ 0 → log.rows.length - eventsTail < log.rows.length := by omega
  refine ⟨?_, _, _, hstretch, hsent, hsome⟩
  by_cases hempty : log.rows.length = 0
  · have hrows : log.rows = [] := List.length_eq_zero_iff.mp hempty
    have hnil : EventsOf P [] sent := by simpa [Cursor.unread, hrows] using hsent
    obtain rfl := List.forall₂_nil_left_iff.mp hnil
    intro first hfirst
    simp at hfirst
  · have hdone : Cursor.unread eventsTail log.rows.length log.rows = [] := by simp [Cursor.unread]
    refine (gapFree_iff (n := eventsTail) h hstretch ?_ (hsome hempty)).mpr (Nat.le_add_right _ _)
    rw [hdone, List.append_nil]
    exact hsent

theorem sentIn_snoc (os : List StreamRecord) (o : StreamRecord) : sentIn (os ++ [o]) = sentIn os ++ o.sent := by
  simp [sentIn]

/-- **One step.** After a poll that reads, nothing is missing exactly if it kept up, and
then all goes on. -/
theorem inv_step (hi : Inv D P os s) (hstep : (system D P).step s a = some (s', o)) :
    ((o.isRead → GapFree P o.after.log (sentIn os ++ o.sent)) ↔ o.KeepsUp) ∧
      (o.KeepsUp → Inv D P (os ++ [o]) s') := by
  obtain ⟨log, lastSeq⟩ := s
  obtain ⟨hlinked, i, k, read, hseq, hstretch, hsent, hsome⟩ := hi
  obtain rfl : lastSeq = (k : ℤ) := hseq
  obtain ⟨rfl, rfl⟩ := Prod.mk.inj (Option.some.inj hstep)
  cases a with
  | append call =>
    refine ⟨by simp [StreamRecord.KeepsUp, StreamRecord.isRead, move], fun _ =>
      ⟨AuditLog.linked_append hlinked call, i, k, read, rfl, hstretch.append _, ?_, hsome⟩⟩
    rw [sentIn_snoc]
    simpa [StreamRecord.sent, move] using hsent
  | poll failed =>
    cases hread : !failed && (log.auditTail P eventsTail).isSome with
    | false =>
      have hpoll := poll_unread k hread
      refine ⟨by simp [StreamRecord.KeepsUp, StreamRecord.isRead, move, hread], fun _ =>
        ⟨hlinked, i, k, read, ?_, hstretch, ?_, hsome⟩⟩
      · simp [move, hpoll]
      · rw [sentIn_snoc]
        simpa [StreamRecord.sent, move, hpoll] using hsent
    | true =>
      obtain ⟨rfl, hparses⟩ : failed = false ∧ (log.auditTail P eventsTail).isSome = true := by simpa using hread
      obtain ⟨events, htail⟩ := Option.isSome_iff_exists.mp hparses
      obtain ⟨hfresh, hend⟩ := poll_read hlinked hstretch.stop htail
      simp only [StreamRecord.KeepsUp, StreamRecord.isRead, StreamRecord.sent, move, hread, true_imp_iff]
      by_cases hstarted : k = 0
      · -- nothing was sent before
        obtain rfl : i = 0 := Nat.le_zero.mp (hstarted ▸ hstretch.start)
        subst hstarted
        obtain rfl : read = [] := by simpa using hstretch.read_eq
        have hnone : sentIn os = [] := List.forall₂_nil_left_iff.mp hsent
        obtain ⟨hgap, j, read', hstretch', hsent', hsome'⟩ := first_read hlinked hfresh
        refine ⟨by simpa [hnone] using hgap, fun _ => ⟨hlinked, j, _, read', hend, hstretch', ?_, hsome'⟩⟩
        rw [sentIn_snoc, hnone]
        exact hsent'
      · have hall := hsent.append hfresh
        have hgap := gapFree_iff hlinked hstretch hall (hsome hstarted)
        have hkeeps : ((k : ℤ) ≠ 0 → (log.rows.length : ℤ) ≤ (k : ℤ) + eventsTail) ↔
            log.rows.length ≤ k + eventsTail := by omega
        rw [hkeeps]
        refine ⟨hgap, fun hle => ⟨hlinked, i, _, _, hend, hstretch.look hle, ?_, fun hne => ?_⟩⟩
        · rw [sentIn_snoc]
          exact hall
        · have := hsome hstarted
          have := hstretch.stop
          omega

end EventStream

/-- **No gap.** Of every schedule of appends and polls, failed ones among them: after each
poll that reads, what was sent is the log from the first row sent up to the newest,
exactly if each such poll found no more than 200 rows after the newest one sent. -/
theorem stream_gap_free (D : Digest) (P : ColumnParsers) (os : List StreamRecord) (s : EventStream)
    (h : (EventStream.system D P).Run .start os s) :
    (∀ pre o post, os = pre ++ o :: post → o.isRead → GapFree P o.after.log (sentIn (pre ++ [o]))) ↔
      ∀ o ∈ os, o.KeepsUp := by
  simp only [EventStream.sentIn_snoc]
  exact Lts.Run.forall_iff (P := fun os o => o.isRead → GapFree P o.after.log (sentIn os ++ o.sent))
    EventStream.inv_start (fun _ _ _ _ _ hi hstep => EventStream.inv_step hi hstep) h

/-! ### A burst of rows -/

/-- One call, and parsers that read its columns back. -/
def oneCall : AuditCall := numbered "a" 1

def oneCallParsers : ColumnParsers where
  parseTs stamp := if stamp = oneCall.now.toRfc3339 then some oneCall.now else none
  parseJson data := if data = oneCall.data.render then some oneCall.data else none

theorem stream_gap_free_twoPolls : ∃ os s, (EventStream.system Sha256.digest oneCallParsers).Run .start os s ∧
    os.map StreamRecord.isRead = [false, true, false, true] ∧
      ∀ pre o post, os = pre ++ o :: post → o.isRead → GapFree oneCallParsers o.after.log (sentIn (pre ++ [o])) := by
  have hexec : ((EventStream.system Sha256.digest oneCallParsers).exec .start
      [.append oneCall, .poll false, .append oneCall, .poll false]).map (fun r => decide
        (r.2.map StreamRecord.isRead = [false, true, false, true] ∧ ∀ o ∈ r.2, o.KeepsUp)) = some true := by
    decide +kernel
  obtain ⟨⟨s, os⟩, hrun, hall⟩ := Option.map_eq_some_iff.mp hexec
  obtain ⟨hreads, hkeeps⟩ := of_decide_eq_true hall
  exact ⟨os, s, .of_exec hrun, hreads, (stream_gap_free _ _ os s (.of_exec hrun)).mpr hkeeps⟩

namespace EventStream

variable {D : Digest}

theorem run_appends (P : ColumnParsers) (s : EventStream) (call : AuditCall) : ∀ n : ℕ, ∃ os,
    (system D P).Run s os ⟨s.log.appendAll D (List.replicate n call), s.lastSeq⟩ ∧ ∀ o ∈ os, o.isRead = false
  | 0 => ⟨[], .nil, fun _ ho => nomatch ho⟩
  | n + 1 => by
    obtain ⟨os, hrun, hquiet⟩ := run_appends P s call n
    have hlog : s.log.appendAll D (List.replicate (n + 1) call) =
        (s.log.appendAll D (List.replicate n call)).append D call := by
      rw [List.replicate_succ', AuditLog.appendAll, List.foldl_append]
      rfl
    refine ⟨os ++ [_], .snoc hrun (a := .append call) (by rw [hlog]; rfl), fun o ho => ?_⟩
    rcases List.mem_append.mp ho with ho | ho
    · exact hquiet o ho
    · rw [List.mem_singleton.mp ho]
      rfl

/-- A log of `n` such calls. -/
def onlyCalls (D : Digest) (n : ℕ) : AuditLog := AuditLog.empty.appendAll D (List.replicate n oneCall)

theorem length_onlyCalls (n : ℕ) : (onlyCalls D n).rows.length = n := by
  rw [onlyCalls, AuditLog.length_appendAll, List.length_replicate]
  exact Nat.zero_add n

theorem reads_onlyCalls (n : ℕ) : ((onlyCalls D n).auditTail oneCallParsers eventsTail).isSome := by
  have hevents : ∀ rows : List AuditRow, (∀ r ∈ rows, (r.event? oneCallParsers).isSome) →
      ∃ events, EventsOf oneCallParsers rows events := by
    intro rows
    induction rows with
    | nil => exact fun _ => ⟨[], .nil⟩
    | cons r rows ih =>
      intro h
      obtain ⟨e, he⟩ := Option.isSome_iff_exists.mp (h r List.mem_cons_self)
      obtain ⟨events, hevents⟩ := ih fun r' hr' => h r' (List.mem_cons_of_mem _ hr')
      exact ⟨e :: events, .cons he hevents⟩
  have hall : ∀ r ∈ ((onlyCalls D n).rows.reverse.take eventsTail).reverse,
      (r.event? oneCallParsers).isSome := by
    intro r hr
    have hmem := List.mem_of_mem_take (List.mem_reverse.mp hr)
    rcases AuditLog.mem_appendAll _ _ (List.mem_reverse.mp hmem) with h | ⟨call, hcall, hstamp, -, hdata⟩
    · simp [AuditLog.empty] at h
    · obtain rfl := List.eq_of_mem_replicate hcall
      simp [AuditRow.event?, oneCallParsers, hstamp, hdata]
  obtain ⟨events, h⟩ := hevents _ hall
  exact Option.isSome_iff_exists.mpr ⟨events, mapM_event_eq_some.mpr h⟩

/-- As long as the polls keep up, what was sent is a stretch of the log. -/
theorem inv_run {P : ColumnParsers} {os : List StreamRecord} {s : EventStream} (h : (system D P).Run .start os s)
    (hkeeps : ∀ o ∈ os, o.KeepsUp) : Inv D P os s := by
  induction h with
  | nil => exact inv_start
  | snoc hr hstep ih =>
    have hi := ih fun o ho => hkeeps o (List.mem_append_left _ ho)
    exact (inv_step hi hstep).2 (hkeeps _ (by simp))

theorem exists_firstSent : ∃ os, (system D oneCallParsers).Run .start os ⟨onlyCalls D 1, 1⟩ ∧ ∀ o ∈ os, o.KeepsUp := by
  obtain ⟨os, hrun, hquiet⟩ := run_appends (D := D) oneCallParsers .start oneCall 1
  obtain ⟨events, htail⟩ := Option.isSome_iff_exists.mp (reads_onlyCalls (D := D) 1)
  have hsent : (poll oneCallParsers (some (onlyCalls D 1)) false 0).2 = 1 := by
    have hend := (poll_read (k := 0) (AuditLog.linked_ofCalls D _) (Nat.zero_le _) htail).2
    exact hend.trans (congrArg _ (length_onlyCalls 1))
  have hstep : (system D oneCallParsers).step ⟨onlyCalls D 1, 0⟩ (.poll false) =
      some (⟨onlyCalls D 1, 1⟩, ⟨⟨onlyCalls D 1, 0⟩, (move D oneCallParsers ⟨onlyCalls D 1, 0⟩ (.poll false)).2,
        ⟨onlyCalls D 1, 1⟩⟩) := by
    simp only [system, move, hsent]
  refine ⟨_, .snoc hrun hstep, List.forall_mem_append.mpr ⟨fun o ho hread => ?_, ?_⟩⟩
  · rw [hquiet o ho] at hread
    cases hread
  · exact List.forall_mem_singleton.mpr fun _ hne => absurd rfl hne

/-- A poll that reads a log of more rows than the last 200 and the newest one sent does not
keep up. -/
theorem not_keepsUp {P : ColumnParsers} {log : AuditLog} {k n : ℕ} (hlength : log.rows.length = n)
    (hread : (log.auditTail P eventsTail).isSome) (hk : k ≠ 0) (hn : k + eventsTail < n) :
    ∃ s' o, (system D P).step ⟨log, k⟩ (.poll false) = some (s', o) ∧ o.isRead ∧ ¬ o.KeepsUp := by
  refine ⟨_, _, rfl, hread, fun hkeeps => ?_⟩
  have hle : (log.rows.length : ℤ) ≤ k + eventsTail := hkeeps hread (Int.natCast_ne_zero.mpr hk)
  omega

/-- Then 201 more come, and the stream polls again. -/
theorem exists_burst : ∃ os s s' o, (system D oneCallParsers).Run .start os s ∧ (∀ o ∈ os, o.KeepsUp) ∧
    (system D oneCallParsers).step s (.poll false) = some (s', o) ∧ o.isRead ∧ ¬ o.KeepsUp := by
  obtain ⟨os, hrun, hkeeps⟩ := exists_firstSent (D := D)
  obtain ⟨os', hrun', hquiet⟩ := run_appends (D := D) oneCallParsers ⟨onlyCalls D 1, 1⟩ oneCall 201
  have hlog : (onlyCalls D 1).appendAll D (List.replicate 201 oneCall) = onlyCalls D 202 := by
    rw [onlyCalls, onlyCalls, AuditLog.appendAll, AuditLog.appendAll, ← List.foldl_append,
      List.replicate_append_replicate, AuditLog.appendAll]
  rw [hlog] at hrun'
  obtain ⟨s', o, hstep, hread, hbehind⟩ :=
    not_keepsUp (D := D) (k := 1) (length_onlyCalls (D := D) 202) (reads_onlyCalls 202) one_ne_zero (by decide)
  refine ⟨os ++ os', _, s', o, hrun.trans hrun', List.forall_mem_append.mpr ⟨hkeeps, fun o ho hread => ?_⟩,
    hstep, hread, hbehind⟩
  rw [hquiet o ho] at hread
  cases hread

end EventStream

/-- A row is sent, 201 more come before the next poll, and the oldest of them is not
sent. -/
theorem burst_leaves_gap : ¬ ∀ (D : Digest) (P : ColumnParsers) (os : List StreamRecord) (s : EventStream),
    (EventStream.system D P).Run .start os s → ∀ pre o post, os = pre ++ o :: post → o.isRead →
      GapFree P o.after.log (sentIn (pre ++ [o])) := by
  intro hclaim
  obtain ⟨os, s, s', o, hrun, hkeeps, hstep, hread, hbehind⟩ := EventStream.exists_burst (D := Sha256.digest)
  have hgap := hclaim _ _ _ _ (.snoc hrun hstep) os o [] rfl hread
  rw [EventStream.sentIn_snoc] at hgap
  exact hbehind ((EventStream.inv_step (EventStream.inv_run hrun hkeeps) hstep).1.mp fun _ => hgap)

end Sherwood
