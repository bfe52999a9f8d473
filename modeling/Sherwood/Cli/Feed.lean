/-
# Price feeds

`CsvFeed::open` of `crates/cli/src/feed.rs` reads the rows of a file line by line and pushes a tick for each
of them; `next_tick` hands them out one after another and then nothing. So the calls return the data rows in the
order of the file (`readFrom_spec`, `delivers_csv`).

A `PriceFeed` delivers its ticks in non-decreasing order of their time. Nothing in `open` looks at two rows
together: what it accepts keeps the contract exactly if the file is in order already, and if no price has more digits
than a `Decimal` holds, since `Decimal::from_str` rounds it silently (`csv_feed_contract_iff`).

Times are read by `chrono` and prices by `rust_decimal`, which are parameters, and so is the text of a quoted string.
Of `rust_decimal` it is assumed that it reads the prices of the file as numbers, and as they are where a
`Decimal` holds them (`ReadsPrice`).

Key definitions: `PriceFeed`, `CsvFeed.open`, `dataRows`, `Delivers`, `CsvFeed.Contract`.
Key theorems: `readFrom_spec`, `delivers_csv`, `csv_feed_contract_iff`.
-/
import Mathlib.Data.List.Forall2
import Sherwood.Chain.Tokens
import Sherwood.Core.Rfc3339

namespace Sherwood

deriving instance DecidableEq for Tick

/-- A source of ticks. -/
class PriceFeed (σ : Type) where
  nextTick : σ → Option Tick × σ

section Calls

variable {σ : Type} [PriceFeed σ]

/-- What so many calls of `next_tick` return. -/
def nextTicks : ℕ → σ → List (Option Tick)
  | 0, _ => []
  | n + 1, feed => (PriceFeed.nextTick feed).1 :: nextTicks n (PriceFeed.nextTick feed).2

/-- The calls return these ticks one after another, and then `None` for ever. -/
def Delivers (feed : σ) (ticks : List Tick) : Prop := ∀ n, nextTicks n feed = (List.range n).map (ticks[·]?)

theorem Delivers.unique {feed : σ} {ticks ticks' : List Tick} (h : Delivers feed ticks) (h' : Delivers feed ticks') :
    ticks = ticks' := by
  refine List.ext_getElem? fun i => ?_
  have heq := congrArg (·[i]?) ((h (i + 1)).symm.trans (h' (i + 1)))
  simpa using heq

end Calls

/-- Replays a fixed list of ticks. -/
structure SliceFeed where
  ticks : List Tick

instance : PriceFeed SliceFeed where
  nextTick feed := (feed.ticks.head?, ⟨feed.ticks.tail⟩)

/-- Replays the ticks of a file. -/
structure CsvFeed where
  ticks : List Tick
  deriving DecidableEq

instance : PriceFeed CsvFeed where
  nextTick feed := (feed.ticks.head?, ⟨feed.ticks.tail⟩)

theorem getElem?_range_succ (ticks : List Tick) (n : ℕ) :
    (List.range (n + 1)).map (ticks[·]?) = ticks.head? :: (List.range n).map (ticks.tail[·]?) := by
  rw [List.range_succ_eq_map, List.map_cons, List.map_map, List.head?_eq_getElem?]
  congr 1
  refine List.map_congr_left fun i _ => ?_
  simp

/-- **An iterator over a list** delivers it. -/
theorem delivers_of_next {σ : Type} [PriceFeed σ] {rest : σ → List Tick}
    (hnext : ∀ feed, (PriceFeed.nextTick feed).1 = (rest feed).head? ∧
      rest (PriceFeed.nextTick feed).2 = (rest feed).tail) (feed : σ) : Delivers feed (rest feed) := by
  intro n
  induction n generalizing feed with
  | zero => rfl
  | succ n ih =>
    obtain ⟨hhead, htail⟩ := hnext feed
    rw [getElem?_range_succ, ← htail, ← ih, ← hhead, nextTicks]

theorem delivers_slice (feed : SliceFeed) : Delivers feed feed.ticks :=
  delivers_of_next (fun _ => ⟨rfl, rfl⟩) feed

theorem delivers_csv (feed : CsvFeed) : Delivers feed feed.ticks := delivers_of_next (fun _ => ⟨rfl, rfl⟩) feed

/-! ### Reading a file -/

/-- `DateTime::parse_from_rfc3339`, at UTC; its error is its text. -/
abbrev ParseFromRfc3339 := String → Except String DateTime

inductive FeedError where
  | reading (path source : String)
  | malformed (path : String) (row : ℕ) (line : String)
  | badTimestamp (path : String) (row : ℕ) (timestamp source : String)
  | badPrice (path : String) (row : ℕ) (price : String)
  | noTicks (path : String)
  deriving DecidableEq

/-- The error's `Display`; `debug` quotes a text. -/
def FeedError.text (debug : String → String) : FeedError → String
  | .reading path _ => s!"reading feed {path}"
  | .malformed path row line => s!"{path}:{row}: expected `timestamp,symbol,price`, got {debug line}"
  | .badTimestamp path row timestamp _ => s!"{path}:{row}: bad timestamp {debug timestamp}"
  | .badPrice path row price => s!"{path}:{row}: bad price {debug price}"
  | .noTicks path => s!"feed {path} contained no ticks"

namespace CsvFeed

variable (A : Arith) (parse : ParseFromRfc3339) (path : String)

/-- One line, the `row`-th: its tick, if it is a data row. -/
def readLine (row : ℕ) (line : List Char) : Except FeedError (Option Tick) := do
  let line := trim line
  if line = [] ∨ line.head? = some '#' then return none
  let [ts, sym, px] := line.splitOn ',' | throw (.malformed path row (.ofList line))
  let (ts, sym, px) := (String.ofList (trim ts), String.ofList (trim sym), trim px)
  if eqIgnoreAsciiCase ts "timestamp" then return none
  let takenAt ← (parse ts).mapError fun source => .badTimestamp path row ts source
  let some price := Decimal.fromStr A px | throw (.badPrice path row (.ofList px))
  return some ⟨takenAt, sym, price⟩

/-- The loop over the lines from the `n`-th on, with the ticks that are read. -/
def readFrom (ticks : List Tick) (n : ℕ) : List (List Char) → Except FeedError (List Tick)
  | [] => .ok ticks
  | line :: lines => do
    let tick ← readLine A parse path (n + 1) line
    readFrom (ticks ++ tick.toList) (n + 1) lines

/-- Read a file: `file` is what `read_to_string` returns. -/
def «open» (file : Except String String) : Except FeedError CsvFeed := do
  let raw ← file.mapError fun source => .reading path source
  let ticks ← readFrom A parse path [] 0 (readLines raw.toList)
  if ticks.isEmpty then throw (.noTicks path)
  return ⟨ticks⟩

end CsvFeed

/-! ### What the rows say -/

/-- The fields of a line, trimmed. -/
def fieldsOf (line : List Char) : List String := ((trim line).splitOn ',').map fun f => .ofList (trim f)

/-- A line is a data row if it is not blank, a comment or a header. -/
def IsDataRow (line : List Char) : Prop :=
  trim line ≠ [] ∧ (trim line).head? ≠ some '#' ∧ ¬ (fieldsOf line).head?.any (eqIgnoreAsciiCase · "timestamp")

instance : DecidablePred IsDataRow := fun line => by
  unfold IsDataRow
  infer_instance

/-- The data rows of a file. -/
def dataRows (content : String) : List (List Char) := (readLines content.toList).filter IsDataRow

variable (parse : ParseFromRfc3339)

/-- The instant of a row. -/
def rowTime (line : List Char) : Option DateTime := (fieldsOf line)[0]?.bind fun ts => (parse ts).toOption

/-- The number that a row's price denotes. -/
def rowPrice (line : List Char) : Option ℚ := (fieldsOf line)[2]?.bind fun px => Decimal.scan px.toList

/-- A tick tells what a row says: its own timestamp, its symbol, and its exact price. -/
structure Tells (line : List Char) (tick : Tick) : Prop where
  time : rowTime parse line = some tick.takenAt
  symbol : (fieldsOf line)[1]? = some tick.symbol
  price : rowPrice line = some tick.price

/-- **The contract** of a feed of these rows: it delivers a tick for each of them, and in non-decreasing order of
their time. It may reorder them for that. -/
def Contract {σ : Type} [PriceFeed σ] (rows : List (List Char)) (feed : σ) : Prop :=
  ∃ ticks, Delivers feed ticks ∧ (∃ rows', rows'.Perm rows ∧ List.Forall₂ (Tells parse) rows' ticks) ∧
    ticks.Pairwise fun s t => s.takenAt ≤ t.takenAt

/-- What `open` makes of a row: the price is that of the text, rounded. -/
structure Reads (A : Arith) (line : List Char) (tick : Tick) : Prop where
  time : rowTime parse line = some tick.takenAt
  symbol : (fieldsOf line)[1]? = some tick.symbol
  price : ((fieldsOf line)[2]?.bind fun px => Decimal.fromStr A px.toList) = some tick.price

/-- The price of a row is read as that of a number. -/
def ReadsPrice (A : Arith) (line : List Char) : Prop := ∀ px ∈ (fieldsOf line)[2]?, A.ReadsNumber px.toList

variable {parse} {path : String} {A : Arith}

theorem Reads.rowPrice {line : List Char} {tick : Tick} (h : Reads parse A line tick) (hA : ReadsPrice A line) :
    IsDecimal tick.price ∧ ∃ q, Sherwood.rowPrice line = some q ∧ (IsDecimal q → tick.price = q) := by
  obtain ⟨px, hpx, hprice⟩ := Option.bind_eq_some_iff.mp h.price
  obtain ⟨hdecimal, q, hq, hexact⟩ := hA px hpx tick.price hprice
  exact ⟨hdecimal, q, Option.bind_eq_some_iff.mpr ⟨px, hpx, hq⟩, hexact⟩

theorem Reads.tells {line : List Char} {tick : Tick} (h : Reads parse A line tick) (hA : ReadsPrice A line)
    (hexact : ∀ q, Sherwood.rowPrice line = some q → IsDecimal q) : Tells parse line tick := by
  obtain ⟨-, q, hq, hprice⟩ := h.rowPrice hA
  refine ⟨h.time, h.symbol, ?_⟩
  rw [hprice (hexact q hq), hq]

namespace CsvFeed

/-- **One line.** Data rows are read, and the others skipped. -/
theorem readLine_spec {row : ℕ} {line : List Char} {tick : Option Tick}
    (h : readLine A parse path row line = .ok tick) :
    (¬ IsDataRow line ∧ tick = none) ∨ (IsDataRow line ∧ ∃ t, tick = some t ∧ Reads parse A line t) := by
  simp only [readLine] at h
  by_cases hskip : trim line = [] ∨ (trim line).head? = some '#'
  · rw [if_pos hskip] at h
    refine .inl ⟨fun hrow => ?_, (Except.ok.inj h).symm⟩
    exact hskip.elim hrow.1 hrow.2.1
  rw [if_neg hskip] at h
  rw [not_or] at hskip
  rcases hfields : (trim line).splitOn ',' with _ | ⟨ts, _ | ⟨sym, _ | ⟨px, _ | ⟨more, _⟩⟩⟩⟩ <;> rw [hfields] at h
  case cons.cons.cons.nil =>
    have hof : fieldsOf line = [.ofList (trim ts), .ofList (trim sym), .ofList (trim px)] := by
      simp [fieldsOf, hfields]
    by_cases hheader : eqIgnoreAsciiCase (.ofList (trim ts)) "timestamp" = true
    · refine .inl ⟨fun hrow => hrow.2.2 (by simp [hof, hheader]), ?_⟩
      simp only [hheader] at h
      exact (Except.ok.inj h).symm
    · refine .inr ⟨⟨hskip.1, hskip.2, by simp [hof, hheader]⟩, ?_⟩
      simp only [hheader] at h
      obtain ⟨takenAt, htime, h⟩ := Except.bind_eq_ok.mp h
      rw [Except.mapError_eq_ok] at htime
      cases hprice : Decimal.fromStr A (trim px) with
      | none =>
        rw [hprice] at h
        cases h
      | some price =>
        rw [hprice] at h
        refine ⟨_, (Except.ok.inj h).symm, ?_, ?_, ?_⟩
        · simp [rowTime, hof, htime, Except.toOption]
        · simp [hof]
        · simpa [hof] using hprice
  all_goals cases h

/-- **The loop** pushes a tick for each data row. -/
theorem readFrom_spec {lines : List (List Char)} {ticks out : List Tick} {n : ℕ}
    (h : readFrom A parse path ticks n lines = .ok out) :
    ∃ new, out = ticks ++ new ∧ List.Forall₂ (Reads parse A) (lines.filter IsDataRow) new := by
  induction lines generalizing ticks n with
  | nil => exact ⟨[], by rw [List.append_nil, Except.ok.inj h], .nil⟩
  | cons line lines ih =>
    obtain ⟨tick, hline, hrest⟩ := Except.bind_eq_ok.mp h
    obtain ⟨new, rfl, hnew⟩ := ih hrest
    rcases readLine_spec hline with ⟨hrow, rfl⟩ | ⟨hrow, t, rfl, ht⟩
    · exact ⟨new, by simp, by simpa [hrow] using hnew⟩
    · exact ⟨t :: new, by simp, by simpa [hrow] using ⟨ht, hnew⟩⟩

theorem open_spec {content : String} {feed : CsvFeed} (h : CsvFeed.open A parse path (.ok content) = .ok feed) :
    List.Forall₂ (Reads parse A) (dataRows content) feed.ticks := by
  obtain ⟨raw, hraw, h⟩ := Except.bind_eq_ok.mp h
  obtain rfl := Except.ok.inj (Except.mapError_eq_ok.mp hraw)
  obtain ⟨ticks, hread, h⟩ := Except.bind_eq_ok.mp h
  obtain ⟨new, rfl, hnew⟩ := readFrom_spec hread
  split_ifs at h with hempty
  · cases h
  · obtain rfl := Except.ok.inj h
    exact hnew

end CsvFeed

/-- What the rows say of something is what the ticks have of it. -/
theorem filterMap_of_forall₂ {α : Type} {R : List Char → Tick → Prop} {f : List Char → Option α} {g : Tick → α}
    (hfg : ∀ row tick, R row tick → f row = some (g tick)) {rows : List (List Char)} {ticks : List Tick}
    (h : List.Forall₂ R rows ticks) : rows.filterMap f = ticks.map g := by
  induction h with
  | nil => rfl
  | cons hab _ ih => rw [List.filterMap_cons_some (hfg _ _ hab), ih, List.map_cons]

theorem isDecimal_of_reads {rows : List (List Char)} {ticks : List Tick} (h : List.Forall₂ (Reads parse A) rows ticks)
    (hA : ∀ row ∈ rows, ReadsPrice A row) {tick : Tick} (hmem : tick ∈ ticks) : IsDecimal tick.price := by
  induction h with
  | nil => cases hmem
  | @cons row _ _ _ hread _ ih =>
    rcases List.mem_cons.mp hmem with rfl | hmem
    · exact (hread.rowPrice (hA row List.mem_cons_self)).1
    · exact ih (fun row hrow => hA row (List.mem_cons_of_mem _ hrow)) hmem

/-- **The contract of a file.** What `open` accepts is delivered as the contract says exactly if the rows are in
order in the file, and no price has to be rounded. -/
theorem csv_feed_contract_iff {A : Arith} {parse : ParseFromRfc3339} {path content : String} {feed : CsvFeed}
    (hA : ∀ row ∈ dataRows content, ReadsPrice A row) (hopen : CsvFeed.open A parse path (.ok content) = .ok feed) :
    Contract parse (dataRows content) feed ↔
      ((dataRows content).filterMap (rowTime parse)).Pairwise (· ≤ ·) ∧
        ∀ row ∈ dataRows content, ∀ q, rowPrice row = some q → IsDecimal q := by
  have hread := CsvFeed.open_spec hopen
  rw [filterMap_of_forall₂ (fun _ _ h => h.time) hread, List.pairwise_map]
  constructor
  · rintro ⟨ticks, hdelivers, ⟨rows, hperm, htells⟩, horder⟩
    obtain rfl := hdelivers.unique (delivers_csv feed)
    refine ⟨horder, fun row hrow q hq => ?_⟩
    have hmem : q ∈ feed.ticks.map Tick.price := by
      rw [← filterMap_of_forall₂ (fun _ _ h => h.price) htells, (hperm.filterMap rowPrice).mem_iff]
      exact List.mem_filterMap.mpr ⟨row, hrow, hq⟩
    obtain ⟨tick, htick, rfl⟩ := List.mem_map.mp hmem
    exact isDecimal_of_reads hread hA htick
  · rintro ⟨horder, hexact⟩
    refine ⟨feed.ticks, delivers_csv feed, ⟨dataRows content, .refl _, ?_⟩, horder⟩
    have hrows : ∀ row ∈ dataRows content, ReadsPrice A row ∧ ∀ q, rowPrice row = some q → IsDecimal q :=
      fun row hrow => ⟨hA row hrow, hexact row hrow⟩
    exact ((List.forall₂_and_left _ _).mpr ⟨hrows, hread⟩).imp fun row tick h => h.2.tells h.1.1 h.1.2

/-! ### Two rows -/

/-- The first minute of a year, and the one after it. -/
def minutes : List DateTime := [.ofSecs 1767225600 (by decide), .ofSecs 1767225660 (by decide)]

/-- Reads the texts of these minutes. -/
def readsMinutes : ParseFromRfc3339 := fun s =>
  (minutes.find? fun t => t.toRfc3339 = s).elim (.error "input contains invalid characters") .ok

/-- A file with a row for each of these times. -/
def minuteRows (times : List DateTime) : String :=
  lines ("timestamp,symbol,price" :: times.map fun t => t.toRfc3339 ++ ", ROAR ,4.5")

/-- Its ticks. -/
def rowTicks (times : List DateTime) : List Tick := times.map fun t => ⟨t, "ROAR", 9 / 2⟩

theorem open_minuteRows : CsvFeed.open .dec96 readsMinutes "feed.csv" (.ok (minuteRows minutes)) =
    .ok ⟨rowTicks minutes⟩ := by
  decide +kernel

/-- The first minute before the one after it: the contract is kept. -/
theorem csv_feed_contract_of_minutes :
    Contract readsMinutes (dataRows (minuteRows minutes)) (CsvFeed.mk (rowTicks minutes)) := by
  have hprice : ∀ row ∈ dataRows (minuteRows minutes), rowPrice row = some (9 / 2) := by decide +kernel
  have horder : ((dataRows (minuteRows minutes)).filterMap (rowTime readsMinutes)).Pairwise (· ≤ ·) := by
    decide +kernel
  refine (csv_feed_contract_iff (fun _ _ px _ => dec96_readsNumber px.toList) open_minuteRows).mpr ⟨horder, fun row hrow q hq => ?_⟩
  rw [hprice row hrow, Option.some.injEq] at hq
  exact hq ▸ ⟨45, 1, by decide, by decide, by norm_num⟩

/-- The other way round: the file is accepted, and time goes backwards. -/
theorem csv_feed_backwards : ¬ ∀ (path content : String) (feed : CsvFeed),
    CsvFeed.open .dec96 readsMinutes path (.ok content) = .ok feed → Contract readsMinutes (dataRows content) feed := by
  intro hclaim
  have hopen : CsvFeed.open .dec96 readsMinutes "feed.csv" (.ok (minuteRows minutes.reverse)) =
      .ok ⟨rowTicks minutes.reverse⟩ := by
    decide +kernel
  obtain ⟨ticks, hdelivers, -, horder⟩ := hclaim _ _ _ hopen
  obtain rfl := hdelivers.unique (delivers_csv _)
  revert horder
  decide +kernel

end Sherwood
