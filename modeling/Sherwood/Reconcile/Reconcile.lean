/-
# Reconciling a transaction

`reconcile` and `wait_and_reconcile` of `crates/reconcile/src/lib.rs`, and the
two entry points over them: `POST /v1/reconcile` and `sherwood reconcile`. The
receipt of a transaction that was broadcast elsewhere is polled for; if it
succeeded, the trade the operator expected is recorded as a fill.

An attempt that records nothing changes nothing, so it can be made again; one
that records books its fill once (`reconciled_books`). That a transaction is
recorded once is left to the operator: there is no look at the fills that are
there, and a transaction reconciled twice is booked twice (`rerun_books_twice`).

Key definitions: `waitAndReconcile`, `Attempt`, `Attempt.run`, `Reconciled`.
Key theorems: `run_cases`, `view_recorded`, `reconciled_books`, `rerun_books_twice`.
-/
import Sherwood.Reconcile.Record

namespace Sherwood

/-- The receipt of a transaction. `statusOk` is false for one that was mined but
reverted. -/
structure TxReceipt where
  txHash : String
  statusOk : Bool
  blockNumber : UInt64
  gasUsed : UInt64
  toAddress : Option String
  deriving DecidableEq

/-- The trade the operator expected the transaction to be. It is the label of
its fill: nothing is compared with the chain. -/
structure ExpectedTrade where
  symbol : String
  side : Side
  qty : ℚ
  price : ℚ
  fee : ℚ
  deriving DecidableEq

/-- What reconciling found. -/
inductive ReconcileOutcome where
  | notFound
  | reverted (receipt : TxReceipt)
  | confirmed (receipt : TxReceipt) (fill : Fill)
  deriving DecidableEq

/-- The order id of a reconciled fill. -/
def reconcileId (receipt : TxReceipt) : OrderId := ⟨"reconcile-" ++ receipt.txHash⟩

/-- One look at the receipt. -/
def reconcile (reply : Option TxReceipt) (expected : ExpectedTrade) (now : DateTime) : ReconcileOutcome :=
  match reply with
  | none => .notFound
  | some receipt =>
    if receipt.statusOk then
      .confirmed receipt
        { orderId := reconcileId receipt
          asset := .ofSymbol expected.symbol
          side := expected.side
          qty := expected.qty
          price := expected.price
          fee := expected.fee
          venue := .dexRouter
          filledAt := now }
    else .reverted receipt

/-- A poll: the client's answer, when it came, and whether that is too late to
poll again. -/
structure Poll where
  reply : Except String (Option TxReceipt)
  now : DateTime
  late : Bool

/-- Poll until there is a receipt or the time is out; `none` as long as neither is. -/
def waitAndReconcile (expected : ExpectedTrade) : List Poll → Option (Except String ReconcileOutcome)
  | [] => none
  | poll :: polls =>
    match poll.reply with
    | .error e => some (.error e)
    | .ok reply =>
      match reconcile reply expected poll.now with
      | .notFound => if poll.late then some (.ok .notFound) else waitAndReconcile expected polls
      | outcome => some (.ok outcome)

/-- A request to reconcile, over one of the entry points, and what it meets: the
answers to its polls, and the time of its audit row. -/
structure Attempt where
  who : Recorder
  statePath : Option String
  txHash : String
  expected : ExpectedTrade
  polls : List Poll
  now : DateTime

/-- The server's answer. -/
structure ReconcileView where
  status : String
  blockNumber : Option UInt64
  gasUsed : Option UInt64
  recorded : Bool
  note : Option String

namespace Attempt

/-- What comes of the polls. -/
def outcome (a : Attempt) : Option (Except String ReconcileOutcome) := waitAndReconcile a.expected a.polls

/-- An attempt on a database, and how its recording ended if it made one. -/
def run (D : Digest) (fails : StoreCall → Option String) (a : Attempt) (store : Store) : Store × Option RecordPhase :=
  match a.outcome, a.statePath with
  | some (.ok (.confirmed _ fill)), some _ =>
    let r := record D a.who fill a.now fails store
    (r.1, some r.2)
  | _, _ => (store, none)

/-- `post_reconcile` answers. -/
def view (phase : Option RecordPhase) : ReconcileOutcome → Except String ReconcileView
  | .notFound => .ok ⟨"not_found", none, none, false,
      some "no receipt yet — it may still confirm; retry later with the same tx_hash"⟩
  | .reverted r => .ok ⟨"reverted", some r.blockNumber, some r.gasUsed, false,
      some "mined but reverted — gas was spent, nothing to record"⟩
  | .confirmed r _ =>
    match phase with
    | some (.failed e) => .error e
    | some (.finished true) => .ok ⟨"confirmed", some r.blockNumber, some r.gasUsed, true, none⟩
    | some _ => .ok ⟨"confirmed", some r.blockNumber, some r.gasUsed, false,
        some ("no portfolio snapshot yet — run `sherwood run` at least once, or " ++
          "reconcile from the CLI, which can bootstrap one")⟩
    | none => .ok ⟨"confirmed", some r.blockNumber, some r.gasUsed, false,
        some "no [general] state_path configured — not recorded"⟩

/-- The fill an attempt records, no call of the store failing. -/
def recorded (D : Digest) (a : Attempt) (store : Store) : Option Fill :=
  match a.outcome, (a.run D (fun _ => none) store).2 with
  | some (.ok (.confirmed _ fill)), some (.finished true) => some fill
  | _, _ => none

end Attempt

/-- Attempts one after another, no call of the store failing. -/
def reconcileAll (D : Digest) : List Attempt → Store → Store
  | [], store => store
  | a :: as, store => reconcileAll D as (a.run D (fun _ => none) store).1

/-- Those that record, with their fills. -/
def recordedIn (D : Digest) : List Attempt → Store → List (Attempt × Fill)
  | [], _ => []
  | a :: as, store =>
    ((a.recorded D store).map fun fill => (a, fill)).toList ++ recordedIn D as (a.run D (fun _ => none) store).1

/-- A store with the fills of some attempts recorded: each is in the table once, has one row in the audit
log and is applied once to the snapshot, which is a new portfolio if there was none. -/
structure Reconciled (attempts : List Attempt) (before after : Store) (booked : List Fill) : Prop where
  fills : after.fills = before.fills ++ booked
  rows : after.audit.fillRows = before.audit.fillRows ++ booked.map fun f => (fillData (some "reconcile") f).render
  snapshot : ∀ p, before.loadPortfolio = some p → after.loadPortfolio = some (p.applyAll booked)
  bootstrap : before.loadPortfolio = none → booked ≠ [] →
    ∃ a ∈ attempts, ∃ cash, a.who = .cli cash ∧ after.loadPortfolio = some ((Portfolio.new cash).applyAll booked)
  idle : booked = [] → after = before

/-- The receipt source returns one receipt for a hash, if it returns any. -/
def SameReceipt (source : String → TxReceipt) (attempts : List Attempt) : Prop :=
  ∀ a ∈ attempts, ∀ poll ∈ a.polls, ∀ r, poll.reply = .ok (some r) → r = source a.txHash

variable {D : Digest}

/-- The fill of a confirmed outcome is labelled with the receipt, which some poll returned. -/
theorem waitAndReconcile_confirmed {expected : ExpectedTrade} {receipt : TxReceipt} {fill : Fill} :
    ∀ {polls : List Poll}, waitAndReconcile expected polls = some (.ok (.confirmed receipt fill)) →
      fill.orderId = reconcileId receipt ∧ receipt.statusOk ∧ ∃ poll ∈ polls, poll.reply = .ok (some receipt)
  | [], h => nomatch h
  | poll :: polls, h => by
    unfold waitAndReconcile at h
    cases hreply : poll.reply with
    | error e => simp [hreply] at h
    | ok reply =>
      cases reply with
      | none =>
        by_cases hlate : poll.late
        · simp [hreply, reconcile, hlate] at h
        · simp only [hreply, reconcile, hlate] at h
          obtain ⟨hid, hok, p, hp, hr⟩ := waitAndReconcile_confirmed h
          exact ⟨hid, hok, p, List.mem_cons_of_mem _ hp, hr⟩
      | some r =>
        by_cases hok : r.statusOk
        · simp only [hreply, reconcile, hok, if_true] at h
          injection h with h
          injection h with h
          injection h with hr hf
          subst hr
          exact ⟨by rw [← hf], hok, poll, List.mem_cons_self, hreply⟩
        · simp [hreply, reconcile, hok] at h

/-- What an attempt does to the store: nothing, or it records the fill. -/
theorem run_cases (a : Attempt) (store : Store) :
    (a.recorded D store = none ∧ (a.run D (fun _ => none) store).1 = store) ∨
    ∃ receipt fill base, a.outcome = some (.ok (.confirmed receipt fill)) ∧
      a.recorded D store = some fill ∧ RecordPhase.loadedBy a.who store = some base ∧
      (a.run D (fun _ => none) store).1 = store.withFill D base fill a.now := by
  cases hout : a.outcome with
  | none => exact .inl ⟨by simp [Attempt.recorded, hout], by simp [Attempt.run, hout]⟩
  | some r =>
    cases r with
    | error e => exact .inl ⟨by simp [Attempt.recorded, hout], by simp [Attempt.run, hout]⟩
    | ok outcome =>
      cases outcome with
      | notFound => exact .inl ⟨by simp [Attempt.recorded, hout], by simp [Attempt.run, hout]⟩
      | reverted r => exact .inl ⟨by simp [Attempt.recorded, hout], by simp [Attempt.run, hout]⟩
      | confirmed receipt fill =>
        cases hpath : a.statePath with
        | none => exact .inl ⟨by simp [Attempt.recorded, Attempt.run, hout, hpath], by simp [Attempt.run, hout, hpath]⟩
        | some path =>
          cases hbase : RecordPhase.loadedBy a.who store with
          | none =>
            refine .inl ⟨?_, ?_⟩ <;> simp [Attempt.recorded, Attempt.run, hout, hpath, record_eq, hbase]
          | some base =>
            refine .inr ⟨receipt, fill, base, rfl, ?_, rfl, ?_⟩ <;>
              simp [Attempt.recorded, Attempt.run, hout, hpath, record_eq, hbase]

theorem Reconciled.cons {a : Attempt} {as : List Attempt} {before after : Store} {booked : List Fill} {base : Portfolio}
    {fill : Fill} (hbase : RecordPhase.loadedBy a.who before = some base)
    (h : Reconciled as (before.withFill D base fill a.now) after booked) :
    Reconciled (a :: as) before after (fill :: booked) := by
  have hload : (before.withFill D base fill a.now).loadPortfolio = some (base.apply fill) := by
    simp [Store.withFill, Store.loadPortfolio, Store.savePortfolio, Store.appendAudit]
  have hrow : (before.withFill D base fill a.now).audit.fillRows =
      before.audit.fillRows ++ [(fillData (some "reconcile") fill).render] :=
    fillRows_appendAll [RecordPhase.auditCall fill a.now] before.audit
  have hsnap : after.loadPortfolio = some (base.applyAll (fill :: booked)) := h.snapshot _ hload
  refine ⟨?_, ?_, ?_, ?_, (fun h => by cases h)⟩
  · rw [h.fills]
    simp [Store.withFill, Store.appendFill, Store.savePortfolio, Store.appendAudit]
  · rw [h.rows, hrow, List.append_assoc]
    rfl
  · intro p hp
    rw [hsnap]
    cases hwho : a.who <;> simp_all [RecordPhase.loadedBy, Store.loadOrNew]
  · intro hnone _
    cases hwho : a.who with
    | server => simp [RecordPhase.loadedBy, hwho, hnone] at hbase
    | cli cash =>
      obtain rfl : Portfolio.new cash = base := by
        simpa [RecordPhase.loadedBy, hwho, Store.loadOrNew, hnone] using hbase
      exact ⟨a, List.mem_cons_self, cash, hwho, hsnap⟩

theorem reconciled_reconcileAll : ∀ (attempts : List Attempt) (store : Store),
    Reconciled attempts store (reconcileAll D attempts store) ((recordedIn D attempts store).map Prod.snd)
  | [], store => ⟨by simp [reconcileAll, recordedIn], by simp [reconcileAll, recordedIn],
      fun _ hp => hp, fun _ h => absurd rfl h, fun _ => rfl⟩
  | a :: as, store => by
    have ih := reconciled_reconcileAll as (a.run D (fun _ => none) store).1
    rw [reconcileAll, recordedIn]
    rcases run_cases (D := D) a store with ⟨hnone, hrun⟩ | ⟨receipt, fill, base, -, hsome, hbase, hrun⟩
    · rw [hrun] at ih
      rw [hnone, hrun]
      refine ⟨ih.fills, ih.rows, ih.snapshot, ?_, ih.idle⟩
      intro hempty hbooked
      obtain ⟨b, hb, cash, hcash⟩ := ih.bootstrap hempty hbooked
      exact ⟨b, List.mem_cons_of_mem _ hb, cash, hcash⟩
    · rw [hrun] at ih
      rw [hsome, hrun]
      exact ih.cons hbase

/-- A recorded fill is labelled with the receipt the source has for the attempt's hash. -/
theorem mem_recordedIn {source : String → TxReceipt} {r : Attempt × Fill} :
    ∀ {attempts : List Attempt} {store : Store}, SameReceipt source attempts → r ∈ recordedIn D attempts store →
      r.2.orderId = reconcileId (source r.1.txHash)
  | [], _, _, hr => nomatch hr
  | a :: as, store, hsource, hr => by
    rw [recordedIn, List.mem_append] at hr
    rcases hr with hr | hr
    · rcases run_cases (D := D) a store with ⟨hnone, -⟩ | ⟨receipt, fill, -, hout, hsome, -, -⟩
      · simp [hnone] at hr
      · obtain rfl : r = (a, fill) := by simpa [hsome] using hr
        obtain ⟨hid, -, poll, hpoll, hreply⟩ := waitAndReconcile_confirmed hout
        rw [hid, hsource a List.mem_cons_self poll hpoll receipt hreply]
    · exact mem_recordedIn (fun b hb => hsource b (List.mem_cons_of_mem _ hb)) hr

theorem view_recorded {a : Attempt} {store : Store} {outcome : ReconcileOutcome} {v : ReconcileView}
    (hout : a.outcome = some (.ok outcome))
    (hview : Attempt.view (a.run D (fun _ => none) store).2 outcome = .ok v) :
    v.recorded = (a.recorded D store).isSome := by
  cases outcome with
  | notFound =>
    obtain rfl : _ = v := Except.ok.inj hview
    simp [Attempt.recorded, hout]
  | reverted r =>
    obtain rfl : _ = v := Except.ok.inj hview
    simp [Attempt.recorded, hout]
  | confirmed r fill =>
    simp only [Attempt.recorded, hout]
    simp only [Attempt.view] at hview
    split at hview
    · cases hview
    · next h =>
      obtain rfl : _ = v := Except.ok.inj hview
      simp [h]
    · next phase hne _ h =>
      obtain rfl : _ = v := Except.ok.inj hview
      simp only [h]
      split
      · next h => simp_all
      · rfl
    · next h =>
      obtain rfl : _ = v := Except.ok.inj hview
      simp [h]

/-- The fills with an order id. -/
def fillsOf (id : OrderId) (store : Store) : List Fill := store.fills.filter fun f => f.orderId = id

/-- **Every recording books its fill once.** However often hashes are reconciled
and over which entry points: the store has the fills recorded; those of one
transaction are as many as the attempts at it that recorded; and an attempt that
did not, of which the server says so, changed nothing. -/
theorem reconciled_books (D : Digest) (source : String → TxReceipt) (attempts : List Attempt) (before : Store)
    (hsource : SameReceipt source attempts) :
    Reconciled attempts before (reconcileAll D attempts before) ((recordedIn D attempts before).map Prod.snd) ∧
    (∀ h, (fillsOf (reconcileId (source h)) (reconcileAll D attempts before)).length =
      (fillsOf (reconcileId (source h)) before).length +
        ((recordedIn D attempts before).filter fun r =>
          reconcileId (source r.1.txHash) = reconcileId (source h)).length) ∧
    (∀ (a : Attempt) store, a.recorded D store = none → (a.run D (fun _ => none) store).1 = store) := by
  have hbooks := reconciled_reconcileAll (D := D) attempts before
  refine ⟨hbooks, ?_, ?_⟩
  · intro h
    have hids : ∀ r ∈ recordedIn D attempts before,
        decide (r.2.orderId = reconcileId (source h)) = decide (reconcileId (source r.1.txHash) = reconcileId (source h)) :=
      fun r hr => by rw [mem_recordedIn hsource hr]
    rw [fillsOf, fillsOf, hbooks.fills, List.filter_append, List.length_append, List.filter_map, List.length_map]
    congr 2
    exact List.filter_congr hids
  · intro a store hnone
    rcases run_cases (D := D) a store with ⟨-, hrun⟩ | ⟨_, _, _, -, hsome, -, -⟩
    · exact hrun
    · simp [hnone] at hsome

/-! ### Doing it again -/

/-- A client that answers one hash, and has a transaction of it. -/
def oneReceipt (h : String) : TxReceipt := ⟨h, true, 42, 21000, none⟩

/-- Half a share bought, reconciled over an entry point that gets `replies`. -/
def halfShare (who : Recorder) (replies : List (Option TxReceipt)) : Attempt where
  who := who
  statePath := some "sherwood.db"
  txHash := "0xabc"
  expected := ⟨"NVDA", .buy, 1 / 2, 200, 1 / 10⟩
  polls := replies.map fun r => ⟨.ok r, .epoch, true⟩
  now := .epoch

/-- The command times out, is run again, and starts a portfolio. -/
theorem reconciled_books_retried :
    let attempts := [halfShare (.cli 1000) [none], halfShare (.cli 1000) [some (oneReceipt "0xabc")]]
    Reconciled attempts .empty (reconcileAll Sha256.digest attempts .empty)
      ((recordedIn Sha256.digest attempts .empty).map Prod.snd) ∧
    (recordedIn Sha256.digest attempts .empty).length = 1 := by
  have hsource : SameReceipt oneReceipt
      [halfShare (.cli 1000) [none], halfShare (.cli 1000) [some (oneReceipt "0xabc")]] := by
    intro a ha poll hpoll r hr
    simp only [List.mem_cons, List.not_mem_nil, or_false] at ha
    rcases ha with rfl | rfl <;> simp_all [halfShare]
  exact ⟨(reconciled_books Sha256.digest oneReceipt _ .empty hsource).1, by decide +kernel⟩

/-- A transaction reconciled twice is booked twice, whatever the client answers. -/
theorem rerun_books_twice : ¬ ∀ (source : String → TxReceipt) (attempts : List Attempt) (before : Store),
    SameReceipt source attempts → ∀ h,
      (fillsOf (reconcileId (source h)) (reconcileAll Sha256.digest attempts before)).length ≤
        max 1 (fillsOf (reconcileId (source h)) before).length := by
  intro hclaim
  have hsource : SameReceipt oneReceipt
      [halfShare .server [some (oneReceipt "0xabc")], halfShare .server [some (oneReceipt "0xabc")]] := by
    intro a ha poll hpoll r hr
    simp only [List.mem_cons, List.not_mem_nil, or_false, or_self] at ha
    subst ha
    simp_all [halfShare]
  have htwice := hclaim oneReceipt _ oneSnapshot hsource "0xabc"
  revert htwice
  decide +kernel

end Sherwood
