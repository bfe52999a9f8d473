/-
# The approval queue

`ApprovalStore` of `crates/server/src/approvals.rs`. In manual mode an order
that passed the gate becomes a pending approval; the hook that asked waits on
its ticket for the operator's decision. Each approval has a `watch` channel
that carries its state to the ticket: the channel of the n-th approval is
number n, and `watch` is the state last sent on each. What is sent after its
ticket was dropped nobody reads.

An approval becomes decided in two ways only, by `decide` and by the sweeper,
and then its channel says so. What the operator approves is sent by `decide`
alone (`decide_cases`, `sweep_watch`), and neither changes which approvals
the entries stand for (`mem_decide`, `mem_sweep`).

Key definitions: `Approval`, `ApprovalStore`, `ApprovalStore.enqueue`,
`ApprovalStore.decide`, `ApprovalStore.sweepExpired`, `Ticket.poll`.
Key theorems: `decide_cases`, `mem_decide`, `mem_sweep`, `sweep_watch`.
-/
import Mathlib.Logic.Function.Basic
import Sherwood.Core.Types

namespace Sherwood

inductive ApprovalState where
  | pending
  | approved
  | denied
  | expired
  deriving DecidableEq, Repr

/-- `ApprovalState::is_terminal`. -/
def ApprovalState.isTerminal (s : ApprovalState) : Bool := s ≠ .pending

/-- The parts of an order that the approval card shows. -/
structure OrderSummary where
  symbol : String
  side : String
  quantity : ℚ
  limitPrice : Option ℚ
  reason : String
  deriving DecidableEq

/-- `OrderSummary::from`. -/
def OrderSummary.ofOrder (o : Order) : OrderSummary where
  symbol := o.asset.symbol
  side := match o.side with
    | .buy => "buy"
    | .sell => "sell"
  quantity := o.qty
  limitPrice := o.limitPrice
  reason := o.reason

/-- One approval. -/
structure Approval where
  id : String
  state : ApprovalState
  tool : String
  order : OrderSummary
  createdAt : DateTime
  decidedAt : Option DateTime
  decisionReason : Option String
  deriving DecidableEq

/-- An approval of the queue, and the channel its state is sent on. -/
structure Entry where
  approval : Approval
  tx : ℕ
  deriving DecidableEq

/-- The queue. The timeout is in nanoseconds. -/
structure ApprovalStore where
  entries : List Entry
  seq : ℕ
  timeout : ℕ
  retain : ℕ
  watch : ℕ → ApprovalState

/-- What a waiting hook holds: the approval's id and its channel. -/
structure Ticket where
  id : String
  rx : ℕ
  deriving DecidableEq

/-- Replace the first element that `p` holds of. -/
def setFirst {α : Type} (p : α → Bool) (v : α) : List α → List α
  | [] => []
  | x :: xs => if p x then v :: xs else x :: setFirst p v xs

theorem mem_setFirst {α : Type} {p : α → Bool} {v x : α} : ∀ {l : List α}, x ∈ setFirst p v l → x = v ∨ x ∈ l
  | [], h => .inr h
  | y :: ys, h => by
    unfold setFirst at h
    split_ifs at h
    · rcases List.mem_cons.mp h with rfl | h
      · exact .inl rfl
      · exact .inr (List.mem_cons_of_mem _ h)
    · rcases List.mem_cons.mp h with rfl | h
      · exact .inr List.mem_cons_self
      · exact (mem_setFirst h).imp id (List.mem_cons_of_mem _)

/-- The state a waiting hook resumes with when it is polled: a decided one, or
`expired` once its timeout fired. -/
def Ticket.poll (t : Ticket) (watch : ℕ → ApprovalState) (timedOut : Bool) : Option ApprovalState :=
  if (watch t.rx).isTerminal then some (watch t.rx)
  else if timedOut then some .expired
  else none

namespace ApprovalStore

/-- `ApprovalStore::new`. -/
def new (timeout : ℕ) : ApprovalStore := ⟨[], 0, timeout, 50, fun _ => .pending⟩

/-- The approval of an order, as it is queued. -/
def pendingApproval (st : ApprovalStore) (tool : String) (order : Order) (idAt createdAt : DateTime) : Approval where
  id := s!"apr-{idAt.nanos / 1000000}-{st.seq + 1}"
  state := .pending
  tool := tool
  order := .ofOrder order
  createdAt := createdAt
  decidedAt := none
  decisionReason := none

/-- `enqueue`: queue a pending approval; the hook gets a ticket for it. -/
def enqueue (st : ApprovalStore) (tool : String) (order : Order) (idAt createdAt : DateTime) :
    Ticket × ApprovalStore :=
  let approval := st.pendingApproval tool order idAt createdAt
  (⟨approval.id, st.seq + 1⟩,
    { st with seq := st.seq + 1
              entries := st.entries ++ [⟨approval, st.seq + 1⟩]
              watch := Function.update st.watch (st.seq + 1) .pending })

/-- `trim`: drop the oldest decided entries, but for the last `retain`. -/
def trim (retain : ℕ) (entries : List Entry) : List Entry :=
  let decided := (entries.zipIdx.filter fun e => e.1.approval.state.isTerminal).map Prod.snd
  if decided.length > retain then
    let dropped := decided.take (decided.length - retain)
    (entries.zipIdx.filter fun e => e.2 ∉ dropped).map Prod.fst
  else entries

/-- An approval, decided. -/
def Entry.decided (e : Entry) (state : ApprovalState) (now : DateTime) (reason : Option String) : Entry :=
  { e with approval := { e.approval with state, decidedAt := some now, decisionReason := reason } }

/-- The first entry with an id. -/
def find (st : ApprovalStore) (id : String) : Option Entry := st.entries.find? fun e => e.approval.id = id

/-- `decide`: resolve the approval `id` to a decided state. It answers whether
that changed anything. -/
def decide (st : ApprovalStore) (id : String) (state : ApprovalState) (reason : Option String) (now : DateTime) :
    Except String Bool × ApprovalStore :=
  if ¬ state.isTerminal then (.error "decision state must be terminal", st)
  else
    match st.find id with
    | none => (.ok false, st)
    | some e =>
      if e.approval.state.isTerminal then (.ok false, st)
      else
        (.ok true,
          { st with
            entries := trim st.retain
              (setFirst (fun x => x.approval.id = id) (Entry.decided e state now reason) st.entries)
            watch := Function.update st.watch e.tx state })

/-- The timeout as a `chrono::Duration`, zero where it does not fit one. -/
def cutoff (st : ApprovalStore) : ℕ := if st.timeout ≤ (2 ^ 63 - 1) * 10 ^ 6 then st.timeout else 0

/-- A pending approval is older than the timeout. -/
def overdue (st : ApprovalStore) (now : DateTime) (e : Entry) : Bool :=
  e.approval.state = .pending ∧ now.nanos - e.approval.createdAt.nanos > st.cutoff

/-- An overdue approval, expired. -/
def Entry.expire (e : Entry) (now : DateTime) : Entry :=
  { e with approval := { e.approval with state := .expired, decidedAt := some now } }

/-- `sweep_expired`: expire what is overdue. -/
def sweepExpired (st : ApprovalStore) (now : DateTime) : ApprovalStore :=
  { st with
    entries := trim st.retain (st.entries.map fun e => if st.overdue now e then Entry.expire e now else e)
    watch := fun ch =>
      if st.entries.any fun e => st.overdue now e && e.tx = ch then .expired else st.watch ch }

/-! ### What is queued, and what is sent -/

theorem mem_trim {retain : ℕ} {entries : List Entry} {e : Entry} (h : e ∈ trim retain entries) :
    e ∈ entries := by
  unfold trim at h
  simp only at h
  split_ifs at h
  · obtain ⟨⟨x, i⟩, hx, rfl⟩ := List.mem_map.mp h
    exact List.fst_mem_of_mem_zipIdx (List.mem_filter.mp hx).1
  · exact h

/-- Two entries stand for one approval: of one id and order, on one channel. -/
structure SameApproval (e e' : Entry) : Prop where
  id : e.approval.id = e'.approval.id
  order : e.approval.order = e'.approval.order
  tx : e.tx = e'.tx

section

variable {st : ApprovalStore} {id : String} {state : ApprovalState} {reason : Option String} {now : DateTime}

/-- **Decisions.** A decision changes nothing, or it decides the first entry of
that id, which was pending, and sends the state on its channel. -/
theorem decide_cases (st : ApprovalStore) (id : String) (state : ApprovalState) (reason : Option String)
    (now : DateTime) :
    ((st.decide id state reason now).1 ≠ .ok true ∧ (st.decide id state reason now).2 = st) ∨
      ((st.decide id state reason now).1 = .ok true ∧ ∃ e, st.find id = some e ∧
        e.approval.state = .pending ∧ (st.decide id state reason now).2 =
          { st with
            entries := trim st.retain
              (setFirst (fun x => x.approval.id = id) (Entry.decided e state now reason) st.entries)
            watch := Function.update st.watch e.tx state }) := by
  unfold decide
  by_cases ht : state.isTerminal = true
  · cases hfind : st.find id with
    | none => simp [ht]
    | some e =>
      by_cases he : e.approval.state.isTerminal = true
      · simp [ht, he]
      · have hp : e.approval.state = .pending := by simpa [ApprovalState.isTerminal] using he
        exact .inr ⟨by simp [ht, he], e, rfl, hp, by simp [ht, he]⟩
  · simp [ht]

theorem mem_decide {e : Entry} (h : e ∈ (st.decide id state reason now).2.entries) :
    ∃ e₀ ∈ st.entries, SameApproval e e₀ := by
  obtain ⟨-, heq⟩ | ⟨-, e₀, hfind, -, heq⟩ := decide_cases st id state reason now
  · rw [heq] at h
    exact ⟨e, h, rfl, rfl, rfl⟩
  · rw [heq] at h
    rcases mem_setFirst (mem_trim h) with rfl | h
    · exact ⟨e₀, List.mem_of_find?_eq_some hfind, rfl, rfl, rfl⟩
    · exact ⟨e, h, rfl, rfl, rfl⟩

theorem mem_sweep {e : Entry} (h : e ∈ (st.sweepExpired now).entries) :
    ∃ e₀ ∈ st.entries, SameApproval e e₀ := by
  obtain ⟨e₀, he₀, rfl⟩ := List.mem_map.mp (mem_trim h)
  refine ⟨e₀, he₀, ?_⟩
  split_ifs <;> exact ⟨rfl, rfl, rfl⟩

theorem sweep_watch {ch : ℕ} (h : (st.sweepExpired now).watch ch = .approved) :
    st.watch ch = .approved := by
  unfold sweepExpired at h
  simp only at h
  split_ifs at h
  exact h

end

end ApprovalStore

end Sherwood
