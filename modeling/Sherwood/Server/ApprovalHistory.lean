/-
# The history of approvals

The approval queue as the operator sees it: any sequence of `enqueue`, `decide`
and `sweep_expired`. `trim` keeps every pending approval and the last 50 decided
ones, where the last are those queued last and not those decided last. So an
approval that was queued early and is decided late is dropped by its own decision
if 50 approvals queued after it are decided already, and `post_approval`, which
then looks it up for its answer, does not find it (`listed_iff`).

What the queue keeps otherwise holds of every run: ids are unique, and an approval
changes its state once, from pending (`approval_history`).

Key definitions: `ApprovalStore.system`, `StoreRecord.Listed`, `StoreRecord.WithinRetention`,
`HistoryKept`.
Key theorems: `trim_eq`, `mem_perform`, `listed_iff`, `approval_history`, `late_decision_vanishes`.
-/
import Sherwood.Lib.Retention
import Sherwood.Server.Api
import Sherwood.Server.Tickets

namespace Sherwood

/-- An operation on the queue. -/
inductive StoreOp where
  | enqueue (tool : String) (order : Order) (idAt createdAt : DateTime)
  | decide (id : String) (state : ApprovalState) (reason : Option String) (now : DateTime)
  | sweep (now : DateTime)

/-- What one did; `answer` is that of a `decide`. -/
structure StoreRecord where
  before : ApprovalStore
  op : StoreOp
  answer : Option (Except String Bool)
  after : ApprovalStore

/-- The entry is decided. -/
def Entry.isDecided (e : Entry) : Bool := e.approval.state.isTerminal

namespace ApprovalStore

def perform (st : ApprovalStore) : StoreOp → Option (Except String Bool) × ApprovalStore
  | .enqueue tool order idAt createdAt => (none, (st.enqueue tool order idAt createdAt).2)
  | .decide id state reason now =>
    let r := st.decide id state reason now
    (some r.1, r.2)
  | .sweep now => (none, st.sweepExpired now)

/-- The queue as a system. -/
def system : Lts ApprovalStore StoreOp StoreRecord :=
  ⟨fun st op => some ((st.perform op).2, ⟨st, op, (st.perform op).1, (st.perform op).2⟩)⟩

/-- How many decided entries stand after the first one of that id. -/
def decidedAfter (st : ApprovalStore) (id : String) : ℕ :=
  (st.entries.dropWhile fun e => e.approval.id ≠ id).tail.countP Entry.isDecided

end ApprovalStore

/-- An approval that is in the queue before and after has another state. -/
def StoreRecord.Changes (o : StoreRecord) (id : String) (state state' : ApprovalState) : Prop :=
  state ≠ state' ∧ (∃ e ∈ o.before.entries, e.approval.id = id ∧ e.approval.state = state) ∧
    ∃ e ∈ o.after.entries, e.approval.id = id ∧ e.approval.state = state'

/-- A decision that was made is listed, and `post_approval` answers with it. -/
def StoreRecord.Listed (o : StoreRecord) : Prop :=
  ∀ id state reason now, o.op = .decide id state reason now → o.answer = some (.ok true) →
    ∃ a ∈ o.after.list, a.id = id ∧ a.state = state ∧ ∀ s : ApiState, s.server.approvals = o.after →
      ∀ decision, s.list (.approval id decision reason) .listing = some (s, .reply (.approval a))

/-- A pending approval is decided while fewer than `retain` of those queued after it are. -/
def StoreRecord.WithinRetention (o : StoreRecord) : Prop :=
  ∀ id state reason now, o.op = .decide id state reason now → state.isTerminal →
    ∀ e, o.before.find id = some e → e.approval.state = .pending → o.before.decidedAfter id < o.before.retain

/-- What a run keeps of the approvals. -/
structure HistoryKept (os : List StoreRecord) (st : ApprovalStore) : Prop where
  pending : ∀ e ∈ st.entries, e.approval.state = .pending → e ∈ ApprovalStore.trim st.retain st.entries
  retained : (ApprovalStore.trim st.retain st.entries).countP Entry.isDecided ≤ st.retain
  unique : (st.entries.map fun e => e.approval.id).Nodup
  terminal : ∀ o ∈ os, ∀ id state state', o.Changes id state state' → state = .pending ∧ state'.isTerminal
  once : os.Pairwise fun o o' => ∀ id, (∃ state state', o.Changes id state state') →
    ¬ ∃ state state', o'.Changes id state state'
  listed : ∀ o ∈ os, o.Listed

namespace ApprovalStore

open Retention

/-! ### Trimming -/

theorem trim_eq (retain : ℕ) (entries : List Entry) :
    trim retain entries = dropFirst Entry.isDecided (entries.countP Entry.isDecided - retain) entries := by
  have hlen : ((entries.zipIdx.filter fun e => e.1.approval.state.isTerminal).map Prod.snd).length =
      entries.countP Entry.isDecided := by
    rw [List.length_map, ← List.countP_eq_length_filter]
    conv_rhs => rw [← List.zipIdx_map_fst 0 entries, List.countP_map]
    rfl
  unfold trim
  simp only [hlen]
  split_ifs with hmany
  · exact filter_zipIdx Entry.isDecided _ 0 entries
  · rw [Nat.sub_eq_zero_of_le (Nat.le_of_not_lt hmany), dropFirst_zero]

theorem isDecided_of_pending {e : Entry} (h : e.approval.state = .pending) : e.isDecided = false := by
  simp [Entry.isDecided, h, ApprovalState.isTerminal]

theorem mem_trim_of_pending {retain : ℕ} {entries : List Entry} {e : Entry} (h : e.approval.state = .pending)
    (he : e ∈ entries) : e ∈ trim retain entries := by
  rw [trim_eq]
  exact mem_dropFirst_of_not _ (isDecided_of_pending h) _ he

theorem countP_trim_le (retain : ℕ) (entries : List Entry) :
    (trim retain entries).countP Entry.isDecided ≤ retain := by
  rw [trim_eq, countP_dropFirst]
  omega

/-! ### Steps -/

variable {st : ApprovalStore} {op : StoreOp} {id : String} {state : ApprovalState} {reason : Option String}
  {now : DateTime}

theorem decide_ok_iff : (st.decide id state reason now).1 = .ok true ↔
    state.isTerminal ∧ ∃ e, st.find id = some e ∧ e.approval.state = .pending := by
  constructor
  · intro hok
    rcases decide_cases st id state reason now with ⟨hno, -⟩ | ⟨-, e, hfind, hpending, -⟩
    · exact absurd hok hno
    · refine ⟨?_, e, hfind, hpending⟩
      by_contra hnot
      simp [decide, hnot] at hok
  · rintro ⟨hterminal, e, hfind, hpending⟩
    have hopen : e.approval.state.isTerminal = false := isDecided_of_pending hpending
    simp [decide, hterminal, hfind, hopen]

theorem inv_perform (hi : st.Inv) : (st.perform op).2.Inv := by
  cases op with
  | enqueue tool order idAt createdAt => exact inv_enqueue hi tool order idAt createdAt
  | decide id state reason now => exact inv_decide hi
  | sweep now => exact inv_sweep hi

/-- An entry after a step: a new one, or one from before, as it was or decided now. -/
theorem mem_perform (hi : st.Inv) {e : Entry} (he : e ∈ (st.perform op).2.entries) : e.tx = st.seq + 1 ∨
    ∃ e₀ ∈ st.entries, e₀.tx = e.tx ∧ e₀.approval.id = e.approval.id ∧
      (e.approval.state = e₀.approval.state ∨ e₀.approval.state = .pending ∧ e.isDecided) := by
  cases op with
  | enqueue tool order idAt createdAt =>
    rcases List.mem_append.mp he with he | he
    · exact .inr ⟨e, he, rfl, rfl, .inl rfl⟩
    · rw [List.mem_singleton.mp he]
      exact .inl rfl
  | decide id state reason now =>
    rcases decide_cases st id state reason now with ⟨-, hsame⟩ | ⟨hok, e₀, hfind, hpending, hst⟩
    · simp only [perform, hsame] at he
      exact .inr ⟨e, he, rfl, rfl, .inl rfl⟩
    · simp only [perform, hst] at he
      rcases mem_decided hi hfind he with rfl | ⟨he, -⟩
      · have hterminal := (decide_ok_iff.mp hok).1
        exact .inr ⟨e₀, List.mem_of_find?_eq_some hfind, rfl, rfl, .inr ⟨hpending, hterminal⟩⟩
      · exact .inr ⟨e, he, rfl, rfl, .inl rfl⟩
  | sweep now =>
    obtain ⟨e₀, he₀, rfl⟩ := mem_swept he
    refine .inr ⟨e₀, he₀, ?_⟩
    split_ifs with hover
    · have hpending : e₀.approval.state = .pending := by
        simp only [overdue, Bool.decide_and, Bool.and_eq_true, decide_eq_true_eq] at hover
        exact hover.1
      exact ⟨rfl, rfl, .inr ⟨hpending, rfl⟩⟩
    · exact ⟨rfl, rfl, .inl rfl⟩

theorem Inv.eq_of_id (hi : st.Inv) {e e' : Entry} (he : e ∈ st.entries) (he' : e' ∈ st.entries)
    (h : e.approval.id = e'.approval.id) : e = e' := by
  obtain ⟨ms, hid⟩ := hi.numbered e he
  obtain ⟨ms', hid'⟩ := hi.numbered e' he'
  have hsame : approvalId ms e.tx = approvalId ms' e'.tx := by rw [← hid, ← hid', h]
  exact hi.eq_of_tx he he' (approvalId_injective hsame)

theorem Inv.unique_ids (hi : st.Inv) : (st.entries.map fun e => e.approval.id).Nodup :=
  (List.Nodup.of_map _ hi.unique).map_on fun _ he _ he' h => hi.eq_of_id he he' h

/-! ### What a decision lists -/

theorem setFirst_append {p : Entry → Bool} {v x : Entry} {pre post : List Entry} (hpre : ∀ y ∈ pre, p y = false)
    (hx : p x) : setFirst p v (pre ++ x :: post) = pre ++ v :: post := by
  induction pre with
  | nil => simp [setFirst, hx]
  | cons y pre ih =>
    have hy := hpre y List.mem_cons_self
    simp [setFirst, hy, ih fun z hz => hpre z (List.mem_cons_of_mem _ hz)]

variable {e : Entry}

variable (reason now) in
/-- A decided entry stays in the queue if fewer than `retain` after it are decided. -/
theorem mem_trim_decided_iff (hi : st.Inv) (hfind : st.find id = some e) (hterminal : state.isTerminal) :
    Entry.decided e state now reason ∈
        trim st.retain (setFirst (fun x => x.approval.id = id) (Entry.decided e state now reason) st.entries) ↔
      st.decidedAfter id < st.retain := by
  obtain ⟨hid, pre, post, hentries, hpre⟩ := List.find?_eq_some_iff_append.mp hfind
  have hpre' : ∀ y ∈ pre, y.approval.id ≠ id := fun y hy => by simpa using hpre y hy
  have hafter : st.decidedAfter id = post.countP Entry.isDecided := by
    have hdrop : (pre ++ e :: post).dropWhile (fun x => x.approval.id ≠ id) = e :: post := by
      rw [List.dropWhile_append_of_pos fun y hy => by simpa using hpre' y hy,
        List.dropWhile_cons_of_neg (by simpa using hid)]
    rw [decidedAfter, hentries, hdrop, List.tail_cons]
  have hlone : ∀ l : List Entry, (∀ y ∈ l, y ∈ pre ∨ y ∈ post) → Entry.decided e state now reason ∉ l := by
    intro l hl hmem
    have htx := hi.unique
    rw [hentries, List.map_append, List.map_cons, List.nodup_append, List.nodup_cons] at htx
    rcases hl _ hmem with h | h
    · exact htx.2.2 e.tx (List.mem_map.mpr ⟨_, h, rfl⟩) e.tx List.mem_cons_self rfl
    · exact htx.2.1.1 (List.mem_map.mpr ⟨_, h, rfl⟩)
  have hdecided : (Entry.decided e state now reason).isDecided = true := hterminal
  rw [hentries, setFirst_append (fun y hy => decide_eq_false (hpre' y hy)) hid, trim_eq,
    mem_dropFirst_iff _ hdecided (hlone _ fun _ h => .inl h) (hlone _ fun _ h => .inr h), hafter, List.countP_append,
    List.countP_cons_of_pos hdecided]
  omega

theorem mem_list {a : Approval} : a ∈ st.list ↔ ∃ e ∈ st.entries, e.approval = a := by
  rw [list, List.mem_mergeSort, List.mem_map]

theorem answer_of_mem (hi : st.Inv) (he : e ∈ st.entries) {s : ApiState} (hs : s.server.approvals = st)
    (decision : String) (reason : Option String) :
    s.list (.approval e.approval.id decision reason) .listing = some (s, .reply (.approval e.approval)) := by
  have hsome : (st.list.find? fun a => a.id = e.approval.id).isSome := by
    rw [List.find?_isSome]
    exact ⟨e.approval, mem_list.mpr ⟨e, he, rfl⟩, by simp⟩
  obtain ⟨a, ha⟩ := Option.isSome_iff_exists.mp hsome
  obtain ⟨e', he', rfl⟩ := mem_list.mp (List.mem_of_find?_eq_some ha)
  have hid : e'.approval.id = e.approval.id := by simpa using List.find?_some ha
  obtain rfl := hi.eq_of_id he' he hid
  simp only [ApiState.list, hs, ha]
  rfl

/-- **A decision is listed** exactly if it is made within the retention. -/
theorem listed_iff {st' : ApprovalStore} {o : StoreRecord} (hi : st.Inv) (hstep : system.step st op = some (st', o)) :
    o.Listed ↔ o.WithinRetention := by
  have hi' : (st.perform op).2.Inv := inv_perform hi
  obtain ⟨rfl, rfl⟩ := Prod.mk.inj (Option.some.inj hstep)
  cases op with
  | enqueue | sweep => exact iff_of_true (fun _ _ _ _ h => nomatch h) fun _ _ _ _ h => nomatch h
  | decide id state reason now =>
    by_cases hok : (st.decide id state reason now).1 = .ok true
    · obtain ⟨hterminal, e, hfind, hpending⟩ := decide_ok_iff.mp hok
      obtain ⟨hno, -⟩ | ⟨-, e', hfind', -, hst⟩ := decide_cases st id state reason now
      · exact absurd hok hno
      obtain rfl : e = e' := Option.some.inj (hfind.symm.trans hfind')
      have he := List.mem_of_find?_eq_some hfind
      have hid : e.approval.id = id := by simpa using List.find?_some hfind
      have hkept := mem_trim_decided_iff reason now hi hfind hterminal
      have hmem : Entry.decided e state now reason ∈ (st.decide id state reason now).2.entries ↔
          st.decidedAfter id < st.retain := by
        rw [hst]
        exact hkept
      constructor
      · intro hlisted id' state' reason' now' hop _ e' hfind' _
        obtain ⟨rfl, rfl, rfl, rfl⟩ := StoreOp.decide.inj hop
        obtain ⟨a, ha, haid, -⟩ := hlisted id state reason now rfl (congrArg some hok)
        obtain ⟨x, hx, rfl⟩ := mem_list.mp ha
        refine hmem.mp ?_
        change x ∈ (st.decide id state reason now).2.entries at hx
        rw [hst] at hx
        rcases mem_decided hi hfind hx with rfl | ⟨hx, hne⟩
        · rwa [hst]
        · exact absurd (congrArg Entry.tx (hi.eq_of_id hx he (haid.trans hid.symm))) hne
      · intro hwithin id' state' reason' now' hop _
        obtain ⟨rfl, rfl, rfl, rfl⟩ := StoreOp.decide.inj hop
        have hlisted := hmem.mpr (hwithin id state reason now rfl hterminal e hfind hpending)
        refine ⟨_, mem_list.mpr ⟨_, hlisted, rfl⟩, hid, rfl, fun s hs decision => ?_⟩
        have hanswer := answer_of_mem hi' hlisted hs decision reason
        rwa [show (Entry.decided e state now reason).approval.id = id from hid] at hanswer
    · refine iff_of_true (fun id' state' reason' now' hop hanswer => ?_)
        fun id' state' reason' now' hop hterm e he hpend => ?_
      · obtain ⟨rfl, rfl, rfl, rfl⟩ := StoreOp.decide.inj hop
        exact absurd (Option.some.inj hanswer) hok
      · obtain ⟨rfl, rfl, rfl, rfl⟩ := StoreOp.decide.inj hop
        exact absurd (decide_ok_iff.mpr ⟨hterm, e, he, hpend⟩) hok

/-! ### Runs -/

/-- A step changes an approval from pending to a decided state. -/
theorem changes_cases {st' : ApprovalStore} {o : StoreRecord} {state' : ApprovalState} (hi : st.Inv)
    (hstep : system.step st op = some (st', o)) (h : o.Changes id state state') :
    state = .pending ∧ state'.isTerminal ∧ ∃ e ∈ st.entries, e.approval.id = id ∧ e.approval.state = state := by
  obtain ⟨rfl, rfl⟩ := Prod.mk.inj (Option.some.inj hstep)
  obtain ⟨hne, ⟨e, he, hid, rfl⟩, e', he', hid', rfl⟩ := h
  rcases mem_perform hi he' with hfresh | ⟨e₀, he₀, -, hid₀, hstate⟩
  · -- a new approval has a number of its own
    have hinv : (st.perform op).2.Inv := inv_perform hi
    obtain ⟨ms, hnumber⟩ := hi.numbered e he
    obtain ⟨ms', hnumber'⟩ := hinv.numbered e' he'
    have htx : e.tx = e'.tx := approvalId_injective (by rw [← hnumber, ← hnumber', hid, hid'])
    have := hi.bound e he
    omega
  · obtain rfl := hi.eq_of_id he he₀ (by rw [hid, hid₀, hid'])
    rcases hstate with hsame | ⟨hpending, hdecided⟩
    · exact absurd hsame.symm hne
    · exact ⟨hpending, hdecided, e, he, hid, rfl⟩

theorem seq_perform : st.seq ≤ (st.perform op).2.seq := by
  cases op with
  | enqueue => exact Nat.le_succ _
  | decide id state reason now =>
    rcases decide_cases st id state reason now with ⟨-, hsame⟩ | ⟨-, e, -, -, hst⟩
    · simp [perform, hsame]
    · simp [perform, hst]
  | sweep => exact Nat.le_refl _

/-- **The invariant of a run.** What has changed its state is decided, as long as it is in
the queue. -/
structure History (os : List StoreRecord) (st : ApprovalStore) : Prop where
  store : st.Inv
  changed : ∀ o ∈ os, ∀ id state state', o.Changes id state state' → state = .pending ∧ state'.isTerminal ∧
    (∃ ms n, id = approvalId ms n ∧ n ≤ st.seq) ∧ ∀ e ∈ st.entries, e.approval.id = id → e.isDecided
  once : os.Pairwise fun o o' => ∀ id, (∃ state state', o.Changes id state state') →
    ¬ ∃ state state', o'.Changes id state state'
  listed : ∀ o ∈ os, (o.Listed ↔ o.WithinRetention)

theorem history_new (timeout : ℕ) : History [] (new timeout) :=
  ⟨inv_new timeout, fun _ h => (by cases h), .nil, fun _ h => (by cases h)⟩

theorem decided_perform (hi : st.Inv) {ms : ℤ} {n : ℕ} (hid : id = approvalId ms n) (hn : n ≤ st.seq)
    (h : ∀ e ∈ st.entries, e.approval.id = id → e.isDecided) :
    ∀ e ∈ (st.perform op).2.entries, e.approval.id = id → e.isDecided := by
  intro e he heid
  rcases mem_perform hi he with hfresh | ⟨e₀, he₀, -, hid₀, hsame | ⟨-, hdecided⟩⟩
  · have hinv : (st.perform op).2.Inv := inv_perform hi
    obtain ⟨ms', hnumber⟩ := hinv.numbered e he
    have htx : n = e.tx := approvalId_injective (by rw [← hid, ← hnumber, heid])
    omega
  · have hdecided := h e₀ he₀ (hid₀.trans heid)
    rwa [Entry.isDecided, ← hsame] at hdecided
  · exact hdecided

theorem history_step {os : List StoreRecord} {st' : ApprovalStore} {o : StoreRecord} (hi : History os st)
    (hstep : system.step st op = some (st', o)) : History (os ++ [o]) st' := by
  have hcases : ∀ id state state', o.Changes id state state' → state = .pending ∧ state'.isTerminal ∧
      ∃ e ∈ st.entries, e.approval.id = id ∧ e.approval.state = state :=
    fun _ _ _ h => changes_cases hi.store hstep h
  have hlisted := listed_iff hi.store hstep
  obtain ⟨rfl, ho⟩ := Prod.mk.inj (Option.some.inj hstep)
  have hchanged : ∀ id state state', o.Changes id state state' →
      ∀ e ∈ (st.perform op).2.entries, e.approval.id = id → e.isDecided := by
    rintro id state state' h
    obtain ⟨-, hterminal, -⟩ := hcases id state state' h
    obtain ⟨-, -, e', he', hid', rfl⟩ := h
    rintro e he rfl
    subst ho
    have hinv : (st.perform op).2.Inv := inv_perform hi.store
    rwa [hinv.eq_of_id he he' hid'.symm]
  refine ⟨inv_perform hi.store, List.forall_mem_append.mpr ⟨fun o' ho' id state state' h => ?_, ?_⟩, ?_, ?_⟩
  · obtain ⟨hpending, hterminal, ⟨ms, n, hid, hn⟩, hdecided⟩ := hi.changed o' ho' id state state' h
    exact ⟨hpending, hterminal, ⟨ms, n, hid, hn.trans seq_perform⟩, decided_perform hi.store hid hn hdecided⟩
  · rw [List.forall_mem_singleton]
    intro id state state' h
    obtain ⟨hpending, hterminal, e, he, hid, -⟩ := hcases id state state' h
    obtain ⟨ms, hnumber⟩ := hi.store.numbered e he
    exact ⟨hpending, hterminal, ⟨ms, e.tx, by rw [← hid, hnumber], (hi.store.bound e he).trans seq_perform⟩,
      hchanged id state state' h⟩
  · refine List.pairwise_append.mpr ⟨hi.once, List.pairwise_singleton _ _, fun o' ho' o'' ho'' id h h' => ?_⟩
    obtain rfl := List.mem_singleton.mp ho''
    obtain ⟨state, state', h⟩ := h
    obtain ⟨state₂, state₂', h'⟩ := h'
    -- it was decided before, and only what is pending changes
    obtain ⟨rfl, -, e, he, hid, hpending⟩ := hcases id state₂ state₂' h'
    have hdecided := (hi.changed o' ho' id state state' h).2.2.2 e he hid
    rw [isDecided_of_pending hpending] at hdecided
    cases hdecided
  · exact List.forall_mem_append.mpr ⟨hi.listed, List.forall_mem_singleton.mpr hlisted⟩

theorem history_run {timeout : ℕ} {os : List StoreRecord} (h : system.Run (new timeout) os st) : History os st :=
  Lts.Run.inv (history_new timeout) (fun _ _ _ _ _ _ hi hstep => history_step hi hstep) h

end ApprovalStore

/-- **The history of approvals** keeps what it must exactly if each decision is made
within the retention. -/
theorem approval_history (timeout : ℕ) (os : List StoreRecord) (st : ApprovalStore)
    (h : ApprovalStore.system.Run (.new timeout) os st) :
    HistoryKept os st ↔ ∀ o ∈ os, o.WithinRetention := by
  have hi := ApprovalStore.history_run h
  constructor
  · intro hkept o ho
    exact (hi.listed o ho).mp (hkept.listed o ho)
  · intro hwithin
    refine ⟨fun e he hpending => ApprovalStore.mem_trim_of_pending hpending he, ApprovalStore.countP_trim_le _ _,
      hi.store.unique_ids, fun o ho id state state' hchanges => ?_, hi.once,
      fun o ho => (hi.listed o ho).mpr (hwithin o ho)⟩
    obtain ⟨hpending, hterminal, -⟩ := hi.changed o ho id state state' hchanges
    exact ⟨hpending, hterminal⟩

/-! ### Fifty younger decisions -/

/-- Decisions in a queue of no more than `retain` entries are within the retention. -/
theorem withinRetention_of_length {o : StoreRecord} (h : o.before.entries.length ≤ o.before.retain) :
    o.WithinRetention := by
  intro id state reason now _ _ e hfind _
  have hpos : 0 < o.before.entries.length := List.length_pos_of_mem (List.mem_of_find?_eq_some hfind)
  have htail := List.countP_le_length (p := Entry.isDecided)
    (l := (o.before.entries.dropWhile fun e => e.approval.id ≠ id).tail)
  have hdrop := (List.dropWhile_sublist (l := o.before.entries) fun e => e.approval.id ≠ id).length_le
  rw [List.length_tail] at htail
  show (o.before.entries.dropWhile fun e => e.approval.id ≠ id).tail.countP Entry.isDecided < o.before.retain
  omega

/-- Two approvals are queued, the older one is denied, and the sweeper comes. -/
def twoApprovals : List StoreOp :=
  [.enqueue "place_order" heldOrder .epoch .epoch, .enqueue "place_order" heldOrder .epoch .epoch,
    .decide "apr-0-1" .denied none .epoch, .sweep .epoch]

theorem approval_history_twoApprovals : ∃ os st, ApprovalStore.system.Run (.new 0) os st ∧ HistoryKept os st ∧
    ∃ e ∈ st.entries, e.isDecided := by
  have hexec : (ApprovalStore.system.exec (.new 0) twoApprovals).map (fun r => decide
      ((∀ o ∈ r.2, o.before.entries.length ≤ o.before.retain) ∧ ∃ e ∈ r.1.entries, e.isDecided)) = some true := by
    decide +kernel
  obtain ⟨⟨st, os⟩, hrun, hall⟩ := Option.map_eq_some_iff.mp hexec
  obtain ⟨hshort, hdecided⟩ := of_decide_eq_true hall
  exact ⟨os, st, .of_exec hrun, (approval_history 0 os st (.of_exec hrun)).mpr fun o ho =>
    withinRetention_of_length (hshort o ho), hdecided⟩

/-- 51 approvals are queued, and all but the first one are denied. -/
def fiftyDenied : List StoreOp :=
  List.replicate 51 (.enqueue "place_order" heldOrder .epoch .epoch) ++
    (List.range 50).map fun n => .decide (approvalId 0 (n + 2)) .denied none .epoch

/-- The approval of the first one is made, and is not in the list. -/
theorem late_decision_vanishes : ¬ ∀ (timeout : ℕ) (os : List StoreRecord) (st : ApprovalStore),
    ApprovalStore.system.Run (.new timeout) os st → HistoryKept os st := by
  intro hclaim
  have hexec : (ApprovalStore.system.exec (.new 0) fiftyDenied).map (fun r => decide
      ((r.1.find (approvalId 0 1)).map (fun e => e.approval.state) = some .pending ∧
        r.1.decidedAfter (approvalId 0 1) = 50 ∧ r.1.retain = 50)) = some true := by
    decide +kernel
  obtain ⟨⟨st, os⟩, hrun, hall⟩ := Option.map_eq_some_iff.mp hexec
  obtain ⟨hpending, hfifty, hretain⟩ := of_decide_eq_true hall
  obtain ⟨e, hfind, hpending⟩ := Option.map_eq_some_iff.mp hpending
  have hlate : ApprovalStore.system.step st (.decide (approvalId 0 1) .approved none .epoch) = some (_, _) := rfl
  have hlisted := (hclaim 0 _ _ (.snoc (.of_exec hrun) hlate)).listed _
    (List.mem_append_right _ (List.mem_singleton_self _))
  have hi := (ApprovalStore.history_run (.of_exec hrun)).store
  have hwithin := (ApprovalStore.listed_iff hi hlate).mp hlisted _ _ _ _ rfl rfl e hfind hpending
  exact absurd hwithin (by rw [hfifty, hretain]; omega)

end Sherwood
