/-
# Tickets and decisions

The approval queue with the hooks that wait on it: any number of `enqueue`,
`Ticket::wait`, `decide` and `sweep_expired`, one at a time in any order. A
wait ends when it is polled and its approval is decided, or its own timer has
fired, or its request is dropped.

The ticket's timer and the sweeper's clock are two, and a decision that comes
after the first and before the second takes effect: the record says approved
where the hook was told that its approval expired (`late_approval_recorded`).
In a run without such decisions, and in which no hook goes away from an
approval that is not told it, what is recorded as approved is what the hook
gets (`approved_received`).

Key definitions: `Desk`, `Desk.system`, `DeskRecord.InTime`, `Desk.Agrees`, `Desk.Inv`.
Key theorems: `approvalId_injective`, `inv_desk_step`, `approved_received`, `late_approval_recorded`.
-/
import Mathlib.Data.List.Nodup
import Sherwood.Lib.Lts
import Sherwood.Server.System
import Std.Data.String.ToNat

namespace Sherwood

/-- A hook on an approval: none yet, it waits, its wait has ended with a state, or
its request was dropped. -/
inductive Wait where
  | absent
  | waiting (t : Ticket)
  | received (t : Ticket) (state : ApprovalState)
  | dropped (t : Ticket)
  deriving DecidableEq

def Wait.ticket? : Wait → Option Ticket
  | .absent => none
  | .waiting t => some t
  | .received t _ => some t
  | .dropped t => some t

/-- The wait has ended with its timer. -/
def Wait.isExpired : Wait → Bool
  | .received _ .expired => true
  | _ => false

def Wait.isDropped : Wait → Bool
  | .dropped _ => true
  | _ => false

/-- The queue and the hook on each of its channels. -/
structure Desk where
  store : ApprovalStore
  hook : ℕ → Wait

inductive DeskAction where
  | enqueue (tool : String) (order : Order) (idAt createdAt : DateTime)
  | poll (ch : ℕ) (timedOut : Bool)
  | drop (ch : ℕ)
  | decide (id : String) (state : ApprovalState) (reason : Option String) (now : DateTime)
  | sweep (now : DateTime)

/-- What was done. -/
inductive DeskEvent where
  | enqueued (t : Ticket)
  | resumed (ch : ℕ) (state : ApprovalState)
  | dropped (ch : ℕ)
  | decided (id : String) (state : ApprovalState) (result : Except String Bool)
  | swept

/-- The id and the state of a decision. -/
def DeskEvent.decision? : DeskEvent → Option (String × ApprovalState)
  | .decided id state _ => some (id, state)
  | _ => none

/-- The channel of a hook that is dropped. -/
def DeskEvent.dropped? : DeskEvent → Option ℕ
  | .dropped ch => some ch
  | _ => none

structure DeskRecord where
  before : Desk
  event : DeskEvent
  after : Desk

namespace Desk

/-- An empty queue. -/
def start (timeout : ℕ) : Desk := ⟨.new timeout, fun _ => .absent⟩

/-- `enqueue`. -/
def enqueue (d : Desk) (tool : String) (order : Order) (idAt createdAt : DateTime) : Desk × DeskEvent :=
  let r := d.store.enqueue tool order idAt createdAt
  (⟨r.2, Function.update d.hook r.1.rx (.waiting r.1)⟩, .enqueued r.1)

/-- `Ticket::wait` is polled. -/
def poll (d : Desk) (ch : ℕ) (timedOut : Bool) : Option (Desk × DeskEvent) :=
  match d.hook ch with
  | .waiting t =>
    (t.poll d.store.watch timedOut).map fun state =>
      ({ d with hook := Function.update d.hook ch (.received t state) }, .resumed ch state)
  | _ => none

/-- The waiting request is dropped. -/
def drop (d : Desk) (ch : ℕ) : Option (Desk × DeskEvent) :=
  match d.hook ch with
  | .waiting t => some ({ d with hook := Function.update d.hook ch (.dropped t) }, .dropped ch)
  | _ => none

def move (d : Desk) : DeskAction → Option (Desk × DeskEvent)
  | .enqueue tool order idAt createdAt => some (d.enqueue tool order idAt createdAt)
  | .poll ch timedOut => d.poll ch timedOut
  | .drop ch => d.drop ch
  | .decide id state reason now =>
    let r := d.store.decide id state reason now
    some ({ d with store := r.2 }, .decided id state r.1)
  | .sweep now => some ({ d with store := d.store.sweepExpired now }, .swept)

/-- The queue and its hooks as a system. -/
def system : Lts Desk DeskAction DeskRecord :=
  ⟨fun d a => (d.move a).map fun r => (r.1, ⟨d, r.2, r.1⟩)⟩

/-- What a step can do. -/
inductive Moved (d : Desk) : Desk → DeskEvent → Prop where
  | enqueued (tool : String) (order : Order) (idAt createdAt : DateTime) :
    Moved d (d.enqueue tool order idAt createdAt).1 (d.enqueue tool order idAt createdAt).2
  | resumed {ch : ℕ} {t : Ticket} {timedOut : Bool} {state : ApprovalState} (hwait : d.hook ch = .waiting t)
    (hpoll : t.poll d.store.watch timedOut = some state) :
    Moved d { d with hook := Function.update d.hook ch (.received t state) } (.resumed ch state)
  | dropped {ch : ℕ} {t : Ticket} (hwait : d.hook ch = .waiting t) :
    Moved d { d with hook := Function.update d.hook ch (.dropped t) } (.dropped ch)
  | decided (id : String) (state : ApprovalState) (reason : Option String) (now : DateTime) :
    Moved d { d with store := (d.store.decide id state reason now).2 }
      (.decided id state (d.store.decide id state reason now).1)
  | swept (now : DateTime) : Moved d { d with store := d.store.sweepExpired now } .swept

theorem desk_moved {d d' : Desk} {a : DeskAction} {o : DeskRecord} (h : system.step d a = some (d', o)) :
    o.before = d ∧ Moved d d' o.event := by
  obtain ⟨⟨d₁, ev⟩, hmove, heq⟩ := Option.map_eq_some_iff.mp h
  obtain ⟨rfl, rfl⟩ := Prod.mk.inj heq
  refine ⟨rfl, ?_⟩
  cases a with
  | enqueue tool order idAt createdAt =>
    obtain ⟨rfl, rfl⟩ := Prod.mk.inj (Option.some.inj hmove)
    exact .enqueued tool order idAt createdAt
  | poll ch timedOut =>
    simp only [move, poll] at hmove
    split at hmove
    · next t hwait =>
      obtain ⟨state, hpoll, heq⟩ := Option.map_eq_some_iff.mp hmove
      obtain ⟨rfl, rfl⟩ := Prod.mk.inj heq
      exact .resumed hwait hpoll
    · cases hmove
  | drop ch =>
    simp only [move, drop] at hmove
    split at hmove
    · next t hwait =>
      obtain ⟨rfl, rfl⟩ := Prod.mk.inj (Option.some.inj hmove)
      exact .dropped hwait
    · cases hmove
  | decide id state reason now =>
    obtain ⟨rfl, rfl⟩ := Prod.mk.inj (Option.some.inj hmove)
    exact .decided id state reason now
  | sweep now =>
    obtain ⟨rfl, rfl⟩ := Prod.mk.inj (Option.some.inj hmove)
    exact .swept now

/-- **Agreement.** The hook of what is recorded as approved received that, or it
waits and will, whether or not its timer fires. -/
def Agrees (d : Desk) : Prop :=
  ∀ e ∈ d.store.entries, e.approval.state = .approved →
    ∃ t, t.id = e.approval.id ∧ (d.hook e.tx = .received t .approved ∨
      d.hook e.tx = .waiting t ∧ ∀ timedOut, t.poll d.store.watch timedOut = some .approved)

end Desk

/-- A decision does not come for an approval that is still pending after its
ticket's timer has fired, nor approves one whose hook was dropped. -/
def Desk.DecidedInTime (d : Desk) (id : String) (state : ApprovalState) : Prop :=
  state.isTerminal → ∀ e ∈ d.store.find id, e.approval.state = .pending →
    (d.hook e.tx).isExpired = false ∧ (state = .approved → (d.hook e.tx).isDropped = false)

/-- A decision is made in time, and no hook is dropped that is yet to be told of
its approval. -/
structure DeskRecord.InTime (o : DeskRecord) : Prop where
  decided : ∀ r ∈ o.event.decision?, o.before.DecidedInTime r.1 r.2
  dropped : ∀ ch ∈ o.event.dropped?, ∀ e ∈ o.before.store.entries, e.tx = ch → e.approval.state ≠ .approved

instance (d : Desk) (id : String) (state : ApprovalState) : Decidable (d.DecidedInTime id state) :=
  inferInstanceAs (Decidable (state.isTerminal → ∀ e ∈ d.store.find id, e.approval.state = .pending →
    (d.hook e.tx).isExpired = false ∧ (state = .approved → (d.hook e.tx).isDropped = false)))

instance (o : DeskRecord) : Decidable o.InTime :=
  decidable_of_iff ((∀ r ∈ o.event.decision?, o.before.DecidedInTime r.1 r.2) ∧ ∀ ch ∈ o.event.dropped?,
      ∀ e ∈ o.before.store.entries, e.tx = ch → e.approval.state ≠ .approved)
    ⟨fun h => ⟨h.1, h.2⟩, fun h => ⟨h.1, h.2⟩⟩

/-! ### Ids -/

/-- The id of the n-th approval, queued at a time in milliseconds. -/
def approvalId (ms : ℤ) (n : ℕ) : String := s!"apr-{ms}-{n}"

/-- An id tells the number: it is what follows the last dash. -/
theorem approvalId_injective {ms ms' : ℤ} {n n' : ℕ} (h : approvalId ms n = approvalId ms' n') : n = n' := by
  have hdigits : ∀ k : ℕ, ∀ ch ∈ (toString k).toList.reverse, decide (ch ≠ '-') = true := by
    intro k ch hch
    have hmem : ch ∈ Nat.toDigits 10 k := by simpa using hch
    have hdigit := Nat.isDigit_of_mem_toDigits (by omega) (by omega) hmem
    refine decide_eq_true fun hdash => ?_
    rw [hdash] at hdigit
    exact absurd hdigit (by decide)
  have hend : ∀ (ms : ℤ) (k : ℕ), (approvalId ms k).toList.reverse.takeWhile (fun ch => decide (ch ≠ '-')) =
      (toString k).toList.reverse := by
    intro ms k
    have hlist : approvalId ms k = "apr-" ++ toString ms ++ "-" ++ toString k := rfl
    rw [hlist, String.toList_append, List.reverse_append, List.takeWhile_append_of_pos (hdigits k)]
    simp
  have hrev : (toString n).toList.reverse = (toString n').toList.reverse := by
    rw [← hend ms n, ← hend ms' n', h]
  exact Nat.repr_inj.mp (String.toList_inj.mp (List.reverse_injective hrev))

/-! ### The queue -/

/-- **The queue's invariant.** Its entries have channels and ids of their own, and
their channels say what they say. -/
structure ApprovalStore.Inv (st : ApprovalStore) : Prop where
  bound : ∀ e ∈ st.entries, e.tx ≤ st.seq
  unique : (st.entries.map Entry.tx).Nodup
  numbered : ∀ e ∈ st.entries, ∃ ms, e.approval.id = approvalId ms e.tx
  told : ∀ e ∈ st.entries, st.watch e.tx = e.approval.state

namespace ApprovalStore

variable {st : ApprovalStore} {id : String} {state : ApprovalState} {reason : Option String} {now : DateTime}

theorem Inv.eq_of_tx (hi : st.Inv) {e e' : Entry} (he : e ∈ st.entries) (he' : e' ∈ st.entries) (h : e.tx = e'.tx) :
    e = e' :=
  List.inj_on_of_nodup_map hi.unique he he' h

theorem trim_sublist (retain : ℕ) (entries : List Entry) : (trim retain entries).Sublist entries := by
  unfold trim
  simp only
  split_ifs
  · refine (List.filter_sublist.map Prod.fst).trans ?_
    rw [List.zipIdx_map_fst]
  · exact List.Sublist.refl _

theorem map_tx_setFirst {p : Entry → Bool} {v e : Entry} : ∀ {l : List Entry}, l.find? p = some e → v.tx = e.tx →
    (setFirst p v l).map Entry.tx = l.map Entry.tx
  | [], h, _ => by cases h
  | x :: xs, h, hv => by
    by_cases hx : p x
    · obtain rfl : x = e := by simpa [hx] using h
      simp [setFirst, hx, hv]
    · have hrest : xs.find? p = some e := by simpa [hx] using h
      simp [setFirst, hx, map_tx_setFirst hrest hv]

theorem mem_setFirst_self {p : Entry → Bool} {v e : Entry} : ∀ {l : List Entry}, l.find? p = some e →
    v ∈ setFirst p v l
  | [], h => by cases h
  | x :: xs, h => by
    by_cases hx : p x
    · simp [setFirst, hx]
    · have hrest : xs.find? p = some e := by simpa [hx] using h
      simp [setFirst, hx, mem_setFirst_self hrest]

theorem inv_new (timeout : ℕ) : (new timeout).Inv :=
  ⟨fun _ h => (by cases h), List.nodup_nil, fun _ h => (by cases h), fun _ h => (by cases h)⟩

theorem inv_enqueue (hi : st.Inv) (tool : String) (order : Order) (idAt createdAt : DateTime) :
    (st.enqueue tool order idAt createdAt).2.Inv := by
  have hne : ∀ e ∈ st.entries, e.tx ≠ st.seq + 1 := fun e he => by
    have := hi.bound e he
    omega
  constructor
  · intro e he
    rcases List.mem_append.mp he with he | he
    · exact Nat.le_succ_of_le (hi.bound e he)
    · obtain rfl := List.mem_singleton.mp he
      exact Nat.le_refl _
  · simp only [enqueue, List.map_append, List.map_singleton]
    refine List.nodup_append.mpr ⟨hi.unique, List.nodup_singleton _, ?_⟩
    intro a ha b hb
    obtain ⟨e, he, rfl⟩ := List.mem_map.mp ha
    obtain rfl := List.mem_singleton.mp hb
    exact hne e he
  · intro e he
    rcases List.mem_append.mp he with he | he
    · exact hi.numbered e he
    · obtain rfl := List.mem_singleton.mp he
      exact ⟨_, rfl⟩
  · intro e he
    rcases List.mem_append.mp he with he | he
    · simp only [enqueue, Function.update_of_ne (hne e he)]
      exact hi.told e he
    · obtain rfl := List.mem_singleton.mp he
      simp [enqueue, pendingApproval]

/-- An entry after a decision: as before, or the one decided. -/
theorem mem_decided (hi : st.Inv) {e₀ e : Entry} (hfind : st.find id = some e₀)
    (he : e ∈ trim st.retain (setFirst (fun x => x.approval.id = id) (Entry.decided e₀ state now reason) st.entries)) :
    e = Entry.decided e₀ state now reason ∨ e ∈ st.entries ∧ e.tx ≠ e₀.tx := by
  have hmem := (trim_sublist _ _).mem he
  have htx := map_tx_setFirst (v := Entry.decided e₀ state now reason) hfind rfl
  by_cases h : e.tx = e₀.tx
  · refine .inl (List.inj_on_of_nodup_map (htx ▸ hi.unique) hmem (mem_setFirst_self hfind) h)
  · rcases mem_setFirst hmem with rfl | hmem
    · exact absurd rfl h
    · exact .inr ⟨hmem, h⟩

theorem inv_decide (hi : st.Inv) : (st.decide id state reason now).2.Inv := by
  rcases decide_cases st id state reason now with ⟨-, hsame⟩ | ⟨-, e₀, hfind, -, hst⟩
  · rw [hsame]
    exact hi
  · have he₀ : e₀ ∈ st.entries := List.mem_of_find?_eq_some hfind
    rw [hst]
    constructor
    · intro e he
      rcases mem_decided hi hfind he with rfl | ⟨he, -⟩
      · exact hi.bound e₀ he₀
      · exact hi.bound e he
    · refine List.Nodup.sublist ((trim_sublist _ _).map Entry.tx) ?_
      have htx := map_tx_setFirst (v := Entry.decided e₀ state now reason) hfind rfl
      exact htx ▸ hi.unique
    · intro e he
      rcases mem_decided hi hfind he with rfl | ⟨he, -⟩
      · exact hi.numbered e₀ he₀
      · exact hi.numbered e he
    · intro e he
      rcases mem_decided hi hfind he with rfl | ⟨he, hne⟩
      · simp [Entry.decided]
      · simp only [Function.update_of_ne hne]
        exact hi.told e he

theorem mem_swept {e : Entry} (he : e ∈ (st.sweepExpired now).entries) :
    ∃ e₀ ∈ st.entries, e = if st.overdue now e₀ then Entry.expire e₀ now else e₀ := by
  obtain ⟨e₀, he₀, rfl⟩ := List.mem_map.mp ((trim_sublist _ _).mem he)
  exact ⟨e₀, he₀, rfl⟩

/-- The sweeper tells the channels of the overdue approvals, and no other. -/
theorem watch_sweep (hi : st.Inv) {e : Entry} (he : e ∈ st.entries) :
    (st.sweepExpired now).watch e.tx = if st.overdue now e then .expired else st.watch e.tx := by
  have hany : (st.entries.any fun x => st.overdue now x && x.tx = e.tx) = st.overdue now e := by
    rw [Bool.eq_iff_iff, List.any_eq_true]
    constructor
    · rintro ⟨x, hx, hboth⟩
      obtain ⟨hover, htx⟩ := Bool.and_eq_true_iff.mp hboth
      rwa [← hi.eq_of_tx hx he (of_decide_eq_true htx)]
    · intro hover
      exact ⟨e, he, by simp [hover]⟩
  simp only [sweepExpired, hany]

theorem inv_sweep (hi : st.Inv) : (st.sweepExpired now).Inv := by
  have htx : ∀ e, (if st.overdue now e then Entry.expire e now else e).tx = e.tx := fun e => by
    split_ifs <;> rfl
  have hid : ∀ e, (if st.overdue now e then Entry.expire e now else e).approval.id = e.approval.id := fun e => by
    split_ifs <;> rfl
  constructor
  · intro e he
    obtain ⟨e₀, he₀, rfl⟩ := mem_swept he
    rw [htx]
    exact hi.bound e₀ he₀
  · refine List.Nodup.sublist ((trim_sublist _ _).map Entry.tx) ?_
    rw [List.map_map]
    have hsame : Entry.tx ∘ (fun e => if st.overdue now e then Entry.expire e now else e) = Entry.tx := funext htx
    rw [hsame]
    exact hi.unique
  · intro e he
    obtain ⟨e₀, he₀, rfl⟩ := mem_swept he
    rw [htx, hid]
    exact hi.numbered e₀ he₀
  · intro e he
    obtain ⟨e₀, he₀, rfl⟩ := mem_swept he
    rw [htx, watch_sweep hi he₀]
    split_ifs
    · rfl
    · exact hi.told e₀ he₀

end ApprovalStore

/-! ### The hooks -/

/-- **The invariant.** Every entry has its hook; a wait ended with what was told, or
with its own timer; and the hook of what is approved got that, or waits. -/
structure Desk.Inv (d : Desk) : Prop where
  store : d.store.Inv
  ticket : ∀ ch t, (d.hook ch).ticket? = some t → t.rx = ch ∧ ch ≤ d.store.seq ∧ ∃ ms, t.id = approvalId ms ch
  hooked : ∀ e ∈ d.store.entries, ∃ t, (d.hook e.tx).ticket? = some t ∧ t.id = e.approval.id
  sent : ∀ ch t state, d.hook ch = .received t state → state = .expired ∨ state.isTerminal ∧ d.store.watch ch = state
  answered : ∀ e ∈ d.store.entries, e.approval.state = .approved →
    ∃ t, d.hook e.tx = .received t .approved ∨ d.hook e.tx = .waiting t

namespace Desk

variable {d d' : Desk} {ev : DeskEvent}

theorem inv_start (timeout : ℕ) : (start timeout).Inv :=
  ⟨ApprovalStore.inv_new timeout, fun _ _ h => (by cases h), fun _ h => (by cases h), fun _ _ _ h => (by cases h),
    fun _ h => (by cases h)⟩

theorem Inv.agree (hi : d.Inv) : d.Agrees := by
  intro e he happ
  obtain ⟨t, ht⟩ := hi.answered e he happ
  obtain ⟨t', htk, hid⟩ := hi.hooked e he
  have htold : d.store.watch e.tx = .approved := by rw [hi.store.told e he, happ]
  rcases ht with ht | ht
  · obtain rfl : t = t' := by simpa [ht, Wait.ticket?] using htk
    exact ⟨t, hid, .inl ht⟩
  · obtain rfl : t = t' := by simpa [ht, Wait.ticket?] using htk
    have hrx := (hi.ticket _ _ htk).1
    exact ⟨t, hid, .inr ⟨ht, fun timedOut => by simp [Ticket.poll, hrx, htold, ApprovalState.isTerminal]⟩⟩

theorem inv_enqueue (hi : d.Inv) (tool : String) (order : Order) (idAt createdAt : DateTime) :
    (d.enqueue tool order idAt createdAt).1.Inv := by
  have hold : ∀ e ∈ d.store.entries, e.tx ≠ d.store.seq + 1 := fun e he => by
    have := hi.store.bound e he
    omega
  refine ⟨ApprovalStore.inv_enqueue hi.store tool order idAt createdAt, fun ch t ht => ?_, fun e he => ?_,
    fun ch t state ht => ?_, fun e he happ => ?_⟩
  · by_cases hch : ch = d.store.seq + 1
    · subst hch
      obtain rfl : _ = t := by simpa [enqueue, ApprovalStore.enqueue, Wait.ticket?] using ht
      exact ⟨rfl, Nat.le_refl _, _, rfl⟩
    · have ht : (d.hook ch).ticket? = some t := by simpa [enqueue, ApprovalStore.enqueue, hch] using ht
      obtain ⟨hrx, hle, hid⟩ := hi.ticket ch t ht
      exact ⟨hrx, Nat.le_succ_of_le hle, hid⟩
  · rcases List.mem_append.mp he with he | he
    · obtain ⟨t, ht⟩ := hi.hooked e he
      exact ⟨t, by simpa [enqueue, ApprovalStore.enqueue, hold e he] using ht⟩
    · obtain rfl := List.mem_singleton.mp he
      exact ⟨_, by simp [enqueue, ApprovalStore.enqueue, Wait.ticket?]; rfl, rfl⟩
  · by_cases hch : ch = d.store.seq + 1
    · subst hch
      simp [enqueue, ApprovalStore.enqueue] at ht
    · have ht : d.hook ch = .received t state := by simpa [enqueue, ApprovalStore.enqueue, hch] using ht
      simpa [enqueue, ApprovalStore.enqueue, hch] using hi.sent ch t state ht
  · rcases List.mem_append.mp he with he | he
    · obtain ⟨t, ht⟩ := hi.answered e he happ
      exact ⟨t, by simpa [enqueue, ApprovalStore.enqueue, hold e he] using ht⟩
    · obtain rfl := List.mem_singleton.mp he
      cases happ

theorem inv_hook {ch : ℕ} {t : Ticket} {w : Wait} (hi : d.Inv) (hwait : d.hook ch = .waiting t)
    (hticket : w.ticket? = some t) (hsent : ∀ state, w = .received t state →
      state = .expired ∨ state.isTerminal ∧ d.store.watch ch = state)
    (hanswered : ∀ e ∈ d.store.entries, e.tx = ch → e.approval.state = .approved → w = .received t .approved) :
    Desk.Inv { d with hook := Function.update d.hook ch w } := by
  have hsame : ∀ c, (Function.update d.hook ch w c).ticket? = (d.hook c).ticket? := by
    intro c
    by_cases hc : c = ch
    · subst hc
      rw [Function.update_self, hticket, hwait]
      rfl
    · simp [hc]
  refine ⟨hi.store, fun c t' ht => hi.ticket c t' (hsame c ▸ ht), fun e he => ?_, fun c t' state ht => ?_,
    fun e he happ => ?_⟩
  · rw [hsame]
    exact hi.hooked e he
  · by_cases hc : c = ch
    · subst hc
      have hw : w = .received t' state := by simpa using ht
      obtain rfl : t' = t := by simpa [hw, Wait.ticket?] using hticket
      exact hsent state hw
    · exact hi.sent c t' state (by simpa [hc] using ht)
  · by_cases hc : e.tx = ch
    · exact ⟨t, .inl (by simp [hc, hanswered e he hc happ])⟩
    · obtain ⟨t', ht⟩ := hi.answered e he happ
      exact ⟨t', by simpa [hc] using ht⟩

theorem inv_resumed {ch : ℕ} {t : Ticket} {timedOut : Bool} {state : ApprovalState} (hi : d.Inv)
    (hwait : d.hook ch = .waiting t) (hpoll : t.poll d.store.watch timedOut = some state) :
    Desk.Inv { d with hook := Function.update d.hook ch (.received t state) } := by
  have hrx : t.rx = ch := (hi.ticket ch t (by rw [hwait]; rfl)).1
  unfold Ticket.poll at hpoll
  rw [hrx] at hpoll
  refine inv_hook hi hwait rfl (fun state' hs => ?_) fun e he htx happ => ?_
  · obtain rfl : state = state' := by simpa using hs
    split_ifs at hpoll with hterm hlate
    · obtain rfl := Option.some.inj hpoll
      exact .inr ⟨hterm, rfl⟩
    · exact .inl (Option.some.inj hpoll).symm
  · -- what is approved is on the channel, whether or not the timer has fired
    have htold : d.store.watch ch = .approved := by rw [← htx, hi.store.told e he, happ]
    rw [htold, if_pos (by decide)] at hpoll
    rw [Option.some.inj hpoll]

theorem inv_dropped {ch : ℕ} {t : Ticket} (hi : d.Inv) (hwait : d.hook ch = .waiting t)
    (hin : ∀ e ∈ d.store.entries, e.tx = ch → e.approval.state ≠ .approved) :
    Desk.Inv { d with hook := Function.update d.hook ch (.dropped t) } :=
  inv_hook hi hwait rfl (fun _ hs => by cases hs) fun e he htx happ => absurd happ (hin e he htx)

/-- A wait on a channel that says pending ended with its timer. -/
theorem Inv.expired_of_pending (hi : d.Inv) {ch : ℕ} {t : Ticket} {state : ApprovalState}
    (ht : d.hook ch = .received t state) (hpending : d.store.watch ch = .pending) : state = .expired := by
  rcases hi.sent ch t state ht with h | ⟨hterm, hwatch⟩
  · exact h
  · rw [← hwatch, hpending] at hterm
    cases hterm

theorem inv_sweep (hi : d.Inv) (now : DateTime) : Desk.Inv { d with store := d.store.sweepExpired now } := by
  refine ⟨ApprovalStore.inv_sweep hi.store, hi.ticket, fun e he => ?_, fun ch t state ht => ?_, fun e he happ => ?_⟩
  · obtain ⟨e₀, he₀, rfl⟩ := ApprovalStore.mem_swept he
    split_ifs
    · exact hi.hooked e₀ he₀
    · exact hi.hooked e₀ he₀
  · cases hany : d.store.entries.any fun e => d.store.overdue now e && e.tx = ch with
    | true =>
      -- an overdue approval is pending, and its channel says so
      obtain ⟨e, he, hboth⟩ := List.any_eq_true.mp hany
      obtain ⟨hover, htx⟩ := Bool.and_eq_true_iff.mp hboth
      have htold := hi.store.told e he
      rw [of_decide_eq_true htx, (of_decide_eq_true hover).1] at htold
      exact .inl (hi.expired_of_pending ht htold)
    | false =>
      simp only [ApprovalStore.sweepExpired, hany]
      exact hi.sent ch t state ht
  · obtain ⟨e₀, he₀, rfl⟩ := ApprovalStore.mem_swept he
    split_ifs at happ ⊢
    · cases happ
    · exact hi.answered e₀ he₀ happ

theorem inv_decide {id : String} {state : ApprovalState} {reason : Option String} {now : DateTime} (hi : d.Inv)
    (hin : d.DecidedInTime id state) :
    Desk.Inv { d with store := (d.store.decide id state reason now).2 } := by
  rcases ApprovalStore.decide_cases d.store id state reason now with ⟨-, hsame⟩ | ⟨htrue, e₀, hfind, hpending, hst⟩
  · rw [hsame]
    exact hi
  · have he₀ : e₀ ∈ d.store.entries := List.mem_of_find?_eq_some hfind
    have hseq : (d.store.decide id state reason now).2.seq = d.store.seq := by rw [hst]
    have hmem : ∀ e ∈ (d.store.decide id state reason now).2.entries,
        e = ApprovalStore.Entry.decided e₀ state now reason ∨ e ∈ d.store.entries ∧ e.tx ≠ e₀.tx := fun e he =>
      ApprovalStore.mem_decided hi.store hfind (by rwa [hst] at he)
    have htold : d.store.watch e₀.tx = .pending := by rw [hi.store.told e₀ he₀, hpending]
    refine ⟨ApprovalStore.inv_decide hi.store, fun ch t ht => ?_, fun e he => ?_, fun ch t s ht => ?_,
      fun e he happ => ?_⟩
    · rw [hseq]
      exact hi.ticket ch t ht
    · rcases hmem e he with rfl | ⟨he, -⟩
      · exact hi.hooked e₀ he₀
      · exact hi.hooked e he
    · by_cases hch : ch = e₀.tx
      · subst hch
        exact .inl (hi.expired_of_pending ht htold)
      · simp only [hst, Function.update_of_ne hch]
        exact hi.sent ch t s ht
    · rcases hmem e he with rfl | ⟨he, -⟩
      · obtain rfl : state = .approved := happ
        obtain ⟨t, ht, -⟩ := hi.hooked e₀ he₀
        obtain ⟨hlate, hgone⟩ := hin (by decide) e₀ hfind hpending
        show ∃ t, d.hook e₀.tx = .received t .approved ∨ d.hook e₀.tx = .waiting t
        cases hhook : d.hook e₀.tx with
        | absent => simp [hhook, Wait.ticket?] at ht
        | waiting t' => exact ⟨t', .inr rfl⟩
        | received t' s =>
          obtain rfl : t' = t := by simpa [hhook, Wait.ticket?] using ht
          obtain rfl := hi.expired_of_pending hhook htold
          rw [hhook] at hlate
          cases hlate
        | dropped t' =>
          have hgone := hgone rfl
          rw [hhook] at hgone
          cases hgone
      · exact hi.answered e he happ

/-- **One step.** A step that is in time keeps the invariant. -/
theorem inv_desk_step {o : DeskRecord} (hmoved : d.Moved d' o.event) (hbefore : o.before = d) (hi : d.Inv)
    (hin : o.InTime) : d'.Inv := by
  subst hbefore
  generalize hev : o.event = ev at hmoved
  cases hmoved with
  | enqueued tool order idAt createdAt => exact inv_enqueue hi tool order idAt createdAt
  | resumed hwait hpoll => exact inv_resumed hi hwait hpoll
  | @dropped ch t hwait => exact inv_dropped hi hwait (hin.dropped ch (by rw [hev]; rfl))
  | decided id state reason now => exact inv_decide hi (hin.decided (id, state) (by rw [hev]; rfl))
  | swept now => exact inv_sweep hi now

theorem Moved.decided_eq {id : String} {state : ApprovalState} {result : Except String Bool}
    (h : d.Moved d' (.decided id state result)) :
    ∃ reason now, result = (d.store.decide id state reason now).1 := by
  cases h with
  | decided _ _ reason now => exact ⟨reason, now, rfl⟩

/-- A decision that is in time has no effect once the ticket has expired. -/
theorem not_decided_of_expired {ch : ℕ} {t : Ticket} {state : ApprovalState} {reason : Option String} {now : DateTime}
    (hi : d.Inv) (hexpired : d.hook ch = .received t .expired) (hin : d.DecidedInTime t.id state) :
    (d.store.decide t.id state reason now).1 ≠ .ok true := by
  intro htrue
  rcases ApprovalStore.decide_cases d.store t.id state reason now with ⟨hne, -⟩ | ⟨-, e, hfind, hpending, -⟩
  · exact hne htrue
  · have hterm : state.isTerminal := by
      by_contra hterm
      simp [ApprovalStore.decide, hterm] at htrue
    -- the entry of that id is on the ticket's channel
    have he : e ∈ d.store.entries := List.mem_of_find?_eq_some hfind
    have hid : e.approval.id = t.id := by simpa using List.find?_some hfind
    obtain ⟨-, -, ms, hms⟩ := hi.ticket ch t (by rw [hexpired]; rfl)
    obtain ⟨ms', hms'⟩ := hi.store.numbered e he
    obtain rfl : e.tx = ch := approvalId_injective ((hms'.symm.trans hid).trans hms)
    have hlate := (hin hterm e hfind hpending).1
    rw [hexpired] at hlate
    cases hlate

end Desk

/-- **Approvals agree.** In a run whose decisions are in time, and in which no hook
is dropped that is yet to be told: what is recorded as approved is what its hook
received or will receive, and a decision on a ticket that has expired is not
made. -/
theorem approved_received (timeout : ℕ) (os : List DeskRecord) (d : Desk)
    (hrun : Desk.system.Run (.start timeout) os d) (hin : ∀ o ∈ os, o.InTime) :
    d.Agrees ∧ ∀ o ∈ os, ∀ id state, o.event = .decided id state (.ok true) →
      ∀ ch t, o.before.hook ch = .received t .expired → t.id ≠ id := by
  have hinv : d.Inv ∧ ∀ o ∈ os, ∀ id state, o.event = .decided id state (.ok true) →
      ∀ ch t, o.before.hook ch = .received t .expired → t.id ≠ id := by
    induction hrun with
    | nil => exact ⟨Desk.inv_start timeout, fun _ h => (by cases h)⟩
    | @snoc os₁ d₁ a d₂ o₁ hr hstep ih =>
      obtain ⟨hi, hlate⟩ := ih fun o ho => hin o (by simp [ho])
      have hin₁ : o₁.InTime := hin o₁ (by simp)
      obtain ⟨rfl, hmoved⟩ := Desk.desk_moved hstep
      refine ⟨Desk.inv_desk_step hmoved rfl hi hin₁, fun o ho id state hev ch t hexpired => ?_⟩
      rcases List.mem_append.mp ho with ho | ho
      · exact hlate o ho id state hev ch t hexpired
      · obtain rfl := List.mem_singleton.mp ho
        rintro rfl
        rw [hev] at hmoved
        obtain ⟨reason, now, htrue⟩ := hmoved.decided_eq
        exact Desk.not_decided_of_expired hi hexpired (hin₁.decided (t.id, state) (by rw [hev]; rfl)) htrue.symm
  exact ⟨hinv.1.agree, hinv.2⟩

/-! ### The hooks of the server -/

/-- A call of the server waits on a ticket. -/
def Phase.ticket? : Phase → Option Ticket
  | .waiting _ _ t => some t
  | _ => none

/-- The server's calls and its queue, seen as a desk: each waiting call is the hook
of a channel of its own. -/
structure DeskOf (s : ServerState) (d : Desk) : Prop where
  store : d.store = s.approvals
  hook : ∀ c t, (s.calls c).ticket? = some t → d.hook t.rx = .waiting t ∧ t.rx ≤ s.approvals.seq
  unique : ∀ c c' t t', (s.calls c).ticket? = some t → (s.calls c').ticket? = some t' → t.rx = t'.rx → c = c'

theorem ServerState.ticket_setCall {s : ServerState} {c c' : ℕ} {p : Phase} {t : Ticket} (hnew : p.ticket? = none)
    (ht : ((s.setCall c p).calls c').ticket? = some t) : (s.calls c').ticket? = some t ∧ c' ≠ c := by
  by_cases hc : c' = c
  · subst hc
    simp [setCall, hnew] at ht
  · exact ⟨by simpa [setCall, hc] using ht, hc⟩

namespace DeskOf

variable {s : ServerState} {d : Desk} {c : ℕ} {p : Phase}

theorem quiet (h : DeskOf s d) (hnew : p.ticket? = none) (s₁ : ServerState) (happ : s₁.approvals = s.approvals)
    (hcalls : s₁.calls = s.calls) : DeskOf (s₁.setCall c p) d := by
  have hset : ∀ {c' t}, ((s₁.setCall c p).calls c').ticket? = some t → (s.calls c').ticket? = some t :=
    fun ht => hcalls ▸ (s₁.ticket_setCall hnew ht).1
  refine ⟨h.store.trans happ.symm, fun c' t ht => ?_, fun c₁ c₂ t₁ t₂ h₁ h₂ => h.unique c₁ c₂ t₁ t₂ (hset h₁) (hset h₂)⟩
  show d.hook t.rx = .waiting t ∧ t.rx ≤ s₁.approvals.seq
  rw [happ]
  exact h.hook c' t (hset ht)

/-- A call stops waiting, and so does the hook of its channel. -/
theorem stop {t : Ticket} {w : Wait} (h : DeskOf s d) (hwait : (s.calls c).ticket? = some t) (hnew : p.ticket? = none) :
    DeskOf (s.setCall c p) { d with hook := Function.update d.hook t.rx w } := by
  refine ⟨h.store, fun c' t' ht => ?_, fun c₁ c₂ t₁ t₂ h₁ h₂ => ?_⟩
  · obtain ⟨ht, hc⟩ := s.ticket_setCall hnew ht
    have hne : t'.rx ≠ t.rx := fun heq => hc (h.unique c' c t' t ht hwait heq)
    simp only [Function.update_of_ne hne]
    exact h.hook c' t' ht
  · exact h.unique c₁ c₂ t₁ t₂ (s.ticket_setCall hnew h₁).1 (s.ticket_setCall hnew h₂).1

/-- The entries and what was sent change, the calls do not. -/
theorem store_step (h : DeskOf s d) (store : ApprovalStore) (hseq : store.seq = s.approvals.seq) :
    DeskOf { s with approvals := store } { d with store } :=
  ⟨rfl, fun c t ht => ⟨(h.hook c t ht).1, hseq ▸ (h.hook c t ht).2⟩, h.unique⟩

/-- An order is queued: its call waits on a channel that no other has. -/
theorem enqueue {hook : ℕ → Wait} (h : DeskOf s ⟨s.approvals, hook⟩) (req : HookRequest) (order : Order)
    (idAt createdAt : DateTime) :
    DeskOf ({ s with approvals := (s.approvals.enqueue req.toolCall.name order idAt createdAt).2 }.setCall c
      (.waiting req order (s.approvals.enqueue req.toolCall.name order idAt createdAt).1))
      ((⟨s.approvals, hook⟩ : Desk).enqueue req.toolCall.name order idAt createdAt).1 := by
  let t := (s.approvals.enqueue req.toolCall.name order idAt createdAt).1
  let s₁ : ServerState :=
    { s with approvals := (s.approvals.enqueue req.toolCall.name order idAt createdAt).2 }.setCall c (.waiting req order t)
  have hcases : ∀ {c' t'}, (s₁.calls c').ticket? = some t' →
      c' = c ∧ t' = t ∨ (s.calls c').ticket? = some t' ∧ c' ≠ c := by
    intro c' t' ht
    by_cases hc : c' = c
    · subst hc
      exact .inl ⟨rfl, by simpa [s₁, ServerState.setCall, Phase.ticket?] using ht.symm⟩
    · exact .inr ⟨by simpa [s₁, ServerState.setCall, hc] using ht, hc⟩
  have hrx : t.rx = s.approvals.seq + 1 := rfl
  refine ⟨rfl, fun c' t' ht => ?_, fun c₁ c₂ t₁ t₂ h₁ h₂ heq => ?_⟩
  · rcases hcases ht with ⟨-, rfl⟩ | ⟨ht, -⟩
    · exact ⟨Function.update_self .., Nat.le_refl _⟩
    · obtain ⟨hhook, hle⟩ := h.hook c' t' ht
      have hne : t'.rx ≠ s.approvals.seq + 1 := by omega
      exact ⟨(Function.update_of_ne hne ..).trans hhook, Nat.le_succ_of_le hle⟩
  · rcases hcases h₁ with ⟨hc₁, ht₁⟩ | ⟨ht₁, -⟩ <;> rcases hcases h₂ with ⟨hc₂, ht₂⟩ | ⟨ht₂, -⟩
    · rw [hc₁, hc₂]
    · have hle := (h.hook c₂ t₂ ht₂).2
      rw [ht₁] at heq
      omega
    · have hle := (h.hook c₁ t₁ ht₁).2
      rw [ht₂] at heq
      omega
    · exact h.unique c₁ c₂ t₁ t₂ ht₁ ht₂ heq

end DeskOf

theorem ticket_afterGate (A : Arith) (control : Control) (req : HookRequest) (outcome : HookOutcome)
    (reparsedAt : DateTime) : (ServerState.afterGate A control req outcome reparsedAt).ticket? = none := by
  unfold ServerState.afterGate
  split
  · split
    · split <;> rfl
    · rfl
    · rfl
  · rfl

theorem ticket_afterWait (req : HookRequest) (order : Order) (state : ApprovalState) :
    (ServerState.afterWait req order state).ticket? = none := by
  cases state <;> rfl

/-- A call that is dropped while it waits, or before. -/
theorem desk_of_dropped {s : ServerState} {d : Desk} {c : ℕ} {p : Phase} (h : DeskOf s d) (hnew : p.ticket? = none) :
    ∃ os d', Desk.system.Run d os d' ∧ DeskOf (s.setCall c p) d' := by
  cases hc : (s.calls c).ticket? with
  | none => exact ⟨[], d, .nil, h.quiet hnew s rfl rfl⟩
  | some t =>
    obtain ⟨o, hstep⟩ : ∃ o, Desk.system.step d (.drop t.rx) =
        some ({ d with hook := Function.update d.hook t.rx (.dropped t) }, o) := by
      simp only [Desk.system, Desk.move, Desk.drop, (h.hook c t hc).1]
      exact ⟨_, rfl⟩
    exact ⟨_, _, .snoc .nil hstep, h.stop hc hnew⟩

/-- **One step.** A step of the server is at most one of the desk. -/
theorem desk_of_moved {A : Arith} {s s' : ServerState} {e : ServerEvent} {d : Desk} (hmoved : Moved A s s' e)
    (h : DeskOf s d) : ∃ os d', Desk.system.Run d os d' ∧ DeskOf s' d' := by
  obtain ⟨store, hook⟩ := d
  obtain rfl : store = s.approvals := h.store
  cases hmoved with
  | received hc => exact ⟨[], _, .nil, h.quiet rfl s rfl rfl⟩
  | refused hc => exact ⟨[], _, .nil, h.quiet rfl s rfl rfl⟩
  | gated hc heval => exact ⟨[], _, .nil, h.quiet (ticket_afterGate ..) s rfl rfl⟩
  | enqueued hc => exact ⟨_, _, .snoc (a := .enqueue _ _ _ _) .nil rfl, h.enqueue _ _ _ _⟩
  | @resumed c req order ticket timedOut state hc hpoll =>
    have hwait : (s.calls c).ticket? = some ticket := by rw [hc]; rfl
    have hhook : hook ticket.rx = .waiting ticket := (h.hook c ticket hwait).1
    obtain ⟨o, hstep⟩ : ∃ o, Desk.system.step ⟨s.approvals, hook⟩ (.poll ticket.rx timedOut) =
        some (⟨s.approvals, Function.update hook ticket.rx (.received ticket state)⟩, o) := by
      simp only [Desk.system, Desk.move, Desk.poll, hhook, hpoll]
      exact ⟨_, rfl⟩
    exact ⟨_, _, .snoc .nil hstep, h.stop hwait (ticket_afterWait req order state)⟩
  | booked hc hn htry => exact ⟨[], _, .nil, h.quiet rfl _ rfl rfl⟩
  | breached hc htry => exact ⟨[], _, .nil, h.quiet rfl _ rfl rfl⟩
  | replied hc => exact ⟨[], _, .nil, h.quiet rfl s rfl rfl⟩
  | dropped hc => exact desk_of_dropped h rfl
  | panicked hc => exact desk_of_dropped h rfl
  | @decided id state reason now htrue =>
    have hseq : (s.approvals.decide id state reason now).2.seq = s.approvals.seq := by
      rcases ApprovalStore.decide_cases s.approvals id state reason now with ⟨-, hst⟩ | ⟨-, e, -, -, hst⟩ <;> rw [hst]
    exact ⟨_, _, .snoc (a := .decide id state reason now) .nil rfl, h.store_step _ hseq⟩
  | @swept now => exact ⟨_, _, .snoc (a := .sweep now) .nil rfl, h.store_step _ rfl⟩
  | other hcalls happ =>
    refine ⟨[], _, .nil, happ.symm, fun c t ht => ?_, fun c c' t t' ht ht' => ?_⟩
    · rw [happ]
      exact h.hook c t (hcalls ▸ ht)
    · exact h.unique c c' t t' (hcalls ▸ ht) (hcalls ▸ ht')

/-- **The server's queue is the desk.** In every run of the server its approvals
and its waiting calls go through a run of the desk. -/
theorem desk_of_run {A : Arith} {cfg : ServerConfig} {control : Control} {timeout : ℕ} {budget : SessionBudget}
    {os : List ServerRecord} {s : ServerState}
    (hrun : (Server.system A cfg).Run (.start control timeout budget) os s) :
    ∃ os' d, Desk.system.Run (.start timeout) os' d ∧ DeskOf s d := by
  induction hrun with
  | nil => exact ⟨[], _, .nil, rfl, fun c t ht => (by cases ht), fun c c' t t' ht => (by cases ht)⟩
  | snoc hr hstep ih =>
    obtain ⟨os', d, hd, h⟩ := ih
    obtain ⟨os'', d', hd', h'⟩ := desk_of_moved (ServerState.step_moved hstep).2.2 h
    exact ⟨_, d', hd.trans hd', h'⟩

/-! ### Too late -/

/-- An order that waits for approval. -/
def heldOrder : Order where
  id := ⟨"hook-0"⟩
  asset := .ofSymbol "ROAR"
  side := .buy
  qty := 2
  limitPrice := some 100
  maxSlippage := 0
  venue := .robinhoodMcp
  reason := "agent tool call: place_order"

/-- The operator approves, the hook is told, and the sweeper finds nothing to do. -/
def approvedInTime : List DeskAction :=
  [.enqueue "place_order" heldOrder .epoch .epoch, .decide "apr-0-1" .approved none .epoch, .poll 1 true, .sweep .epoch]

/-- The ticket's timer fires, and the operator approves before the sweeper comes. -/
def approvedLate : List DeskAction :=
  [.enqueue "place_order" heldOrder .epoch .epoch, .poll 1 true, .decide "apr-0-1" .approved none .epoch]

theorem approved_received_approvedInTime : ∃ os d, Desk.system.Run (.start 0) os d ∧ d.Agrees ∧
    ∃ e ∈ d.store.entries, e.approval.state = .approved := by
  have hexec : (Desk.system.exec (.start 0) approvedInTime).map (fun r => decide
      ((∀ o ∈ r.2, o.InTime) ∧ ∃ e ∈ r.1.store.entries, e.approval.state = .approved)) = some true := by
    decide +kernel
  obtain ⟨⟨d, os⟩, hrun, hall⟩ := Option.map_eq_some_iff.mp hexec
  obtain ⟨hin, happroved⟩ := of_decide_eq_true hall
  exact ⟨os, d, .of_exec hrun, (approved_received 0 os d (.of_exec hrun) hin).1, happroved⟩

/-- A late approval is recorded, and the hook was told that it expired. -/
theorem late_approval_recorded : ¬ ∀ (timeout : ℕ) (os : List DeskRecord) (d : Desk),
    Desk.system.Run (.start timeout) os d → d.Agrees ∧
      ∀ o ∈ os, ∀ id state, o.event = .decided id state (.ok true) →
        ∀ ch t, o.before.hook ch = .received t .expired → t.id ≠ id := by
  intro hclaim
  have hexec : (Desk.system.exec (.start (120 * 10 ^ 9)) approvedLate).map (fun r => decide
      (r.1.hook 1 = .received ⟨"apr-0-1", 1⟩ .expired ∧
        ∃ e ∈ r.1.store.entries, e.tx = 1 ∧ e.approval.state = .approved)) = some true := by
    decide +kernel
  obtain ⟨⟨d, os⟩, hrun, hall⟩ := Option.map_eq_some_iff.mp hexec
  obtain ⟨hhook, e, he, htx, happroved⟩ := of_decide_eq_true hall
  obtain ⟨t, -, ht⟩ := (hclaim _ os d (.of_exec hrun)).1 e he happroved
  rw [htx, hhook] at ht
  simp at ht

end Sherwood
