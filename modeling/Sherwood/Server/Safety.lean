/-
# What an allowed order went through

The three stages of `pretooluse` are behind three locks, and anything may
happen in between. What holds over every interleaving is carried by a
statement for each phase a call can be in (`PhaseInv`): from the gate on, the
one gate record of the call, on which its order was read and checked; from
the approval on, that its own approval was decided approved; and which
notionals the budget booked for it. An approval is tied to its call by its
channel, whose number no other call gets (`Inv.unique`), and `approved` is on
a channel only if the operator's decision sent it there (`Inv.watch`).

Key definitions: `gatesOf`, `bookedOf`, `Gated`, `Approved`, `PhaseInv`, `Inv`.
Key theorems: `inv_step`, `inv_run`, `pretooluse_sound`.
-/
import Sherwood.Server.System

namespace Sherwood

/-! ### What a run says of a call -/

/-- The event is the gate of call `c`. -/
def ServerEvent.isGate (c : ℕ) : ServerEvent → Bool
  | .gated c' .. => c' = c
  | _ => false

/-- The notional that the event books for call `c`. -/
def ServerEvent.bookedBy (c : ℕ) : ServerEvent → Option ℚ
  | .recorded c' notional (.ok ()) => if c' = c then some notional else none
  | _ => none

/-- The answer that the event gives, and to which call. -/
def ServerEvent.reply : ServerEvent → Option (ℕ × HookOutcome)
  | .replied c outcome => some (c, outcome)
  | _ => none

/-- On this record the call `c` is gated, its tool being one to place orders. -/
def ServerRecord.gatesOrder (c : ℕ) (o : ServerRecord) : Bool :=
  match o.event with
  | .gated c' req .. => c' = c && o.before.control.allowlist.classify req.toolCall.name = some .placeOrder
  | _ => false

/-- The gate records of a call. -/
def gatesOf (c : ℕ) (os : List ServerRecord) : List ServerRecord := os.filter fun o => o.event.isGate c

/-- The notionals that the budget booked for a call. -/
def bookedOf (c : ℕ) (os : List ServerRecord) : List ℚ := os.filterMap fun o => o.event.bookedBy c

/-- On the record `g` the call `c` of a place-order tool was gated: its order was
read, and it passed the risk gate under the control state of that record.
`order` is that order as it was read again. -/
inductive Gated (A : Arith) (g : ServerRecord) (c : ℕ) (req : HookRequest) (order : Order) : Prop
  | intro {now parsedAt reparsedAt : DateTime} {checked : Order} :
      g.event = .gated c req now parsedAt reparsedAt →
      g.before.control.allowlist.classify req.toolCall.name = some .placeOrder →
      parseOrder A req.toolCall.name req.toolCall.arguments 0 parsedAt = .ok checked →
      RiskGate.check A g.before.control.risk checked (req.context.gateContext now) = .ok () →
      order = { checked with id := nextId reparsedAt } → Gated A g c req order

/-- The call `c` queued the approval `a` of its order, on the channel `ch`. -/
structure Queued (os : List ServerRecord) (c : ℕ) (order : Order) (a : Approval) (ch : ℕ) : Prop where
  enqueued : ∃ o ∈ os, o.event = .enqueued c a ch
  summary : a.order = .ofOrder order

/-- The approval `a` of the channel `ch` was decided `approved`. -/
structure DecidedApproved (os : List ServerRecord) (a : Approval) (ch : ℕ) : Prop where
  decided : ∃ o ∈ os, ∃ e : Entry, o.event = .decided .approved (some e) ∧ e.tx = ch ∧
    e.approval.id = a.id ∧ e.approval.order = a.order

/-- The call `c` queued an approval of its order, and it was approved. -/
def Approved (os : List ServerRecord) (c : ℕ) (order : Order) : Prop :=
  ∃ a ch, Queued os c order a ch ∧ DecidedApproved os a ch

/-- A call was let through to the budget: gated, and approved in manual mode. -/
structure Vetted (A : Arith) (os : List ServerRecord) (c : ℕ) (req : HookRequest) (order : Order)
    (g : ServerRecord) : Prop where
  gates : gatesOf c os = [g]
  gated : Gated A g c req order
  approved : g.before.control.approvalMode = .manual → Approved os c order

/-- What stands behind an answer: nothing was booked, and if it is `allow` no
order was allowed; or an order was allowed that was vetted and booked once. -/
inductive Verdict (A : Arith) (os : List ServerRecord) (c : ℕ) (outcome : HookOutcome) : Prop
  | unbooked : bookedOf c os = [] →
      (outcome = .allow → ∃ g req now parsedAt reparsedAt, gatesOf c os = [g] ∧
        g.event = .gated c req now parsedAt reparsedAt ∧
        g.before.control.allowlist.classify req.toolCall.name ≠ some .placeOrder) → Verdict A os c outcome
  | booked {req : HookRequest} {order : Order} {g : ServerRecord} {notional : ℚ} : outcome = .allow →
      Vetted A os c req order g → req.notional A order = some notional → bookedOf c os = [notional] →
      Verdict A os c outcome

/-- What holds of a call in each of its phases. -/
def PhaseInv (A : Arith) (os : List ServerRecord) (c : ℕ) : Phase → Prop
  | .idle | .received _ => gatesOf c os = [] ∧ bookedOf c os = []
  | .held req order => bookedOf c os = [] ∧ ∃ g, gatesOf c os = [g] ∧ Gated A g c req order
  | .waiting req order ticket => bookedOf c os = [] ∧
      (∃ g, gatesOf c os = [g] ∧ Gated A g c req order) ∧
      ∃ a, Queued os c order a ticket.rx ∧ a.id = ticket.id
  | .cleared req order => bookedOf c os = [] ∧ ∃ g, Vetted A os c req order g
  | .replying outcome | .answered outcome => Verdict A os c outcome
  | .refused _ | .dropped | .panicked => True

/-- **The invariant.** What holds of every call, and what ties channels,
approvals and entries to the calls that queued them. -/
structure Inv (A : Arith) (os : List ServerRecord) (s : ServerState) : Prop where
  phase : ∀ c, PhaseInv A os c (s.calls c)
  answered : ∀ o ∈ os, ∀ c outcome, o.event = .replied c outcome → s.calls c = .answered outcome
  fresh : ∀ o ∈ os, ∀ c a ch, o.event = .enqueued c a ch → ch ≤ s.approvals.seq
  unique : ∀ o ∈ os, ∀ o' ∈ os, ∀ c c' a a' ch, o.event = .enqueued c a ch →
    o'.event = .enqueued c' a' ch → c = c' ∧ a = a'
  entries : ∀ e ∈ s.approvals.entries, ∃ o ∈ os, ∃ c a, o.event = .enqueued c a e.tx ∧
    e.approval.id = a.id ∧ e.approval.order = a.order
  watch : ∀ ch, s.approvals.watch ch = .approved → ∃ o ∈ os, ∃ e : Entry,
    o.event = .decided .approved (some e) ∧ e.tx = ch ∧ ∃ o' ∈ os, ∃ c a, o'.event = .enqueued c a ch ∧
      e.approval.id = a.id ∧ e.approval.order = a.order
  counters : ∀ o ∈ os, ∀ c, o.event.call = some c → o.before.budget.SameUse o.after.budget ∨
    ∃ notional, o.event = .recorded c notional (.ok ())

section

variable {A : Arith} {os : List ServerRecord} {o : ServerRecord} {c : ℕ}

@[simp] theorem ServerEvent.reply_eq_some {e : ServerEvent} {outcome : HookOutcome} :
    e.reply = some (c, outcome) ↔ e = .replied c outcome := by
  cases e <;> simp [ServerEvent.reply]

theorem ServerRecord.gatesOrder_iff : o.gatesOrder c = true ↔ ∃ req now parsedAt reparsedAt,
    o.event = .gated c req now parsedAt reparsedAt ∧
      o.before.control.allowlist.classify req.toolCall.name = some .placeOrder := by
  unfold ServerRecord.gatesOrder
  constructor
  · intro h
    split at h
    · next c' req now parsedAt reparsedAt he =>
      obtain ⟨hc, hcls⟩ := Bool.and_eq_true_iff.mp h
      obtain rfl := of_decide_eq_true hc
      exact ⟨req, now, parsedAt, reparsedAt, he, of_decide_eq_true hcls⟩
    · simp at h
  · rintro ⟨req, now, parsedAt, reparsedAt, he, hcls⟩
    simp [he, hcls]

theorem ServerRecord.isGate_of_gatesOrder (h : o.gatesOrder c = true) : o.event.isGate c = true := by
  obtain ⟨req, now, parsedAt, reparsedAt, he, -⟩ := ServerRecord.gatesOrder_iff.mp h
  simp [he, ServerEvent.isGate]

/-! ### Longer runs -/

theorem isGate_of_call_ne {e : ServerEvent} (h : e.call ≠ some c) : e.isGate c = false := by
  cases e <;> simp_all [ServerEvent.call, ServerEvent.isGate]

theorem bookedBy_of_call_ne {e : ServerEvent} (h : e.call ≠ some c) : e.bookedBy c = none := by
  cases e with
  | recorded c' notional result =>
    have hne : c' ≠ c := by simpa [ServerEvent.call] using h
    cases result <;> simp [ServerEvent.bookedBy, hne]
  | _ => rfl

theorem gatesOf_snoc : gatesOf c (os ++ [o]) = gatesOf c os ++ if o.event.isGate c then [o] else [] := by
  unfold gatesOf
  rw [List.filter_append]
  cases h : o.event.isGate c <;> simp [h]

theorem bookedOf_snoc : bookedOf c (os ++ [o]) = bookedOf c os ++ (o.event.bookedBy c).toList := by
  unfold bookedOf
  rw [List.filterMap_append]
  cases h : o.event.bookedBy c <;> simp [h]

theorem gatesOf_snoc_of_not (h : o.event.isGate c = false) : gatesOf c (os ++ [o]) = gatesOf c os := by
  rw [gatesOf_snoc, h]
  simp

theorem bookedOf_snoc_of_not (h : o.event.bookedBy c = none) : bookedOf c (os ++ [o]) = bookedOf c os := by
  rw [bookedOf_snoc, h]
  simp

theorem Queued.snoc {order : Order} {a : Approval} {ch : ℕ} (h : Queued os c order a ch) :
    Queued (os ++ [o]) c order a ch := by
  obtain ⟨⟨o₁, ho₁, he⟩, hsum⟩ := h
  exact ⟨⟨o₁, List.mem_append_left _ ho₁, he⟩, hsum⟩

theorem Approved.snoc {order : Order} (h : Approved os c order) : Approved (os ++ [o]) c order := by
  obtain ⟨a, ch, hq, ⟨o₁, ho₁, e, he⟩⟩ := h
  exact ⟨a, ch, hq.snoc, ⟨o₁, List.mem_append_left _ ho₁, e, he⟩⟩

theorem Vetted.snoc {req : HookRequest} {order : Order} {g : ServerRecord} (h : Vetted A os c req order g)
    (hg : o.event.isGate c = false) : Vetted A (os ++ [o]) c req order g :=
  ⟨by rw [gatesOf_snoc_of_not hg]; exact h.gates, h.gated, fun hm => (h.approved hm).snoc⟩

/-- What holds of a call stays while its gate and its booking are not at issue. -/
theorem PhaseInv.snoc {p : Phase} (h : PhaseInv A os c p) (hg : o.event.isGate c = false)
    (hb : o.event.bookedBy c = none) : PhaseInv A (os ++ [o]) c p := by
  have hgates : gatesOf c (os ++ [o]) = gatesOf c os := gatesOf_snoc_of_not hg
  have hbooked : bookedOf c (os ++ [o]) = bookedOf c os := bookedOf_snoc_of_not hb
  have hverdict : ∀ outcome, Verdict A os c outcome → Verdict A (os ++ [o]) c outcome := by
    rintro outcome (⟨h1, h2⟩ | ⟨h1, h2, h3, h4⟩)
    · exact .unbooked (by rw [hbooked]; exact h1) (by rw [hgates]; exact h2)
    · exact .booked h1 (h2.snoc hg) h3 (by rw [hbooked]; exact h4)
  cases p with
  | idle => exact ⟨by rw [hgates]; exact h.1, by rw [hbooked]; exact h.2⟩
  | received req => exact ⟨by rw [hgates]; exact h.1, by rw [hbooked]; exact h.2⟩
  | held req order => exact ⟨by rw [hbooked]; exact h.1, by rw [hgates]; exact h.2⟩
  | waiting req order ticket =>
    obtain ⟨h1, h2, a, hq, hid⟩ := h
    exact ⟨by rw [hbooked]; exact h1, by rw [hgates]; exact h2, a, hq.snoc, hid⟩
  | cleared req order =>
    obtain ⟨h1, g, hv⟩ := h
    exact ⟨by rw [hbooked]; exact h1, g, hv.snoc hg⟩
  | replying outcome => exact hverdict outcome h
  | answered outcome => exact hverdict outcome h
  | refused e => exact trivial
  | dropped => exact trivial
  | panicked => exact trivial

/-! ### One step -/

variable {s s' : ServerState}

theorem setCall_calls {motive : Phase → Prop} {s₀ : ServerState} {p : Phase} {c' : ℕ}
    (hcalls : s₀.calls = s.calls) (hmoved : c' = c → motive p) (hstay : c' ≠ c → motive (s.calls c')) :
    motive ((s₀.setCall c p).calls c') := by
  by_cases hc : c' = c
  · have hp : (s₀.setCall c p).calls c' = p := by simp [ServerState.setCall, hc]
    rw [hp]
    exact hmoved hc
  · have hsame : (s₀.setCall c p).calls c' = s.calls c' := by simp [ServerState.setCall, hc, hcalls]
    rw [hsame]
    exact hstay hc

/-- A call moves on: the others keep what holds of them. -/
theorem phase_setCall {s₀ : ServerState} (hcalls : s₀.calls = s.calls)
    (h : ∀ c, PhaseInv A os c (s.calls c)) (hcall : o.event.call = some c) {p : Phase}
    (hp : PhaseInv A (os ++ [o]) c p) (c' : ℕ) : PhaseInv A (os ++ [o]) c' ((s₀.setCall c p).calls c') := by
  refine setCall_calls (motive := PhaseInv A (os ++ [o]) c') hcalls (fun hc => hc ▸ hp) fun hc => ?_
  have hne : o.event.call ≠ some c' := by
    rw [hcall]
    simpa using Ne.symm hc
  exact (h c').snoc (isGate_of_call_ne hne) (bookedBy_of_call_ne hne)

/-- From the gate: an order goes on only if it was read and checked. -/
theorem phase_gated {req : HookRequest} {now parsedAt reparsedAt : DateTime} {outcome : HookOutcome}
    (hold : PhaseInv A os c (.received req)) (hb : o.before = s)
    (he : o.event = .gated c req now parsedAt reparsedAt)
    (heval : (HookGate.new s.control.allowlist s.control.risk).evaluate A req.toolCall
      (req.context.gateContext now) parsedAt = some outcome) :
    PhaseInv A (os ++ [o]) c (ServerState.afterGate A s.control req outcome reparsedAt) := by
  have hgates : gatesOf c (os ++ [o]) = [o] := by
    rw [gatesOf_snoc, hold.1, he]
    simp [ServerEvent.isGate]
  have hbooked : bookedOf c (os ++ [o]) = [] := by
    rw [bookedOf_snoc_of_not (by rw [he]; rfl)]
    exact hold.2
  unfold ServerState.afterGate
  split_ifs with hplace
  · -- the order passed the gate, and the second reading agrees with the first
    obtain ⟨rfl, hcls⟩ := hplace
    obtain ⟨checked, hparse, hcheck⟩ := (evaluate_place_allow_iff hcls).mp heval
    have hparse' : parseOrder A req.toolCall.name req.toolCall.arguments 0 parsedAt = .ok checked := hparse
    rw [parseOrder_again reparsedAt hparse']
    simp only
    have hg : Gated A o c req { checked with id := nextId reparsedAt } :=
      ⟨he, by rw [hb]; exact hcls, hparse', by rw [hb]; exact hcheck, rfl⟩
    cases hmode : s.control.approvalMode with
    | manual => exact ⟨hbooked, o, hgates, hg⟩
    | auto => exact ⟨hbooked, o, hgates, hg, fun hm => by simp [hb, hmode] at hm⟩
  · refine .unbooked hbooked fun hallow => ⟨o, req, now, parsedAt, reparsedAt, hgates, he, fun hcls => ?_⟩
    rw [hb] at hcls
    exact hplace ⟨hallow, hcls⟩

/-- From the wait: an approved ticket is one whose own approval was decided. -/
theorem phase_resumed {req : HookRequest} {order : Order} {ticket : Ticket} {timedOut : Bool}
    {state : ApprovalState} (hI : Inv A os s) (hc : s.calls c = .waiting req order ticket)
    (hpoll : ticket.poll s.approvals.watch timedOut = some state) :
    PhaseInv A os c (ServerState.afterWait req order state) := by
  have hold := hI.phase c
  rw [hc] at hold
  obtain ⟨hbooked, ⟨g, hgates, hg⟩, a, hq, -⟩ := hold
  have hdeny : ∀ reason, Verdict A os c (.deny reason) := fun reason => .unbooked hbooked (by simp)
  cases state with
  | approved =>
    have hwatch : s.approvals.watch ticket.rx = .approved := by
      unfold Ticket.poll at hpoll
      split_ifs at hpoll
      · exact Option.some.inj hpoll
      · simp at hpoll
    obtain ⟨o₁, ho₁, e, he, htx, o₂, ho₂, c₂, a₂, henq, hid, horder⟩ := hI.watch _ hwatch
    obtain ⟨⟨o₃, ho₃, henq'⟩, -⟩ := id hq
    obtain ⟨-, rfl⟩ := hI.unique o₂ ho₂ o₃ ho₃ _ _ _ _ _ henq henq'
    exact ⟨hbooked, g, hgates, hg, fun _ => ⟨_, _, hq, o₁, ho₁, e, he, htx, hid, horder⟩⟩
  | denied => exact hdeny _
  | expired => exact hdeny _
  | pending => exact hdeny _

theorem phase_step (hI : Inv A os s) (hb : o.before = s) (h : Moved A s s' o.event) :
    ∀ c, PhaseInv A (os ++ [o]) c (s'.calls c) := by
  generalize he : o.event = e at h
  -- what holds of the call that moved, before it did
  have hold : ∀ c p, s.calls c = p → PhaseInv A os c p := fun c p hc => hc ▸ hI.phase c
  have hcall : ∀ c, e.call = some c → o.event.call = some c := fun c hc => by rw [he]; exact hc
  have hstay : e.call = none → s'.calls = s.calls → ∀ c, PhaseInv A (os ++ [o]) c (s'.calls c) := by
    intro hnone hcalls c
    have hne : o.event.call ≠ some c := by rw [he, hnone]; simp
    rw [hcalls]
    exact (hI.phase c).snoc (isGate_of_call_ne hne) (bookedBy_of_call_ne hne)
  cases h with
  | received hc =>
    refine phase_setCall rfl hI.phase (hcall _ rfl) ?_
    have hidle := PhaseInv.snoc (o := o) (hold _ _ hc) (by rw [he]; rfl) (by rw [he]; rfl)
    exact hidle
  | refused hc => exact phase_setCall rfl hI.phase (hcall _ rfl) trivial
  | gated hc heval => exact phase_setCall rfl hI.phase (hcall _ rfl) (phase_gated (hold _ _ hc) hb he heval)
  | @enqueued c req order idAt createdAt hc =>
    refine phase_setCall rfl hI.phase (hcall _ rfl) ?_
    obtain ⟨hbooked, hg⟩ := PhaseInv.snoc (o := o) (hold _ _ hc) (by rw [he]; rfl) (by rw [he]; rfl)
    exact ⟨hbooked, hg, s.approvals.pendingApproval req.toolCall.name order idAt createdAt,
      ⟨⟨o, by simp, he⟩, rfl⟩, rfl⟩
  | resumed hc hpoll =>
    refine phase_setCall rfl hI.phase (hcall _ rfl) ?_
    exact (phase_resumed hI hc hpoll).snoc (by rw [he]; rfl) (by rw [he]; rfl)
  | @booked c req order notional now later budget hc hn htry =>
    refine phase_setCall rfl hI.phase (hcall _ rfl) ?_
    obtain ⟨hbooked, g, hv⟩ := hold _ _ hc
    refine .booked rfl (hv.snoc (by rw [he]; rfl)) hn ?_
    rw [bookedOf_snoc, hbooked, he]
    simp [ServerEvent.bookedBy]
  | @breached c req order notional now later breach budget reason hc htry =>
    refine phase_setCall rfl hI.phase (hcall _ rfl) ?_
    obtain ⟨hbooked, -⟩ := hold _ _ hc
    refine .unbooked ?_ (by simp)
    rw [bookedOf_snoc_of_not (by rw [he]; rfl)]
    exact hbooked
  | @replied c outcome hc =>
    refine phase_setCall rfl hI.phase (hcall _ rfl) ?_
    have hverdict := PhaseInv.snoc (o := o) (hold _ _ hc) (by rw [he]; rfl) (by rw [he]; rfl)
    exact hverdict
  | dropped hc => exact phase_setCall rfl hI.phase (hcall _ rfl) trivial
  | panicked hc => exact phase_setCall rfl hI.phase (hcall _ rfl) trivial
  | decided hd => exact hstay rfl rfl
  | swept => exact hstay rfl rfl
  | other hcalls happ hnone hdec => exact hstay hnone hcalls

/-- An answered call is never moved again. -/
theorem Moved.answered {e : ServerEvent} {outcome : HookOutcome} (h : Moved A s s' e)
    (hc : s.calls c = .answered outcome) : s'.calls c = .answered outcome := by
  have hset : ∀ (s₀ : ServerState) (c' : ℕ) (p : Phase), s₀.calls = s.calls → s.calls c' ≠ s.calls c →
      (s₀.setCall c' p).calls c = .answered outcome := by
    intro s₀ c' p hcalls hne
    exact setCall_calls (motive := fun q => q = .answered outcome) hcalls
      (fun heq => absurd (by rw [heq]) hne) fun _ => hc
  cases h with
  | received hc' => exact hset _ _ _ rfl (by rw [hc, hc']; simp)
  | refused hc' => exact hset _ _ _ rfl (by rw [hc, hc']; simp)
  | gated hc' _ => exact hset _ _ _ rfl (by rw [hc, hc']; simp)
  | enqueued hc' => exact hset _ _ _ rfl (by rw [hc, hc']; simp)
  | resumed hc' _ => exact hset _ _ _ rfl (by rw [hc, hc']; simp)
  | booked hc' _ _ => exact hset _ _ _ rfl (by rw [hc, hc']; simp)
  | breached hc' _ => exact hset _ _ _ rfl (by rw [hc, hc']; simp)
  | replied hc' => exact hset _ _ _ rfl (by rw [hc, hc']; simp)
  | dropped hf => exact hset _ _ _ rfl fun heq => by simp [heq, hc, Phase.InFlight] at hf
  | panicked hf => exact hset _ _ _ rfl fun heq => by simp [heq, hc, Phase.InFlight] at hf
  | decided _ => exact hc
  | swept => exact hc
  | other hcalls _ _ _ => rw [hcalls]; exact hc

/-- An answer is given once, by a call that was to give it. -/
theorem Moved.replied_calls {e : ServerEvent} {outcome : HookOutcome} (h : Moved A s s' e)
    (he : e = .replied c outcome) : s.calls c = .replying outcome ∧ s'.calls c = .answered outcome := by
  cases h with
  | replied hc =>
    obtain ⟨rfl, rfl⟩ := ServerEvent.replied.inj he
    exact ⟨hc, by simp [ServerState.setCall]⟩
  | other _ _ hnone _ => simp [he, ServerEvent.call] at hnone
  | _ => simp at he

theorem Moved.seq {e : ServerEvent} (h : Moved A s s' e) : s.approvals.seq ≤ s'.approvals.seq := by
  cases h with
  | @decided id state reason now hd =>
    obtain ⟨-, heq⟩ | ⟨-, e, -, -, heq⟩ := ApprovalStore.decide_cases s.approvals id state reason now
    · rw [heq]
    · rw [heq]
  | enqueued hc => exact Nat.le_succ _
  | other _ happ _ _ => rw [happ]
  | _ => exact le_rfl

theorem Moved.enqueued_seq {e : ServerEvent} {a : Approval} {ch : ℕ} (h : Moved A s s' e)
    (he : e = .enqueued c a ch) : ch = s.approvals.seq + 1 ∧ s'.approvals.seq = s.approvals.seq + 1 := by
  cases h with
  | enqueued hc =>
    obtain ⟨-, -, rfl⟩ := ServerEvent.enqueued.inj he
    exact ⟨rfl, rfl⟩
  | other _ _ hnone _ => simp [he, ServerEvent.call] at hnone
  | _ => simp at he

/-- An entry stands for an approval that was there, or that was just queued. -/
theorem Moved.entries {e : ServerEvent} (h : Moved A s s' e) {en : Entry} (hen : en ∈ s'.approvals.entries) :
    (∃ en₀ ∈ s.approvals.entries, ApprovalStore.SameApproval en en₀) ∨
      ∃ c, e = .enqueued c en.approval en.tx := by
  have hkeep : en ∈ s.approvals.entries → ∃ en₀ ∈ s.approvals.entries, ApprovalStore.SameApproval en en₀ :=
    fun h => ⟨en, h, rfl, rfl, rfl⟩
  cases h with
  | @enqueued c req order idAt createdAt hc =>
    have hmem : en ∈ s.approvals.entries ++
        [⟨s.approvals.pendingApproval req.toolCall.name order idAt createdAt, s.approvals.seq + 1⟩] := hen
    rcases List.mem_append.mp hmem with hmem | hmem
    · exact .inl (hkeep hmem)
    · rw [List.mem_singleton.mp hmem]
      exact .inr ⟨c, rfl⟩
  | decided hd => exact .inl (ApprovalStore.mem_decide hen)
  | swept => exact .inl (ApprovalStore.mem_sweep hen)
  | other _ happ _ _ => rw [happ] at hen; exact .inl (hkeep hen)
  | _ => exact .inl (hkeep hen)

/-- A channel says `approved` since an operator's decision of its entry. -/
theorem Moved.watch {e : ServerEvent} (h : Moved A s s' e) {ch : ℕ}
    (hw : s'.approvals.watch ch = .approved) : s.approvals.watch ch = .approved ∨
      ∃ en ∈ s.approvals.entries, e = .decided .approved (some en) ∧ en.tx = ch := by
  cases h with
  | @enqueued c req order idAt createdAt hc =>
    have hup : Function.update s.approvals.watch (s.approvals.seq + 1) .pending ch = .approved := hw
    by_cases hch : ch = s.approvals.seq + 1
    · simp [hch] at hup
    · rw [Function.update_of_ne hch] at hup
      exact .inl hup
  | @decided id state reason now hd =>
    obtain ⟨hne, -⟩ | ⟨-, en, hfind, -, heq⟩ := ApprovalStore.decide_cases s.approvals id state reason now
    · exact absurd hd hne
    · have hup : Function.update s.approvals.watch en.tx state ch = .approved := by
        have hw' : (s.approvals.decide id state reason now).2.watch ch = .approved := hw
        rw [heq] at hw'
        exact hw'
      by_cases hch : ch = en.tx
      · subst hch
        rw [Function.update_self] at hup
        exact .inr ⟨en, List.mem_of_find?_eq_some hfind, by rw [hup, hfind], rfl⟩
      · rw [Function.update_of_ne hch] at hup
        exact .inl hup
  | swept => exact .inl (ApprovalStore.sweep_watch hw)
  | other _ happ _ _ => rw [happ] at hw; exact .inl hw
  | _ => exact .inl hw

theorem Moved.counters {e : ServerEvent} (h : Moved A s s' e) (hc : e.call = some c) :
    s.budget.SameUse s'.budget ∨ ∃ notional, e = .recorded c notional (.ok ()) := by
  cases h with
  | @booked c' req order notional now later budget hc' hn htry =>
    obtain rfl : c' = c := Option.some.inj hc
    exact .inr ⟨notional, rfl⟩
  | breached hc' htry => exact .inl (SessionBudget.tryRecord_error htry)
  | other _ _ hnone _ => simp [hnone] at hc
  | _ => exact .inl ⟨rfl, rfl⟩

/-! ### Every run -/

theorem inv_start (control : Control) (timeout : ℕ) (budget : SessionBudget) :
    Inv A [] (.start control timeout budget) where
  phase c := ⟨rfl, rfl⟩
  answered := by simp
  fresh := by simp
  unique := by simp
  entries e he := absurd he List.not_mem_nil
  watch ch h := by simp [ServerState.start, ApprovalStore.new] at h
  counters := by simp

/-- **One step.** Every step keeps the invariant. -/
theorem inv_step (hI : Inv A os s) (hb : o.before = s) (ha : o.after = s') (h : Moved A s s' o.event) :
    Inv A (os ++ [o]) s' where
  phase := phase_step hI hb h
  answered := by
    intro o₁ ho₁ c outcome he
    rcases List.mem_append.mp ho₁ with ho₁ | ho₁
    · exact h.answered (hI.answered o₁ ho₁ c outcome he)
    · rw [List.mem_singleton.mp ho₁] at he
      exact (h.replied_calls he).2
  fresh := by
    intro o₁ ho₁ c a ch he
    rcases List.mem_append.mp ho₁ with ho₁ | ho₁
    · exact (hI.fresh o₁ ho₁ c a ch he).trans h.seq
    · rw [List.mem_singleton.mp ho₁] at he
      have hch := h.enqueued_seq he
      omega
  unique := by
    intro o₁ ho₁ o₂ ho₂ c c' a a' ch he he'
    -- the channel of the new approval is above all others
    have hnew : ∀ o₃ ∈ os, ∀ c₃ a₃ c₄ a₄, o₃.event = .enqueued c₃ a₃ ch → o.event ≠ .enqueued c₄ a₄ ch := by
      intro o₃ ho₃ c₃ a₃ c₄ a₄ he₃ he₄
      have hold := hI.fresh o₃ ho₃ _ _ _ he₃
      have hch := h.enqueued_seq he₄
      omega
    rcases List.mem_append.mp ho₁ with ho₁ | ho₁ <;> rcases List.mem_append.mp ho₂ with ho₂ | ho₂
    · exact hI.unique o₁ ho₁ o₂ ho₂ c c' a a' ch he he'
    · rw [List.mem_singleton.mp ho₂] at he'
      exact absurd he' (hnew o₁ ho₁ _ _ _ _ he)
    · rw [List.mem_singleton.mp ho₁] at he
      exact absurd he (hnew o₂ ho₂ _ _ _ _ he')
    · rw [List.mem_singleton.mp ho₁] at he
      rw [List.mem_singleton.mp ho₂, he] at he'
      exact ⟨(ServerEvent.enqueued.inj he').1, (ServerEvent.enqueued.inj he').2.1⟩
  entries := by
    intro en hen
    rcases h.entries hen with ⟨en₀, hen₀, hid, horder, htx⟩ | ⟨c, he⟩
    · obtain ⟨o₁, ho₁, c, a, he, hid', horder'⟩ := hI.entries en₀ hen₀
      exact ⟨o₁, List.mem_append_left _ ho₁, c, a, by rw [htx]; exact he, hid.trans hid', horder.trans horder'⟩
    · exact ⟨o, by simp, c, _, he, rfl, rfl⟩
  watch := by
    intro ch hw
    rcases h.watch hw with hw | ⟨en, hen, he, rfl⟩
    · obtain ⟨o₁, ho₁, en, he, htx, o₂, ho₂, hrest⟩ := hI.watch ch hw
      exact ⟨o₁, List.mem_append_left _ ho₁, en, he, htx, o₂, List.mem_append_left _ ho₂, hrest⟩
    · obtain ⟨o₂, ho₂, hrest⟩ := hI.entries en hen
      exact ⟨o, by simp, en, he, rfl, o₂, List.mem_append_left _ ho₂, hrest⟩
  counters := by
    intro o₁ ho₁ c hc
    rcases List.mem_append.mp ho₁ with ho₁ | ho₁
    · exact hI.counters o₁ ho₁ c hc
    · rw [List.mem_singleton.mp ho₁] at hc ⊢
      rw [hb, ha]
      exact h.counters hc

variable {cfg : ServerConfig} {control : Control} {timeout : ℕ} {budget : SessionBudget}

/-- **Every run.** The invariant holds of every run of a started server. -/
theorem inv_run (h : (Server.system A cfg).Run (.start control timeout budget) os s) : Inv A os s := by
  refine Lts.Run.inv (P := Inv A) (inv_start control timeout budget) ?_ h
  intro os s a s' o _ hI hs
  obtain ⟨hb, ha, hmoved⟩ := ServerState.step_moved hs
  exact inv_step hI hb ha hmoved

/-- What stands behind an order that was allowed, on its gate record `g`: it was
read, and whenever it is read again it is the same but for its id; it passed
the risk gate under the control state read there; where that asked for it,
this call queued an approval of this order, which was decided `approved` and
stands behind no other call; and the budget booked it once, at its quantity
times its price. -/
structure AllowedOrder (A : Arith) (os : List ServerRecord) (g : ServerRecord) (c : ℕ) (req : HookRequest)
    (now parsedAt : DateTime) (order : Order) : Prop where
  parsed : parseOrder A req.toolCall.name req.toolCall.arguments 0 parsedAt = .ok order
  reparsed : ∀ later, parseOrder A req.toolCall.name req.toolCall.arguments 0 later =
    .ok { order with id := nextId later }
  checked : RiskGate.check A g.before.control.risk order (req.context.gateContext now) = .ok ()
  approved : g.before.control.approvalMode = .manual → ∃ a ch, Queued os c order a ch ∧
    DecidedApproved os a ch ∧ ∀ o ∈ os, ∀ c' a', o.event = .enqueued c' a' ch → c' = c
  booked : ∃ price notional, order.mark (req.context.gateContext now) = some price ∧
    A.fit (order.qty * price) = some notional ∧ bookedOf c os = [notional]

theorem gate_eq {g g' : ServerRecord} (hgates : gatesOf c os = [g]) (hg' : g' ∈ os)
    (hgate : g'.event.isGate c = true) : g' = g := by
  have hmem : g' ∈ gatesOf c os := List.mem_filter.mpr ⟨hg', hgate⟩
  rw [hgates] at hmem
  exact List.mem_singleton.mp hmem

/-- Behind an allowed order is a vetted one that was booked. -/
theorem Verdict.vetted {g : ServerRecord} (h : Verdict A os c .allow) (hg : g ∈ os)
    (horder : g.gatesOrder c = true) : ∃ req order notional, Vetted A os c req order g ∧
      req.notional A order = some notional ∧ bookedOf c os = [notional] := by
  have hgate := ServerRecord.isGate_of_gatesOrder horder
  rcases h with ⟨-, hother⟩ | ⟨-, hv, hn, hbooked⟩
  · obtain ⟨g', req, now, parsedAt, reparsedAt, hgates, he, hcls⟩ := hother rfl
    obtain rfl := gate_eq hgates hg hgate
    obtain ⟨req', _, _, _, he', hcls'⟩ := ServerRecord.gatesOrder_iff.mp horder
    obtain ⟨-, rfl, -⟩ := ServerEvent.gated.inj (he.symm.trans he')
    exact absurd hcls' hcls
  · obtain rfl := gate_eq hv.gates hg hgate
    exact ⟨_, _, _, hv, hn, hbooked⟩

theorem Vetted.allowedOrder {req req' : HookRequest} {order : Order} {g : ServerRecord} {notional : ℚ}
    {now parsedAt reparsedAt : DateTime} (hI : Inv A os s) (hv : Vetted A os c req' order g)
    (he : g.event = .gated c req now parsedAt reparsedAt) (hn : req'.notional A order = some notional)
    (hbooked : bookedOf c os = [notional]) : ∃ checked, AllowedOrder A os g c req now parsedAt checked := by
  obtain ⟨he', hcls, hparse, hcheck, rfl⟩ := hv.gated
  rename_i now' parsedAt' reparsedAt' checked
  obtain ⟨-, rfl, rfl, rfl, rfl⟩ := ServerEvent.gated.inj (he.symm.trans he')
  obtain ⟨-, price, notional', hmark, hfit⟩ := RiskGate.check_ok_priced hcheck
  have hprice : checked.limitPrice.or req.context.refPrice = some price := hmark
  have hn' : A.fit (checked.qty * price) = some notional := by
    simpa [HookRequest.notional, hprice] using hn
  refine ⟨checked, hparse, fun later => parseOrder_again later hparse, hcheck, fun hm => ?_, price, notional, hmark,
    hn', hbooked⟩
  obtain ⟨a, ch, hq, hd⟩ := hv.approved hm
  refine ⟨a, ch, ⟨hq.enqueued, hq.summary⟩, hd, fun o ho c' a' hc' => ?_⟩
  obtain ⟨o₁, ho₁, henq⟩ := hq.enqueued
  exact (hI.unique o ho o₁ ho₁ c' c a' a ch hc' henq).1

theorem Verdict.exists_gate (h : Verdict A os c .allow) :
    ∃ g ∈ os, ∃ req now parsedAt reparsedAt, g.event = .gated c req now parsedAt reparsedAt := by
  obtain ⟨g, hgates, hgated⟩ : ∃ g, gatesOf c os = [g] ∧
      ∃ req now parsedAt reparsedAt, g.event = .gated c req now parsedAt reparsedAt := by
    rcases h with ⟨-, hother⟩ | ⟨-, hv, -, -⟩
    · obtain ⟨g, req, now, parsedAt, reparsedAt, hgates, he, -⟩ := hother rfl
      exact ⟨g, hgates, req, now, parsedAt, reparsedAt, he⟩
    · obtain ⟨he, -⟩ := hv.gated
      exact ⟨_, hv.gates, _, _, _, _, he⟩
  have hmem : g ∈ gatesOf c os := by rw [hgates]; simp
  exact ⟨g, (List.mem_filter.mp hmem).1, hgated⟩

theorem Verdict.sameUse {reason : String} (hI : Inv A os s) (h : Verdict A os c (.deny reason)) (ho : o ∈ os)
    (hc : o.event.call = some c) : o.before.budget.SameUse o.after.budget := by
  rcases h with ⟨hnone, -⟩ | ⟨hallow, -, -, -⟩
  · rcases hI.counters o ho c hc with hsame | ⟨notional, he⟩
    · exact hsame
    · have hmem : notional ∈ bookedOf c os :=
        List.mem_filterMap.mpr ⟨o, ho, by rw [he]; simp [ServerEvent.bookedBy]⟩
      rw [hnone] at hmem
      exact absurd hmem List.not_mem_nil
  · simp at hallow

/-- **Soundness of the hook.** In every run of the server, whatever calls,
decisions, sweeps, resets and reloads interleave: an allowed call was gated,
and if it was gated as a place-order its order went through all three stages.
No step of a call that is answered `deny` changes the counters. -/
theorem pretooluse_sound (h : (Server.system A cfg).Run (.start control timeout budget) os s) (c : ℕ) :
    ((∃ o ∈ os, o.event = .replied c .allow) →
      ∃ g ∈ os, ∃ req now parsedAt reparsedAt, g.event = .gated c req now parsedAt reparsedAt) ∧
    (∀ g ∈ os, ∀ req now parsedAt reparsedAt, g.event = .gated c req now parsedAt reparsedAt →
      g.before.control.allowlist.classify req.toolCall.name = some .placeOrder →
      (∃ o ∈ os, o.event = .replied c .allow) →
      ∃ order, AllowedOrder A os g c req now parsedAt order) ∧
    ((∃ o ∈ os, ∃ reason, o.event = .replied c (.deny reason)) →
      ∀ o ∈ os, o.event.call = some c → o.before.budget.SameUse o.after.budget) := by
  have hI := inv_run h
  -- an answer is backed by what holds of the phase its call ended in
  have hverdict : ∀ outcome, (∃ o ∈ os, o.event = .replied c outcome) → Verdict A os c outcome := by
    rintro outcome ⟨o, ho, he⟩
    have hphase := hI.phase c
    rw [hI.answered o ho c outcome he] at hphase
    exact hphase
  refine ⟨fun hreply => (hverdict _ hreply).exists_gate, fun g hg req now parsedAt reparsedAt he hcls hreply => ?_,
    fun hreply o ho hc => ?_⟩
  · have horder : g.gatesOrder c = true :=
      ServerRecord.gatesOrder_iff.mpr ⟨req, now, parsedAt, reparsedAt, he, hcls⟩
    obtain ⟨req', order, notional, hv, hn, hbooked⟩ := (hverdict _ hreply).vetted hg horder
    exact hv.allowedOrder hI he hn hbooked
  · obtain ⟨o', ho', reason, he'⟩ := hreply
    exact (hverdict _ ⟨o', ho', he'⟩).sameUse hI ho hc

end

/-- A server that holds every order for approval, at time zero. -/
def manualServer : ServerState :=
  .start ⟨.paper, .default, someTools, .manual⟩ (600 * 10 ^ 9) (.new ⟨5, 0, 0⟩ 0)

/-- The operator's token, and the admin's. -/
def twoTokens : ServerConfig := ⟨⟨"admin-token", some "operator-token", none⟩, false⟩

/-- A request to buy `qty` of `ROAR` at 10, with 1000 of cash. -/
def buyRequest (qty : UInt64) : HookRequest :=
  ⟨buyCall (.num (.posInt qty)) (.num (.posInt 10)), ⟨.new 1000, none, 1000, 0, none⟩⟩

/-- Two calls are held for approval; the operator approves the first and denies
the second. -/
def heldOrders : List ServerAction :=
  [.arrive 0 (some "operator-token") (.ok (buyRequest 2)), .gate 0 .epoch .epoch .epoch,
    .arrive 1 (some "operator-token") (.ok (buyRequest 1)), .enqueue 0 .epoch .epoch,
    .gate 1 .epoch .epoch .epoch, .enqueue 1 .epoch .epoch,
    .approval (some "operator-token") "apr-0-2" "deny" none .epoch,
    .approval (some "operator-token") "apr-0-1" "approve" none .epoch,
    .poll 1 false, .poll 0 false, .record 0 0 0, .reply 0, .reply 1]

theorem pretooluse_sound_heldOrders :
    ∃ os s, (Server.system .dec96 twoTokens).Run manualServer os s ∧
      (∃ g ∈ os, g.before.control.approvalMode = .manual ∧
        ∃ req now parsedAt order, AllowedOrder .dec96 os g 0 req now parsedAt order) ∧
      ∀ o ∈ os, o.event.call = some 1 → o.before.budget.SameUse o.after.budget := by
  have hexec : ((Server.system .dec96 twoTokens).exec manualServer heldOrders).map (fun r =>
      decide ((∃ o ∈ r.2, o.event.reply = some (0, .allow)) ∧
        (∃ o ∈ r.2, o.event.reply = some (1, .deny "operator denied the order")) ∧
        ∃ g ∈ r.2, g.gatesOrder 0 = true ∧ g.before.control.approvalMode = .manual)) = some true := by
    decide +kernel
  obtain ⟨⟨s, os⟩, hrun, hlog⟩ := Option.map_eq_some_iff.mp hexec
  obtain ⟨⟨o, ho, hallow⟩, ⟨o', ho', hdeny⟩, g, hg, hgate, hmode⟩ := of_decide_eq_true hlog
  rw [ServerEvent.reply_eq_some] at hallow hdeny
  obtain ⟨req, now, parsedAt, reparsedAt, he, hcls⟩ := ServerRecord.gatesOrder_iff.mp hgate
  have hfirst := pretooluse_sound (.of_exec hrun) 0
  have hsecond := pretooluse_sound (.of_exec hrun) 1
  exact ⟨os, s, .of_exec hrun, ⟨g, hg, hmode, req, now, parsedAt, hfirst.2.1 g hg req now parsedAt reparsedAt he hcls
    ⟨o, ho, hallow⟩⟩, hsecond.2.2 ⟨o', ho', _, hdeny⟩⟩

end Sherwood
