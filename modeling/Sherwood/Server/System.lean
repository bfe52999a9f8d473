/-
# The server

The handlers of `crates/server/src/routes.rs` that touch the control state, the
approval queue or the session budget, as one labelled system. Each of these is
behind a lock of its own, so a handler is cut at its locks and its awaits, and
the pieces of any number of calls and requests interleave: a call of
`pretooluse` arrives, is gated under the control lock, is queued for approval
and waits (in manual mode), is booked by the budget, and is answered. What
comes from outside (bodies, tokens, clock readings, whether a timer has fired,
what a config file holds) is in the action.

A step leaves a record: the state before and after, and an event that says
what the piece did. `none` is an action that is not possible.

Key definitions: `Control`, `Phase`, `ServerState`, `ServerAction`,
`ServerEvent`, `ServerState.step`, `Server.system`, `Moved`.
Key theorem: `step_moved`.
-/
import Sherwood.Execution.Hook
import Sherwood.Lib.Lts
import Sherwood.Server.Approvals
import Sherwood.Server.Auth
import Sherwood.Server.Budget

namespace Sherwood

/-- Trading mode. -/
inductive Mode where
  | paper
  | live
  deriving DecidableEq, Repr

/-- `auto`: the risk gate decides. `manual`: every order that passes it waits for
the operator. -/
inductive ApprovalMode where
  | auto
  | manual
  deriving DecidableEq, Repr

/-- The control state, behind one lock. -/
structure Control where
  mode : Mode
  risk : RiskConfig
  allowlist : ToolAllowlist
  approvalMode : ApprovalMode

/-- `Control::kill_switch`. -/
def Control.killSwitch (c : Control) : Bool := c.risk.killSwitch

/-- What a config reload swaps in. -/
structure Reloaded where
  risk : RiskConfig
  allowlist : ToolAllowlist
  approvalMode : ApprovalMode

/-- The swap of `apply_reload`: it can engage the kill switch and not release
it. -/
def Control.applyReload (c : Control) (fresh : Reloaded) : Control where
  mode := c.mode
  risk := if c.killSwitch then { fresh.risk with killSwitch := true } else fresh.risk
  allowlist := fresh.allowlist
  approvalMode := fresh.approvalMode

/-- The account picture of a hook request. -/
structure HookContext where
  portfolio : Portfolio
  refPrice : Option ℚ
  equity : ℚ
  unrealizedPnl : ℚ
  lastOrderAt : Option DateTime

/-- The gate's context of a request, at `now`. -/
def HookContext.gateContext (c : HookContext) (now : DateTime) : GateContext :=
  ⟨c.portfolio, c.refPrice, c.equity, c.unrealizedPnl, c.lastOrderAt, now⟩

/-- The body of a `pretooluse` call. -/
structure HookRequest where
  toolCall : ToolCall
  context : HookContext

/-- The notional the budget books: zero without a price. -/
def HookRequest.notional (A : Arith) (req : HookRequest) (order : Order) : Option ℚ :=
  match order.limitPrice.or req.context.refPrice with
  | some p => A.fit (order.qty * p)
  | none => some 0

/-- Where a call of `pretooluse` stands, between two of its pieces. -/
inductive Phase where
  | idle
  | received (req : HookRequest)
  | held (req : HookRequest) (order : Order)
  | waiting (req : HookRequest) (order : Order) (ticket : Ticket)
  | cleared (req : HookRequest) (order : Order)
  | replying (outcome : HookOutcome)
  | answered (outcome : HookOutcome)
  | refused (e : ApiError)
  | dropped
  | panicked

/-- A call between its arrival and its answer. -/
def Phase.InFlight : Phase → Prop
  | .received _ | .held .. | .waiting .. | .cleared .. => True
  | _ => False

/-- The state that the handlers share, and where each call stands. -/
structure ServerState where
  control : Control
  approvals : ApprovalStore
  budget : SessionBudget
  calls : ℕ → Phase

/-- The pieces the handlers are cut into. -/
inductive ServerAction where
  | arrive (c : ℕ) (bearer : Option String) (body : Except String HookRequest)
  | gate (c : ℕ) (now parsedAt reparsedAt : DateTime)
  | enqueue (c : ℕ) (idAt createdAt : DateTime)
  | poll (c : ℕ) (timedOut : Bool)
  | record (c : ℕ) (now later : Instant)
  | reply (c : ℕ)
  | drop (c : ℕ)
  | approval (bearer : Option String) (id decision : String) (reason : Option String) (now : DateTime)
  | sweep (now : DateTime)
  | reset (bearer : Option String) (reauth : String) (now : Instant)
  | kill (bearer : Option String) (reauth : String) (engage : Bool)
  | mode (bearer : Option String) (reauth : String) (mode : Mode) (preflight : Option (Except String Unit))
  | reload (bearer : Option String) (reauth : String) (fresh : Except String Reloaded)

/-- What a piece did. -/
inductive ServerEvent where
  | arrived (c : ℕ)
  | gated (c : ℕ) (req : HookRequest) (now parsedAt reparsedAt : DateTime)
  | enqueued (c : ℕ) (approval : Approval) (ch : ℕ)
  | resumed (c : ℕ) (state : ApprovalState)
  | recorded (c : ℕ) (notional : ℚ) (result : Except BudgetBreach Unit)
  | replied (c : ℕ) (outcome : HookOutcome)
  | dropped (c : ℕ)
  | panicked (c : ℕ)
  | decided (state : ApprovalState) (entry : Option Entry)
  | swept
  | budgetReset
  | killSet (engage : Bool)
  | modeSet (mode : Mode)
  | reloaded
  | rejected (e : ApiError)

/-- The call a piece is of. -/
def ServerEvent.call : ServerEvent → Option ℕ
  | .arrived c | .gated c .. | .enqueued c .. | .resumed c _ | .recorded c .. | .replied c _ | .dropped c
  | .panicked c => some c
  | _ => none

/-- A step: the states around it and what it did. -/
structure ServerRecord where
  before : ServerState
  event : ServerEvent
  after : ServerState

/-- What the server is started with. -/
structure ServerConfig where
  tokens : TokenSet
  allowLive : Bool

namespace ServerState

/-- The call `c` moves on. -/
def setCall (s : ServerState) (c : ℕ) (p : Phase) : ServerState := { s with calls := Function.update s.calls c p }

/-- `pretooluse`, up to its first lock: the role, and the body. -/
def arrive (cfg : ServerConfig) (s : ServerState) (c : ℕ) (bearer : Option String)
    (body : Except String HookRequest) : Option (ServerState × ServerEvent) :=
  match s.calls c with
  | .idle =>
    match cfg.tokens.authorize bearer .operator, body with
    | .error e, _ => some (s.setCall c (.refused e), .arrived c)
    | .ok _, .error e => some (s.setCall c (.refused (.badRequest s!"invalid hook request: {e}")), .arrived c)
    | .ok _, .ok req => some (s.setCall c (.received req), .arrived c)
  | _ => none

/-- Where a call goes from the gate. What is not an order that was allowed is
answered with the gate's verdict; such an order is read once more, for the
approval card and the notional. -/
def afterGate (A : Arith) (control : Control) (req : HookRequest) (outcome : HookOutcome) (reparsedAt : DateTime) :
    Phase :=
  if outcome = .allow ∧ control.allowlist.classify req.toolCall.name = some .placeOrder then
    match parseOrder A req.toolCall.name req.toolCall.arguments 0 reparsedAt with
    | .ok order =>
      match control.approvalMode with
      | .manual => .held req order
      | .auto => .cleared req order
    | .err _ => .replying outcome
    | .panic => .panicked
  else .replying outcome

/-- The piece under the control lock: evaluate the hook gate, and note the class
of the tool and the approval mode. -/
def gate (A : Arith) (s : ServerState) (c : ℕ) (now parsedAt reparsedAt : DateTime) :
    Option (ServerState × ServerEvent) :=
  match s.calls c with
  | .received req =>
    match (HookGate.new s.control.allowlist s.control.risk).evaluate A req.toolCall
        (req.context.gateContext now) parsedAt with
    | some outcome =>
      some (s.setCall c (afterGate A s.control req outcome reparsedAt), .gated c req now parsedAt reparsedAt)
    | none => some (s.setCall c .panicked, .panicked c)
  | _ => none

/-- Queue the order for approval. -/
def enqueue (s : ServerState) (c : ℕ) (idAt createdAt : DateTime) : Option (ServerState × ServerEvent) :=
  match s.calls c with
  | .held req order =>
    let (ticket, approvals) := s.approvals.enqueue req.toolCall.name order idAt createdAt
    some ({ s with approvals }.setCall c (.waiting req order ticket),
      .enqueued c (s.approvals.pendingApproval req.toolCall.name order idAt createdAt) ticket.rx)
  | _ => none

/-- Where a call goes from its approval. -/
def afterWait (req : HookRequest) (order : Order) : ApprovalState → Phase
  | .approved => .cleared req order
  | .denied => .replying (.deny "operator denied the order")
  | .expired | .pending => .replying (.deny "approval timed out")

/-- A waiting call is polled, and resumes if its approval is decided or its timer
has fired. -/
def poll (s : ServerState) (c : ℕ) (timedOut : Bool) : Option (ServerState × ServerEvent) :=
  match s.calls c with
  | .waiting req order ticket =>
    (ticket.poll s.approvals.watch timedOut).map fun state =>
      (s.setCall c (afterWait req order state), .resumed c state)
  | _ => none

/-- The session budget: book the order's notional, or deny the call. -/
def record (A : Arith) (s : ServerState) (c : ℕ) (now later : Instant) : Option (ServerState × ServerEvent) :=
  match s.calls c with
  | .cleared req order =>
    match (req.notional A order).bind fun notional =>
        (s.budget.tryRecord A notional now later).map fun r => (notional, r) with
    | some (notional, .ok (), budget) =>
      some ({ s with budget }.setCall c (.replying .allow), .recorded c notional (.ok ()))
    | some (notional, .error breach, budget) =>
      some ({ s with budget }.setCall c (.replying (.deny s!"session budget: {breach.text}")),
        .recorded c notional (.error breach))
    | none => some (s.setCall c .panicked, .panicked c)
  | _ => none

/-- The handler returns its answer. -/
def reply (s : ServerState) (c : ℕ) : Option (ServerState × ServerEvent) :=
  match s.calls c with
  | .replying outcome => some (s.setCall c (.answered outcome), .replied c outcome)
  | _ => none

/-- The client goes away: the handler is dropped at an await. -/
def drop (s : ServerState) (c : ℕ) : Option (ServerState × ServerEvent) :=
  match s.calls c with
  | .received _ | .waiting .. => some (s.setCall c .dropped, .dropped c)
  | _ => none

/-- `post_approval`: an operator decides an approval. -/
def approval (cfg : ServerConfig) (s : ServerState) (bearer : Option String) (id decision : String)
    (reason : Option String) (now : DateTime) : ServerState × ServerEvent :=
  match cfg.tokens.authorize bearer .operator with
  | .error e => (s, .rejected e)
  | .ok _ =>
    let target? := match decision with
      | "approve" => some ApprovalState.approved
      | "deny" => some ApprovalState.denied
      | _ => none
    match target? with
    | none => (s, .rejected (.badRequest s!"decision must be \"approve\" or \"deny\", got {decision.quote}"))
    | some target =>
      match s.approvals.decide id target reason now with
      | (.error e, approvals) => ({ s with approvals }, .rejected (.badRequest e))
      | (.ok true, approvals) => ({ s with approvals }, .decided target (s.approvals.find id))
      | (.ok false, approvals) =>
        ({ s with approvals }, .rejected (.notFound s!"approval {id} is unknown or already decided"))

/-- A privileged request: it changes the state, or is rejected. -/
def privileged (cfg : ServerConfig) (s : ServerState) (bearer : Option String) (reauth : String)
    (change : ServerState × ServerEvent) : ServerState × ServerEvent :=
  match cfg.tokens.privileged bearer reauth with
  | .error e => (s, .rejected e)
  | .ok () => change

/-- The refusal of `post_mode` to arm live trading. -/
def liveRefusal (cfg : ServerConfig) (mode : Mode) (preflight : Option (Except String Unit)) : Option ApiError :=
  if mode = .live then
    if ¬ cfg.allowLive then
      some (.forbidden "live mode is disabled in config (`[server] allow_live = false`)")
    else
      match preflight with
      | none => some (.forbidden "live mode has no pre-flight configured (ADR-0006) — refusing to arm")
      | some (.error reason) => some (.forbidden s!"live pre-flight failed: {reason}")
      | some (.ok ()) => none
  else none

/-- `post_mode`, with what the pre-flight found. -/
def setMode (cfg : ServerConfig) (s : ServerState) (bearer : Option String) (reauth : String) (mode : Mode)
    (preflight : Option (Except String Unit)) : ServerState × ServerEvent :=
  s.privileged cfg bearer reauth <|
    match liveRefusal cfg mode preflight with
    | some e => (s, .rejected e)
    | none => ({ s with control := { s.control with mode } }, .modeSet mode)

/-- `post_kill`. -/
def kill (cfg : ServerConfig) (s : ServerState) (bearer : Option String) (reauth : String) (engage : Bool) :
    ServerState × ServerEvent :=
  s.privileged cfg bearer reauth
    ({ s with control := { s.control with risk := { s.control.risk with killSwitch := engage } } }, .killSet engage)

/-- `apply_reload` from the control lock on, with what the reloader read before. -/
def reload (cfg : ServerConfig) (s : ServerState) (bearer : Option String) (reauth : String)
    (fresh : Except String Reloaded) : ServerState × ServerEvent :=
  s.privileged cfg bearer reauth <|
    match fresh with
    | .error e => (s, .rejected (.unprocessable e))
    | .ok fresh => ({ s with control := s.control.applyReload fresh }, .reloaded)

/-- One piece of a handler. -/
def move (A : Arith) (cfg : ServerConfig) (s : ServerState) : ServerAction → Option (ServerState × ServerEvent)
  | .arrive c bearer body => s.arrive cfg c bearer body
  | .gate c now parsedAt reparsedAt => s.gate A c now parsedAt reparsedAt
  | .enqueue c idAt createdAt => s.enqueue c idAt createdAt
  | .poll c timedOut => s.poll c timedOut
  | .record c now later => s.record A c now later
  | .reply c => s.reply c
  | .drop c => s.drop c
  | .approval bearer id decision reason now => some (s.approval cfg bearer id decision reason now)
  | .sweep now => some ({ s with approvals := s.approvals.sweepExpired now }, .swept)
  | .reset bearer reauth now =>
    some (s.privileged cfg bearer reauth ({ s with budget := s.budget.reset now }, .budgetReset))
  | .kill bearer reauth engage => some (s.kill cfg bearer reauth engage)
  | .mode bearer reauth mode preflight => some (s.setMode cfg bearer reauth mode preflight)
  | .reload bearer reauth fresh => some (s.reload cfg bearer reauth fresh)

/-- One step, with its record. -/
def step (A : Arith) (cfg : ServerConfig) (s : ServerState) (a : ServerAction) :
    Option (ServerState × ServerRecord) :=
  (s.move A cfg a).map fun r => (r.1, ⟨s, r.2, r.1⟩)

/-- A server before its first call. -/
def start (control : Control) (timeout : ℕ) (budget : SessionBudget) : ServerState :=
  ⟨control, .new timeout, budget, fun _ => .idle⟩

end ServerState

/-- The server as a system. -/
def Server.system (A : Arith) (cfg : ServerConfig) : Lts ServerState ServerAction ServerRecord :=
  ⟨ServerState.step A cfg⟩

/-! ### What a step does -/

/-- **The steps.** From `s`, a call `c` moves from one phase to the next, or the
approvals are decided or swept, or what changes is neither calls nor
approvals. -/
inductive Moved (A : Arith) (s : ServerState) : ServerState → ServerEvent → Prop
  | received {c : ℕ} {req : HookRequest} :
      s.calls c = .idle → Moved A s (s.setCall c (.received req)) (.arrived c)
  | refused {c : ℕ} {e : ApiError} : s.calls c = .idle → Moved A s (s.setCall c (.refused e)) (.arrived c)
  | gated {c : ℕ} {req : HookRequest} {now parsedAt reparsedAt : DateTime} {outcome : HookOutcome} :
      s.calls c = .received req →
      (HookGate.new s.control.allowlist s.control.risk).evaluate A req.toolCall (req.context.gateContext now)
        parsedAt = some outcome →
      Moved A s (s.setCall c (ServerState.afterGate A s.control req outcome reparsedAt))
        (.gated c req now parsedAt reparsedAt)
  | enqueued {c : ℕ} {req : HookRequest} {order : Order} {idAt createdAt : DateTime} :
      s.calls c = .held req order →
      Moved A s
        ({ s with approvals := (s.approvals.enqueue req.toolCall.name order idAt createdAt).2 }.setCall c
          (.waiting req order (s.approvals.enqueue req.toolCall.name order idAt createdAt).1))
        (.enqueued c (s.approvals.pendingApproval req.toolCall.name order idAt createdAt) (s.approvals.seq + 1))
  | resumed {c : ℕ} {req : HookRequest} {order : Order} {ticket : Ticket} {timedOut : Bool}
      {state : ApprovalState} : s.calls c = .waiting req order ticket →
      ticket.poll s.approvals.watch timedOut = some state →
      Moved A s (s.setCall c (ServerState.afterWait req order state)) (.resumed c state)
  | booked {c : ℕ} {req : HookRequest} {order : Order} {notional : ℚ} {now later : Instant}
      {budget : SessionBudget} : s.calls c = .cleared req order → req.notional A order = some notional →
      s.budget.tryRecord A notional now later = some (.ok (), budget) →
      Moved A s ({ s with budget }.setCall c (.replying .allow)) (.recorded c notional (.ok ()))
  | breached {c : ℕ} {req : HookRequest} {order : Order} {notional : ℚ} {now later : Instant}
      {breach : BudgetBreach} {budget : SessionBudget} {reason : String} : s.calls c = .cleared req order →
      s.budget.tryRecord A notional now later = some (.error breach, budget) →
      Moved A s ({ s with budget }.setCall c (.replying (.deny reason))) (.recorded c notional (.error breach))
  | replied {c : ℕ} {outcome : HookOutcome} : s.calls c = .replying outcome →
      Moved A s (s.setCall c (.answered outcome)) (.replied c outcome)
  | dropped {c : ℕ} : (s.calls c).InFlight → Moved A s (s.setCall c .dropped) (.dropped c)
  | panicked {c : ℕ} : (s.calls c).InFlight → Moved A s (s.setCall c .panicked) (.panicked c)
  | decided {id : String} {state : ApprovalState} {reason : Option String} {now : DateTime} :
      (s.approvals.decide id state reason now).1 = .ok true →
      Moved A s { s with approvals := (s.approvals.decide id state reason now).2 }
        (.decided state (s.approvals.find id))
  | swept {now : DateTime} : Moved A s { s with approvals := s.approvals.sweepExpired now } .swept
  | other {s' : ServerState} {e : ServerEvent} : s'.calls = s.calls → s'.approvals = s.approvals →
      e.call = none → (∀ state entry, e ≠ .decided state entry) → Moved A s s' e

namespace ServerState

variable {A : Arith} {cfg : ServerConfig} {s s' : ServerState} {e : ServerEvent} {c : ℕ}

theorem arrive_moved {bearer : Option String} {body : Except String HookRequest}
    (h : s.arrive cfg c bearer body = some (s', e)) : Moved A s s' e := by
  unfold arrive at h
  cases hc : s.calls c with
  | idle =>
    simp only [hc] at h
    split at h <;> obtain ⟨rfl, rfl⟩ := Prod.mk.inj (Option.some.inj h)
    · exact .refused hc
    · exact .refused hc
    · exact .received hc
  | _ => simp [hc] at h

theorem gate_moved {now parsedAt reparsedAt : DateTime}
    (h : s.gate A c now parsedAt reparsedAt = some (s', e)) : Moved A s s' e := by
  unfold gate at h
  cases hc : s.calls c with
  | received req =>
    simp only [hc] at h
    split at h <;> obtain ⟨rfl, rfl⟩ := Prod.mk.inj (Option.some.inj h)
    · next outcome heval => exact .gated hc heval
    · exact .panicked (by simp [hc, Phase.InFlight])
  | _ => simp [hc] at h

theorem enqueue_moved {idAt createdAt : DateTime} (h : s.enqueue c idAt createdAt = some (s', e)) :
    Moved A s s' e := by
  unfold enqueue at h
  cases hc : s.calls c with
  | held req order =>
    simp only [hc] at h
    obtain ⟨rfl, rfl⟩ := Prod.mk.inj (Option.some.inj h)
    exact .enqueued hc
  | _ => simp [hc] at h

theorem poll_moved {timedOut : Bool} (h : s.poll c timedOut = some (s', e)) : Moved A s s' e := by
  unfold poll at h
  cases hc : s.calls c with
  | waiting req order ticket =>
    simp only [hc] at h
    obtain ⟨state, hpoll, h⟩ := Option.map_eq_some_iff.mp h
    obtain ⟨rfl, rfl⟩ := Prod.mk.inj h
    exact .resumed hc hpoll
  | _ => simp [hc] at h

theorem record_moved {now later : Instant} (h : s.record A c now later = some (s', e)) : Moved A s s' e := by
  unfold record at h
  cases hc : s.calls c with
  | cleared req order =>
    simp only [hc] at h
    split at h <;> obtain ⟨rfl, rfl⟩ := Prod.mk.inj (Option.some.inj h)
    · next notional budget hrec =>
      obtain ⟨n, hn, hmap⟩ := Option.bind_eq_some_iff.mp hrec
      obtain ⟨r, htry, heq⟩ := Option.map_eq_some_iff.mp hmap
      obtain ⟨rfl, rfl⟩ := Prod.mk.inj heq
      exact .booked hc hn htry
    · next notional breach budget hrec =>
      obtain ⟨n, -, hmap⟩ := Option.bind_eq_some_iff.mp hrec
      obtain ⟨r, htry, heq⟩ := Option.map_eq_some_iff.mp hmap
      obtain ⟨rfl, rfl⟩ := Prod.mk.inj heq
      exact .breached hc htry
    · exact .panicked (by simp [hc, Phase.InFlight])
  | _ => simp [hc] at h

theorem reply_moved (h : s.reply c = some (s', e)) : Moved A s s' e := by
  unfold reply at h
  cases hc : s.calls c with
  | replying outcome =>
    simp only [hc] at h
    obtain ⟨rfl, rfl⟩ := Prod.mk.inj (Option.some.inj h)
    exact .replied hc
  | _ => simp [hc] at h

theorem drop_moved (h : s.drop c = some (s', e)) : Moved A s s' e := by
  unfold drop at h
  split at h
  · next req hc =>
    obtain ⟨rfl, rfl⟩ := Prod.mk.inj (Option.some.inj h)
    exact .dropped (by simp [hc, Phase.InFlight])
  · next req order ticket hc =>
    obtain ⟨rfl, rfl⟩ := Prod.mk.inj (Option.some.inj h)
    exact .dropped (by simp [hc, Phase.InFlight])
  · simp at h

theorem moved_rejected (err : ApiError) : Moved A s s (.rejected err) :=
  .other rfl rfl rfl (by simp)

theorem approval_moved {bearer : Option String} {id decision : String} {reason : Option String} {now : DateTime} :
    Moved A s (s.approval cfg bearer id decision reason now).1
      (s.approval cfg bearer id decision reason now).2 := by
  unfold approval
  cases cfg.tokens.authorize bearer .operator with
  | error err => exact moved_rejected err
  | ok role =>
    simp only
    split
    · exact moved_rejected _
    · next target _ =>
      rcases ApprovalStore.decide_cases s.approvals id target reason now with ⟨hne, hsame⟩ | ⟨htrue, -⟩
      · split
        · next err approvals hd => exact .other rfl (by rw [← hsame, hd]) rfl (by simp)
        · next approvals hd => exact absurd (congrArg Prod.fst hd) hne
        · next approvals hd => exact .other rfl (by rw [← hsame, hd]) rfl (by simp)
      · split
        · next err approvals hd => simp [hd] at htrue
        · next approvals hd =>
          obtain rfl : (s.approvals.decide id target reason now).2 = approvals := congrArg Prod.snd hd
          exact .decided htrue
        · next approvals hd => simp [hd] at htrue

/-- A privileged request is rejected, or does what it is for. -/
theorem privileged_moved {bearer : Option String} {reauth : String} {change : ServerState × ServerEvent}
    (h : Moved A s change.1 change.2) : Moved A s (s.privileged cfg bearer reauth change).1
      (s.privileged cfg bearer reauth change).2 := by
  unfold privileged
  cases cfg.tokens.privileged bearer reauth with
  | error err => exact moved_rejected err
  | ok _ => exact h

theorem step_moved {a : ServerAction} {o : ServerRecord} (h : s.step A cfg a = some (s', o)) :
    o.before = s ∧ o.after = s' ∧ Moved A s s' o.event := by
  obtain ⟨⟨s₁, e⟩, hmove, heq⟩ := Option.map_eq_some_iff.mp h
  obtain ⟨rfl, rfl⟩ := Prod.mk.inj heq
  refine ⟨rfl, rfl, ?_⟩
  -- the requests that always answer
  have hsome : ∀ {r : ServerState × ServerEvent}, Moved A s r.1 r.2 → some r = some (s₁, e) → Moved A s s₁ e := by
    intro r hr heq
    rw [Option.some.inj heq] at hr
    exact hr
  cases a with
  | arrive c bearer body => exact arrive_moved hmove
  | gate c now parsedAt reparsedAt => exact gate_moved hmove
  | enqueue c idAt createdAt => exact enqueue_moved hmove
  | poll c timedOut => exact poll_moved hmove
  | record c now later => exact record_moved hmove
  | reply c => exact reply_moved hmove
  | drop c => exact drop_moved hmove
  | approval bearer id decision reason now => exact hsome approval_moved hmove
  | sweep now => exact hsome (r := (_, _)) .swept hmove
  | reset bearer reauth now => exact hsome (privileged_moved (.other rfl rfl rfl (by simp))) hmove
  | kill bearer reauth engage => exact hsome (privileged_moved (.other rfl rfl rfl (by simp))) hmove
  | mode bearer reauth mode preflight =>
    refine hsome (privileged_moved ?_) hmove
    split
    · exact moved_rejected _
    · exact .other rfl rfl rfl (by simp)
  | reload bearer reauth fresh =>
    refine hsome (privileged_moved ?_) hmove
    split
    · exact moved_rejected _
    · exact .other rfl rfl rfl (by simp)

end ServerState

end Sherwood
