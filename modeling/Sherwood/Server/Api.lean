/-
# The API

Every route of `crates/server/src/routes.rs`, its handler cut at the locks, the
files, the calls of the store and the calls to the outside that it makes.
Requests are numbered, and the pieces of any number of them interleave. A
request is first admitted: its bearer token must grant the role the route asks
for, the body of a privileged one must hold the admin token again, and the
handler looks at what needs no lock. Then each piece either leaves the handler
at another stage or answers.

A config write is three pieces (the temporary file, the rename, and the
reader's look at the file) before the swap under the control lock, a reload the
last two of them. The pieces of a `pretooluse` call are those of
`Sherwood/Server/System.lean`.

What comes from outside (bodies, clock readings, answers of the chain, calls
that fail) is in the action. What the server needs of `AppConfig` is a
parameter, `ConfigFormat`.

Key definitions: `ApiConfig`, `ApiRequest`, `Stage`, `ApiState`, `ApiConfig.letIn`,
`Piece.run`, `Api.system`.
-/
import Sherwood.Reconcile.Reconcile
import Sherwood.Router.Router
import Sherwood.Server.System

namespace Sherwood

/-! ### Requests and answers -/

/-- The routes that only read. -/
inductive ReadRoute where
  | health
  | metrics
  | control
  | portfolio
  | activity (limit : ℤ)
  | auditVerify
  | events
  | approvals
  | session
  | config
  deriving DecidableEq

/-- A request: its route, and what its handler reads of the body. -/
inductive ApiRequest where
  | pretooluse (body : Except String HookRequest)
  | mode (mode : Mode) (reauth : String)
  | kill (engage : Bool) (reauth : String)
  | route (notional : ℚ)
  | dexSimulate
  | reconcile (expected : ExpectedTrade)
  | reload (reauth : String)
  | writeConfig (toml reauth : String)
  | approval (id decision : String) (reason : Option String)
  | reset (reauth : String)
  | read (route : ReadRoute)

/-- The role a reading route asks for; two are open. -/
def ReadRoute.needs : ReadRoute → Option Role
  | .health | .metrics => none
  | .config => some .admin
  | _ => some .viewer

/-- The role a route asks for. -/
def ApiRequest.needs : ApiRequest → Option Role
  | .pretooluse _ | .route _ | .dexSimulate | .reconcile _ | .approval .. => some .operator
  | .mode .. | .kill .. | .reload _ | .writeConfig .. | .reset _ => some .admin
  | .read r => r.needs

/-- The `reauth` field of a privileged request. -/
def ApiRequest.reauth : ApiRequest → Option String
  | .mode _ reauth | .kill _ reauth | .reload reauth | .writeConfig _ reauth | .reset reauth => some reauth
  | _ => none

/-- An answer that is an error: one that is shown, or one of the server's own,
of which only the log has the detail. -/
inductive ApiFailure where
  | shown (e : ApiError)
  | internal (detail : String)
  deriving DecidableEq

/-- `RouteView`. -/
structure RouteView where
  venue : String
  reason : String
  deriving DecidableEq

/-- `ReloadView`. -/
structure ReloadView where
  approvalMode : ApprovalMode
  allowlistedTools : ℕ
  killSwitch : Bool
  deriving DecidableEq

/-- `BudgetView`, the durations in seconds. -/
structure BudgetView where
  ordersUsed : UInt32
  ordersCap : UInt32
  notionalUsed : ℚ
  notionalCap : ℚ
  elapsedSecs : ℕ
  durationCapSecs : ℕ
  breached : Bool

/-- `SessionBudget::view`. -/
def SessionBudget.view (b : SessionBudget) (now : Instant) : BudgetView :=
  ⟨b.ordersUsed, b.caps.maxOrders, b.notionalUsed, b.caps.maxNotional, b.elapsed now / 10 ^ 9,
    b.caps.maxDuration / 10 ^ 9, b.breached⟩

/-- `ApprovalStore::list`: newest first. -/
def ApprovalStore.list (st : ApprovalStore) : List Approval :=
  (st.entries.map Entry.approval).mergeSort fun a b => b.createdAt.nanos ≤ a.createdAt.nanos

/-- `ApprovalStore::pending_count`. -/
def ApprovalStore.pendingCount (st : ApprovalStore) : ℕ :=
  st.entries.countP fun e => e.approval.state = .pending

/-- `audit_tail`: the last `n` rows, oldest first. -/
def AuditLog.tail (log : AuditLog) (n : ℕ) : List AuditRow := log.rows.drop (log.rows.length - n)

/-- What a handler answers. -/
inductive ApiReply where
  | health (mode : Mode) (killSwitch : Bool)
  | metrics (mode : Mode) (killSwitch : Bool) (pending : ℕ) (budget : BudgetView)
  | control (mode : Mode) (killSwitch : Bool)
  | route (view : RouteView)
  | simulated
  | reconciled (view : ReconcileView)
  | reloaded (view : ReloadView)
  | written (view : ReloadView)
  | approval (a : Approval)
  | budget (view : BudgetView)
  | portfolio (p : Portfolio)
  | activity (recent : List AuditRow) (fills : ℕ)
  | verified (v : AuditVerification)
  | events
  | approvals (mode : ApprovalMode) (pending : ℕ) (approvals : List Approval)
  | config (toml : String)

/-! ### The state -/

/-- What the server needs of `AppConfig`: a text is parsed, it is checked (also
that the dashboard it names is built), and part of it is what a reload swaps
in. -/
structure ConfigFormat (γ : Type) where
  parse : String → Except String γ
  validate : γ → (dashboardBuilt : Bool) → Except String Unit
  toReloaded : γ → Reloaded

/-- What the server is started with, and which of the parts that may be missing
it has. -/
structure ApiConfig (γ : Type) extends ServerConfig where
  format : ConfigFormat γ
  path : String
  reloader : Bool
  configStore : Bool
  livePreflight : Bool
  dexSimulator : Bool
  reconciler : Bool
  router : RouterConfig

/-- Where the handler of a request stands, between two of its pieces. `ready` is
before its first one; where a call of `pretooluse` stands is in
`ServerState.calls`. -/
inductive Stage where
  | ready
  | checking
  | renaming
  | reading
  | swapping (fresh : Reloaded)
  | listing
  | recording (receipt : TxReceipt) (fill : Fill) (phase : RecordPhase)
  | hook

/-- A request, before it came, while it is handled and after. -/
inductive RequestPhase where
  | idle
  | running (bearer : Option String) (req : ApiRequest) (stage : Stage)
  | done (bearer : Option String) (req : ApiRequest) (answer : Except ApiFailure ApiReply)
  | dropped (bearer : Option String) (req : ApiRequest)

/-- What the handlers share: the server's state, the config file and the
temporary one beside it, the store if there is one; and where each request
stands. -/
structure ApiState where
  server : ServerState
  file : String
  tmp : Option String
  store : Option Store
  requests : ℕ → RequestPhase

/-- What a piece leaves: the handler at another stage, or its answer. -/
inductive Next where
  | stage (stage : Stage)
  | answer (answer : Except ApiFailure ApiReply)

/-- The phase of a request after a piece. -/
def Next.phase (bearer : Option String) (req : ApiRequest) : Next → RequestPhase
  | .stage st => .running bearer req st
  | .answer a => .done bearer req a

namespace Next

/-- The handler answers with an error that is shown. -/
def refuse (e : ApiError) : Next := .answer (.error (.shown e))

/-- The handler fails. -/
def fail (detail : String) : Next := .answer (.error (.internal detail))

def reply (r : ApiReply) : Next := .answer (.ok r)

end Next

/-! ### Admission -/

namespace ConfigFormat

variable {γ : Type} (F : ConfigFormat γ)

/-- `AppConfig::load`, from the text of the file. -/
def load (path text : String) (dashboardBuilt : Bool) : Except String Reloaded :=
  match F.parse text with
  | .error e => .error s!"parsing config TOML: {e}"
  | .ok config =>
    match F.validate config dashboardBuilt with
    | .error e => .error s!"invalid config {path}: {e}"
    | .ok () => .ok (F.toReloaded config)

/-- The check of `post_config` before it writes a text. -/
def check (text : String) (dashboardBuilt : Bool) : Except ApiError Unit :=
  match F.parse text with
  | .error e => .error (.badRequest s!"invalid TOML: {e}")
  | .ok config =>
    match F.validate config dashboardBuilt with
    | .error e => .error (.unprocessable s!"invalid config: {e}")
    | .ok () => .ok ()

end ConfigFormat

/-- Who may ask: the role of the bearer token, and the admin token in the body of
a privileged request. -/
def ApiRequest.permitted (t : TokenSet) (bearer : Option String) (req : ApiRequest) : Except ApiError Unit :=
  match req.needs.elim (.ok ()) fun role => (t.authorize bearer role).map fun _ => () with
  | .error e => .error e
  | .ok () => req.reauth.elim (.ok ()) t.checkReauth

/-- The state an approval is to be decided to. -/
def decisionTarget (decision : String) : Except ApiError ApprovalState :=
  match decision with
  | "approve" => .ok .approved
  | "deny" => .ok .denied
  | _ => .error (.badRequest s!"decision must be \"approve\" or \"deny\", got {decision.quote}")

namespace ApiConfig

variable {γ : Type} (cfg : ApiConfig γ)

/-- What a handler looks at before its first lock or await, the caller being
permitted: the stage it stands at then. -/
def enter (dashboardBuilt : Bool) : ApiRequest → Except ApiError Stage
  | .pretooluse (.error e) => .error (.badRequest s!"invalid hook request: {e}")
  | .pretooluse (.ok _) => .ok .hook
  | .mode .paper _ => .ok .ready
  | .mode .live _ =>
    -- as if the pre-flight passed, if there is one: it is run at the next stage
    match ServerState.liveRefusal cfg.toServerConfig .live (if cfg.livePreflight then some (.ok ()) else none) with
    | some e => .error e
    | none => .ok .checking
  | .dexSimulate =>
    if cfg.dexSimulator then .ok .ready
    else .error (.notFound "dex-simulate is not configured on this server (no [chain] endpoint)")
  | .reconcile _ =>
    if cfg.reconciler then .ok .ready
    else .error (.notFound "reconcile is not configured on this server (no [chain] endpoint)")
  | .reload _ => .ok .reading
  | .writeConfig toml _ =>
    if cfg.configStore then (cfg.format.check toml dashboardBuilt).map fun _ => .ready
    else .error (.notFound "config editing is not available for this server")
  | .approval _ decision _ => (decisionTarget decision).map fun _ => .ready
  | .kill .. | .route _ | .reset _ | .read _ => .ok .ready

/-- A request is let in, or answered at once. -/
def letIn (bearer : Option String) (req : ApiRequest) (dashboardBuilt : Bool) : Next :=
  match req.permitted cfg.tokens bearer with
  | .error e => .refuse e
  | .ok () =>
    match cfg.enter dashboardBuilt req with
    | .error e => .refuse e
    | .ok stage => .stage stage

end ApiConfig

/-! ### The pieces of a handler -/

namespace ApiState

variable {γ : Type} (cfg : ApiConfig γ) (s : ApiState)

def setRequest (n : ℕ) (p : RequestPhase) : ApiState := { s with requests := Function.update s.requests n p }

@[simp] theorem setRequest_self (n : ℕ) (p : RequestPhase) : (s.setRequest n p).requests n = p := by
  simp [setRequest]

theorem setRequest_of_ne {m n : ℕ} (h : m ≠ n) (p : RequestPhase) :
    (s.setRequest n p).requests m = s.requests m := by
  simp [setRequest, h]

def setControl (control : Control) : ApiState := { s with server := { s.server with control } }

def setApprovals (approvals : ApprovalStore) : ApiState := { s with server := { s.server with approvals } }

/-- `ControlView`. -/
def controlView : ApiReply := .control s.server.control.mode s.server.control.killSwitch

/-- The pre-flight of `post_mode` returns. -/
def preflight (result : Except String Unit) (req : ApiRequest) (stage : Stage) : Option (ApiState × Next) :=
  match req, stage with
  | .mode mode _, .checking =>
    match ServerState.liveRefusal cfg.toServerConfig mode (some result) with
    | some e => some (s, .refuse e)
    | none => some (s, .stage .ready)
  | _, _ => none

/-- What a swap is answered with. -/
def reloadView (c : Control) : ReloadView := ⟨c.approvalMode, c.allowlist.tools.pairs.length, c.killSwitch⟩

/-- The piece under the control lock: of `post_mode`, of `post_kill`, and the
swap of `apply_reload`. -/
def lock (req : ApiRequest) (stage : Stage) : Option (ApiState × Next) :=
  match stage, req with
  | .ready, .mode mode _ =>
    let s' := s.setControl { s.server.control with mode }
    some (s', .reply s'.controlView)
  | .ready, .kill engage _ =>
    let s' := s.setControl { s.server.control with risk := { s.server.control.risk with killSwitch := engage } }
    some (s', .reply s'.controlView)
  | .swapping fresh, .reload _ =>
    let control := s.server.control.applyReload fresh
    some (s.setControl control, .reply (.reloaded (reloadView control)))
  | .swapping fresh, .writeConfig .. =>
    let control := s.server.control.applyReload fresh
    some (s.setControl control, .reply (.written (reloadView control)))
  | _, _ => none

/-- `post_session_reset`, under the lock of the budget. -/
def reset (now : Instant) (req : ApiRequest) (stage : Stage) : Option (ApiState × Next) :=
  match req, stage with
  | .reset _, .ready =>
    let budget := s.server.budget.reset now
    some ({ s with server := { s.server with budget } }, .reply (.budget (budget.view now)))
  | _, _ => none

/-- `post_approval` decides. -/
def decide (now : DateTime) (req : ApiRequest) (stage : Stage) : Option (ApiState × Next) :=
  match req, stage with
  | .approval id decision reason, .ready =>
    match decisionTarget decision with
    | .error e => some (s, .refuse e)
    | .ok target =>
      let (changed, approvals) := s.server.approvals.decide id target reason now
      some (s.setApprovals approvals, match changed with
        | .error e => .refuse (.badRequest e)
        | .ok false => .refuse (.notFound s!"approval {id} is unknown or already decided")
        | .ok true => .stage .listing)
  | _, _ => none

/-- `post_approval` looks the approval up for its answer. -/
def list (req : ApiRequest) (stage : Stage) : Option (ApiState × Next) :=
  match req, stage with
  | .approval id _ _, .listing =>
    some (s, (s.server.approvals.list.find? fun a => a.id = id).elim (.fail "approval vanished after decision")
      fun a => .reply (.approval a))
  | _, _ => none

/-- `post_config` writes the temporary file; a write that fails leaves there what
it left. -/
def write (failure : Option (String × Option String)) (req : ApiRequest) (stage : Stage) :
    Option (ApiState × Next) :=
  match req, stage with
  | .writeConfig toml _, .ready =>
    match failure with
    | some (e, left) => some ({ s with tmp := left }, .fail e)
    | none => some ({ s with tmp := some toml }, .stage .renaming)
  | _, _ => none

/-- The temporary file becomes the config file. Another write may have put its
text there, or have taken it away. -/
def rename (failure : Option String) (req : ApiRequest) (stage : Stage) : Option (ApiState × Next) :=
  match req, stage, failure with
  | .writeConfig .., .renaming, some e => some (s, .fail e)
  | .writeConfig .., .renaming, none => s.tmp.map fun text => ({ s with file := text, tmp := none }, .stage .reading)
  | _, _, _ => none

/-- `apply_reload` up to the control lock: the reloader reads the config file. -/
def read (failure : Option String) (dashboardBuilt : Bool) (stage : Stage) : Option (ApiState × Next) :=
  match stage with
  | .reading =>
    if cfg.reloader then
      match failure with
      | some e => some (s, .refuse (.unprocessable s!"reading config {cfg.path}: {e}"))
      | none =>
        match cfg.format.load cfg.path s.file dashboardBuilt with
        | .error e => some (s, .refuse (.unprocessable e))
        | .ok fresh => some (s, .stage (.swapping fresh))
    else some (s, .refuse (.unprocessable "config reload is not available for this server"))
  | _ => none

/-- `post_dex_simulate` hears from the chain. -/
def simulate (result : Except String Unit) (req : ApiRequest) (stage : Stage) : Option (ApiState × Next) :=
  match req, stage, result with
  | .dexSimulate, .ready, .error e => some (s, .refuse (.badRequest e))
  | .dexSimulate, .ready, .ok () => some (s, .reply .simulated)
  | _, _, _ => none

/-- The answer of `post_reconcile`. -/
def reconciled (phase : Option RecordPhase) (outcome : ReconcileOutcome) : Next :=
  match Attempt.view phase outcome with
  | .error e => .fail e
  | .ok view => .reply (.reconciled view)

/-- `post_reconcile` hears from the chain. -/
def reconcile (polls : List Poll) (req : ApiRequest) (stage : Stage) : Option (ApiState × Next) :=
  match req, stage with
  | .reconcile expected, .ready =>
    (waitAndReconcile expected polls).map fun result =>
      (s, match result, s.store with
        | .error e, _ => .refuse (.badRequest e)
        | .ok (.confirmed receipt fill), some _ => .stage (.recording receipt fill .starting)
        | .ok outcome, _ => reconciled none outcome)
  | _, _ => none

/-- `record_reconciled_fill` makes its next call of the store. -/
def call (D : Digest) (now : DateTime) (failure : Option String) (req : ApiRequest) (stage : Stage) :
    Option (ApiState × Next) :=
  match req, stage, s.store with
  | .reconcile _, .recording receipt fill phase, some store =>
    let (store, phase) := recordCalls D .server fill now (fun _ => failure) 1 (store, phase)
    some ({ s with store := some store },
      if (phase.next .server).isSome then .stage (.recording receipt fill phase)
      else reconciled (some phase) (.confirmed receipt fill))
  | _, _, _ => none

/-- A view of the store. -/
def readStore (failure : Option String) (view : Store → Except ApiFailure ApiReply) : Except ApiFailure ApiReply :=
  match s.store, failure with
  | none, _ => .error (.shown (.notFound "no state_path is configured; nothing to read"))
  | some _, some e => .error (.internal s!"store: {e}")
  | some store, none => view store

/-- The handlers that only read. Each is one piece: none of them holds two locks
at once, and nothing depends on what it saw. -/
def view (D : Digest) (now : Instant) (failure : Option String) : ReadRoute → Except ApiFailure ApiReply
  | .health => .ok (.health s.server.control.mode s.server.control.killSwitch)
  | .metrics =>
    .ok (.metrics s.server.control.mode s.server.control.killSwitch s.server.approvals.pendingCount
      (s.server.budget.view now))
  | .control => .ok s.controlView
  | .portfolio => s.readStore failure fun store =>
    store.loadPortfolio.elim (.error (.shown (.notFound "no portfolio snapshot has been written yet")))
      fun p => .ok (.portfolio p)
  | .activity limit => s.readStore failure fun store =>
    .ok (.activity (store.audit.tail (max 1 (min limit 500)).toNat) store.fills.length)
  | .auditVerify => s.readStore failure fun store => .ok (.verified (store.audit.verify D))
  | .events => .ok .events
  | .approvals =>
    .ok (.approvals s.server.control.approvalMode s.server.approvals.pendingCount s.server.approvals.list)
  | .session => .ok (.budget (s.server.budget.view now))
  | .config =>
    if cfg.configStore then failure.elim (.ok (.config s.file)) fun e => .error (.internal e)
    else .error (.shown (.notFound "config editing is not available for this server"))

/-- `post_route`. -/
def route (notional : ℚ) : Except ApiFailure ApiReply :=
  match Router.new cfg.router with
  | .error e => .error (.internal s!"[router] config: {e.text}")
  | .ok router =>
    match router.choose notional with
    | .error e => .error (.shown (.badRequest e.text))
    | .ok choice => .ok (.route ⟨choice.venue.lower, choice.reason⟩)

/-- A handler that changes nothing answers. -/
def look (D : Digest) (now : Instant) (failure : Option String) (req : ApiRequest) (stage : Stage) :
    Option (ApiState × Next) :=
  match req, stage with
  | .read r, .ready => some (s, .answer (s.view cfg D now failure r))
  | .route notional, .ready => some (s, .answer (route cfg notional))
  | _, _ => none

end ApiState

/-- The pieces after admission, with what each gets from outside. -/
inductive Piece where
  | preflight (result : Except String Unit)
  | lock
  | reset (now : Instant)
  | decide (now : DateTime)
  | list
  | write (failure : Option (String × Option String))
  | rename (failure : Option String)
  | read (failure : Option String) (dashboardBuilt : Bool)
  | simulate (result : Except String Unit)
  | reconcile (polls : List Poll)
  | call (now : DateTime) (failure : Option String)
  | look (now : Instant) (failure : Option String)

/-- One piece of the handler of `req`, which stands at `stage`. -/
def Piece.run {γ : Type} (D : Digest) (cfg : ApiConfig γ) (s : ApiState) (req : ApiRequest) (stage : Stage) :
    Piece → Option (ApiState × Next)
  | .preflight result => s.preflight cfg result req stage
  | .lock => s.lock req stage
  | .reset now => s.reset now req stage
  | .decide now => s.decide now req stage
  | .list => s.list req stage
  | .write failure => s.write failure req stage
  | .rename failure => s.rename failure req stage
  | .read failure dashboardBuilt => s.read cfg failure dashboardBuilt stage
  | .simulate result => s.simulate result req stage
  | .reconcile polls => s.reconcile polls req stage
  | .call now failure => s.call D now failure req stage
  | .look now failure => s.look cfg D now failure req stage

/-- The pieces of a call of `pretooluse`. -/
inductive HookPiece where
  | gate (now parsedAt reparsedAt : DateTime)
  | enqueue (idAt createdAt : DateTime)
  | poll (timedOut : Bool)
  | record (now later : Instant)
  | reply
  | drop

/-- The piece as one of call `n`. -/
def HookPiece.action (n : ℕ) : HookPiece → ServerAction
  | .gate now parsedAt reparsedAt => .gate n now parsedAt reparsedAt
  | .enqueue idAt createdAt => .enqueue n idAt createdAt
  | .poll timedOut => .poll n timedOut
  | .record now later => .record n now later
  | .reply => .reply n
  | .drop => .drop n

/-- The handler waits: for a lock, the store or the outside. -/
def ApiRequest.awaits : ApiRequest → Stage → Bool
  | .mode .., .ready | .kill .., .ready | .dexSimulate, .ready | .reconcile _, .ready | .read _, .ready => true
  | _, .checking | _, .swapping _ | _, .recording .. => true
  | _, _ => false

/-- A request comes, a handler goes on or is dropped as its client goes away, or
the sweeper of the approvals runs. -/
inductive ApiAction where
  | arrive (n : ℕ) (bearer : Option String) (req : ApiRequest) (dashboardBuilt : Bool)
  | hook (n : ℕ) (piece : HookPiece)
  | piece (n : ℕ) (piece : Piece)
  | drop (n : ℕ)
  | sweep (now : DateTime)

/-- A step: the states around it and what was done. -/
structure ApiRecord where
  before : ApiState
  action : ApiAction
  after : ApiState

namespace ApiState

variable {γ : Type} (A : Arith) (D : Digest) (cfg : ApiConfig γ) (s : ApiState)

/-- A call of `pretooluse` that was let in. -/
def receive (n : ℕ) : ApiRequest → ApiState
  | .pretooluse (.ok body) => { s with server := s.server.setCall n (.received body) }
  | _ => s

def move : ApiAction → Option ApiState
  | .arrive n bearer req dashboardBuilt =>
    match s.requests n with
    | .idle =>
      let next := cfg.letIn bearer req dashboardBuilt
      match next with
      | .stage _ => some ((s.receive n req).setRequest n (next.phase bearer req))
      | .answer _ => some (s.setRequest n (next.phase bearer req))
    | _ => none
  | .hook n piece =>
    match s.requests n with
    | .running _ (.pretooluse _) .hook =>
      (s.server.move A cfg.toServerConfig (piece.action n)).map fun r => { s with server := r.1 }
    | _ => none
  | .piece n piece =>
    match s.requests n with
    | .running bearer req stage =>
      (piece.run D cfg s req stage).map fun r => r.1.setRequest n (r.2.phase bearer req)
    | _ => none
  | .drop n =>
    match s.requests n with
    | .running bearer req stage => if req.awaits stage then some (s.setRequest n (.dropped bearer req)) else none
    | _ => none
  | .sweep now => some (s.setApprovals (s.server.approvals.sweepExpired now))

/-- One step, with its record. -/
def step (a : ApiAction) : Option (ApiState × ApiRecord) := (s.move A D cfg a).map fun s' => (s', ⟨s, a, s'⟩)

/-- No request has come yet. -/
structure Fresh (s : ApiState) : Prop where
  requests : ∀ n, s.requests n = .idle
  calls : ∀ n, s.server.calls n = .idle

end ApiState

/-- The API as a system. -/
def Api.system {γ : Type} (A : Arith) (D : Digest) (cfg : ApiConfig γ) : Lts ApiState ApiAction ApiRecord :=
  ⟨ApiState.step A D cfg⟩

end Sherwood
