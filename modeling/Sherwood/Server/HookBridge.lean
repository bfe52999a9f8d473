/-
# The hook script in front of the server

`scripts/pretooluse-hook.mjs` stands between an agent and its tools. For each call the agent
wants to make it starts once, reads the call, asks the server over HTTP, and exits: with leave
for the call, or without. Any number of scripts run at once, beside the server's other clients;
a request may not arrive, its answer may not come, and a script may give up while the server
goes on.

A call has leave only if the server let this very call through, as a request of its own with an
operator's token: it was gated, and an order approved where that was asked for and booked
(`leave_is_vetted`). Otherwise it is denied, but for what no agent sends: a call that is
`null`.

Key definitions: `HookEnv.prepare`, `HookScript.finish`, `HookBridge.system`, `LetThrough`.
Key theorems: `CallInv.step`, `HookBridge.inv_run`, `leave_is_vetted`.
-/
import Sherwood.Server.Safety

namespace Sherwood

/-! ### Values of the script -/

/-- What `JSON.parse` gives. A number is known by the text that it is written with. -/
inductive JsValue where
  | null
  | bool (b : Bool)
  | num (text : String)
  | str (s : String)
  | arr (items : List JsValue)
  | obj (fields : List (String × JsValue))

namespace JsValue

/-- A property, if it is not `undefined`. -/
def get (v : JsValue) (key : String) : Option JsValue :=
  match v with
  | .obj fields => (fields.find? fun f => f.1 = key).map Prod.snd
  | _ => none

def truthy : JsValue → Bool
  | .null => false
  | .bool b => b
  | .num text => text ≠ "0"
  | .str s => s ≠ ""
  | .arr _ | .obj _ => true

/-- `v ?? w`. -/
def orElse (v : Option JsValue) (w : JsValue) : JsValue :=
  match v with
  | none | some .null => w
  | some v => v

mutual

/-- A value in a template. -/
def text : JsValue → String
  | .null => "null"
  | .bool b => if b then "true" else "false"
  | .num text => text
  | .str s => s
  | .arr items => ",".intercalate (texts items)
  | .obj _ => "[object Object]"

def texts : List JsValue → List String
  | [] => []
  | .null :: vs => "" :: texts vs
  | v :: vs => text v :: texts vs

end

mutual

/-- The value of a JSON text. -/
def ofJson : Json → JsValue
  | .null => .null
  | .bool b => .bool b
  | .num n => .num n.render
  | .str s => .str s
  | .arr items => .arr (ofItems items)
  | .obj fields => .obj (ofFields fields)

def ofItems : List Json → List JsValue
  | [] => []
  | v :: vs => ofJson v :: ofItems vs

def ofFields : List (String × Json) → List (String × JsValue)
  | [] => []
  | (k, v) :: fs => (k, ofJson v) :: ofFields fs

end

/-- `v || w`, in a template. -/
def textOr (v : Option JsValue) (w : String) : String :=
  match v with
  | some v => if v.truthy then v.text else w
  | none => w

end JsValue

/-- The code on both ends that the repository does not hold: `JSON.parse`, and what the server
reads of a value that the script has written, as JSON and as a context; it says what it finds
where it asks for a name. -/
structure HookCrates where
  parse : String → Except String JsValue
  value : JsValue → Json
  context : JsValue → Except String HookContext
  noString : JsValue → String

/-! ### The script -/

/-- What a script reads of its environment: the token, the path to a context with what is
found there, and whether it only shows its request. -/
structure HookEnv where
  token : Option String
  context : Option (String × Except String String)
  dryRun : Bool

/-- How a script ends: with leave, with a reason, with its request shown, or by an exception. -/
inductive HookExit where
  | allowed
  | denied (reason : String)
  | shown
  | thrown
  deriving DecidableEq, Repr

def HookExit.code : HookExit → ℕ
  | .allowed | .shown => 0
  | .thrown => 1
  | .denied _ => 2

/-- What a script asks: the token it sends, and its body. -/
structure HookCall where
  token : String
  name : JsValue
  arguments : JsValue
  context : JsValue

/-- An empty account. -/
def flatContext : JsValue :=
  .obj [("portfolio", .obj [("cash", .str "0"), ("positions", .obj []), ("realized_pnl", .str "0"),
    ("avg_cost", .obj [])]), ("equity", .str "0"), ("unrealized_pnl", .str "0")]

variable (C : HookCrates)

/-- `loadContext`. -/
def HookEnv.loadContext (env : HookEnv) : Except HookExit JsValue :=
  match env.context with
  | none | some ("", _) => .ok flatContext
  | some (path, file) =>
    match file.bind C.parse with
    | .ok v => .ok v
    | .error e => .error (.denied s!"sherwood: cannot read SHERWOOD_HOOK_CONTEXT ({path}): {e}")

/-- The script up to its request: what it asks, or how it ends without. -/
def HookEnv.prepare (env : HookEnv) (raw : String) : Except HookExit HookCall :=
  match C.parse raw with
  | .error e => .error (.denied s!"sherwood: hook stdin is not JSON: {e}")
  | .ok .null => .error .thrown
  | .ok event =>
    let name := JsValue.orElse (event.get "tool_name") (JsValue.orElse (event.get "toolName") (.str ""))
    let arguments := JsValue.orElse (event.get "tool_input") (JsValue.orElse (event.get "toolInput") (.obj []))
    if name.truthy then do
      let context ← env.loadContext C
      if env.dryRun then .error .shown
      else
        match env.token with
        | none | some "" => .error (.denied "sherwood: SHERWOOD_API_TOKEN is not set — cannot reach the gate")
        | some token => .ok ⟨token, name, arguments, context⟩
    else .error (.denied "sherwood: hook event has no tool_name")

/-- What `bearer` of `auth.rs` finds in the header. -/
def HookCall.bearer (call : HookCall) : Option String := some (trimStr call.token)

/-- What the server reads of the body. -/
def HookCall.request (call : HookCall) : Except String HookRequest :=
  match call.name with
  | .str name => (C.context call.context).map fun context => ⟨⟨name, C.value call.arguments⟩, context⟩
  | v => .error (C.noString v)

/-- The script from its response on. -/
def HookScript.finish (status : ℕ) (text : String) : HookExit :=
  if 200 ≤ status ∧ status < 300 then
    match C.parse text with
    | .error e => .denied s!"sherwood: gate response is not JSON: {e}"
    | .ok .null => .thrown
    | .ok out =>
      match out.get "decision" with
      | some (.str "allow") => .allowed
      | _ =>
        let reason := JsValue.textOr (out.get "reason") "denied"
        .denied s!"sherwood: {reason}"
  else
    let message :=
      match C.parse text with
      | .ok out => JsValue.textOr (out.get "message") text
      | .error _ => text
    .denied s!"sherwood: gate returned {status}: {message}"

/-! ### The server's responses -/

/-- The answer, as `serde_json` writes it. -/
def HookOutcome.json : HookOutcome → Json
  | .allow => .obj [("decision", .str "allow")]
  | .deny reason => .obj [("decision", .str "deny"), ("reason", .str reason)]

namespace ApiError

def status : ApiError → ℕ
  | .unauthorized => 401
  | .forbidden _ => 403
  | .badRequest _ => 400
  | .notFound _ => 404
  | .unprocessable _ => 422

def code : ApiError → String
  | .unauthorized => "unauthorized"
  | .forbidden _ => "forbidden"
  | .badRequest _ => "bad_request"
  | .notFound _ => "not_found"
  | .unprocessable _ => "unprocessable_entity"

def text : ApiError → String
  | .unauthorized => "missing or malformed Authorization header"
  | .forbidden message | .badRequest message | .notFound message | .unprocessable message => message

/-- The body of an error's response. -/
def envelope (e : ApiError) (correlationId : String) : Json :=
  .obj [("code", .str e.code), ("message", .str e.text), ("correlation_id", .str correlationId)]

end ApiError

/-- `JSON.parse` reads the answers that `serde_json` writes. -/
def HookCrates.ReadsAnswers : Prop :=
  ∀ outcome : HookOutcome, C.parse outcome.json.render = .ok (.ofJson outcome.json)

/-! ### The system -/

/-- Where a script stands: its request is on the way, or the server has it as its call `c`, or
the script has exited, whatever has become of the request. -/
inductive HookStage where
  | sending (call : HookCall)
  | asking (call : HookCall) (c : ℕ)
  | exited (c : Option ℕ) (exit : HookExit)

/-- The server's call for a script. -/
def HookStage.id : HookStage → Option ℕ
  | .sending _ => none
  | .asking _ c => some c
  | .exited c _ => c

/-- A script that was started, with what it has read. -/
structure HookProcess where
  env : HookEnv
  raw : String
  stage : HookStage

/-- The server and the scripts. -/
structure HookBridge where
  server : ServerState
  hooks : ℕ → Option HookProcess

/-- A step of the server, of which any client may be the cause; a script is started; its
request arrives; the handler's response is read, or that of a layer before it; or the request
fails or is given up. -/
inductive HookAction where
  | server (a : ServerAction)
  | spawn (h : ℕ) (env : HookEnv) (raw : String)
  | deliver (h c : ℕ)
  | answer (h : ℕ) (correlationId : String)
  | reject (h status : ℕ) (text : String)
  | fail (h : ℕ) (message : String)

namespace HookBridge

def setHook (s : HookBridge) (h : ℕ) (p : HookProcess) : HookBridge :=
  { s with hooks := Function.update s.hooks h (some p) }

/-- The script `h` exits. -/
def exit (s : HookBridge) (h : ℕ) (p : HookProcess) (e : HookExit) : HookBridge :=
  s.setHook h { p with stage := .exited p.stage.id e }

def spawn (s : HookBridge) (h : ℕ) (env : HookEnv) (raw : String) : Option HookBridge :=
  match s.hooks h with
  | some _ => none
  | none =>
    match env.prepare C raw with
    | .ok call => some (s.setHook h ⟨env, raw, .sending call⟩)
    | .error e => some (s.setHook h ⟨env, raw, .exited none e⟩)

/-- The request of `h` arrives, as the call `c`. -/
def deliver (A : Arith) (cfg : ServerConfig) (s : HookBridge) (h c : ℕ) : Option (HookBridge × ServerRecord) :=
  match s.hooks h with
  | some ⟨env, raw, .sending call⟩ =>
    (s.server.step A cfg (.arrive c call.bearer (call.request C))).map fun (server, o) =>
      ({ s with server }.setHook h ⟨env, raw, .asking call c⟩, o)
  | _ => none

/-- The response of the handler. -/
def answer (s : HookBridge) (h : ℕ) (correlationId : String) : Option HookBridge :=
  match s.hooks h with
  | some ⟨env, raw, .asking call c⟩ =>
    match s.server.calls c with
    | .answered outcome =>
      some (s.exit h ⟨env, raw, .asking call c⟩ (HookScript.finish C 200 outcome.json.render))
    | .refused e =>
      some (s.exit h ⟨env, raw, .asking call c⟩ (HookScript.finish C e.status (e.envelope correlationId).render))
    | _ => none
  | _ => none

/-- The response of a layer before the handler, which is no success. -/
def reject (s : HookBridge) (h status : ℕ) (text : String) : Option HookBridge :=
  match s.hooks h with
  | some ⟨env, raw, .sending call⟩ =>
    if 200 ≤ status ∧ status < 300 then none
    else some (s.exit h ⟨env, raw, .sending call⟩ (HookScript.finish C status text))
  | _ => none

/-- `fetch` throws, at a timeout or any other time. -/
def fail (s : HookBridge) (h : ℕ) (message : String) : Option HookBridge :=
  match s.hooks h with
  | none | some ⟨_, _, .exited ..⟩ => none
  | some p => some (s.exit h p (.denied s!"sherwood: gate unreachable ({message})"))

/-- One step, with the record of the server's if it takes one. -/
def step (A : Arith) (cfg : ServerConfig) (s : HookBridge) : HookAction → Option (HookBridge × Option ServerRecord)
  | .server a => (s.server.step A cfg a).map fun (server, o) => ({ s with server }, some o)
  | .spawn h env raw => (s.spawn C h env raw).map fun s => (s, none)
  | .deliver h c => (s.deliver C A cfg h c).map fun (s, o) => (s, some o)
  | .answer h correlationId => (s.answer C h correlationId).map fun s => (s, none)
  | .reject h status text => (s.reject C h status text).map fun s => (s, none)
  | .fail h message => (s.fail h message).map fun s => (s, none)

def start (server : ServerState) : HookBridge := ⟨server, fun _ => none⟩

def system (A : Arith) (cfg : ServerConfig) : Lts HookBridge HookAction (Option ServerRecord) := ⟨step C A cfg⟩

end HookBridge

/-! ### A call of the server -/

section

variable {C : HookCrates} {A : Arith} {cfg : ServerConfig} {bearer : Option String} {body : Except String HookRequest}
  {os : List ServerRecord} {o : ServerRecord} {s s' : ServerState} {c : ℕ} {p : Phase}

/-- The request `body` came with an operator's token, and the gate let it through as the call
`c`. -/
def Passed (A : Arith) (cfg : ServerConfig) (bearer : Option String) (body : Except String HookRequest)
    (os : List ServerRecord) (c : ℕ) : Prop :=
  ∃ role req, cfg.tokens.authorize bearer .operator = .ok role ∧ body = .ok req ∧
    ∃ g ∈ os, ∃ now parsedAt reparsedAt, g.event = .gated c req now parsedAt reparsedAt ∧
      (HookGate.new g.before.control.allowlist g.before.control.risk).evaluate A req.toolCall
        (req.context.gateContext now) parsedAt = some .allow

/-- What holds of a call in each phase, once the request has arrived as it. -/
def CallInv (A : Arith) (cfg : ServerConfig) (bearer : Option String) (body : Except String HookRequest)
    (os : List ServerRecord) (c : ℕ) : Phase → Prop
  | .idle => False
  | .received req => (∃ role, cfg.tokens.authorize bearer .operator = .ok role) ∧ body = .ok req
  | .held .. | .waiting .. | .cleared .. | .replying .allow | .answered .allow => Passed A cfg bearer body os c
  | .replying (.deny _) | .answered (.deny _) | .refused _ | .dropped | .panicked => True

theorem Passed.snoc (h : Passed A cfg bearer body os c) (o : ServerRecord) :
    Passed A cfg bearer body (os ++ [o]) c := by
  obtain ⟨role, req, hrole, hbody, g, hg, hgate⟩ := h
  exact ⟨role, req, hrole, hbody, g, List.mem_append_left _ hg, hgate⟩

theorem CallInv.snoc (h : CallInv A cfg bearer body os c p) (o : ServerRecord) :
    CallInv A cfg bearer body (os ++ [o]) c p := by
  unfold CallInv at h ⊢
  split at h
  · exact h
  · exact h
  all_goals first | exact Passed.snoc h o | trivial

theorem CallInv.gated {control : Control} {req : HookRequest} {outcome : HookOutcome} {reparsedAt : DateTime}
    (h : outcome = .allow → Passed A cfg bearer body os c) :
    CallInv A cfg bearer body os c (ServerState.afterGate A control req outcome reparsedAt) := by
  have hreply : CallInv A cfg bearer body os c (.replying outcome) := by
    cases outcome with
    | allow => exact h rfl
    | deny reason => trivial
  unfold ServerState.afterGate
  split
  · next hallow =>
    split
    · split
      · exact h hallow.1
      · exact h hallow.1
    · exact hreply
    · trivial
  · exact hreply

/-- What has arrived goes on as it should, whatever step the server takes. -/
theorem CallInv.step (h : CallInv A cfg bearer body os c (s.calls c)) (hb : o.before = s)
    (hmoved : Moved A s s' o.event) : CallInv A cfg bearer body (os ++ [o]) c (s'.calls c) := by
  have hset : ∀ (s₀ : ServerState) (c' : ℕ) (p : Phase), s₀.calls = s.calls →
      (c = c' → CallInv A cfg bearer body (os ++ [o]) c p) →
      CallInv A cfg bearer body (os ++ [o]) c ((s₀.setCall c' p).calls c) := by
    intro s₀ c' p hcalls hp
    exact setCall_calls (motive := CallInv A cfg bearer body (os ++ [o]) c) hcalls hp fun _ => h.snoc o
  generalize he : o.event = e at hmoved
  cases hmoved with
  | received hc => exact hset _ _ _ rfl fun hcc => by rw [hcc, hc] at h; exact h.elim
  | refused hc => exact hset _ _ _ rfl fun hcc => by rw [hcc, hc] at h; exact h.elim
  | gated hc heval =>
    refine hset _ _ _ rfl fun hcc => .gated fun hallow => ?_
    subst hcc
    rw [hc] at h
    obtain ⟨⟨role, hrole⟩, hbody⟩ := h
    refine ⟨role, _, hrole, hbody, o, by simp, _, _, _, he, ?_⟩
    rw [hb, heval, hallow]
  | enqueued hc => exact hset _ _ _ rfl fun hcc => by rw [hcc, hc] at h; exact hcc ▸ Passed.snoc h o
  | resumed hc hpoll =>
    refine hset _ _ _ rfl fun hcc => ?_
    rw [hcc, hc] at h
    unfold ServerState.afterWait
    split
    · exact hcc ▸ Passed.snoc h o
    · trivial
    · trivial
    · trivial
  | booked hc hn htry => exact hset _ _ _ rfl fun hcc => by rw [hcc, hc] at h; exact hcc ▸ Passed.snoc h o
  | breached hc htry => exact hset _ _ _ rfl fun _ => trivial
  | @replied c' outcome hc =>
    refine hset _ _ _ rfl fun hcc => ?_
    rw [hcc, hc] at h
    cases outcome with
    | allow => exact hcc ▸ Passed.snoc h o
    | deny reason => trivial
  | dropped hf => exact hset _ _ _ rfl fun _ => trivial
  | panicked hf => exact hset _ _ _ rfl fun _ => trivial
  | decided hd => exact h.snoc o
  | swept => exact h.snoc o
  | other hcalls _ _ _ => rw [hcalls]; exact h.snoc o

theorem CallInv.arrive (h : s.step A cfg (.arrive c bearer body) = some (s', o)) (os : List ServerRecord) :
    s.calls c = .idle ∧ CallInv A cfg bearer body os c (s'.calls c) := by
  obtain ⟨⟨s₁, e⟩, hmove, heq⟩ := Option.map_eq_some_iff.mp h
  obtain ⟨rfl, -⟩ := Prod.mk.inj heq
  change s.arrive cfg c bearer body = some (s₁, e) at hmove
  unfold ServerState.arrive at hmove
  split at hmove
  · next hc =>
    refine ⟨hc, ?_⟩
    split at hmove <;> obtain ⟨rfl, -⟩ := Prod.mk.inj (Option.some.inj hmove)
    · exact setCall_calls (motive := CallInv A cfg bearer _ os c) rfl (fun _ => trivial) fun hne => absurd rfl hne
    · exact setCall_calls (motive := CallInv A cfg bearer _ os c) rfl (fun _ => trivial) fun hne => absurd rfl hne
    · next role req hrole =>
      exact setCall_calls (motive := CallInv A cfg bearer _ os c) rfl (fun _ => ⟨⟨role, hrole⟩, rfl⟩)
        fun hne => absurd rfl hne
  · simp at hmove

end

/-! ### What a script makes of it -/

section

variable {C : HookCrates} {env : HookEnv} {raw text : String} {status : ℕ} {e : HookExit}

/-- Without a request a script ends with a reason, or shows it where it was asked to, or is
thrown by a call that is `null`. -/
theorem HookEnv.prepare_error (h : env.prepare C raw = .error e) :
    e.code = 2 ∨ e = .shown ∧ env.dryRun ∨ e = .thrown ∧ C.parse raw = .ok .null := by
  have hcontext : ∀ e, env.loadContext C = .error e → e.code = 2 := by
    intro e he
    unfold HookEnv.loadContext at he
    split at he
    · simp at he
    · simp at he
    · split at he
      · simp at he
      · rw [← Except.error.inj he]
        rfl
  unfold HookEnv.prepare at h
  split at h
  · rw [← Except.error.inj h]
    exact .inl rfl
  · next hnull =>
    rw [← Except.error.inj h]
    exact .inr (.inr ⟨rfl, hnull⟩)
  · dsimp only at h
    split at h
    · cases hload : env.loadContext C with
      | error e' =>
        rw [hload] at h
        rw [← Except.error.inj h]
        exact .inl (hcontext e' hload)
      | ok context =>
        rw [hload] at h
        change (if env.dryRun then _ else _ : Except HookExit HookCall) = _ at h
        split at h
        · next hdry =>
          rw [← Except.error.inj h]
          exact .inr (.inl ⟨rfl, hdry⟩)
        · split at h
          · rw [← Except.error.inj h]
            exact .inl rfl
          · rw [← Except.error.inj h]
            exact .inl rfl
          · simp at h
    · rw [← Except.error.inj h]
      exact .inl rfl

namespace HookScript

theorem code_finish_of_error (h : ¬ (200 ≤ status ∧ status < 300)) : (finish C status text).code = 2 := by
  rw [finish, if_neg h]
  rfl

theorem finish_allow (hC : C.ReadsAnswers) : finish C 200 HookOutcome.allow.json.render = .allowed := by
  rw [finish, if_pos (by decide), hC]
  rfl

theorem code_finish_deny (hC : C.ReadsAnswers) (reason : String) :
    (finish C 200 (HookOutcome.deny reason).json.render).code = 2 := by
  rw [finish, if_pos (by decide), hC]
  rfl

end HookScript

theorem ApiError.status_not_ok (e : ApiError) : ¬ (200 ≤ e.status ∧ e.status < 300) := by
  cases e <;> exact fun h => absurd h.2 (by simp [status])

theorem HookCall.request_eq_ok {call : HookCall} {req : HookRequest} (h : call.request C = .ok req) :
    call.name = .str req.toolCall.name ∧ req.toolCall.arguments = C.value call.arguments ∧
      C.context call.context = .ok req.context := by
  unfold HookCall.request at h
  split at h
  · next name hname =>
    cases hcontext : C.context call.context with
    | error e =>
      rw [hcontext] at h
      simp [Except.map] at h
    | ok context =>
      rw [hcontext] at h
      obtain rfl := Except.ok.inj h
      exact ⟨hname, rfl, rfl⟩
  · simp at h

end

/-! ### Runs -/

/-- The script `env`, `raw` has read a call that the server let through as its call `c`: it came
with an operator's token and is what the script has read, and it was gated and allowed there,
and an order went through all that an order goes through. -/
def LetThrough (C : HookCrates) (A : Arith) (cfg : ServerConfig) (os : List ServerRecord) (env : HookEnv)
    (raw : String) (c : ℕ) : Prop :=
  ∃ call role req, env.prepare C raw = .ok call ∧ cfg.tokens.authorize call.bearer .operator = .ok role ∧
    call.name = .str req.toolCall.name ∧ req.toolCall.arguments = C.value call.arguments ∧
    C.context call.context = .ok req.context ∧
    ∃ g ∈ os, ∃ now parsedAt reparsedAt, g.event = .gated c req now parsedAt reparsedAt ∧
      (HookGate.new g.before.control.allowlist g.before.control.risk).evaluate A req.toolCall
        (req.context.gateContext now) parsedAt = some .allow ∧
      (g.before.control.allowlist.classify req.toolCall.name = some .placeOrder →
        ∃ order, AllowedOrder A os g c req now parsedAt order)

/-- How a script ended that has no leave. -/
def HookExit.WithoutLeave (C : HookCrates) (env : HookEnv) (raw : String) (e : HookExit) : Prop :=
  e.code = 2 ∨ e = .shown ∧ env.dryRun ∨ e = .thrown ∧ C.parse raw = .ok .null

/-- What holds of a script in each stage. -/
def StageInv (C : HookCrates) (A : Arith) (cfg : ServerConfig) (os : List ServerRecord) (s : ServerState)
    (env : HookEnv) (raw : String) : HookStage → Prop
  | .sending call => env.prepare C raw = .ok call
  | .asking call c => env.prepare C raw = .ok call ∧
      CallInv A cfg call.bearer (call.request C) os c (s.calls c)
  | .exited id e =>
      (∀ c, id = some c → ∃ call, env.prepare C raw = .ok call ∧
        CallInv A cfg call.bearer (call.request C) os c (s.calls c)) ∧
      ((e = .allowed ∧ ∃ c, id = some c ∧ s.calls c = .answered .allow) ∨ e.WithoutLeave C env raw)

/-- The server's records. -/
def serverLog (os : List (Option ServerRecord)) : List ServerRecord := os.filterMap id

/-- **The invariant.** The server runs as it does by itself, the scripts are in their stages,
and each call is one script's. -/
structure HookBridge.Inv (C : HookCrates) (A : Arith) (cfg : ServerConfig) (server : ServerState)
    (os : List (Option ServerRecord)) (s : HookBridge) : Prop where
  run : (Server.system A cfg).Run server (serverLog os) s.server
  stages : ∀ h p, s.hooks h = some p → StageInv C A cfg (serverLog os) s.server p.env p.raw p.stage
  own : ∀ h h' p p' c, s.hooks h = some p → s.hooks h' = some p' → p.stage.id = some c → p'.stage.id = some c →
    h = h'

section

variable {C : HookCrates} {A : Arith} {cfg : ServerConfig} {server server' : ServerState}
  {os : List (Option ServerRecord)} {log : List ServerRecord} {o : ServerRecord} {s : HookBridge} {env : HookEnv}
  {raw : String} {stage : HookStage} {p : HookProcess} {h c : ℕ}

theorem serverLog_some : serverLog (os ++ [some o]) = serverLog os ++ [o] := by
  rw [serverLog, List.filterMap_append]
  rfl

theorem serverLog_none : serverLog (os ++ [none]) = serverLog os := by
  rw [serverLog, List.filterMap_append]
  exact List.append_nil _

theorem StageInv.call (hi : StageInv C A cfg log server env raw stage) (hid : stage.id = some c) :
    ∃ call, env.prepare C raw = .ok call ∧
      CallInv A cfg call.bearer (call.request C) log c (server.calls c) := by
  cases stage with
  | sending call => simp [HookStage.id] at hid
  | asking call c' =>
    obtain rfl := Option.some.inj hid
    exact ⟨call, hi⟩
  | exited id e => exact hi.1 c hid

theorem StageInv.step (hi : StageInv C A cfg log server env raw stage) (hb : o.before = server)
    (hmoved : Moved A server server' o.event) : StageInv C A cfg (log ++ [o]) server' env raw stage := by
  cases stage with
  | sending call => exact hi
  | asking call c => exact ⟨hi.1, hi.2.step hb hmoved⟩
  | exited id e =>
    refine ⟨fun c hid => ?_, ?_⟩
    · obtain ⟨call, hcall, hinv⟩ := hi.1 c hid
      exact ⟨call, hcall, hinv.step hb hmoved⟩
    · refine hi.2.imp_left ?_
      rintro ⟨he, c, hid, hanswered⟩
      exact ⟨he, c, hid, hmoved.answered hanswered⟩

theorem StageInv.exit {e : HookExit} (hi : StageInv C A cfg log server env raw stage)
    (he : (e = .allowed ∧ ∃ c, stage.id = some c ∧ server.calls c = .answered .allow) ∨ e.WithoutLeave C env raw) :
    StageInv C A cfg log server env raw (.exited stage.id e) :=
  ⟨fun _ hid => hi.call hid, he⟩

namespace HookBridge

theorem Inv.server_step {a : ServerAction} (hI : Inv C A cfg server os s)
    (hstep : s.server.step A cfg a = some (server', o)) :
    Inv C A cfg server (os ++ [some o]) { s with server := server' } where
  run := by
    rw [serverLog_some]
    exact .snoc hI.run hstep
  stages := by
    intro h p hp
    obtain ⟨hb, -, hmoved⟩ := ServerState.step_moved hstep
    rw [serverLog_some]
    exact (hI.stages h p hp).step hb hmoved
  own := hI.own

theorem hooks_setHook (s : HookBridge) (h : ℕ) (p : HookProcess) (h' : ℕ) :
    (s.setHook h p).hooks h' = if h' = h then some p else s.hooks h' :=
  Function.update_apply s.hooks h (some p) h'

theorem Inv.setHook (hI : Inv C A cfg server os s) (hp : StageInv C A cfg (serverLog os) s.server p.env p.raw p.stage)
    (hown : ∀ c, p.stage.id = some c → ∀ h' p', s.hooks h' = some p' → p'.stage.id = some c → h' = h) :
    Inv C A cfg server os (s.setHook h p) where
  run := hI.run
  stages := by
    intro h' p' hp'
    rw [hooks_setHook] at hp'
    split at hp'
    · obtain rfl := Option.some.inj hp'
      exact hp
    · exact hI.stages h' p' hp'
  own := by
    intro h₁ h₂ p₁ p₂ c hp₁ hp₂ hid₁ hid₂
    rw [hooks_setHook] at hp₁ hp₂
    split at hp₁
    · next heq₁ =>
      obtain rfl := Option.some.inj hp₁
      split at hp₂
      · next heq₂ => exact heq₁.trans heq₂.symm
      · exact heq₁.trans (hown c hid₁ h₂ p₂ hp₂ hid₂).symm
    · split at hp₂
      · next heq₂ =>
        obtain rfl := Option.some.inj hp₂
        exact (hown c hid₂ h₁ p₁ hp₁ hid₁).trans heq₂.symm
      · exact hI.own h₁ h₂ p₁ p₂ c hp₁ hp₂ hid₁ hid₂

theorem Inv.exit {e : HookExit} (hI : Inv C A cfg server os s) (hp : s.hooks h = some p)
    (he : (e = .allowed ∧ ∃ c, p.stage.id = some c ∧ s.server.calls c = .answered .allow) ∨
      e.WithoutLeave C p.env p.raw) : Inv C A cfg server os (s.exit h p e) :=
  hI.setHook ((hI.stages h p hp).exit he) fun c hid h' p' hp' hid' => hI.own h' h p' p c hp' hp hid' hid

theorem Inv.quiet {s' : HookBridge} (hI : Inv C A cfg server os s') : Inv C A cfg server (os ++ [none]) s' := by
  have hlog : serverLog (os ++ [none]) = serverLog os := serverLog_none
  exact ⟨hlog ▸ hI.run, hlog ▸ hI.stages, hI.own⟩

theorem Inv.spawn {s' : HookBridge} (hI : Inv C A cfg server os s) (hstep : s.spawn C h env raw = some s') :
    Inv C A cfg server os s' := by
  unfold HookBridge.spawn at hstep
  split at hstep
  · simp at hstep
  · split at hstep
    · next call hcall =>
      obtain rfl := Option.some.inj hstep
      exact hI.setHook hcall fun c hid => by simp [HookStage.id] at hid
    · next e he =>
      obtain rfl := Option.some.inj hstep
      exact hI.setHook ⟨fun c hid => by simp at hid, .inr (HookEnv.prepare_error he)⟩
        fun c hid => by simp [HookStage.id] at hid

/-- The request is a call of its own: no other script's call is idle. -/
theorem Inv.deliver {s' : HookBridge} (hI : Inv C A cfg server os s)
    (hstep : s.deliver C A cfg h c = some (s', o)) : Inv C A cfg server (os ++ [some o]) s' := by
  unfold HookBridge.deliver at hstep
  split at hstep
  · next env raw call hp =>
    obtain ⟨⟨server', o'⟩, hserver, heq⟩ := Option.map_eq_some_iff.mp hstep
    obtain ⟨rfl, rfl⟩ := Prod.mk.inj heq
    obtain ⟨hidle, harrived⟩ := CallInv.arrive hserver (serverLog (os ++ [some o']))
    refine (hI.server_step hserver).setHook ⟨hI.stages h _ hp, harrived⟩ fun c' hid h' p' hp' hid' => ?_
    obtain rfl := Option.some.inj hid
    obtain ⟨_, -, hinv⟩ := (hI.stages h' p' hp').call hid'
    rw [hidle] at hinv
    exact hinv.elim
  · simp at hstep

theorem Inv.answer {s' : HookBridge} {correlationId : String} (hC : C.ReadsAnswers) (hI : Inv C A cfg server os s)
    (hstep : s.answer C h correlationId = some s') : Inv C A cfg server os s' := by
  unfold HookBridge.answer at hstep
  split at hstep
  · next env raw call c hp =>
    split at hstep
    · next outcome hcall =>
      obtain rfl := Option.some.inj hstep
      refine hI.exit hp ?_
      cases outcome with
      | allow => exact .inl ⟨HookScript.finish_allow hC, c, rfl, hcall⟩
      | deny reason => exact .inr (.inl (HookScript.code_finish_deny hC reason))
    · next e hcall =>
      obtain rfl := Option.some.inj hstep
      exact hI.exit hp (.inr (.inl (HookScript.code_finish_of_error e.status_not_ok)))
    · simp at hstep
  · simp at hstep

theorem Inv.reject {s' : HookBridge} {status : ℕ} {text : String} (hI : Inv C A cfg server os s)
    (hstep : s.reject C h status text = some s') : Inv C A cfg server os s' := by
  unfold HookBridge.reject at hstep
  split at hstep
  · next hp =>
    split at hstep
    · simp at hstep
    · next hstatus =>
      obtain rfl := Option.some.inj hstep
      exact hI.exit hp (.inr (.inl (HookScript.code_finish_of_error hstatus)))
  · simp at hstep

theorem Inv.fail {s' : HookBridge} {message : String} (hI : Inv C A cfg server os s)
    (hstep : s.fail h message = some s') : Inv C A cfg server os s' := by
  unfold HookBridge.fail at hstep
  split at hstep
  · simp at hstep
  · simp at hstep
  · next p _ hp =>
    obtain rfl := Option.some.inj hstep
    exact hI.exit hp (.inr (.inl rfl))

/-- **Every run** keeps the invariant. -/
theorem inv_run {control : Control} {timeout : ℕ} {budget : SessionBudget} (hC : C.ReadsAnswers)
    (hrun : (system C A cfg).Run (start (.start control timeout budget)) os s) :
    Inv C A cfg (.start control timeout budget) os s := by
  refine Lts.Run.inv (P := Inv C A cfg (.start control timeout budget))
    ⟨.nil, fun h p hp => by simp [start] at hp, fun h h' p p' c hp => by simp [start] at hp⟩ ?_ hrun
  intro os s a s' o _ hI hstep
  cases a with
  | server a =>
    obtain ⟨⟨server', o'⟩, hserver, heq⟩ := Option.map_eq_some_iff.mp hstep
    obtain ⟨rfl, rfl⟩ := Prod.mk.inj heq
    exact hI.server_step hserver
  | spawn h env raw =>
    obtain ⟨s₁, hspawn, heq⟩ := Option.map_eq_some_iff.mp hstep
    obtain ⟨rfl, rfl⟩ := Prod.mk.inj heq
    exact (hI.spawn hspawn).quiet
  | deliver h c =>
    obtain ⟨⟨s₁, o'⟩, hdeliver, heq⟩ := Option.map_eq_some_iff.mp hstep
    obtain ⟨rfl, rfl⟩ := Prod.mk.inj heq
    exact hI.deliver hdeliver
  | answer h correlationId =>
    obtain ⟨s₁, hanswer, heq⟩ := Option.map_eq_some_iff.mp hstep
    obtain ⟨rfl, rfl⟩ := Prod.mk.inj heq
    exact (hI.answer hC hanswer).quiet
  | reject h status text =>
    obtain ⟨s₁, hreject, heq⟩ := Option.map_eq_some_iff.mp hstep
    obtain ⟨rfl, rfl⟩ := Prod.mk.inj heq
    exact (hI.reject hreject).quiet
  | fail h message =>
    obtain ⟨s₁, hfail, heq⟩ := Option.map_eq_some_iff.mp hstep
    obtain ⟨rfl, rfl⟩ := Prod.mk.inj heq
    exact (hI.fail hfail).quiet

end HookBridge

/-- **Leave.** Whatever the scripts, the server and its other clients do: a script that has exited
gives leave only to a call that the server let through, as a call that is no other script's.
Every other one exits with 2, but where it was to show its request, or read `null`. -/
theorem leave_is_vetted {control : Control} {timeout : ℕ} {budget : SessionBudget} (hC : C.ReadsAnswers)
    (hrun : (HookBridge.system C A cfg).Run (.start (.start control timeout budget)) os s) {p : HookProcess}
    {id : Option ℕ} {e : HookExit} (hp : s.hooks h = some p) (hexited : p.stage = .exited id e) :
    (e = .allowed ∧ ∃ c, id = some c ∧ LetThrough C A cfg (serverLog os) p.env p.raw c ∧
      ∀ h' p', s.hooks h' = some p' → p'.stage.id = some c → h' = h) ∨ e.WithoutLeave C p.env p.raw := by
  have hI := HookBridge.inv_run hC hrun
  have hstage := hI.stages h p hp
  rw [hexited] at hstage
  refine hstage.2.imp_left ?_
  rintro ⟨rfl, c, rfl, hanswered⟩
  obtain ⟨call, hprepare, hcall⟩ := hstage.1 c rfl
  rw [hanswered] at hcall
  obtain ⟨role, req, hrole, hrequest, g, hg, now, parsedAt, reparsedAt, hgated, heval⟩ := hcall
  obtain ⟨hname, harguments, hcontext⟩ := HookCall.request_eq_ok hrequest
  have hserver := Sherwood.inv_run hI.run
  have hverdict : Verdict A (serverLog os) c .allow := by
    have hphase := hserver.phase c
    rw [hanswered] at hphase
    exact hphase
  refine ⟨rfl, c, rfl, ⟨call, role, req, hprepare, hrole, hname, harguments, hcontext, g, hg, now, parsedAt, reparsedAt,
    hgated, heval, fun hclass => ?_⟩, fun h' p' hp' hid => hI.own h' h p' p c hp' hp hid (by rw [hexited]; rfl)⟩
  have horder : g.gatesOrder c = true :=
    ServerRecord.gatesOrder_iff.mpr ⟨req, now, parsedAt, reparsedAt, hgated, hclass⟩
  obtain ⟨req', order, notional, hvetted, hnotional, hbooked⟩ := hverdict.vetted hg horder
  exact hvetted.allowedOrder hserver hgated hnotional hbooked

end

/-! ### Two scripts, and an operator who approves one of their orders -/

/-- A JSON string without its escapes. -/
def unescape : List Char → List Char
  | '\\' :: 'u' :: '0' :: '0' :: a :: b :: cs => Char.ofNat (16 * (a.toNat - 48) + hexDigit b) :: unescape cs
  | '\\' :: c :: cs => escaped c :: unescape cs
  | c :: cs => c :: unescape cs
  | [] => []
where
  hexDigit (c : Char) : ℕ := if c.isDigit then c.toNat - 48 else c.toNat - 87
  escaped (c : Char) : Char :=
    if c = 'b' then Char.ofNat 8 else if c = 't' then '\t' else if c = 'n' then '\n'
    else if c = 'f' then Char.ofNat 12 else if c = 'r' then '\r' else c

theorem unescape_escape (c : Char) (cs : List Char) : unescape (Json.escape c ++ cs) = c :: unescape cs := by
  have hchar : ∀ n, c.toNat = n → c = Char.ofNat n := fun n hn => by rw [← hn, Char.ofNat_toNat]
  have hcontrol : ∀ n < 32, Char.ofNat (16 * ((Nat.digitChar (n / 16)).toNat - 48) +
      unescape.hexDigit (Nat.digitChar (n % 16))) = Char.ofNat n := by decide
  unfold Json.escape
  split_ifs with hquote hslash hb ht hn hf hr hlt
  · rw [hquote]
    rfl
  · rw [hslash]
    rfl
  · rw [hchar 8 hb]
    rfl
  · rw [hchar 9 ht]
    rfl
  · rw [hchar 10 hn]
    rfl
  · rw [hchar 12 hf]
    rfl
  · rw [hchar 13 hr]
    rfl
  · show Char.ofNat _ :: unescape cs = _
    rw [hcontrol _ hlt, Char.ofNat_toNat]
  · rw [List.singleton_append, unescape]
    · intro _ _ _ h
      exact absurd h hslash
    · intro _ _ h
      exact absurd h hslash

theorem unescape_flatMap : ∀ cs : List Char, unescape (cs.flatMap Json.escape) = cs
  | [] => rfl
  | c :: cs => by rw [List.flatMap_cons, unescape_escape, unescape_flatMap cs]

/-- What the agent wants to do: buy two of `ROAR` at 10. -/
def buyEvent : Json :=
  .obj [("tool_name", .str "place_order"), ("tool_input", (buyCall (.str "2") (.str "10")).arguments)]

/-- An account with 1000 of cash. -/
def cashContext : Json :=
  .obj [("portfolio", .obj [("cash", .str "1000"), ("positions", .obj []), ("realized_pnl", .str "0"),
    ("avg_cost", .obj [])]), ("equity", .str "1000"), ("unrealized_pnl", .str "0")]

def denyHead : String := "\x7b\"decision\":\"deny\",\"reason\":\""

/-- The code around the scripts, as far as these texts go. -/
def buyCrates : HookCrates where
  parse text :=
    if text = buyEvent.render then .ok (.ofJson buyEvent)
    else if text = cashContext.render then .ok (.ofJson cashContext)
    else if text = HookOutcome.allow.json.render then .ok (.ofJson HookOutcome.allow.json)
    else
      let reason := (text.toList.drop denyHead.toList.length).dropLast.dropLast
      .ok (.ofJson (HookOutcome.deny (.ofList (unescape reason))).json)
  value _ := (buyCall (.str "2") (.str "10")).arguments
  context _ := .ok ⟨.new 1000, none, 1000, 0, none⟩
  noString _ := "invalid type, expected a string"

theorem toList_render_deny (reason : String) : (HookOutcome.deny reason).json.render.toList =
    denyHead.toList ++ (reason.toList.flatMap Json.escape ++ ['"', '\x7d']) := by
  have hdecision : (Json.quote "decision").toList = "\"decision\"".toList := by decide +kernel
  have hdeny : (Json.quote "deny").toList = "\"deny\"".toList := by decide +kernel
  have hkey : (Json.quote "reason").toList = "\"reason\"".toList := by decide +kernel
  have hreason : (Json.quote reason).toList = '"' :: (reason.toList.flatMap Json.escape ++ ['"']) := by
    simp [Json.quote]
  simp only [HookOutcome.json, Json.render, Json.renderFields, String.toList_append, String.toList_intercalate,
    List.map_cons, List.map_nil, hdecision, hdeny, hkey, hreason]
  simp [denyHead, List.intercalate]

theorem render_deny_ne {reason : String} {v : Json} (h : v.render.toList.take 14 ≠ denyHead.toList.take 14) :
    (HookOutcome.deny reason).json.render ≠ v.render := by
  intro heq
  rw [← heq, toList_render_deny, List.take_append_of_le_length (by decide)] at h
  exact h rfl

theorem readsAnswers_buyCrates : buyCrates.ReadsAnswers := by
  intro outcome
  cases outcome with
  | allow => rfl
  | deny reason =>
    have hbuy : (HookOutcome.deny reason).json.render ≠ buyEvent.render := render_deny_ne (by decide +kernel)
    have hcash : (HookOutcome.deny reason).json.render ≠ cashContext.render := render_deny_ne (by decide +kernel)
    have hallow : (HookOutcome.deny reason).json.render ≠ HookOutcome.allow.json.render :=
      render_deny_ne (by decide +kernel)
    have hdrop : ((HookOutcome.deny reason).json.render.toList.drop denyHead.toList.length).dropLast.dropLast =
        reason.toList.flatMap Json.escape := by
      rw [toList_render_deny, List.drop_left, List.dropLast_append_of_ne_nil (by simp)]
      exact List.dropLast_concat
    simp only [buyCrates, if_neg hbuy, if_neg hcash, if_neg hallow, hdrop, unescape_flatMap, String.ofList_toList]

/-- Two scripts are started with the same call; the operator approves the first order, and
denies the second. -/
def twoScripts : List HookAction :=
  let env : HookEnv := ⟨some "operator-token", some ("ctx.json", .ok cashContext.render), false⟩
  [.spawn 0 env buyEvent.render, .spawn 1 env buyEvent.render, .deliver 1 7, .deliver 0 3,
    .server (.gate 3 .epoch .epoch .epoch), .server (.enqueue 3 .epoch .epoch), .server (.gate 7 .epoch .epoch .epoch),
    .server (.enqueue 7 .epoch .epoch), .server (.approval (some "operator-token") "apr-0-1" "approve" none .epoch),
    .server (.approval (some "operator-token") "apr-0-2" "deny" none .epoch), .server (.poll 3 false),
    .server (.poll 7 false), .server (.record 3 0 0), .server (.reply 3), .server (.reply 7), .answer 0 "id-0",
    .answer 1 "id-1"]

def HookStage.exit? : HookStage → Option HookExit
  | .exited _ e => some e
  | _ => none

theorem HookStage.exit?_eq_some {stage : HookStage} {e : HookExit} (h : stage.exit? = some e) :
    ∃ id, stage = .exited id e := by
  cases stage with
  | exited id e' => exact ⟨id, by rw [Option.some.inj h]⟩
  | sending call => simp [exit?] at h
  | asking call c => simp [exit?] at h

/-- The one has leave, and the other is denied. -/
theorem leave_is_vetted_twoScripts :
    ∃ os s, (HookBridge.system buyCrates .dec96 twoTokens).Run (.start manualServer) os s ∧
      (∃ p c, s.hooks 0 = some p ∧ LetThrough buyCrates .dec96 twoTokens (serverLog os) p.env p.raw c) ∧
      (s.hooks 1).bind (fun p => p.stage.exit?) = some (.denied "sherwood: operator denied the order") := by
  have hexec : ((HookBridge.system buyCrates .dec96 twoTokens).exec (.start manualServer) twoScripts).map (fun r =>
      decide ((r.1.hooks 0).bind (fun p => p.stage.exit?) = some .allowed ∧
        (r.1.hooks 1).bind (fun p => p.stage.exit?) = some (.denied "sherwood: operator denied the order"))) =
      some true := by
    decide +kernel
  obtain ⟨⟨s, os⟩, hrun, hexits⟩ := Option.map_eq_some_iff.mp hexec
  obtain ⟨hfirst, hsecond⟩ := of_decide_eq_true hexits
  obtain ⟨p, hp, hexit⟩ := Option.bind_eq_some_iff.mp hfirst
  obtain ⟨id, hstage⟩ := HookStage.exit?_eq_some hexit
  have hleave := leave_is_vetted readsAnswers_buyCrates (.of_exec hrun) hp hstage
  have hnot : ¬ HookExit.WithoutLeave buyCrates p.env p.raw .allowed := by
    rintro (hcode | ⟨he, -⟩ | ⟨he, -⟩)
    · exact absurd hcode (by decide)
    · exact absurd he (by decide)
    · exact absurd he (by decide)
  obtain ⟨-, c, -, hthrough, -⟩ := hleave.resolve_right hnot
  exact ⟨os, s, .of_exec hrun, ⟨p, c, hp, hthrough⟩, hsecond⟩

end Sherwood
