/-
# The HTTP client

`HttpClient` of `crates/chain/src/rpc.rs`: each request is posted, a response `429` is
backed off from and posted again, up to five times, and what comes back in the end is read
as a result or as an error.

A program that asks a node through it asks some node: it ends as against that one, and on
the wire there are its requests in their order, each posted one to six times with the same
body, until a response that is not a `429` (`http_refines_node`). So what holds of a
program against every node holds of it over HTTP. A server that backs off no more than
five times in a row makes no difference (`throttling_is_transparent`).

Key definitions: `Wire`, `HttpClient.request`, `overHttp`, `Exchanged`, `Throttling`.
Key theorems: `run_postRetrying`, `run_request`, `http_refines_node`, `throttling_is_transparent`.
-/
import Sherwood.Chain.Rpc
import Sherwood.Lib.Relay

namespace Sherwood

/-- `Value::get`, of a key. -/
def Json.field (v : Json) (key : String) : Option Json := v.asObject.bind fun fields => Json.get fields key

/-- `Value::as_i64`. -/
def Json.asI64 : Json → Option Int64
  | .num (.posInt n) => if n.toNat < 2 ^ 63 then some (.ofNat n.toNat) else none
  | .num (.negInt n) => some n
  | _ => none

namespace Chain

/-- What the client does: post a body, or sleep so many milliseconds. -/
inductive Wire where
  | post (body : Json)
  | sleep (millis : ℕ)

/-- A response: its status, also as it is displayed, and its body as JSON or why it is
none. -/
structure HttpResponse where
  status : ℕ
  statusText : String
  json : Except String Json

/-- A program on the wire; to a post there is a response or the text of an error. -/
abbrev Http (α : Type) := Dialogue Wire (Except String HttpResponse) ChainError α

def post (body : Json) : Http HttpResponse := .ask (.post body) fun r => .done (.ofExcept (r.mapError .transport))

def sleep (millis : ℕ) : Http Unit := .ask (.sleep millis) fun _ => .done (.ok ())

/-- `MAX_429_RETRIES`. -/
def max429Retries : ℕ := 5

/-- Post until the response is not a `429`, with so many retries left. -/
def postRetrying (body : Json) : (retries : ℕ) → Http HttpResponse
  | 0 => post body
  | retries + 1 => do
    let resp ← post body
    if resp.status = 429 then
      sleep (400 * 2 ^ (max429Retries - (retries + 1)))
      postRetrying body retries
    else return resp

variable (crates : Crates)

/-- What an `error` of a response says. -/
def readError (err : Json) : Outcome ChainError Json := do
  let code := ((err.field "code").bind Json.asI64).getD 0
  let message := ((err.field "message").bind Json.asStr).getD "unknown"
  let data := ((err.field "data").bind Json.asStr).filter fun d => "0x".toList <+: d.toList
  if data.isSome || mentions message "revert" then
    match data.map (decodeRevertReason crates.hexDecode crates.checks) with
    | some (.ok reason) => .err (.reverted (some reason) data)
    | some .panic => .panic
    | _ => .err (.reverted none data)
  else .err (.rpc code message)

/-- What a response says. -/
def readResponse (resp : HttpResponse) : Outcome ChainError Json := do
  .reject (¬ (200 ≤ resp.status ∧ resp.status < 300)) (.transport s!"HTTP {resp.statusText}")
  let v ← .ofExcept (resp.json.mapError fun e => .decode s!"response body: {e}")
  match v.field "error" with
  | some err => readError crates err
  | none => .okOr (v.field "result") (.decode "response had neither result nor error")

/-- The body of a request. -/
def requestBody (id : UInt64) (q : Request) : Json :=
  .obj [("id", .num (.posInt id)), ("jsonrpc", .str "2.0"), ("method", .str q.method), ("params", q.params)]

/-- `HttpClient::request`, with the id it is given. -/
def HttpClient.request (id : UInt64) (q : Request) : Http Json := do
  let resp ← postRetrying (requestBody id q) max429Retries
  .done (readResponse crates resp)

/-- A program whose requests all go through one client, which numbers them from one. -/
def overHttp {ε α : Type} (x : Dialogue Request (Outcome ChainError Json) ε α) :
    Dialogue Wire (Except String HttpResponse) ε α :=
  x.through (fun n q => (HttpClient.request crates (.ofNat (n + 1)) q).outcome) 0

/-! ### One request -/

/-- The reply is a `429`. -/
def Throttled (r : Except String HttpResponse) : Prop := ∃ resp, r = .ok resp ∧ resp.status = 429

/-- So many posts that were throttled, each with its pause. -/
def backoffs (body : Json) (n : ℕ) : List Wire := (List.range n).flatMap fun k => [.post body, .sleep (400 * 2 ^ k)]

theorem backoffs_succ (body : Json) (n : ℕ) :
    backoffs body (n + 1) = backoffs body n ++ [.post body, .sleep (400 * 2 ^ n)] := by
  simp [backoffs, List.range_succ]

/-- A server on the wire. -/
abbrev HttpServer := List Wire → Wire → Except String HttpResponse

/-- What the client makes of the reply that it does not back off from. -/
def readReply (r : Except String HttpResponse) : Outcome ChainError Json :=
  (Outcome.ofExcept (r.mapError .transport)) >>= readResponse crates

variable {crates} {server : HttpServer} {wire : List Wire} {body : Json}

/-- The posts of one request: throttled ones, and then one that is not or is the last
of six. -/
structure Posted (server : HttpServer) (wire : List Wire) (body : Json) (n : ℕ) : Prop where
  le : n ≤ max429Retries
  throttled : ∀ k < n, Throttled (server (wire ++ backoffs body k) (.post body))
  last : n < max429Retries → ¬ Throttled (server (wire ++ backoffs body n) (.post body))

theorem run_postRetrying : ∀ (retries : ℕ), retries ≤ max429Retries →
    (∀ k < max429Retries - retries, Throttled (server (wire ++ backoffs body k) (.post body))) →
    ∃ n, Posted server wire body n ∧
      (postRetrying body retries).run server (wire ++ backoffs body (max429Retries - retries)) =
        (.ofExcept ((server (wire ++ backoffs body n) (.post body)).mapError .transport),
          wire ++ backoffs body n ++ [.post body])
  | 0, _, hbefore => ⟨max429Retries, ⟨le_rfl, hbefore, fun h => absurd h (lt_irrefl _)⟩, rfl⟩
  | retries + 1, hle, hbefore => by
    set tried := max429Retries - (retries + 1) with htried
    have hpost : (post body).run server (wire ++ backoffs body tried) =
        (.ofExcept ((server (wire ++ backoffs body tried) (.post body)).mapError .transport),
          wire ++ backoffs body tried ++ [.post body]) := rfl
    by_cases hbusy : Throttled (server (wire ++ backoffs body tried) (.post body))
    · -- it sleeps, and goes on with one retry less
      have hnext : tried + 1 = max429Retries - retries := by omega
      obtain ⟨n, hposted, hrun⟩ := run_postRetrying retries (Nat.le_of_succ_le hle) fun k hk => by
        by_cases hlast : k = tried
        · exact hlast ▸ hbusy
        · exact hbefore k (by omega)
      refine ⟨n, hposted, ?_⟩
      obtain ⟨resp, hresp, hstatus⟩ := hbusy
      rw [postRetrying, Dialogue.run_bind, hpost, hresp]
      show ((if resp.status = 429 then _ else _ : Http HttpResponse)).run server _ = _
      rw [if_pos hstatus, ← hrun, ← hnext, backoffs_succ]
      show (postRetrying body retries).run server (wire ++ backoffs body tried ++ [.post body] ++ [.sleep _]) = _
      simp only [List.append_assoc, List.cons_append, List.nil_append, htried]
    · refine ⟨tried, ⟨Nat.sub_le _ _, hbefore, fun _ => hbusy⟩, ?_⟩
      rw [postRetrying, Dialogue.run_bind, hpost]
      cases hreply : server (wire ++ backoffs body tried) (.post body) with
      | error e => rfl
      | ok resp =>
        have hstatus : resp.status ≠ 429 := fun h => hbusy ⟨resp, hreply, h⟩
        show ((if resp.status = 429 then _ else _ : Http HttpResponse)).run server _ = _
        rw [if_neg hstatus]
        rfl

/-- **One request.** It is posted until the reply is not a `429`, six times at most, and
that reply is read. -/
theorem run_request (server : HttpServer) (wire : List Wire) (id : UInt64) (q : Request) : ∃ n,
    Posted server wire (requestBody id q) n ∧ (HttpClient.request crates id q).run server wire =
      (readReply crates (server (wire ++ backoffs (requestBody id q) n) (.post (requestBody id q))),
        wire ++ backoffs (requestBody id q) n ++ [.post (requestBody id q)]) := by
  obtain ⟨n, hposted, hrun⟩ := @run_postRetrying server wire (requestBody id q)
    max429Retries le_rfl fun k hk => absurd hk (by simp)
  refine ⟨n, hposted, ?_⟩
  rw [Nat.sub_self, show backoffs (requestBody id q) 0 = [] from rfl, List.append_nil] at hrun
  rw [HttpClient.request, Dialogue.run_bind, hrun, readReply]
  cases server (wire ++ backoffs (requestBody id q) n) (.post (requestBody id q)) <;> rfl

/-! ### Programs -/

/-- What is said on the wire for the requests that a node is asked: each request, numbered,
with the throttled posts before the one whose reply is the node's. -/
inductive Exchanged (crates : Crates) (server : HttpServer) (node : Node) :
    ℕ → List Request → List Wire → List Request → List Wire → Prop
  | nil {i : ℕ} {asked : List Request} {wire : List Wire} : Exchanged crates server node i asked wire asked wire
  | cons {i n : ℕ} {q : Request} {asked asked' : List Request} {wire wire' : List Wire} {body : Json}
      (hbody : body = requestBody (.ofNat (i + 1)) q) (hposted : Posted server wire body n)
      (hreply : node asked q = readReply crates (server (wire ++ backoffs body n) (.post body)))
      (hrest : Exchanged crates server node (i + 1) (asked ++ [q]) (wire ++ backoffs body n ++ [.post body])
        asked' wire') : Exchanged crates server node i asked wire asked' wire'

theorem request_outcome {ε : Type} (server : HttpServer) (n : ℕ) (q : Request) (wire : List Wire) : ∃ r wire',
    ((HttpClient.request crates (.ofNat (n + 1)) q).outcome :
      Dialogue Wire (Except String HttpResponse) ε (Outcome ChainError Json)).run server wire = (.ok r, wire') :=
  ⟨_, _, Dialogue.run_outcome _ _⟩

theorem Exchanged.of_relayed {ε : Type} {node : Node} {i : ℕ} {asked asked' : List Request} {wire wire' : List Wire}
    (h : Dialogue.Relayed (fun n q => ((HttpClient.request crates (.ofNat (n + 1)) q).outcome :
      Dialogue Wire (Except String HttpResponse) ε _)) server node i asked wire asked' wire') : Exchanged crates server node i asked wire asked' wire' := by
  induction h with
  | nil => exact .nil
  | @cons i q asked _ wire mid _ htold _ ih =>
    obtain ⟨n, hposted, hrun⟩ := @run_request crates server wire (.ofNat (i + 1)) q
    rw [Dialogue.run_outcome, hrun] at htold
    obtain ⟨hreply, hmid⟩ := Prod.mk.inj htold
    obtain rfl : _ = mid := hmid
    exact .cons rfl hposted (Outcome.ok.inj hreply).symm ih

/-- A post of the wire. -/
def Wire.isPost : Wire → Bool
  | .post _ => true
  | .sleep _ => false

/-- How long the client sleeps. -/
def Wire.pause : Wire → ℕ
  | .post _ => 0
  | .sleep millis => millis

theorem posts_backoffs (body : Json) (n : ℕ) : (backoffs body n).countP Wire.isPost = n := by
  induction n with
  | zero => rfl
  | succ n ih =>
    rw [backoffs_succ, List.countP_append, ih]
    rfl

theorem pause_backoffs (body : Json) (n : ℕ) : ((backoffs body n).map Wire.pause).sum + 400 = 400 * 2 ^ n := by
  induction n with
  | zero => rfl
  | succ n ih =>
    have hlast : ([Wire.post body, .sleep (400 * 2 ^ n)].map Wire.pause).sum = 400 * 2 ^ n := by simp [Wire.pause]
    rw [backoffs_succ, List.map_append, List.sum_append, hlast, pow_succ]
    omega

/-- For each request there are six posts at most, and pauses of 12.4 seconds. -/
theorem Exchanged.bounds {node : Node} {i : ℕ} {asked asked' : List Request} {wire wire' : List Wire}
    (h : Exchanged crates server node i asked wire asked' wire') : asked.length ≤ asked'.length ∧
      wire'.countP Wire.isPost + 6 * asked.length ≤ wire.countP Wire.isPost + 6 * asked'.length ∧
      (wire'.map Wire.pause).sum + 12400 * asked.length ≤ (wire.map Wire.pause).sum + 12400 * asked'.length := by
  induction h with
  | nil => exact ⟨le_rfl, le_rfl, le_rfl⟩
  | @cons i n q asked asked' wire wire' body _ hposted _ _ ih =>
    obtain ⟨hlen, hposts, hpause⟩ := ih
    have hn : n ≤ 5 := hposted.le
    have hpow : 2 ^ n ≤ 2 ^ 5 := Nat.pow_le_pow_right (by decide) hn
    have hslept := pause_backoffs body n
    have hsent : (backoffs body n).countP Wire.isPost = n := posts_backoffs body n
    simp only [List.countP_append, List.map_append, List.sum_append, List.length_append, List.countP_singleton,
      List.map_cons, List.map_nil, List.sum_singleton, List.length_singleton, hsent, Wire.isPost, Wire.pause,
      if_true] at hlen hposts hpause
    refine ⟨by omega, by omega, by omega⟩

/-- **Over HTTP.** A program over HTTP asks some node: it ends as against that node, whose
replies are what the client reads in the last response to each request; and for each
request it posts no more than six times, and sleeps no longer than 12.4 seconds. -/
theorem http_refines_node {ε α : Type} (crates : Crates) (server : HttpServer)
    (x : Dialogue Request (Outcome ChainError Json) ε α) : ∃ node : Node,
    ((overHttp crates x).run server []).1 = (x.run node []).1 ∧
      Exchanged crates server node 0 [] [] (x.run node []).2 ((overHttp crates x).run server []).2 ∧
      ((overHttp crates x).run server []).2.countP Wire.isPost ≤ 6 * (x.run node []).2.length ∧
      (((overHttp crates x).run server []).2.map Wire.pause).sum ≤ 12400 * (x.run node []).2.length := by
  obtain ⟨node, hend, hrelayed⟩ := @Dialogue.exists_server _ _ _ _ _ _ _ server ⟨.panic⟩
    (fun n q wire => @request_outcome crates _ server n q wire) x
  have hexchanged : Exchanged crates server node 0 [] [] (x.run node []).2 ((overHttp crates x).run server []).2 :=
    .of_relayed hrelayed
  obtain ⟨-, hposts, hpause⟩ := hexchanged.bounds
  refine ⟨node, hend, hexchanged, ?_, ?_⟩
  · simpa using hposts
  · simpa using hpause

/-! ### Throttling -/

/-- The server backs the client off now and then, and otherwise replies as `reply` does;
which it may by the request's number, so as it likes. -/
structure Throttling (reply : Json → Except String HttpResponse) (server : HttpServer) : Prop where
  answers : ∀ body, ¬ Throttled (reply body)
  replies : ∀ wire body, Throttled (server wire (.post body)) ∨ server wire (.post body) = reply body
  patient : ∀ wire body, ∃ n ≤ max429Retries, ¬ Throttled (server (wire ++ backoffs body n) (.post body))

/-- The server that never backs a client off. -/
def unthrottled (reply : Json → Except String HttpResponse) : HttpServer
  | _, .post body => reply body
  | _, .sleep _ => .error ""

theorem throttling_unthrottled {reply : Json → Except String HttpResponse} (h : ∀ body, ¬ Throttled (reply body)) :
    Throttling reply (unthrottled reply) :=
  ⟨h, fun _ _ => .inr rfl, fun _ body => ⟨0, Nat.zero_le _, h body⟩⟩

theorem Throttling.run_request {reply : Json → Except String HttpResponse} (h : Throttling reply server)
    (wire : List Wire) (id : UInt64) (q : Request) :
    ((HttpClient.request crates id q).run server wire).1 = readReply crates (reply (requestBody id q)) := by
  obtain ⟨n, hposted, hrun⟩ := @Chain.run_request crates server wire id q
  have hlast : ¬ Throttled (server (wire ++ backoffs (requestBody id q) n) (.post (requestBody id q))) := by
    by_cases hn : n < max429Retries
    · exact hposted.last hn
    · -- all retries were used, so the one post it gets through with is the last
      obtain ⟨m, hm, hfree⟩ := h.patient wire (requestBody id q)
      by_cases hmn : m < n
      · exact absurd (hposted.throttled m hmn) hfree
      · obtain rfl : m = n := by omega
        exact hfree
  rw [hrun, (h.replies _ _).resolve_left hlast]

/-- **Throttling is transparent.** A server that backs each request off no more than five
times makes no difference to what a program ends with. -/
theorem throttling_is_transparent {ε α : Type} (crates : Crates) (reply : Json → Except String HttpResponse)
    (server : HttpServer) (h : Throttling reply server) (x : Dialogue Request (Outcome ChainError Json) ε α) :
    ((overHttp crates x).run server []).1 = ((overHttp crates x).run (unthrottled reply) []).1 := by
  have hplain := throttling_unthrottled h.answers
  have hrun : ∀ (x : Dialogue Request (Outcome ChainError Json) ε α) (n : ℕ) (wire wire' : List Wire),
      ((x.through (fun n q => (HttpClient.request crates (.ofNat (n + 1)) q).outcome) n).run server wire).1 =
        ((x.through (fun n q => (HttpClient.request crates (.ofNat (n + 1)) q).outcome) n).run
          (unthrottled reply) wire').1 := by
    intro x
    induction x with
    | done x => exact fun _ _ _ => rfl
    | ask q k ih =>
      intro n wire wire'
      simp only [Dialogue.through, Dialogue.run_bind, Dialogue.run_outcome, h.run_request, hplain.run_request]
      exact ih _ _ _ _
  exact hrun x 0 [] []

def heightReply : Except String HttpResponse := .ok ⟨200, "200 OK", .ok (.obj [("result", .str "0x10")])⟩

/-- A server that asks for patience, and once the client has slept tells the height. -/
def busyHeight : HttpServer := fun wire _ =>
  if 0 < wire.getLast?.elim 0 Wire.pause then heightReply else .ok ⟨429, "429 Too Many Requests", .error ""⟩

theorem not_throttled_height : ¬ Throttled heightReply := by
  rintro ⟨resp, hresp, hstatus⟩
  obtain rfl := Except.ok.inj hresp
  exact absurd hstatus (by decide)

theorem throttling_is_transparent_height :
    ((overHttp knownCrates (blockNumber knownCrates)).run busyHeight []).1 = .ok 16 := by
  have hthrottling : Throttling (fun _ => heightReply) busyHeight := by
    refine ⟨fun _ => not_throttled_height, fun wire body => ?_, fun wire body => ⟨1, by decide, ?_⟩⟩
    · unfold busyHeight
      by_cases hslept : 0 < wire.getLast?.elim 0 Wire.pause
      · exact .inr (if_pos hslept)
      · exact .inl ⟨_, if_neg hslept, rfl⟩
    · have hlast : (wire ++ backoffs body 1).getLast? = some (.sleep 400) := by
        rw [backoffs_succ, show backoffs body 0 = [] from rfl]
        simp
      have hslept : 0 < (wire ++ backoffs body 1).getLast?.elim 0 Wire.pause := by
        rw [hlast]
        decide
      have hreply : busyHeight (wire ++ backoffs body 1) (.post body) = heightReply := if_pos hslept
      rw [hreply]
      exact not_throttled_height
  rw [throttling_is_transparent knownCrates _ busyHeight hthrottling]
  rfl

end Chain

end Sherwood
