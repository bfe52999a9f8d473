/-
# A decider over an OpenAI-compatible endpoint

`crates/decision/src/ai/openai_compat.rs`, the one provider of the program: a chat completion is posted, and the
content of the first choice is the answer. What the endpoint does is any function from a request to what it came to.

One path panics. The body of a response that is no success is cut to 500 characters and then at 500 bytes, which is
inside a character for some bodies that are not ASCII (`complete_panic_iff`). On all other responses an answer is a
text that is not blank, of a success that declares at most a mebibyte (`complete_ok_iff`). So a decision over an
endpoint fails safe exactly if the responses it reads are sound and none is cut (`chat_fails_safe`), and a trade is
one that the first choice of a success names.

Key definitions: `ChatRequest`, `OpenAiCompatProvider.complete`, `Ai.decideOverChat`, `ChatCut`, `Ai.SoundChat`.
Key theorems: `complete_ok_iff`, `complete_panic_iff`, `chat_fails_safe`.
-/
import Sherwood.Decision.Ai

namespace Sherwood

/-- What is posted. The sampling temperature goes along and is read by no one here. -/
structure ChatRequest where
  url : String
  bearer : String
  model : String
  messages : List (String × String)
  maxTokens : UInt32
  stream : Bool
  deriving DecidableEq

/-- A response: its declared length, its status, its body as text, and as a JSON value or why it is none. -/
structure ChatHttp where
  contentLength : Option UInt64
  status : UInt16
  text : Option String
  json : Except String Json

/-- What a request came to. -/
inductive Sent where
  | timedOut
  | failed (message : String)
  | answered (resp : ChatHttp)

/-- An endpoint, as it is now. -/
abbrev ChatEndpoint := ChatRequest → Sent

def maxResponseBytes : UInt64 := 1048576

/-! ### The response as the derived readers have it -/

/-- The derived reader of a record with one field and a default for it: other keys are passed over, a key that is
there twice is an error, and an array of at most one item will do. -/
def oneField {α : Type} (name : String) (read : Json → Option α) (default : α) : Json → Option α
  | .obj fields =>
    if (fields.filter fun f => f.1 = name).length ≤ 1 then (Json.get fields name).elim (some default) read else none
  | .arr [] => some default
  | .arr [v] => read v
  | _ => none

/-- `ChoiceMessage`: its content. -/
def readMessage : Json → Option String := oneField "content" Json.asStr ""

/-- `Choice`. -/
def readChoice : Json → Option String := oneField "message" readMessage ""

/-- `ChatResponse`: the contents of its choices. -/
def readChoices : Json → Option (List String) :=
  oneField "choices" (fun | .arr items => items.mapM readChoice | _ => none) []

/-- `OpenAiCompatProvider`. -/
structure OpenAiCompatProvider where
  baseUrl : String
  model : String
  apiKey : String

namespace OpenAiCompatProvider

/-- `OpenAiCompatProvider::new`, the client apart. -/
def new (baseUrl model apiKey : String) : OpenAiCompatProvider :=
  ⟨.ofList (baseUrl.toList.rdropWhile (· = '/')), model, apiKey⟩

def request (p : OpenAiCompatProvider) (system user : String) (maxTokens : UInt32) : ChatRequest where
  url := s!"{p.baseUrl}/chat/completions"
  bearer := p.apiKey
  model := p.model
  messages := [("system", system), ("user", user)]
  maxTokens := maxTokens
  stream := false

/-- `StatusCode::is_success`. -/
def isSuccess (status : UInt16) : Bool := 200 ≤ status && status < 300

/-- What is made of a response; `misread` is the reader's error. -/
def readResponse (misread : Json → String) (resp : ChatHttp) : Outcome AiError String := do
  resp.contentLength.forM fun len =>
    .reject (len > maxResponseBytes)
      (.transport s!"response declared {len.toNat} bytes, over the {maxResponseBytes.toNat}-byte cap")
  if isSuccess resp.status then
    let value ← .ofExcept (resp.json.mapError .transport)
    let choices ← .okOr (readChoices value) (.transport (misread value))
    .okOr (choices.head?.filter fun s => trim s.toList ≠ []) .empty
  else
    let body ← Ai.truncate 500 (.ofList (((resp.text).getD "").toList.take 500))
    .err (.status resp.status.toNat body)

/-- `complete`. -/
def complete (misread : Json → String) (p : OpenAiCompatProvider) (endpoint : ChatEndpoint) (system user : String)
    (maxTokens : UInt32) : Outcome AiError String :=
  match endpoint (p.request system user maxTokens) with
  | .timedOut => .err .timeout
  | .failed message => .err (.transport message)
  | .answered resp => readResponse misread resp

end OpenAiCompatProvider

/-! ### Deciding over it -/

namespace Ai

/-- What an attempt asks the endpoint for. -/
def askChat (cfg : AiConfig) (misread : Json → String) (p : OpenAiCompatProvider) (endpoint : ChatEndpoint)
    (ctx : DecisionContext) (attempt : ℕ) : Outcome AiError String :=
  p.complete misread endpoint (attemptPrompt attempt) (userPrompt ctx) cfg.maxTokens

/-- `decide_with_provider` over the endpoint. -/
def decideOverChat (R : AiReader) (cfg : AiConfig) (misread : Json → String) (p : OpenAiCompatProvider)
    (endpoint : ChatEndpoint) (ctx : DecisionContext) (calls : UInt32) : Decided :=
  decideAsking R cfg (askChat cfg misread p endpoint ctx) calls ctx

end Ai

/-! ### What a response comes to -/

/-- A response that is no success, declares no more than the cap, and whose body is cut inside a character. -/
structure ChatCut (resp : ChatHttp) : Prop where
  declared : ∀ len ∈ resp.contentLength, len ≤ maxResponseBytes
  status : OpenAiCompatProvider.isSuccess resp.status = false
  long : 500 ≤ Utf8.byteLen ((resp.text.getD "").toList.take 500)
  cut : ¬ Utf8.IsBoundary 500 ((resp.text.getD "").toList.take 500)

/-- A success within the cap whose first choice says this. -/
structure ChatSays (resp : ChatHttp) (text : String) : Prop where
  declared : ∀ len ∈ resp.contentLength, len ≤ maxResponseBytes
  status : OpenAiCompatProvider.isSuccess resp.status = true
  first : ∃ value contents, resp.json = .ok value ∧ readChoices value = some (text :: contents)
  notBlank : trim text.toList ≠ []

namespace OpenAiCompatProvider

variable {misread : Json → String} {p : OpenAiCompatProvider} {endpoint : ChatEndpoint} {resp : ChatHttp}
  {system user text : String} {maxTokens : UInt32}

theorem declared_iff {ε : Type} {e : UInt64 → ε} {u : Unit} :
    (resp.contentLength.forM fun len => Outcome.reject (len > maxResponseBytes) (e len)) = .ok u ↔
      ∀ len ∈ resp.contentLength, len ≤ maxResponseBytes := by
  rw [Outcome.option_forM_eq_ok]
  simp only [Outcome.reject_eq_ok, gt_iff_lt, UInt64.not_lt]

theorem declared_ne_panic {ε : Type} {e : UInt64 → ε} :
    (resp.contentLength.forM fun len => Outcome.reject (len > maxResponseBytes) (e len)) ≠ .panic := by
  cases resp.contentLength with
  | none => simp [Option.forM]
  | some len => exact Outcome.reject_ne_panic

theorem readResponse_eq_ok : readResponse misread resp = .ok text ↔ ChatSays resp text := by
  unfold readResponse
  rw [Outcome.check_eq_ok, declared_iff]
  cases hstatus : isSuccess resp.status with
  | false =>
    simp only [Bool.false_eq_true, if_false, Outcome.bind_eq_ok, reduceCtorEq, and_false, exists_false, false_iff]
    intro hfirst
    rw [hfirst.status] at hstatus
    cases hstatus
  | true =>
    simp only [if_true, Outcome.bind_eq_ok, Outcome.ofExcept_mapError_eq_ok, Outcome.okOr_eq_ok,
      Option.filter_eq_some_iff, decide_eq_true_eq, List.head?_eq_some_iff]
    constructor
    · rintro ⟨hdeclared, value, hjson, choices, hread, ⟨contents, rfl⟩, hblank⟩
      exact ⟨hdeclared, hstatus, ⟨value, contents, hjson, hread⟩, hblank⟩
    · rintro ⟨hdeclared, -, ⟨value, contents, hjson, hread⟩, hblank⟩
      exact ⟨hdeclared, value, hjson, _, hread, ⟨contents, rfl⟩, hblank⟩

theorem truncate_eq_panic {ε : Type} {n : ℕ} {cs : List Char} :
    (Ai.truncate n (.ofList cs) : Outcome ε String) = .panic ↔ n ≤ Utf8.byteLen cs ∧ ¬ Utf8.IsBoundary n cs := by
  rw [Ai.truncate, String.toList_ofList]
  by_cases hlong : n ≤ Utf8.byteLen cs
  · rw [if_pos hlong, Outcome.bind_eq_panic, Outcome.unwrap_eq_panic, ← Utf8.not_isBoundary]
    simp [hlong]
  · simp [hlong]

theorem readResponse_eq_panic : readResponse misread resp = .panic ↔ ChatCut resp := by
  unfold readResponse
  rw [Outcome.bind_eq_panic, or_iff_right declared_ne_panic]
  simp only [declared_iff]
  cases hstatus : isSuccess resp.status with
  | true =>
    simp only [if_true, Outcome.bind_eq_panic, Outcome.ofExcept_ne_panic, Outcome.okOr_ne_panic, and_false,
      exists_false, or_self, false_iff]
    intro hcut
    rw [hcut.status] at hstatus
    cases hstatus
  | false =>
    simp only [Bool.false_eq_true, if_false, Outcome.bind_eq_panic, truncate_eq_panic, reduceCtorEq, and_false,
      exists_false, or_false]
    constructor
    · rintro ⟨-, hdeclared, hlong, hcut⟩
      exact ⟨hdeclared, hstatus, hlong, hcut⟩
    · rintro ⟨hdeclared, -, hlong, hcut⟩
      exact ⟨(), hdeclared, hlong, hcut⟩

theorem complete_ok_iff : p.complete misread endpoint system user maxTokens = .ok text ↔
    ∃ resp, endpoint (p.request system user maxTokens) = .answered resp ∧ ChatSays resp text := by
  unfold complete
  cases endpoint (p.request system user maxTokens) with
  | timedOut => simp
  | failed message => simp
  | answered resp => simp [readResponse_eq_ok]

theorem complete_panic_iff : p.complete misread endpoint system user maxTokens = .panic ↔
    ∃ resp, endpoint (p.request system user maxTokens) = .answered resp ∧ ChatCut resp := by
  unfold complete
  cases endpoint (p.request system user maxTokens) with
  | timedOut => simp
  | failed message => simp
  | answered resp => simp [readResponse_eq_panic]

/-- An error page of accented letters: the 500th byte is inside the 251st character. -/
example : ChatCut ⟨none, 502, some (.ofList ('a' :: List.replicate 499 'é')), .error "expected value"⟩ := by
  refine ⟨by simp, rfl, ?_, ?_⟩
  · rw [Option.getD_some, String.toList_ofList]
    decide +kernel
  · rw [Option.getD_some, String.toList_ofList]
    decide +kernel

end OpenAiCompatProvider

namespace Ai

open OpenAiCompatProvider (complete_ok_iff complete_panic_iff)

variable {R : AiReader} {cfg : AiConfig} {misread : Json → String} {p : OpenAiCompatProvider}
  {endpoint : ChatEndpoint} {ctx : DecisionContext}

variable (R cfg p endpoint ctx) in
/-- The responses that are read are sound and none is cut: that to an attempt, and if its answer is rejected those
to the next ones. -/
def SoundChat : List ℕ → Prop
  | [] => True
  | attempt :: attempts =>
    ∀ resp, endpoint (p.request (attemptPrompt attempt) (userPrompt ctx) cfg.maxTokens) = .answered resp →
      ¬ ChatCut resp ∧ ∀ text, ChatSays resp text → Sound R ctx.snapshot.asset.symbol cfg.universe' text ∧
        ((∃ e, parseOutput R text ctx.snapshot.asset.symbol cfg.universe' = .err e) → SoundChat attempts)

/-- The responses are as they should be exactly if asking comes to what it should. -/
theorem soundChat_iff (attempts : List ℕ) : SoundChat R cfg p endpoint ctx attempts ↔
    SoundAsked R cfg (askChat cfg misread p endpoint ctx) ctx attempts := by
  induction attempts with
  | nil => exact Iff.rfl
  | cons attempt attempts ih =>
    rw [SoundChat, SoundAsked]
    simp only [askChat, ne_eq, complete_ok_iff, complete_panic_iff, ih]
    constructor
    · intro h
      refine ⟨?_, ?_⟩
      · rintro ⟨resp, hresp, hcut⟩
        exact (h resp hresp).1 hcut
      · rintro text ⟨resp, hresp, hfirst⟩
        exact (h resp hresp).2 text hfirst
    · rintro ⟨hno, hsound⟩ resp hresp
      exact ⟨fun hcut => hno ⟨resp, hresp, hcut⟩, fun text hfirst => hsound text ⟨resp, hresp, hfirst⟩⟩

end Ai

open Ai OpenAiCompatProvider in
/-- **A decision over an endpoint.** Whatever the endpoint does, a decision fails safe exactly if, where it is asked,
the responses that are read are sound and the body of none that is an error is cut inside a character; otherwise it may
panic. A trade is then what the first choice of a success within the cap says, on the first or the second attempt: of
a timeout, an error or a response without content there is only a hold. -/
theorem chat_fails_safe (R : AiReader) (cfg : AiConfig) (misread : Json → String) (p : OpenAiCompatProvider)
    (endpoint : ChatEndpoint) (calls : UInt32) (ctx : DecisionContext) :
    (FailsSafe R cfg ctx.snapshot.asset.symbol (decideOverChat R cfg misread p endpoint ctx calls) ↔
      (Asked cfg calls ctx.snapshot.asset.symbol → SoundChat R cfg p endpoint ctx [0, 1])) ∧
    ((Asked cfg calls ctx.snapshot.asset.symbol → SoundChat R cfg p endpoint ctx [0, 1]) →
      ∀ decision, (decideOverChat R cfg misread p endpoint ctx calls).decision = some decision →
        ∀ side f, decision.trade = some (side, f) → ∃ attempt ∈ [0, 1], ∃ resp text,
          endpoint (p.request (attemptPrompt attempt) (userPrompt ctx) cfg.maxTokens) = .answered resp ∧
            ChatSays resp text ∧ NamesTrade R text side f) := by
  have hiff : FailsSafe R cfg ctx.snapshot.asset.symbol (decideOverChat R cfg misread p endpoint ctx calls) ↔
      (Asked cfg calls ctx.snapshot.asset.symbol → SoundChat R cfg p endpoint ctx [0, 1]) := by
    rw [decideOverChat, failsSafe_decideAsking, soundChat_iff]
  refine ⟨hiff, fun hsound decision hdecision side f htrade => ?_⟩
  obtain ⟨decision', hdecision', htrades⟩ := hiff.mpr hsound
  obtain rfl : decision = decision' := Option.some.inj (hdecision.symm.trans hdecision')
  obtain ⟨⟨text, hmem, hnames⟩, -⟩ := htrades side f htrade
  by_cases hasked : Asked cfg calls ctx.snapshot.asset.symbol
  · rw [decideOverChat, decideAsking_of_asked hasked] at hmem
    obtain ⟨attempt, hattempt, hask⟩ := exists_ask_of_mem_answers _ _ _ hmem
    obtain ⟨resp, hresp, hfirst⟩ := complete_ok_iff.mp hask
    exact ⟨attempt, hattempt, resp, text, hresp, hfirst, hnames⟩
  · -- where nothing is asked there is no answer
    obtain ⟨reason, heq⟩ := decideAsking_of_not_asked (R := R) (askChat cfg misread p endpoint ctx) hasked
    rw [decideOverChat, heq] at hmem
    cases hmem

end Sherwood
