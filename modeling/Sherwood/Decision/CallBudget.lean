/-
# The call budget of the AI decider

`max_calls_per_run` is to bound the calls of a run: `decide` stops asking once so
many were made. It looks at the count once and may then ask twice, so a reply
that is rejected on the last call of the budget is followed by a call over it.
That is the only way over (`calls_within_budget`): a decision leaves the count at
or below the limit exactly if it is not one call short of it with a first reply
that is rejected (`decide_counts`).

The count is a `u32` and wraps; below the limit it is the number of calls made.

Key definitions: `AiDecider.system`, `callsMade`, `DecideRecord.RetriesAtLimit`.
Key theorems: `decide_counts`, `calls_within_budget`, `retry_exceeds_budget`.
-/
import Sherwood.Decision.Ai
import Sherwood.Lib.Lts

namespace Sherwood

open Ai

/-- One `decide` of a decider, from a count of calls. -/
structure DecideRecord where
  before : UInt32
  provider : Provider
  ctx : DecisionContext
  decided : Decided

/-- A decider with a provider, asked for one decision after another. Whatever the
provider answers is part of the action. -/
def AiDecider.system (R : AiReader) (cfg : AiConfig) : Lts UInt32 (Provider × DecisionContext) DecideRecord where
  step calls a :=
    let decided := decideWithProvider R cfg a.1 calls a.2
    some (decided.calls, ⟨calls, a.1, a.2, decided⟩)

/-- How often the provider was called. -/
def callsMade (os : List DecideRecord) : ℕ := (os.map fun o => o.decided.answers.length).sum

theorem callsMade_snoc (os : List DecideRecord) (o : DecideRecord) :
    callsMade (os ++ [o]) = callsMade os + o.decided.answers.length := by
  simp [callsMade]

/-- The first reply is read and rejected. -/
def rejectsFirst (R : AiReader) (cfg : AiConfig) (provider : Provider) (ctx : DecisionContext) : Bool :=
  match answer provider cfg ctx 0 with
  | .ok text =>
    match parseOutput R text ctx.snapshot.asset.symbol cfg.universe' with
    | .err _ => true
    | _ => false
  | .error _ => false

/-- One call is left, the symbol passes the guard, and the first reply is rejected. -/
def DecideRecord.RetriesAtLimit (R : AiReader) (cfg : AiConfig) (o : DecideRecord) : Prop :=
  o.before.toNat + 1 = cfg.maxCallsPerRun.toNat ∧ PassesGuard o.ctx.snapshot.asset.symbol ∧
    rejectsFirst R cfg o.provider o.ctx

instance (R : AiReader) (cfg : AiConfig) (o : DecideRecord) : Decidable (o.RetriesAtLimit R cfg) :=
  inferInstanceAs (Decidable (_ ∧ _))

section

variable {R : AiReader} {cfg : AiConfig} {provider : Provider} {ctx : DecisionContext} {calls : UInt32}

variable (R cfg provider ctx calls) in
theorem count_lastAttempt (attempt : ℕ) (lastErr : Option String) :
    (attemptAll R cfg (askProvider provider cfg ctx) ctx [attempt] lastErr calls).answers.length = 1 ∧
      (attemptAll R cfg (askProvider provider cfg ctx) ctx [attempt] lastErr calls).calls = calls + 1 := by
  rw [attemptAll, askProvider]
  cases answer provider cfg ctx attempt with
  | error e => exact ⟨rfl, rfl⟩
  | ok text =>
    simp only [Outcome.ofExcept]
    cases hparse : parseOutput R text ctx.snapshot.asset.symbol cfg.universe' <;> simp [attemptAll]

variable (R cfg provider ctx calls) in
/-- Both attempts are made if the first reply is rejected. -/
theorem count_attempts :
    (attemptAll R cfg (askProvider provider cfg ctx) ctx [0, 1] none calls).answers.length =
      (if rejectsFirst R cfg provider ctx then 2 else 1) ∧
    (attemptAll R cfg (askProvider provider cfg ctx) ctx [0, 1] none calls).calls =
      calls + (if rejectsFirst R cfg provider ctx then 2 else 1) := by
  rw [attemptAll, rejectsFirst, askProvider]
  cases answer provider cfg ctx 0 with
  | error e => exact ⟨rfl, rfl⟩
  | ok text =>
    cases hparse : parseOutput R text ctx.snapshot.asset.symbol cfg.universe' with
    | ok decision => simp [hparse, Outcome.ofExcept]
    | panic => simp [hparse, Outcome.ofExcept]
    | err e =>
      obtain ⟨hlen, hcalls⟩ := count_lastAttempt R cfg provider ctx (calls + 1) 1 (some e)
      simp only [Outcome.ofExcept, hparse, if_true, List.length_cons, hlen, hcalls, true_and]
      rw [UInt32.add_assoc]
      rfl

theorem decide_asked (h : Asked cfg calls ctx.snapshot.asset.symbol) : decideWithProvider R cfg provider calls ctx =
    attemptAll R cfg (askProvider provider cfg ctx) ctx [0, 1] none calls := decideAsking_of_asked h

variable (R provider ctx) in
/-- A decision that asks and stays within a limit that fits a `u32` counts its calls. -/
theorem count_within (hasked : Asked cfg calls ctx.snapshot.asset.symbol)
    (hle : calls.toNat + (decideWithProvider R cfg provider calls ctx).answers.length ≤ cfg.maxCallsPerRun.toNat) :
    (decideWithProvider R cfg provider calls ctx).calls.toNat =
      calls.toNat + (decideWithProvider R cfg provider calls ctx).answers.length := by
  have hfits := cfg.maxCallsPerRun.toNat_lt
  obtain ⟨hlen, hcount⟩ := count_attempts R cfg provider ctx calls
  rw [← decide_asked hasked] at hlen hcount
  rw [hlen] at hle ⊢
  rw [hcount, UInt32.toNat_add]
  cases hrejects : rejectsFirst R cfg provider ctx with
  | true =>
    simp only [hrejects, if_true] at hle ⊢
    exact Nat.mod_eq_of_lt (show calls.toNat + 2 < 2 ^ 32 by omega)
  | false =>
    simp only [hrejects, Bool.false_eq_true, if_false] at hle ⊢
    exact Nat.mod_eq_of_lt (show calls.toNat + 1 < 2 ^ 32 by omega)

theorem asked_lt {symbol : String} (h : Asked cfg calls symbol) (hmax : 0 < cfg.maxCallsPerRun) :
    calls.toNat < cfg.maxCallsPerRun.toNat := by
  by_contra hge
  exact h.1 ⟨hmax, UInt32.le_iff_toNat_le.mpr (Nat.le_of_not_lt hge)⟩

variable (R provider ctx) in
/-- From a count within the limit, a decision stays within it exactly if it does not
retry at the limit, and then the count is kept. At the limit it holds without a
call. -/
theorem decide_counts (hmax : 0 < cfg.maxCallsPerRun) (hcalls : calls.toNat ≤ cfg.maxCallsPerRun.toNat) :
    let d := decideWithProvider R cfg provider calls ctx
    (calls.toNat + d.answers.length ≤ cfg.maxCallsPerRun.toNat ↔
      ¬ (⟨calls, provider, ctx, d⟩ : DecideRecord).RetriesAtLimit R cfg) ∧
    (calls.toNat + d.answers.length ≤ cfg.maxCallsPerRun.toNat → d.calls.toNat = calls.toNat + d.answers.length) ∧
    (cfg.maxCallsPerRun.toNat ≤ calls.toNat → d.answers = [] ∧ ∃ reason, d.decision = some (.hold reason)) := by
  intro d
  by_cases hasked : Asked cfg calls ctx.snapshot.asset.symbol
  · have hlt := asked_lt hasked hmax
    have hlen := (count_attempts R cfg provider ctx calls).1
    rw [← decide_asked hasked] at hlen
    have hretries : (⟨calls, provider, ctx, d⟩ : DecideRecord).RetriesAtLimit R cfg ↔
        calls.toNat + 1 = cfg.maxCallsPerRun.toNat ∧ rejectsFirst R cfg provider ctx = true :=
      ⟨fun h => ⟨h.1, h.2.2⟩, fun h => ⟨h.1, hasked.2, h.2⟩⟩
    rw [hretries]
    refine ⟨?_, count_within R provider ctx hasked, fun hge => absurd hlt (Nat.not_lt_of_le hge)⟩
    show calls.toNat + (decideWithProvider R cfg provider calls ctx).answers.length ≤ _ ↔ _
    rw [hlen]
    cases rejectsFirst R cfg provider ctx with
    | true =>
      simp only [if_true, and_true]
      omega
    | false =>
      simp only [Bool.false_eq_true, if_false, and_false, not_false_eq_true, iff_true]
      omega
  · obtain ⟨reason, heq⟩ : ∃ reason, d = ⟨some (.hold reason), calls, []⟩ :=
      decideAsking_of_not_asked (askProvider provider cfg ctx) hasked
    refine ⟨iff_of_true ?_ ?_, fun _ => ?_, fun _ => ⟨congrArg Decided.answers heq, reason, congrArg Decided.decision heq⟩⟩
    · simpa [heq] using hcalls
    · rintro ⟨hlast, hguard, -⟩
      refine hasked ⟨fun h => ?_, hguard⟩
      have hge := UInt32.le_iff_toNat_le.mp h.2
      simp only at hlast
      omega
    · simp [heq]

end

/-- **The calls of a run stay within the budget**, and a decision at the limit holds
without a call, exactly if no decision retries at the limit. -/
theorem calls_within_budget (R : AiReader) (cfg : AiConfig) (hmax : 0 < cfg.maxCallsPerRun) (os : List DecideRecord)
    (calls : UInt32) (h : (AiDecider.system R cfg).Run 0 os calls) :
    (∀ pre o post, os = pre ++ o :: post → callsMade (pre ++ [o]) ≤ cfg.maxCallsPerRun.toNat ∧
      (cfg.maxCallsPerRun.toNat ≤ callsMade pre →
        o.decided.answers = [] ∧ ∃ reason, o.decided.decision = some (.hold reason))) ↔
      ∀ o ∈ os, ¬ o.RetriesAtLimit R cfg := by
  simp only [callsMade_snoc]
  refine Lts.Run.forall_iff (P := fun os o => callsMade os + o.decided.answers.length ≤ cfg.maxCallsPerRun.toNat ∧
      (cfg.maxCallsPerRun.toNat ≤ callsMade os →
        o.decided.answers = [] ∧ ∃ reason, o.decided.decision = some (.hold reason)))
    (I := fun os calls => callsMade os = calls.toNat ∧ calls.toNat ≤ cfg.maxCallsPerRun.toNat)
    ⟨rfl, Nat.zero_le _⟩ (fun os calls a calls' o hi hstep => ?_) h
  obtain ⟨hmade, hle⟩ := hi
  obtain ⟨rfl, rfl⟩ := Prod.mk.inj (Option.some.inj hstep)
  obtain ⟨hiff, hcount, hlimit⟩ := decide_counts R a.1 a.2 hmax hle
  rw [callsMade_snoc, hmade]
  refine ⟨⟨fun hwithin => hiff.mp hwithin.1, fun hno => ⟨hiff.mpr hno, hlimit⟩⟩, fun hno => ?_⟩
  have hwithin := hiff.mpr hno
  exact ⟨(hcount hwithin).symm, (hcount hwithin).le.trans hwithin⟩

/-! ### Runs -/

def holdReply : String := "\x7b\"action\":\"hold\"\x7d"

/-- A reader of that one reply. -/
def holdReader : AiReader where
  json text := if text = holdReply then some (.obj [("action", .str "hold")]) else none
  decimal _ := none
  errorText _ := "expected value"
  debug := Json.quote

/-- A decision whose replies are these words. -/
def decides (reply : String) : Provider × DecisionContext := (fun _ _ _ => .ok reply, roarContext)

/-- Two rejected replies, then one that is read, and nothing is left of three calls. -/
theorem calls_within_budget_threeCalls : ∃ os calls,
    (AiDecider.system holdReader { maxCallsPerRun := 3 }).Run 0 os calls ∧
      os.map (fun o => o.decided.answers.length) = [2, 1, 0] ∧
      ∀ pre o post, os = pre ++ o :: post → callsMade (pre ++ [o]) ≤ 3 ∧
        (3 ≤ callsMade pre → o.decided.answers = [] ∧ ∃ reason, o.decided.decision = some (.hold reason)) := by
  have hexec : ((AiDecider.system holdReader { maxCallsPerRun := 3 }).exec 0
      [decides "no", decides holdReply, decides holdReply]).map (fun r => decide
        (r.2.map (fun o => o.decided.answers.length) = [2, 1, 0] ∧
          ∀ o ∈ r.2, ¬ o.RetriesAtLimit holdReader { maxCallsPerRun := 3 })) = some true := by
    decide +kernel
  obtain ⟨⟨calls, os⟩, hrun, hall⟩ := Option.map_eq_some_iff.mp hexec
  obtain ⟨hlengths, hno⟩ := of_decide_eq_true hall
  exact ⟨os, calls, .of_exec hrun, hlengths,
    (calls_within_budget holdReader { maxCallsPerRun := 3 } (by decide) os calls (.of_exec hrun)).mpr hno⟩

/-- With a budget of one call, a rejected reply is followed by a second one. -/
theorem retry_exceeds_budget : ¬ ∀ (R : AiReader) (cfg : AiConfig), 0 < cfg.maxCallsPerRun →
    ∀ (os : List DecideRecord) (calls : UInt32), (AiDecider.system R cfg).Run 0 os calls →
      callsMade os ≤ cfg.maxCallsPerRun.toNat := by
  intro hclaim
  have hexec : ((AiDecider.system holdReader { maxCallsPerRun := 1 }).exec 0 [decides "no"]).map
      (fun r => decide (callsMade r.2 = 2)) = some true := by
    decide +kernel
  obtain ⟨⟨calls, os⟩, hrun, htwo⟩ := Option.map_eq_some_iff.mp hexec
  have hle := hclaim holdReader { maxCallsPerRun := 1 } (by decide) os calls (.of_exec hrun)
  rw [of_decide_eq_true htwo] at hle
  exact absurd hle (by decide)

end Sherwood
