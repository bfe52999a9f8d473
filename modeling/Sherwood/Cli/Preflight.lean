/-
# The pre-flight of live mode

`POST /v1/mode` arms `Live` only after `ChainLivePreflight::check` returned: it
probes every token of the `[chain]` section, and any error or verdict but
permissionless refuses. The list is the symbols and the denomination, without
those that differ in case only, which resolve to the same address
(`resolve_congr`), so every entry is probed (`check_covers`).

Without symbols there is no universe to have checked, and the check means to refuse.
It looks for an empty list, though, and the denomination is always in it: with no
symbols the denomination alone arms live mode (`live_preflight_iff`, `no_symbols_arms`).

Key definitions: `resolve`, `preflightTokens`, `ChainLivePreflight.check`, `Probed`.
Key theorems: `resolve_congr`, `exists_mem_preflightTokens`, `check_covers`, `check_refuses`,
`live_preflight_iff`, `no_symbols_arms`.
-/
import Sherwood.Chain.Probe
import Sherwood.Chain.Tokens

namespace Sherwood

open Chain (Crates ChainError Node Request checkTransferOpen)

/-! ### The list of tokens -/

/-- An entry joins the list unless one that differs in case only is there. -/
def pushToken (out : List String) (s : String) : List String :=
  if out.any fun existing => eqIgnoreAsciiCase existing s then out else out ++ [s]

def preflightTokens (symbols : List String) (denom : String) : List String :=
  (symbols ++ [denom]).foldl pushToken []

theorem subset_pushToken (out : List String) (s : String) : out ⊆ pushToken out s := by
  unfold pushToken
  split
  · exact List.Subset.refl out
  · exact List.subset_append_left out [s]

theorem exists_mem_pushToken (out : List String) (s : String) :
    ∃ raw ∈ pushToken out s, eqIgnoreAsciiCase raw s = true := by
  unfold pushToken
  split
  · next h => simpa using h
  · exact ⟨s, by simp, eqIgnoreAsciiCase_refl s⟩

theorem subset_foldl_pushToken (l out : List String) : out ⊆ l.foldl pushToken out := by
  induction l generalizing out with
  | nil => exact List.Subset.refl out
  | cons s l ih => exact List.Subset.trans (subset_pushToken out s) (ih (pushToken out s))

/-- No entry is dropped but for one that differs in case only. -/
theorem exists_mem_foldl_pushToken {l : List String} (out : List String) {s : String} (hs : s ∈ l) :
    ∃ raw ∈ l.foldl pushToken out, eqIgnoreAsciiCase raw s = true := by
  induction l generalizing out with
  | nil => simp at hs
  | cons t l ih =>
    rcases List.mem_cons.mp hs with rfl | hs
    · obtain ⟨raw, hraw, heq⟩ := exists_mem_pushToken out s
      exact ⟨raw, subset_foldl_pushToken l _ hraw, heq⟩
    · exact ih _ hs

theorem exists_mem_preflightTokens {symbols : List String} {denom s : String} (hs : s ∈ symbols ++ [denom]) :
    ∃ raw ∈ preflightTokens symbols denom, eqIgnoreAsciiCase raw s = true :=
  exists_mem_foldl_pushToken [] hs

/-! ### The check -/

structure ChainLivePreflight where
  rpcUrl : String
  tokens : List String

variable (crates : Crates) (connect : Except ChainError Unit)

/-- One turn of the check: the token is probed, and refused unless permissionless. -/
def checkToken (raw : String) : Dialogue Request (Outcome ChainError Json) String Unit := do
  let token := resolve raw
  let report ← (checkTransferOpen crates token.address .default).mapErr fun e =>
    s!"{token.symbol}: pre-flight RPC error: {e.text}"
  match report.verdict with
  | .permissionless => return ()
  | .restricted why => .done (.err s!"{token.symbol} ({token.address}) is RESTRICTED: {why}")
  | .inconclusive why => .done (.err s!"{token.symbol} ({token.address}) pre-flight was inconclusive: {why}")

/-- `ChainLivePreflight::check`; `connect` is how building the client ends. -/
def ChainLivePreflight.check (preflight : ChainLivePreflight) :
    Dialogue Request (Outcome ChainError Json) String Unit :=
  if preflight.tokens = [] then
    .done (.err "no [chain] symbols configured to pre-flight — nothing to have checked")
  else do
    .done ((Outcome.ofExcept connect).mapErr fun e => s!"connecting to {preflight.rpcUrl}: {e.text}")
    preflight.tokens.forM (checkToken crates)

/-- The check as it is set up from the `[chain]` section. -/
def livePreflight (rpcUrl : String) (symbols : List String) (denom : String) :
    Dialogue Request (Outcome ChainError Json) String Unit :=
  ChainLivePreflight.check crates connect ⟨rpcUrl, preflightTokens symbols denom⟩

/-! ### What a check that returned has probed -/

section Covers

variable (node : Node)

/-- In between, the token at this address was probed and found permissionless. -/
def Probed (asked asked' : List Request) (address : String) : Prop :=
  ∃ probed report start stop, eqIgnoreAsciiCase probed address = true ∧ asked <+: start ∧ stop <+: asked' ∧
    (checkTransferOpen crates probed .default).run node start = (.ok report, stop) ∧
    report.verdict = .permissionless

variable {crates connect node} {rpcUrl denom raw : String} {symbols tokens : List String}
  {asked asked' : List Request}

theorem checkToken_eq_ok : (checkToken crates raw).run node asked = (.ok (), asked') ↔
    ∃ report, (checkTransferOpen crates (resolve raw).address .default).run node asked = (.ok report, asked') ∧
      report.verdict = .permissionless := by
  unfold checkToken
  rw [Dialogue.run_bind_eq_ok]
  simp only [Dialogue.run_mapErr_eq_ok]
  constructor
  · rintro ⟨report, mid, hrun, hverdict⟩
    cases hv : report.verdict with
    | permissionless =>
      rw [hv] at hverdict
      obtain rfl : mid = asked' := congrArg Prod.snd hverdict
      exact ⟨report, hrun, hv⟩
    | restricted why =>
      rw [hv] at hverdict
      cases congrArg Prod.fst hverdict
    | inconclusive why =>
      rw [hv] at hverdict
      cases congrArg Prod.fst hverdict
  · rintro ⟨report, hrun, hv⟩
    refine ⟨report, asked', hrun, ?_⟩
    rw [hv]
    rfl

theorem check_eq_ok {preflight : ChainLivePreflight} :
    (preflight.check crates connect).run node asked = (.ok (), asked') ↔
      preflight.tokens ≠ [] ∧ connect = .ok () ∧
        (preflight.tokens.forM (checkToken crates)).run node asked = (.ok (), asked') := by
  unfold ChainLivePreflight.check
  split
  · next h =>
    refine iff_of_false (fun hrun => ?_) fun hand => hand.1 h
    cases congrArg Prod.fst hrun
  · next h =>
    rw [Dialogue.run_bind_eq_ok]
    simp only [Dialogue.run_done, Prod.mk.injEq, Outcome.mapErr_eq_ok, Outcome.ofExcept_eq_ok]
    constructor
    · rintro ⟨⟨⟩, mid, ⟨hconnect, rfl⟩, hloop⟩
      exact ⟨h, hconnect, hloop⟩
    · rintro ⟨-, hconnect, hloop⟩
      exact ⟨(), asked, ⟨hconnect, rfl⟩, hloop⟩

/-- **Coverage.** A check that returned probed every symbol and the denomination. -/
theorem check_covers (hok : (livePreflight crates connect rpcUrl symbols denom).run node asked = (.ok (), asked')) :
    ∀ s ∈ symbols ++ [denom], Probed crates node asked asked' (resolve s).address := by
  intro s hs
  obtain ⟨raw, hraw, heq⟩ := exists_mem_preflightTokens hs
  obtain ⟨start, stop, hstart, hstop, hturn⟩ := Dialogue.turn_of_forM (check_eq_ok.mp hok).2.2 hraw
  obtain ⟨report, hrun, hverdict⟩ := checkToken_eq_ok.mp hturn
  exact ⟨_, report, start, stop, resolve_congr heq, hstart, hstop, hrun, hverdict⟩

/-- **Refusal.** A check that comes to a token whose probe fails or does not find it
permissionless does not return. -/
theorem check_refuses {before after : List String} (htokens : tokens = before ++ raw :: after)
    (hbefore : (before.forM (checkToken crates)).run node asked = (.ok (), asked'))
    (hprobe : ∀ report, ((checkTransferOpen crates (resolve raw).address .default).run node asked').1 = .ok report →
      report.verdict ≠ .permissionless) :
    ((ChainLivePreflight.check crates connect ⟨rpcUrl, tokens⟩).run node asked).1 ≠ .ok () := by
  intro hok
  have hloop := (check_eq_ok.mp (Prod.ext hok rfl)).2.2
  subst htokens
  refine Dialogue.forM_ne_ok hbefore (fun hturn => ?_) (congrArg Prod.fst hloop)
  obtain ⟨report, hrun, hverdict⟩ := checkToken_eq_ok.mp (Prod.ext hturn rfl)
  exact hprobe report (congrArg Prod.fst hrun) hverdict

end Covers

/-- **The pre-flight.** In every run that returns, what live mode is promised (a universe
that is not empty and was probed whole) holds exactly if there are symbols: the rest of
it always does. And a token whose probe fails or finds it other than permissionless
refuses, in every run. -/
theorem live_preflight_iff (crates : Crates) (connect : Except ChainError Unit) (node : Node) (rpcUrl : String)
    (symbols : List String) (denom : String) (asked : List Request) :
    (∀ asked', (livePreflight crates connect rpcUrl symbols denom).run node asked = (.ok (), asked') →
      ((symbols ≠ [] ∧ ∀ s ∈ symbols ++ [denom], Probed crates node asked asked' (resolve s).address) ↔
        symbols ≠ [])) ∧
      ∀ before raw after mid, preflightTokens symbols denom = before ++ raw :: after →
        (before.forM (checkToken crates)).run node asked = (.ok (), mid) →
        (∀ report, ((checkTransferOpen crates (resolve raw).address .default).run node mid).1 = .ok report →
          report.verdict ≠ .permissionless) →
        ((livePreflight crates connect rpcUrl symbols denom).run node asked).1 ≠ .ok () :=
  ⟨fun _ hok => ⟨And.left, fun hne => ⟨hne, check_covers hok⟩⟩,
    fun _ _ _ _ htokens hbefore hprobe => check_refuses htokens hbefore hprobe⟩

/-! ### A run that returns -/

/-- A word of 31 zero bytes and one more. -/
def wordText (last : String) : String := "0x" ++ .ofList (List.replicate 62 '0') ++ last

def addressTopic (last : String) : String := .ofList (List.replicate 62 '0') ++ last

/-- The replies of an open token: no name, six decimals, no proxy, one transfer from a holder
of one unit, who may send to the fresh address, which has nothing to send back. -/
def openReplies : List (Outcome ChainError Json) := [
  .ok (.str "0x"), .ok (.str "0x"), .ok (.str (wordText "06")), .ok (.str (wordText "01")),
  .ok (.str "0x"), .ok (.str "0x"), .ok (.str "0x"), .ok (.str "0x10"),
  .ok (.arr [.obj [("address", .str "0x"),
    ("topics", .arr [.str "0x", .str (addressTopic "aa"), .str (addressTopic "bb")]),
    ("data", .str "0x"), ("blockNumber", .str "0x10")]]),
  .ok (.str (wordText "01")), .ok (.str "0x"), .err (.reverted none (some "0xe450d38c"))]

/-- Replies in a row, whatever is asked. -/
def openNode : Node := fun asked _ => openReplies.getD asked.length (.err (.notFound ""))

/-- The check of the denomination alone. -/
def usdgCheck : Dialogue Request (Outcome ChainError Json) String Unit :=
  ChainLivePreflight.check knownCrates (.ok ()) ⟨"", ["USDG"]⟩

theorem usdgCheck_ok : (usdgCheck.run openNode []).1 = .ok () := by
  decide +kernel

theorem live_preflight_usdg :
    ∃ asked, (livePreflight knownCrates (.ok ()) "" ["USDG"] "usdg").run openNode [] = (.ok (), asked) ∧
      ["USDG"] ≠ [] ∧ ∀ s ∈ ["USDG"] ++ ["usdg"], Probed knownCrates openNode [] asked (resolve s).address := by
  have htokens : preflightTokens ["USDG"] "usdg" = ["USDG"] := by decide +kernel
  have hcheck : livePreflight knownCrates (.ok ()) "" ["USDG"] "usdg" = usdgCheck := by
    rw [livePreflight, htokens, usdgCheck]
  obtain ⟨asked, hok⟩ := Dialogue.exists_run_of_fst usdgCheck_ok
  rw [← hcheck] at hok
  have hiff := (live_preflight_iff knownCrates (.ok ()) openNode "" ["USDG"] "usdg" []).1 asked hok
  exact ⟨asked, hok, hiff.mpr (by simp)⟩

/-- With no symbols configured, the check of the denomination returns. -/
theorem no_symbols_arms :
    ¬ (((livePreflight knownCrates (.ok ()) "" [] "USDG").run openNode []).1 = .ok () → ([] : List String) ≠ []) := by
  have hcheck : livePreflight knownCrates (.ok ()) "" [] "USDG" = usdgCheck := rfl
  rw [hcheck]
  exact fun h => h usdgCheck_ok rfl

end Sherwood
