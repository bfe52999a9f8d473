/-
# Secrets stay out of the config

Every secret of `config.toml` is to be a reference to the vault, since
`GET /v1/config` returns the file's text and `resolve_ref` of
`crates/secrets/src/lib.rs` takes what is not a reference for the secret
itself. The tokens of the server are always checked to be references, the key
of the AI provider where it is the decider, and the keys of the wallets never;
what is not checked is left to the operator (`keepsSecrets_iff`).

Key definitions: `AppConfig.secretFields`, `AppConfig.KeepsSecrets`, `resolveRef`.
Key theorems: `keepsSecrets_of_references`, `keepsSecrets_iff`.
-/
import Sherwood.Config.Config

namespace Sherwood

/-- The name that a reference has: `strip_prefix("vault:")`. -/
def vaultName (value : String) : Option String :=
  if IsVaultRef value then some (String.ofList (value.toList.drop "vault:".length)) else none

/-- `resolve_ref`: the entry of the vault, which `get` reads, or the value itself. -/
def resolveRef {ε : Type} (get : String → Except ε (Option String)) (value : String) : Except ε (Option String) :=
  match vaultName value with
  | some name => get (trimStr name)
  | none => .ok (some value)

/-- A reference is looked up, whatever the vault holds. -/
def LooksUp (value : String) : Prop :=
  ∃ name, vaultName value = some name ∧
    ∀ (ε : Type) (get : String → Except ε (Option String)), resolveRef get value = get (trimStr name)

theorem looksUp_iff {value : String} : LooksUp value ↔ IsVaultRef value := by
  unfold LooksUp
  constructor
  · rintro ⟨name, hname, -⟩
    by_contra href
    simp [vaultName, href] at hname
  · intro href
    have hname : vaultName value = some (String.ofList (value.toList.drop "vault:".length)) := if_pos href
    refine ⟨_, hname, fun ε get => ?_⟩
    unfold resolveRef
    rw [hname]

namespace AppConfig

/-- The fields that hold a secret or say where it is. -/
def secretFields (c : AppConfig) : List (Option String) :=
  some c.ai.apiKey :: c.server.tokenRefs.map Prod.snd ++ c.wallets.map fun w => some w.keyRef

/-- The fields that a run resolves: `build_decider` and `WalletRegistry::load`. -/
def resolved (c : AppConfig) : List String :=
  (if c.general.decider = "ai" then [c.ai.apiKey] else []) ++ c.wallets.map WalletEntry.keyRef

/-- No secret is in the config: a secret field is empty, absent or a reference,
and none is resolved to itself. -/
structure KeepsSecrets (c : AppConfig) : Prop where
  fields : ∀ f ∈ c.secretFields, ∀ s ∈ f, s = "" ∨ IsVaultRef s
  resolved : ∀ r ∈ c.resolved, LooksUp r

end AppConfig

section

variable {c : AppConfig}

theorem decider_ok (h : c.validateDecider = .ok ()) :
    c.general.decider = "rule" ∨ c.general.decider = "ai" ∧ IsVaultRef c.ai.apiKey := by
  rcases AppConfig.validateDecider_ok h with hrule | ⟨hai, hsection⟩
  · exact .inl hrule
  · exact .inr ⟨hai, (AiSection.validate_ok hsection).2⟩

theorem keepsSecrets_of_references (htokens : ∀ t ∈ c.server.tokenRefs, ∀ s ∈ t.2, IsVaultRef s)
    (hapi : c.ai.apiKey = "" ∨ IsVaultRef c.ai.apiKey) (hai : c.general.decider = "ai" → IsVaultRef c.ai.apiKey)
    (hkeys : ∀ w ∈ c.wallets, IsVaultRef w.keyRef) : c.KeepsSecrets := by
  refine ⟨fun f hf s hs => ?_, fun r hr => looksUp_iff.mpr ?_⟩
  · rcases List.mem_append.mp hf with hf | hf
    · rcases List.mem_cons.mp hf with rfl | hf
      · obtain rfl := Option.some.inj hs
        exact hapi
      · obtain ⟨t, ht, rfl⟩ := List.mem_map.mp hf
        exact .inr (htokens t ht s hs)
    · obtain ⟨w, hw, rfl⟩ := List.mem_map.mp hf
      obtain rfl := Option.some.inj hs
      exact .inr (hkeys w hw)
  · rcases List.mem_append.mp hr with hr | hr
    · by_cases hd : c.general.decider = "ai"
      · rw [if_pos hd, List.mem_singleton] at hr
        rw [hr]
        exact hai hd
      · rw [if_neg hd] at hr
        cases hr
    · obtain ⟨w, hw, rfl⟩ := List.mem_map.mp hr
      exact hkeys w hw

end

/-- **Secrets.** A config that `post_config` accepts keeps its secrets out exactly
if the key of an AI provider that is not the decider is empty or a reference,
and the keys of the wallets are references. -/
theorem keepsSecrets_iff (fromStr : String → Except String AppConfig) (readAddr : String → Option SocketAddr)
    (listed : Finset String → List String) (dashboardBuilt : Bool) (toml : String)
    (haccepted : (AppConfig.format fromStr readAddr listed).check toml dashboardBuilt = .ok ()) :
    ∃ c, fromStr toml = .ok c ∧ (c.KeepsSecrets ↔
      (c.general.decider = "rule" → c.ai.apiKey = "" ∨ IsVaultRef c.ai.apiKey) ∧
        ∀ w ∈ c.wallets, IsVaultRef w.keyRef) := by
  obtain ⟨c, hparse, hvalid⟩ := AppConfig.format_check_ok_iff.mp haccepted
  obtain ⟨-, -, hdecider, -, hserver, hwallets, -⟩ := AppConfig.validate_ok hvalid
  obtain ⟨-, -, htokens⟩ := ServerSection.validate_ok hserver
  refine ⟨c, hparse, ?_⟩
  constructor
  · rintro ⟨hfields, -⟩
    refine ⟨fun _ => hfields _ List.mem_cons_self _ rfl, fun w hw => ?_⟩
    have hkey : some w.keyRef ∈ c.secretFields :=
      List.mem_append_right _ (List.mem_map.mpr ⟨w, hw, rfl⟩)
    obtain ⟨-, hne, -⟩ := WalletEntry.validate_ok (hwallets w hw)
    exact (hfields _ hkey _ rfl).resolve_left hne
  · rintro ⟨hrule, hkeys⟩
    rcases decider_ok hdecider with hd | ⟨-, href⟩
    · have hno : c.general.decider ≠ "ai" := by
        rw [hd]
        decide
      exact keepsSecrets_of_references htokens (hrule hd) (fun hai => absurd hai hno) hkeys
    · exact keepsSecrets_of_references htokens (.inr href) (fun _ => href) hkeys

/-- A wallet with a key in the config. -/
def literalWallet : AppConfig :=
  { wallets := [{ name := "main", keyRef := "0x4c0883a69102937d6231471b5dbb6204fe5129617082792ae468d01a3f362318" }] }

/-- A wallet with a reference to the vault, and the text of its config. -/
def referencedWallet : AppConfig := { wallets := [{ name := "main", keyRef := "vault:evm_wallet" }] }

def referencedText : String := "[[wallets]]\nname = \"main\"\nkey_ref = \"vault:evm_wallet\"\n"

def literalText : String :=
  "[[wallets]]\nname = \"main\"\n" ++
    "key_ref = \"0x4c0883a69102937d6231471b5dbb6204fe5129617082792ae468d01a3f362318\"\n"

/-- A parser of the two texts. -/
def walletTexts (s : String) : Except String AppConfig :=
  if s = referencedText then .ok referencedWallet
  else if s = literalText then .ok literalWallet
  else .error "unsupported"

/-- What the config API needs of a config, with that parser. -/
def walletFormat : ConfigFormat AppConfig := AppConfig.format walletTexts loopbackAddr fun _ => []

theorem keepsSecrets_referencedWallet :
    walletFormat.check referencedText true = .ok () ∧ referencedWallet.KeepsSecrets := by
  have haccepted : walletFormat.check referencedText true = .ok () := by decide +kernel
  obtain ⟨c, hparse, hiff⟩ := keepsSecrets_iff walletTexts loopbackAddr (fun _ => []) true referencedText haccepted
  obtain rfl : referencedWallet = c := Except.ok.inj hparse
  exact ⟨haccepted, hiff.mpr ⟨fun _ => .inl rfl, by decide⟩⟩

/-- A literal key is accepted. -/
theorem literalWallet_accepted : ¬ ∀ (fromStr : String → Except String AppConfig)
    (readAddr : String → Option SocketAddr) (listed : Finset String → List String) (dashboardBuilt : Bool)
    (toml : String) (c : AppConfig), fromStr toml = .ok c →
    (AppConfig.format fromStr readAddr listed).check toml dashboardBuilt = .ok () → c.KeepsSecrets := by
  intro h
  have hkeeps : literalWallet.KeepsSecrets :=
    h walletTexts loopbackAddr (fun _ => []) true literalText literalWallet (by rfl) (by decide +kernel)
  have hkey := hkeeps.fields (some "0x4c0883a69102937d6231471b5dbb6204fe5129617082792ae468d01a3f362318")
    (by decide) _ rfl
  revert hkey
  decide

end Sherwood
