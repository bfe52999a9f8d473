/-
# The wallet registry

`WalletRegistry::load` of `crates/wallets/src/lib.rs` loads every configured wallet or none. Turn by turn it looks
the name up in what is loaded so far, resolves the key's reference and parses the key; the first turn that fails ends
it.
So what is loaded is a wallet for each entry, under its name (`loadFrom_spec`), and it is loaded exactly
if the names are distinct and every entry opens (`loadFrom_isOk_iff`).

`AppConfig::validate` looks for duplicates in another way, between the neighbours of the sorted names. The two
agree (`hasDuplicate_iff`): a valid config has no duplicate to fail on.

A turn reads the vault and the clock. They are any, and may be others in each turn. The curve and the
hash are parameters.

Key definitions: `LocalSigner.fromHex`, `WalletConfig.openWallet`, `WalletRegistry.load`.
Key theorems: `loadFrom_isOk_iff`, `loadFrom_spec`, `load_all_or_nothing`.
-/
import Sherwood.Config.Secrets
import Sherwood.Secrets.Vault
import Sherwood.Signer.Eip1559
import Sherwood.Wallets.Budget

namespace Sherwood

open Chain (HexDecode)
open Signer (LocalSigner SignerError)

/-! ### Keys -/

/-- What parsing a key calls of `hex`, `k256` and `sha3`. -/
structure KeyCrates (Key : Type) where
  hexDecode : HexDecode
  fromSlice : List UInt8 → Except String Key
  encodedPoint : Key → List UInt8
  keccak256 : List UInt8 → Vector UInt8 32

variable {Key : Type} (crates : KeyCrates Key)

/-- The address of an uncompressed public key: of the hash of it without its tag, the last 20 bytes. -/
def addressFromVerifyingKey (key : Key) : Vector UInt8 20 :=
  (crates.keccak256 ((crates.encodedPoint key).drop 1)).drop 12

/-- `strip_prefix("0x").unwrap_or(raw)`. -/
def stripKeyPrefix (raw : String) : String :=
  match raw.toList with
  | '0' :: 'x' :: cs => .ofList cs
  | _ => raw

/-- Parse a 32-byte private key from hex. -/
def Signer.LocalSigner.fromHex (secret : String) : Except SignerError (LocalSigner Key) := do
  let raw := stripKeyPrefix (trimStr secret)
  let bytes ← (crates.hexDecode raw).mapError fun e => .key s!"not valid hex: {e}"
  if bytes.length ≠ 32 then throw (.key s!"expected a 32-byte key, got {bytes.length} bytes")
  let key ← (crates.fromSlice bytes).mapError fun e => .key s!"invalid secp256k1 key: {e}"
  return ⟨key, addressFromVerifyingKey crates key⟩

/-! ### Wallets -/

structure WalletConfig where
  name : String
  keyRef : String
  allowedSymbols : List String
  limits : WalletLimits

/-- `WalletEntryExt::to_core`. -/
def WalletEntry.toCore (w : WalletEntry) : WalletConfig where
  name := w.name
  keyRef := w.keyRef
  allowedSymbols := w.allowedSymbols
  limits := ⟨w.maxTxCount, w.maxNotional, w.maxDurationSecs.toNat * 10 ^ 9⟩

inductive WalletError where
  | duplicateName (name : String)
  | key (name : String) (source : SignerError)
  | missingSecret (name keyRef : String)
  | vault (name : String) (source : Secrets.VaultError)

def Signer.SignerError.text : SignerError → String
  | .key message => s!"private key: {message}"
  | .sign message => s!"signing failed: {message}"

/-- The error's `Display`; `debug` quotes a text and `source` is a vault error's. -/
def WalletError.text (debug : String → String) (source : Secrets.VaultError → String) : WalletError → String
  | .duplicateName name => s!"duplicate wallet name {debug name}"
  | .key name e => s!"wallet {debug name}: {e.text}"
  | .missingSecret name keyRef =>
    s!"wallet {debug name}: key_ref {debug keyRef} resolved to no secret — run `sherwood secrets set` first"
  | .vault name e => s!"wallet {debug name}: resolving key_ref: {source e}"

/-- A named wallet: a key, its spend ceiling, and its symbol allowlist. -/
structure Wallet (Key : Type) where
  name : String
  signer : LocalSigner Key
  allowedSymbols : List String
  budget : WalletBudget

/-- What a turn reads: the vault, and the clock. -/
structure LoadTurn where
  get : String → Except Secrets.VaultError (Option String)
  now : Instant

/-- The wallet of an entry. -/
def WalletConfig.openWallet (cfg : WalletConfig) (turn : LoadTurn) : Except WalletError (Wallet Key) := do
  let secret ← (resolveRef turn.get cfg.keyRef).mapError fun source => .vault cfg.name source
  let some secret := secret | throw (.missingSecret cfg.name cfg.keyRef)
  let signer ← (LocalSigner.fromHex crates secret).mapError fun source => .key cfg.name source
  return { name := cfg.name, signer, allowedSymbols := cfg.allowedSymbols, budget := .new cfg.limits turn.now }

/-- Every configured wallet, by name. -/
structure WalletRegistry (Key : Type) where
  wallets : Table String (Wallet Key)

namespace WalletRegistry

/-- The loop of `load`, from what is loaded. -/
def loadFrom (turns : ℕ → LoadTurn) (wallets : Table String (Wallet Key)) :
    List WalletConfig → Except WalletError (Table String (Wallet Key))
  | [] => .ok wallets
  | cfg :: configs => do
    if cfg.name ∈ wallets then throw (.duplicateName cfg.name)
    let wallet ← cfg.openWallet crates (turns 0)
    loadFrom (fun n => turns (n + 1)) (wallets.insert cfg.name wallet) configs

/-- Load every wallet. -/
def load (turns : ℕ → LoadTurn) (configs : List WalletConfig) : Except WalletError (WalletRegistry Key) :=
  (loadFrom crates turns ∅ configs).map WalletRegistry.mk

def get (reg : WalletRegistry Key) (name : String) : Option (Wallet Key) := reg.wallets.lookup name

def len (reg : WalletRegistry Key) : ℕ := reg.wallets.entries.length

end WalletRegistry

variable {crates}

/-- How an entry opens: its reference is resolved, and then its key parsed. -/
theorem WalletConfig.openWallet_eq (cfg : WalletConfig) (turn : LoadTurn) : cfg.openWallet crates turn =
    match resolveRef turn.get cfg.keyRef with
    | .error source => .error (.vault cfg.name source)
    | .ok none => .error (.missingSecret cfg.name cfg.keyRef)
    | .ok (some secret) =>
      match LocalSigner.fromHex crates secret with
      | .error source => .error (.key cfg.name source)
      | .ok signer => .ok ⟨cfg.name, signer, cfg.allowedSymbols, .new cfg.limits turn.now⟩ := by
  unfold openWallet
  cases resolveRef turn.get cfg.keyRef with
  | error e => rfl
  | ok secret =>
    cases secret with
    | none => rfl
    | some secret =>
      cases hsigner : LocalSigner.fromHex crates secret <;>
        simp [Except.mapError, bind, Except.bind, pure, Except.pure, hsigner]

theorem WalletConfig.openWallet_eq_ok {cfg : WalletConfig} {turn : LoadTurn} {w : Wallet Key} :
    cfg.openWallet crates turn = .ok w ↔
      ∃ secret signer, resolveRef turn.get cfg.keyRef = .ok (some secret) ∧
        LocalSigner.fromHex crates secret = .ok signer ∧
        w = ⟨cfg.name, signer, cfg.allowedSymbols, .new cfg.limits turn.now⟩ := by
  rw [openWallet_eq]
  split
  · next hsecret => simp [hsecret]
  · next hsecret => simp [hsecret]
  · next secret hsecret =>
    split
    · next hsigner => simp [hsecret, hsigner]
    · next signer hsigner => simp [hsecret, hsigner, eq_comm]

theorem WalletConfig.openWallet_ne_duplicate {cfg : WalletConfig} {turn : LoadTurn} (name : String) :
    (cfg.openWallet crates turn : Except WalletError (Wallet Key)) ≠ .error (.duplicateName name) := by
  rw [openWallet_eq]
  split
  · simp
  · simp
  · split <;> simp

namespace WalletRegistry

variable {turns : ℕ → LoadTurn} {wallets out : Table String (Wallet Key)} {configs : List WalletConfig}

theorem loadFrom_cons_eq_ok {cfg : WalletConfig} : loadFrom crates turns wallets (cfg :: configs) = .ok out ↔
    cfg.name ∉ wallets ∧ ∃ w, cfg.openWallet crates (turns 0) = .ok w ∧
      loadFrom crates (fun n => turns (n + 1)) (wallets.insert cfg.name w) configs = .ok out := by
  rw [loadFrom]
  by_cases hmem : cfg.name ∈ wallets
  · simp [hmem, throw, throwThe, MonadExceptOf.throw, Except.bind_eq_ok]
  · simp [hmem, Except.bind_eq_ok]

theorem forall_getElem?_cons {α : Type} {a : α} {l : List α} {P : ℕ → α → Prop} :
    (∀ i b, (a :: l)[i]? = some b → P i b) ↔ P 0 a ∧ ∀ i b, l[i]? = some b → P (i + 1) b := by
  constructor
  · exact fun h => ⟨h 0 a rfl, fun i b hb => h (i + 1) b hb⟩
  · rintro ⟨h0, hrest⟩ i b hb
    cases i with
    | zero => exact Option.some.inj hb ▸ h0
    | succ i => exact hrest i b hb

/-- **When the loop returns**: the names are new and distinct, and every entry opens at its turn. -/
theorem loadFrom_isOk_iff : (∃ out, loadFrom crates turns wallets configs = .ok out) ↔
    (configs.map (·.name)).Nodup ∧ (∀ cfg ∈ configs, cfg.name ∉ wallets) ∧
      ∀ (i : ℕ) (cfg : WalletConfig), configs[i]? = some cfg →
        ∃ w : Wallet Key, cfg.openWallet crates (turns i) = .ok w := by
  induction configs generalizing turns wallets with
  | nil => simp [loadFrom]
  | cons cfg configs ih =>
    rw [forall_getElem?_cons, List.map_cons, List.nodup_cons, List.forall_mem_cons]
    simp only [loadFrom_cons_eq_ok]
    constructor
    · rintro ⟨out, hnew, w, hopen, hrest⟩
      obtain ⟨hnodup, hfresh, hopens⟩ := ih.mp ⟨out, hrest⟩
      simp only [AList.mem_insert, not_or] at hfresh
      refine ⟨⟨fun hmem => ?_, hnodup⟩, ⟨hnew, fun c hc => (hfresh c hc).2⟩, ⟨w, hopen⟩, hopens⟩
      obtain ⟨c, hc, heq⟩ := List.mem_map.mp hmem
      exact (hfresh c hc).1 heq
    · rintro ⟨⟨hnot, hnodup⟩, ⟨hnew, hfresh⟩, ⟨w, hopen⟩, hopens⟩
      have hfresh' : ∀ c ∈ configs, c.name ∉ wallets.insert cfg.name w := by
        intro c hc hmem
        rcases (AList.mem_insert wallets).mp hmem with heq | hmem
        · exact hnot (List.mem_map.mpr ⟨c, hc, heq⟩)
        · exact hfresh c hc hmem
      obtain ⟨out, hrest⟩ := ih.mpr ⟨hnodup, hfresh', hopens⟩
      exact ⟨out, hnew, w, hopen, hrest⟩

/-- **What the loop loads.** It adds a wallet for each entry, under its name, and leaves the others as they are. -/
theorem loadFrom_spec (h : loadFrom crates turns wallets configs = .ok out) :
    out.entries.length = wallets.entries.length + configs.length ∧
      (∀ name, name ∉ configs.map (·.name) → out.lookup name = wallets.lookup name) ∧
      ∀ (i : ℕ) (cfg : WalletConfig), configs[i]? = some cfg →
        ∃ w : Wallet Key, cfg.openWallet crates (turns i) = .ok w ∧ out.lookup cfg.name = some w := by
  induction configs generalizing turns wallets with
  | nil =>
    obtain rfl := Except.ok.inj h
    simp
  | cons cfg configs ih =>
    obtain ⟨hnodup, -, -⟩ := loadFrom_isOk_iff.mp ⟨out, h⟩
    rw [List.map_cons, List.nodup_cons] at hnodup
    obtain ⟨hnew, w, hopen, hrest⟩ := loadFrom_cons_eq_ok.mp h
    obtain ⟨hlen, hother, heach⟩ := ih hrest
    have hsize : (wallets.insert cfg.name w).entries.length = wallets.entries.length + 1 := by
      rw [AList.entries_insert_of_notMem hnew, List.length_cons]
    refine ⟨?_, fun name hname => ?_, forall_getElem?_cons.mpr ⟨⟨w, hopen, ?_⟩, heach⟩⟩
    · rw [hlen, hsize, List.length_cons]
      omega
    · rw [List.map_cons, List.mem_cons, not_or] at hname
      rw [hother name hname.2, AList.lookup_insert_ne hname.1]
    · -- no later entry has this name
      rw [hother cfg.name hnodup.1, AList.lookup_insert]

theorem loadFrom_ne_duplicate (hnodup : (configs.map (·.name)).Nodup) (hfresh : ∀ cfg ∈ configs, cfg.name ∉ wallets)
    (name : String) : loadFrom crates turns wallets configs ≠ .error (.duplicateName name) := by
  induction configs generalizing turns wallets with
  | nil => simp [loadFrom]
  | cons cfg configs ih =>
    rw [List.map_cons, List.nodup_cons] at hnodup
    obtain ⟨hnew, hrest⟩ := List.forall_mem_cons.mp hfresh
    rw [loadFrom, if_neg hnew]
    cases hopen : cfg.openWallet crates (turns 0) with
    | error e =>
      have hne := @WalletConfig.openWallet_ne_duplicate Key crates cfg (turns 0) name
      rw [hopen] at hne
      simpa [bind, Except.bind, pure, Except.pure] using hne
    | ok w =>
      refine ih hnodup.2 fun c hc hmem => ?_
      rcases (AList.mem_insert wallets).mp hmem with heq | hmem
      · exact hnodup.1 (List.mem_map.mpr ⟨c, hc, heq⟩)
      · exact hrest c hc hmem

/-! ### The registry -/

variable {reg : WalletRegistry Key}

theorem load_eq_ok : load crates turns configs = .ok reg ↔ loadFrom crates turns ∅ configs = .ok reg.wallets := by
  unfold load
  cases loadFrom crates turns ∅ configs with
  | error e => simp [Except.map]
  | ok out =>
    cases reg
    simp [Except.map]

theorem load_isOk_iff : (∃ reg, load crates turns configs = .ok reg) ↔ (configs.map (·.name)).Nodup ∧
    ∀ (i : ℕ) (cfg : WalletConfig), configs[i]? = some cfg → ∃ secret signer,
      resolveRef (turns i).get cfg.keyRef = .ok (some secret) ∧ LocalSigner.fromHex crates secret = .ok signer := by
  have hloop : (∃ reg, load crates turns configs = .ok reg) ↔ ∃ out, loadFrom crates turns ∅ configs = .ok out :=
    ⟨fun ⟨reg, hreg⟩ => ⟨_, load_eq_ok.mp hreg⟩, fun ⟨out, hout⟩ => ⟨⟨out⟩, load_eq_ok.mpr hout⟩⟩
  have hopens (turn : LoadTurn) (cfg : WalletConfig) : (∃ w : Wallet Key, cfg.openWallet crates turn = .ok w) ↔
      ∃ secret signer, resolveRef turn.get cfg.keyRef = .ok (some secret) ∧
        LocalSigner.fromHex crates secret = .ok signer := by
    simp only [WalletConfig.openWallet_eq_ok]
    exact ⟨fun ⟨_, secret, signer, hsecret, hsigner, _⟩ => ⟨secret, signer, hsecret, hsigner⟩,
      fun ⟨secret, signer, hsecret, hsigner⟩ => ⟨_, secret, signer, hsecret, hsigner, rfl⟩⟩
  rw [hloop, loadFrom_isOk_iff]
  simp only [hopens, AList.notMem_empty, not_false_eq_true, implies_true, true_and]

/-- What is loaded has the wallets of the entries, and no other. -/
theorem load_spec (h : load crates turns configs = .ok reg) : reg.len = configs.length ∧
    (∀ name, (∃ w, reg.get name = some w) ↔ name ∈ configs.map (·.name)) ∧
    ∀ (i : ℕ) (cfg : WalletConfig), configs[i]? = some cfg → ∃ w secret, reg.get cfg.name = some w ∧
      w.name = cfg.name ∧ resolveRef (turns i).get cfg.keyRef = .ok (some secret) ∧
      LocalSigner.fromHex crates secret = .ok w.signer ∧ w.allowedSymbols = cfg.allowedSymbols ∧
      w.budget = .new cfg.limits (turns i).now := by
  obtain ⟨hlen, hother, heach⟩ := loadFrom_spec (load_eq_ok.mp h)
  refine ⟨hlen.trans (Nat.zero_add _), fun name => ?_, fun i cfg hcfg => ?_⟩
  · constructor
    · rintro ⟨w, hw⟩
      by_contra hno
      have hnone : reg.get name = none := hother name hno
      rw [hnone] at hw
      cases hw
    · intro hmem
      obtain ⟨cfg, hcfg, rfl⟩ := List.mem_map.mp hmem
      obtain ⟨i, hi⟩ := List.getElem?_of_mem hcfg
      obtain ⟨w, -, hw⟩ := heach i cfg hi
      exact ⟨w, hw⟩
  · obtain ⟨w, hopen, hw⟩ := heach i cfg hcfg
    obtain ⟨secret, signer, hsecret, hsigner, rfl⟩ := WalletConfig.openWallet_eq_ok.mp hopen
    exact ⟨_, secret, hw, rfl, hsecret, hsigner, rfl, rfl⟩

theorem load_ne_duplicate (hnodup : (configs.map (·.name)).Nodup) (name : String) :
    load crates turns configs ≠ .error (.duplicateName name) := by
  unfold load
  have hne := @loadFrom_ne_duplicate Key crates turns ∅ configs hnodup (fun cfg _ => AList.notMem_empty _) name
  cases hload : loadFrom crates turns ∅ configs with
  | error e =>
    rw [hload] at hne
    exact fun h => hne (congrArg Except.error (Except.error.inj h))
  | ok out => simp [Except.map]

end WalletRegistry

theorem hasDuplicate_iff_shared {entries : List WalletEntry} : hasDuplicate (entries.map (·.name)) = true ↔
    ∃ (i j : ℕ) (a b : WalletEntry), i < j ∧ entries[i]? = some a ∧ entries[j]? = some b ∧ a.name = b.name := by
  rw [hasDuplicate_iff, List.nodup_iff_getElem?_ne_getElem?]
  push Not
  constructor
  · rintro ⟨i, j, hij, hj, heq⟩
    rw [List.length_map] at hj
    rw [List.getElem?_map, List.getElem?_map, List.getElem?_eq_getElem hj,
      List.getElem?_eq_getElem (hij.trans hj)] at heq
    exact ⟨i, j, _, _, hij, List.getElem?_eq_getElem (hij.trans hj), List.getElem?_eq_getElem hj,
      Option.some.inj heq⟩
  · rintro ⟨i, j, a, b, hij, ha, hb, heq⟩
    obtain ⟨hj, -⟩ := List.getElem?_eq_some_iff.mp hb
    refine ⟨i, j, hij, by rwa [List.length_map], ?_⟩
    rw [List.getElem?_map, List.getElem?_map, ha, hb, Option.map_some, Option.map_some, heq]

/-- **All or nothing.** The entries are loaded exactly if their names are distinct, their references resolve and
what they resolve to are keys. Then there is one wallet for each, under its name, with its key, symbols and
limits, and no other. Those of a valid config never fail for a duplicate name: the check there finds one
exactly if two entries share a name. -/
theorem load_all_or_nothing (crates : KeyCrates Key) (turns : ℕ → LoadTurn) (configs : List WalletConfig) :
    ((∃ reg, WalletRegistry.load crates turns configs = .ok reg) ↔ (configs.map (·.name)).Nodup ∧
      ∀ (i : ℕ) (cfg : WalletConfig), configs[i]? = some cfg → ∃ secret signer,
        resolveRef (turns i).get cfg.keyRef = .ok (some secret) ∧ LocalSigner.fromHex crates secret = .ok signer) ∧
    (∀ reg, WalletRegistry.load crates turns configs = .ok reg → reg.len = configs.length ∧
      (∀ name, (∃ w, reg.get name = some w) ↔ name ∈ configs.map (·.name)) ∧
      ∀ (i : ℕ) (cfg : WalletConfig), configs[i]? = some cfg → ∃ w secret, reg.get cfg.name = some w ∧
        w.name = cfg.name ∧ resolveRef (turns i).get cfg.keyRef = .ok (some secret) ∧
        LocalSigner.fromHex crates secret = .ok w.signer ∧ w.allowedSymbols = cfg.allowedSymbols ∧
        w.budget = .new cfg.limits (turns i).now) ∧
    (∀ (c : AppConfig) (readAddr : String → Option SocketAddr) (dashboardBuilt : Bool) (name : String),
      c.validate readAddr dashboardBuilt = .ok () →
        WalletRegistry.load crates turns (c.wallets.map (·.toCore)) ≠ .error (.duplicateName name)) ∧
    ∀ entries : List WalletEntry, hasDuplicate (entries.map (·.name)) = true ↔
      ∃ (i j : ℕ) (a b : WalletEntry), i < j ∧ entries[i]? = some a ∧ entries[j]? = some b ∧ a.name = b.name := by
  refine ⟨WalletRegistry.load_isOk_iff, fun reg => WalletRegistry.load_spec, ?_, fun entries => hasDuplicate_iff_shared⟩
  intro c readAddr dashboardBuilt name hvalid
  obtain ⟨-, -, -, -, -, -, hnodup⟩ := AppConfig.validate_ok hvalid
  refine WalletRegistry.load_ne_duplicate ?_ name
  rwa [List.map_map]

end Sherwood
