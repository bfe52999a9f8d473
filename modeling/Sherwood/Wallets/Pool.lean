/-
# The wallets of a registry

What a loaded registry is for, `crates/wallets/src/lib.rs`: spending from a wallet by its name, resetting its budget,
and picking one for a symbol, in the order a hash map happens to be in.

The wallets spend apart. Whatever is asked of the others, a wallet keeps its key and its symbols, and its budget goes
through a run of its own, of the answers it gave and no others; since its last reset it is within its own limits
(`wallets_spend_apart`). A wallet that is picked may trade the symbol and has refused nothing since its last reset,
and none is picked exactly if every wallet that may has refused something.

Key definitions: `Wallet.allowsSymbol`, `WalletRegistry.walletForSymbol`, `WalletRegistry.system`, `answersOf`.
Key theorems: `WalletRegistry.step_cases`, `WalletRegistry.run_inv`, `walletForSymbol_eq_some`, `wallets_spend_apart`.
-/
import Sherwood.Chain.Tokens
import Sherwood.Dex.V4Swap
import Sherwood.Wallets.Registry

namespace Sherwood

/-- A point-in-time view of one wallet's budget. -/
structure WalletBudgetView where
  txUsed : UInt32
  txCap : UInt32
  notionalUsed : ℚ
  notionalCap : ℚ
  elapsedSecs : ℕ
  durationCapSecs : ℕ
  breached : Bool

def WalletBudget.view (b : WalletBudget) (now : Instant) : WalletBudgetView where
  txUsed := b.txUsed
  txCap := b.limits.maxTxCount
  notionalUsed := b.notionalUsed
  notionalCap := b.limits.maxNotional
  elapsedSecs := b.elapsed now / 10 ^ 9
  durationCapSecs := b.limits.maxDuration / 10 ^ 9
  breached := b.breached

variable {Key : Type}

namespace Wallet

/-- Whether this wallet is allowed to trade `symbol`, in any case of its letters; without a list it is. -/
def allowsSymbol (w : Wallet Key) (symbol : String) : Bool :=
  w.allowedSymbols.isEmpty || w.allowedSymbols.any fun s => eqIgnoreAsciiCase s symbol

/-- `Wallet::try_reserve`. -/
def tryReserve (A : Arith) (w : Wallet Key) (notional : ℚ) (now later : Instant) :
    Option (Except WalletBreach Unit × Wallet Key) :=
  (w.budget.tryReserve A notional now later).map fun r => (r.1, { w with budget := r.2 })

def resetBudget (w : Wallet Key) (now : Instant) : Wallet Key := { w with budget := w.budget.reset now }

def budgetView (w : Wallet Key) (now : Instant) : WalletBudgetView := w.budget.view now

end Wallet

/-- A call of a registry: on the budget of a wallet, or for a wallet. The order is that of the map. -/
inductive PoolCall (Key : Type) where
  | budget (name : String) (call : BudgetCall)
  | pick (symbol : String) (order : Table.Reorder String (Wallet Key)) (now : Instant)

/-- What came of it. -/
inductive PoolEvent (Key : Type) where
  | answered (name : String) (answer : Meter.Answer ℚ)
  | absent (name : String)
  | picked (symbol : String) (wallet : Option (Wallet Key))

namespace WalletRegistry

/-- The first wallet, in the order of the map, that allows `symbol` and is not breached. -/
def walletForSymbol (order : Table.Reorder String (Wallet Key)) (reg : WalletRegistry Key) (symbol : String)
    (now : Instant) : Option (Wallet Key) :=
  ((order.apply reg.wallets).pairs.map Prod.snd).find? fun w => w.allowsSymbol symbol && !(w.budgetView now).breached

/-- The wallet of a name, after a call on it. -/
def set (reg : WalletRegistry Key) (name : String) (w : Wallet Key) : WalletRegistry Key :=
  ⟨reg.wallets.insert name w⟩

/-- A call on a wallet. -/
def onWallet (A : Arith) (w : Wallet Key) : BudgetCall → Option (Wallet Key × Meter.Answer ℚ)
  | .record notional now later =>
    (w.tryReserve A notional now later).map fun r => (r.2, .spent ⟨notional, now, r.1.isOk⟩)
  | .reset now => some (w.resetBudget now, .restarted now)

def step (A : Arith) (reg : WalletRegistry Key) : PoolCall Key → Option (WalletRegistry Key × PoolEvent Key)
  | .budget name call =>
    match reg.get name with
    | none => some (reg, .absent name)
    | some w => (onWallet A w call).map fun r => (reg.set name r.1, .answered name r.2)
  | .pick symbol order now => some (reg, .picked symbol (reg.walletForSymbol order symbol now))

/-- Calls of a registry. -/
def system (A : Arith) : Lts (WalletRegistry Key) (PoolCall Key) (PoolEvent Key) where
  step := step A

end WalletRegistry

/-- What the wallet of a name answered. -/
def answersOf (name : String) (events : List (PoolEvent Key)) : List (Meter.Answer ℚ) :=
  events.filterMap fun
    | .answered n answer => if n = name then some answer else none
    | _ => none

@[simp] theorem answersOf_nil (name : String) : answersOf name ([] : List (PoolEvent Key)) = [] := rfl

@[simp] theorem answersOf_snoc_answered (name n : String) (events : List (PoolEvent Key)) (answer : Meter.Answer ℚ) :
    answersOf name (events ++ [.answered n answer]) =
      answersOf name events ++ if n = name then [answer] else [] := by
  unfold answersOf
  by_cases h : n = name
  · simp [h]
  · simp [h]

@[simp] theorem answersOf_snoc_absent (name n : String) (events : List (PoolEvent Key)) :
    answersOf name (events ++ [.absent n]) = answersOf name events := by
  simp [answersOf]

@[simp] theorem answersOf_snoc_picked (name symbol : String) (events : List (PoolEvent Key)) (w : Option (Wallet Key)) :
    answersOf name (events ++ [.picked symbol w]) = answersOf name events := by
  simp [answersOf]

namespace WalletRegistry

variable {reg reg' : WalletRegistry Key} {A : Arith}

@[simp] theorem get_set_self (reg : WalletRegistry Key) (name : String) (w : Wallet Key) :
    (reg.set name w).get name = some w := AList.lookup_insert _

theorem get_set_ne {n name : String} (h : n ≠ name) (reg : WalletRegistry Key) (w : Wallet Key) :
    (reg.set name w).get n = reg.get n := AList.lookup_insert_ne h

theorem onWallet_eq_some {w w' : Wallet Key} {call : BudgetCall} {answer : Meter.Answer ℚ} :
    onWallet A w call = some (w', answer) ↔
      ∃ b, (WalletBudget.system A).step w.budget call = some (b, answer) ∧ w' = { w with budget := b } := by
  cases call with
  | record notional now later =>
    simp only [onWallet, Wallet.tryReserve, WalletBudget.system, Option.map_map, Option.map_eq_some_iff,
      Function.comp_apply, Prod.mk.injEq]
    constructor
    · rintro ⟨r, hr, rfl, rfl⟩
      exact ⟨r.2, ⟨r, hr, rfl, rfl⟩, rfl⟩
    · rintro ⟨b, ⟨r, hr, rfl, rfl⟩, rfl⟩
      exact ⟨r, hr, rfl, rfl⟩
  | reset now =>
    simp only [onWallet, Wallet.resetBudget, WalletBudget.system, Option.some.injEq, Prod.mk.injEq]
    constructor
    · rintro ⟨rfl, rfl⟩
      exact ⟨_, ⟨rfl, rfl⟩, rfl⟩
    · rintro ⟨b, ⟨rfl, rfl⟩, rfl⟩
      exact ⟨rfl, rfl⟩

theorem step_cases {call : PoolCall Key} {event : PoolEvent Key} (h : (system A).step reg call = some (reg', event)) :
    (∃ name, reg.get name = none ∧ reg' = reg ∧ event = .absent name) ∨
    (∃ symbol order now, reg' = reg ∧ event = .picked symbol (reg.walletForSymbol order symbol now)) ∨
    (∃ name w b call answer, reg.get name = some w ∧ (WalletBudget.system A).step w.budget call = some (b, answer) ∧
      reg' = reg.set name { w with budget := b } ∧ event = .answered name answer) := by
  cases call with
  | budget name call =>
    simp only [system, step] at h
    cases hget : reg.get name with
    | none =>
      rw [hget] at h
      obtain ⟨rfl, rfl⟩ := Prod.mk.inj (Option.some.inj h)
      exact .inl ⟨name, hget, rfl, rfl⟩
    | some w =>
      rw [hget] at h
      obtain ⟨⟨w', answer⟩, hwallet, heq⟩ := Option.map_eq_some_iff.mp h
      obtain ⟨rfl, rfl⟩ := Prod.mk.inj heq
      obtain ⟨b, hb, rfl⟩ := onWallet_eq_some.mp hwallet
      exact .inr (.inr ⟨name, w, b, call, answer, hget, hb, rfl, rfl⟩)
  | pick symbol order now =>
    obtain ⟨rfl, rfl⟩ := Prod.mk.inj (Option.some.inj h)
    exact .inr (.inl ⟨symbol, order, now, rfl, rfl⟩)

theorem step_isSome (reg : WalletRegistry Key) (call : PoolCall Key) : ((system .exact).step reg call).isSome := by
  cases call with
  | budget name call =>
    simp only [system, step]
    cases reg.get name with
    | none => rfl
    | some w =>
      cases call with
      | record notional now later =>
        simp only [onWallet, Wallet.tryReserve, Option.isSome_map, WalletBudget.tryReserve]
        split_ifs <;> rfl
      | reset now => rfl
  | pick symbol order now => rfl

/-! ### Wallets apart -/

/-- The wallet since it was loaded as `w₀`: its budget has run by itself, with these answers. -/
structure Spent (A : Arith) (w₀ : Wallet Key) (answers : List (Meter.Answer ℚ)) (w : Wallet Key) : Prop where
  name : w.name = w₀.name
  signer : w.signer = w₀.signer
  allowedSymbols : w.allowedSymbols = w₀.allowedSymbols
  run : (WalletBudget.system A).Run w₀.budget answers w.budget

/-- Every wallet has spent by itself, and those that were not loaded are not there. -/
def Apart (A : Arith) (reg₀ : WalletRegistry Key) (events : List (PoolEvent Key)) (reg : WalletRegistry Key) : Prop :=
  ∀ name, match reg₀.get name with
    | none => reg.get name = none ∧ answersOf name events = []
    | some w₀ => ∃ w, reg.get name = some w ∧ Spent A w₀ (answersOf name events) w

/-- A call keeps the wallets apart: the one that is called takes a step, the others do not. -/
theorem apart_step {reg₀ : WalletRegistry Key} {events : List (PoolEvent Key)} (h : Apart A reg₀ events reg)
    {call : PoolCall Key} {event : PoolEvent Key} (hstep : (system A).step reg call = some (reg', event)) :
    Apart A reg₀ (events ++ [event]) reg' := by
  obtain ⟨name, -, rfl, rfl⟩ | ⟨symbol, order, now, rfl, rfl⟩ | ⟨name, w, b, call, answer, hw, hb, rfl, rfl⟩ :=
    step_cases hstep
  · intro n
    simpa only [answersOf_snoc_absent] using h n
  · intro n
    simpa only [answersOf_snoc_picked] using h n
  · intro n
    have hn := h n
    rw [answersOf_snoc_answered]
    by_cases hname : n = name
    · subst hname
      rw [if_pos rfl, get_set_self]
      cases hget : reg₀.get n with
      | none =>
        simp only [hget, hw, reduceCtorEq, false_and] at hn
      | some w₀ =>
        simp only [hget, hw, Option.some.injEq, exists_eq_left'] at hn
        exact ⟨_, rfl, hn.name, hn.signer, hn.allowedSymbols, hn.run.snoc hb⟩
    · rw [if_neg (Ne.symm hname), List.append_nil, get_set_ne hname]
      exact hn

theorem run_inv {reg₀ : WalletRegistry Key} {events : List (PoolEvent Key)} (h : (system A).Run reg₀ events reg) :
    Apart A reg₀ events reg := by
  refine Lts.Run.inv (P := Apart A reg₀) (fun name => ?_) (fun _ _ _ _ _ _ hapart => apart_step hapart) h
  cases hget : reg₀.get name with
  | none => exact ⟨rfl, rfl⟩
  | some w₀ => exact ⟨w₀, rfl, rfl, rfl, rfl, .nil⟩

/-! ### Picking -/

theorem mem_values {order : Table.Reorder String (Wallet Key)} {w : Wallet Key} :
    w ∈ (order.apply reg.wallets).pairs.map Prod.snd ↔ ∃ name, reg.get name = some w := by
  simp only [Table.pairs, List.map_map, List.mem_map, Function.comp_apply]
  constructor
  · rintro ⟨e, he, rfl⟩
    refine ⟨e.1, ?_⟩
    have hlookup : (order.apply reg.wallets).lookup e.1 = some e.2 := AList.mem_lookup_iff.mpr he
    rwa [order.lookup_apply] at hlookup
  · rintro ⟨name, hname⟩
    refine ⟨⟨name, w⟩, AList.mem_lookup_iff.mp ?_, rfl⟩
    rw [order.lookup_apply]
    exact hname

theorem walletForSymbol_eq_some {order : Table.Reorder String (Wallet Key)} {symbol : String} {now : Instant}
    {w : Wallet Key} (h : reg.walletForSymbol order symbol now = some w) :
    (∃ name, reg.get name = some w) ∧ w.allowsSymbol symbol = true ∧ w.budget.breached = false := by
  have hmem := List.mem_of_find?_eq_some h
  have hpred := List.find?_some h
  rw [Bool.and_eq_true, Bool.not_eq_true'] at hpred
  exact ⟨mem_values.mp hmem, hpred⟩

theorem walletForSymbol_eq_none {order : Table.Reorder String (Wallet Key)} {symbol : String} {now : Instant} :
    reg.walletForSymbol order symbol now = none ↔
      ∀ name w, reg.get name = some w → w.allowsSymbol symbol = true → w.budget.breached = true := by
  rw [walletForSymbol, List.find?_eq_none]
  simp only [mem_values, Bool.and_eq_true, Bool.not_eq_true', not_and, Bool.not_eq_false]
  constructor
  · exact fun h name w hw hallows => h w ⟨name, hw⟩ hallows
  · rintro h w ⟨name, hw⟩ hallows
    exact h name w hw hallows

end WalletRegistry

/-! ### Limits -/

/-- The caps of a wallet's meter. -/
def WalletLimits.caps (limits : WalletLimits) : Meter.Caps ℚ :=
  meterCaps limits.maxTxCount limits.maxNotional limits.maxDuration

/-- A run of a wallet's budget is one of the meter with its limits. -/
theorem WalletBudget.run_meters {limits : WalletLimits} {t₀ : Instant} {answers : List (Meter.Answer ℚ)}
    {b : WalletBudget} (h : (WalletBudget.system .exact).Run (.new limits t₀) answers b) :
    ∃ m, (Meter.system limits.caps).Run (Meter.new t₀) answers m ∧ b.Meters limits m := by
  refine Lts.Run.inv
    (P := fun answers b => ∃ m, (Meter.system limits.caps).Run (Meter.new t₀) answers m ∧ b.Meters limits m)
    ⟨_, .nil, rfl, .new _ t₀⟩ ?_ h
  rintro answers b call b' answer - ⟨m, hrun, hmeters⟩ hstep
  obtain ⟨b'', m', answer', hb, hm, hmeters'⟩ := WalletBudget.step_meters b m call hmeters
  obtain ⟨rfl, rfl⟩ := Prod.mk.inj (Option.some.inj (hstep.symm.trans hb))
  exact ⟨m', hrun.snoc hm, hmeters'⟩

theorem WalletBudget.run_within {limits : WalletLimits} {t₀ : Instant} {answers : List (Meter.Answer ℚ)}
    {b : WalletBudget} (h : (WalletBudget.system .exact).Run (.new limits t₀) answers b) :
    Meter.Within limits.caps (Meter.segment t₀ answers).1 (Meter.segment t₀ answers).2 ∧
      (b.breached = true ↔ ∃ s ∈ (Meter.segment t₀ answers).2, s.ok = false) := by
  obtain ⟨m, hrun, -, hmetered⟩ := WalletBudget.run_meters h
  refine ⟨(Meter.run_within hrun).2, ?_⟩
  rw [← Meter.run_latched hrun, hmetered.breached]

/-- The entry allows the symbol. -/
def WalletConfig.Allows (cfg : WalletConfig) (symbol : String) : Prop :=
  cfg.allowedSymbols = [] ∨ ∃ s ∈ cfg.allowedSymbols, eqIgnoreAsciiCase s symbol = true

theorem Wallet.allowsSymbol_iff {w : Wallet Key} {cfg : WalletConfig} (h : w.allowedSymbols = cfg.allowedSymbols)
    (symbol : String) : w.allowsSymbol symbol = true ↔ cfg.Allows symbol := by
  simp [allowsSymbol, WalletConfig.Allows, h]

/-- The wallet has refused a spend since it was reset, or since it was loaded. -/
def Refused (loaded : Instant) (answers : List (Meter.Answer ℚ)) : Prop :=
  ∃ s ∈ (Meter.segment loaded answers).2, s.ok = false

namespace WalletRegistry

variable {crates : KeyCrates Key} {turns : ℕ → LoadTurn} {configs : List WalletConfig} {A : Arith}
  {reg reg' : WalletRegistry Key} {events pre post : List (PoolEvent Key)}

/-- The wallet of an entry, at any point of a run: what was loaded, with a budget that has run by itself. -/
theorem wallet_of_run (hload : load crates turns configs = .ok reg) (hrun : (system A).Run reg events reg') {i : ℕ}
    {cfg : WalletConfig} (hcfg : configs[i]? = some cfg) :
    ∃ secret w, reg'.get cfg.name = some w ∧ w.name = cfg.name ∧
      resolveRef (turns i).get cfg.keyRef = .ok (some secret) ∧
      Signer.LocalSigner.fromHex crates secret = .ok w.signer ∧ w.allowedSymbols = cfg.allowedSymbols ∧
      (WalletBudget.system A).Run (.new cfg.limits (turns i).now) (answersOf cfg.name events) w.budget := by
  obtain ⟨-, -, heach⟩ := load_spec hload
  obtain ⟨w₀, secret, hw₀, hname, hsecret, hsigner, hsymbols, hbudget⟩ := heach i cfg hcfg
  have hapart := run_inv hrun cfg.name
  rw [hw₀] at hapart
  obtain ⟨w, hw, hspent⟩ := hapart
  refine ⟨secret, w, hw, hspent.name.trans hname, hsecret, ?_, hspent.allowedSymbols.trans hsymbols, ?_⟩
  · rw [hspent.signer, hsigner]
  · rw [← hbudget]
    exact hspent.run

/-- A name without an entry has no wallet at any point of a run, and none answers for it. -/
theorem absent_of_run (hload : load crates turns configs = .ok reg) (hrun : (system A).Run reg events reg')
    {name : String} (hno : name ∉ configs.map (·.name)) : reg'.get name = none ∧ answersOf name events = [] := by
  obtain ⟨-, hnames, -⟩ := load_spec hload
  have hapart := run_inv hrun name
  cases hget : reg.get name with
  | none =>
    rw [hget] at hapart
    exact hapart
  | some w => exact absurd ((hnames name).mp ⟨w, hget⟩) hno

theorem exists_entry_of_run (hload : load crates turns configs = .ok reg) (hrun : (system A).Run reg events reg')
    {name : String} {w : Wallet Key} (hget : reg'.get name = some w) :
    ∃ (i : ℕ) (cfg : WalletConfig), configs[i]? = some cfg ∧ cfg.name = name := by
  have hmem : name ∈ configs.map (·.name) := by
    by_contra hno
    rw [(absent_of_run hload hrun hno).1] at hget
    cases hget
  obtain ⟨cfg, hcfg, hname⟩ := List.mem_map.mp hmem
  obtain ⟨i, hi⟩ := List.getElem?_of_mem hcfg
  exact ⟨i, cfg, hi, hname⟩

/-- What was picked in a run was picked from the wallets as they were then. -/
theorem picked_of_run (hrun : (system A).Run reg events reg') {symbol : String} {picked : Option (Wallet Key)}
    (hevents : events = pre ++ .picked symbol picked :: post) :
    ∃ reg₁ order now, (system A).Run reg pre reg₁ ∧ reg₁.walletForSymbol order symbol now = picked := by
  obtain ⟨reg₁, call, reg₂, hpre, hstep⟩ := hrun.split hevents
  obtain ⟨_, -, -, heq⟩ | ⟨symbol', order, now, -, heq⟩ | ⟨_, _, _, _, _, -, -, -, heq⟩ := step_cases hstep
  · cases heq
  · obtain ⟨rfl, hpicked⟩ := PoolEvent.picked.inj heq
    exact ⟨reg₁, order, now, hpre, hpicked.symm⟩
  · cases heq

end WalletRegistry

/-- **Wallets spend apart.** Whatever is called on a loaded registry, each wallet keeps its name, its key and its
symbols, its budget has run by itself with the answers it gave, and since its last reset what it booked is within its
own limits. The wallet that is picked for a symbol allows it and has refused nothing since its last reset; none is
picked exactly if all that allow it have. -/
theorem wallets_spend_apart (crates : KeyCrates Key) (turns : ℕ → LoadTurn) (configs : List WalletConfig)
    (reg : WalletRegistry Key) (hload : WalletRegistry.load crates turns configs = .ok reg)
    (calls : List (PoolCall Key)) :
    ∃ reg' events, (WalletRegistry.system .exact).exec reg calls = some (reg', events) ∧
      (∀ name, name ∉ configs.map (·.name) → reg'.get name = none ∧ answersOf name events = []) ∧
      (∀ i cfg, configs[i]? = some cfg → ∃ secret w, reg'.get cfg.name = some w ∧ w.name = cfg.name ∧
        resolveRef (turns i).get cfg.keyRef = .ok (some secret) ∧
        Signer.LocalSigner.fromHex crates secret = .ok w.signer ∧ w.allowedSymbols = cfg.allowedSymbols ∧
        (WalletBudget.system .exact).Run (.new cfg.limits (turns i).now) (answersOf cfg.name events) w.budget ∧
        Meter.Within cfg.limits.caps (Meter.segment (turns i).now (answersOf cfg.name events)).1
          (Meter.segment (turns i).now (answersOf cfg.name events)).2) ∧
      (∀ pre symbol w post, events = pre ++ .picked symbol (some w) :: post → ∃ i cfg, configs[i]? = some cfg ∧
        w.name = cfg.name ∧ cfg.Allows symbol ∧ ¬ Refused (turns i).now (answersOf cfg.name pre)) ∧
      ∀ pre symbol post, events = pre ++ .picked symbol none :: post → ∀ i cfg, configs[i]? = some cfg →
        cfg.Allows symbol → Refused (turns i).now (answersOf cfg.name pre) := by
  obtain ⟨reg', events, hexec⟩ := Lts.exec_of_total WalletRegistry.step_isSome calls reg
  have hrun : (WalletRegistry.system .exact).Run reg events reg' := .of_exec hexec
  refine ⟨reg', events, hexec, fun name hno => WalletRegistry.absent_of_run hload hrun hno, fun i cfg hcfg => ?_,
    fun pre symbol w post hevents => ?_, fun pre symbol post hevents i cfg hcfg hallows => ?_⟩
  · obtain ⟨secret, w, hw, hname, hsecret, hsigner, hsymbols, hbudget⟩ := WalletRegistry.wallet_of_run hload hrun hcfg
    exact ⟨secret, w, hw, hname, hsecret, hsigner, hsymbols, hbudget, (WalletBudget.run_within hbudget).1⟩
  · obtain ⟨reg₁, order, now, hpre, hpicked⟩ := WalletRegistry.picked_of_run hrun hevents
    obtain ⟨⟨name, hget⟩, hallows, hbreached⟩ := WalletRegistry.walletForSymbol_eq_some hpicked
    obtain ⟨i, cfg, hcfg, rfl⟩ := WalletRegistry.exists_entry_of_run hload hpre hget
    obtain ⟨-, w', hw', hname, -, -, hsymbols, hbudget⟩ := WalletRegistry.wallet_of_run hload hpre hcfg
    obtain rfl : w = w' := Option.some.inj (hget.symm.trans hw')
    refine ⟨i, cfg, hcfg, hname, (Wallet.allowsSymbol_iff hsymbols _).mp hallows, fun hrefused => ?_⟩
    rw [(WalletBudget.run_within hbudget).2.mpr hrefused] at hbreached
    cases hbreached
  · obtain ⟨reg₁, order, now, hpre, hpicked⟩ := WalletRegistry.picked_of_run hrun hevents
    obtain ⟨-, w, hw, -, -, -, hsymbols, hbudget⟩ := WalletRegistry.wallet_of_run hload hpre hcfg
    have hbreached : w.budget.breached = true := WalletRegistry.walletForSymbol_eq_none.mp hpicked _ w hw
      ((Wallet.allowsSymbol_iff hsymbols _).mpr hallows)
    exact (WalletBudget.run_within hbudget).2.mp hbreached

/-- The curve and the hash at the one key that is the number 1. -/
def keyOne : KeyCrates Unit where
  hexDecode := Dex.hexDecode
  fromSlice _ := .ok ()
  encodedPoint _ :=
    [0x04,
      0x79, 0xbe, 0x66, 0x7e, 0xf9, 0xdc, 0xbb, 0xac, 0x55, 0xa0, 0x62, 0x95, 0xce, 0x87, 0x0b, 0x07, 0x02, 0x9b, 0xfc,
      0xdb, 0x2d, 0xce, 0x28, 0xd9, 0x59, 0xf2, 0x81, 0x5b, 0x16, 0xf8, 0x17, 0x98, 0x48, 0x3a, 0xda, 0x77, 0x26, 0xa3,
      0xc4, 0x65, 0x5d, 0xa4, 0xfb, 0xfc, 0x0e, 0x11, 0x08, 0xa8, 0xfd, 0x17, 0xb4, 0x48, 0xa6, 0x85, 0x54, 0x19, 0x9c,
      0x47, 0xd0, 0x8f, 0xfb, 0x10, 0xd4, 0xb8]
  keccak256 _ :=
    #v[0xc0, 0xa6, 0xc4, 0x24, 0xac, 0x71, 0x57, 0xae, 0x40, 0x83, 0x98, 0xdf, 0x7e, 0x5f, 0x45, 0x52, 0x09, 0x1a, 0x69,
      0x12, 0x5d, 0x5d, 0xfc, 0xb7, 0xb8, 0xc2, 0x65, 0x90, 0x29, 0x39, 0x5b, 0xdf]

/-- The vault holds that key. -/
def keyOneTurn : LoadTurn where
  get _ := .ok (some "0x0000000000000000000000000000000000000000000000000000000000000001")
  now := 0

/-- One wallet, for NVDA, that may spend a hundred. -/
def hotWallet : WalletConfig := ⟨"hot", "vault:hot", ["NVDA"], ⟨0, 100, 0⟩⟩

theorem fromHex_keyOne : ∃ signer, Signer.LocalSigner.fromHex keyOne
    "0x0000000000000000000000000000000000000000000000000000000000000001" = .ok signer := by
  have hok : (Signer.LocalSigner.fromHex keyOne
      "0x0000000000000000000000000000000000000000000000000000000000000001").isOk = true := by decide +kernel
  cases hsigner : Signer.LocalSigner.fromHex keyOne
      "0x0000000000000000000000000000000000000000000000000000000000000001" with
  | error e =>
    rw [hsigner] at hok
    cases hok
  | ok signer => exact ⟨signer, rfl⟩

theorem hotWallet_loads : ∃ reg, WalletRegistry.load keyOne (fun _ => keyOneTurn) [hotWallet] = .ok reg := by
  obtain ⟨signer, hsigner⟩ := fromHex_keyOne
  refine (@WalletRegistry.load_isOk_iff Unit keyOne (fun _ => keyOneTurn) [hotWallet]).mpr ⟨by simp, ?_⟩
  intro i cfg hcfg
  obtain hhot : cfg = hotWallet := List.mem_singleton.mp (List.mem_of_getElem? hcfg)
  have hname : (vaultName cfg.keyRef).isSome := by
    rw [hhot]
    decide +kernel
  obtain ⟨name, hname⟩ := Option.isSome_iff_exists.mp hname
  exact ⟨_, signer, by rw [resolveRef, hname]; rfl, hsigner⟩

/-- It spends sixty, and is passed over once it has refused sixty more. -/
theorem wallets_spend_apart_hot : ∃ reg reg' events w,
    WalletRegistry.load keyOne (fun _ => keyOneTurn) [hotWallet] = .ok reg ∧
    (WalletRegistry.system .exact).exec reg [.budget "hot" (.record 60 1 1), .budget "hot" (.record 60 2 2),
      .pick "nvda" .same 3] = some (reg', events) ∧
    reg'.get "hot" = some w ∧
    (WalletBudget.system .exact).Run (.new ⟨0, 100, 0⟩ 0) (answersOf "hot" events) w.budget := by
  obtain ⟨reg, hload⟩ := hotWallet_loads
  obtain ⟨reg', events, hexec, -, heach, -⟩ := wallets_spend_apart keyOne (fun _ => keyOneTurn) [hotWallet] reg hload
    [.budget "hot" (.record 60 1 1), .budget "hot" (.record 60 2 2), .pick "nvda" .same 3]
  obtain ⟨-, w, hw, -, -, -, -, hrun, -⟩ := heach 0 hotWallet rfl
  exact ⟨reg, reg', events, w, hload, hexec, hw, hrun⟩

end Sherwood
