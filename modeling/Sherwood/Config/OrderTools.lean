/-
# What the config makes of an order

Two promises of the gate rest on lists the operator writes. An order tool is
checked by the risk gate, unless it is listed as a cancel too, since the last
list wins and `[hook]` has no check (`ordersChecked_iff`). A symbol of the
denylist is denied and one of the allowlist passes it however they are spelled,
unless the list has a spelling that no parsed order has: the reader of orders
trims the symbol and makes it upper case, and the config is compared as it is
written (`listsMeetOrders_iff`).

Key definitions: `OrdersChecked`, `normalSymbol`, `ListsMeetOrders`,
`ListsNormal`.
Key theorems: `ordersChecked_iff`, `listsMeetOrders_iff`.
-/
import Sherwood.Config.Config

namespace Sherwood

/-! ### The order tools -/

/-- The calls of the order tools are checked, whatever the limits: one that is
allowed was read and passed the risk gate, one whose size fits is denied while the
kill switch is engaged, and `pretooluse` holds an allowed one for approval or
takes it to the session budget. -/
structure OrdersChecked (A : Arith) (s : HookSection) : Prop where
  checked : ∀ (risk : RiskConfig) (slip : ℚ) (call : ToolCall) (ctx : GateContext) (t : DateTime),
    call.name ∈ s.placeTools → HookGate.evaluate A ⟨s.toAllowlist, risk, slip⟩ call ctx t = some .allow →
    ∃ order, parseOrder A call.name call.arguments slip t = .ok order ∧ RiskGate.check A risk order ctx = .ok ()
  halted : ∀ (risk : RiskConfig) (slip : ℚ) (call : ToolCall) (ctx : GateContext) (t : DateTime),
    call.name ∈ s.placeTools → risk.killSwitch = true → ¬ SizeOverflows A call.arguments →
    ∃ reason, HookGate.evaluate A ⟨s.toAllowlist, risk, slip⟩ call ctx t = some (.deny reason)
  routed : ∀ (control : Control) (req : HookRequest) (now parsedAt reparsedAt : DateTime),
    control.allowlist = s.toAllowlist → req.toolCall.name ∈ s.placeTools →
    (HookGate.new control.allowlist control.risk).evaluate A req.toolCall (req.context.gateContext now) parsedAt =
      some .allow →
    ∃ order, (control.approvalMode = .manual ∧
        ServerState.afterGate A control req .allow reparsedAt = .held req order) ∨
      (control.approvalMode = .auto ∧ ServerState.afterGate A control req .allow reparsedAt = .cleared req order)

theorem afterGate_allow {A : Arith} {control : Control} {req : HookRequest} {ctx : GateContext}
    {parsedAt reparsedAt : DateTime} (hplace : control.allowlist.classify req.toolCall.name = some .placeOrder)
    (hallow : (HookGate.new control.allowlist control.risk).evaluate A req.toolCall ctx parsedAt = some .allow) :
    ∃ order, (control.approvalMode = .manual ∧
        ServerState.afterGate A control req .allow reparsedAt = .held req order) ∨
      (control.approvalMode = .auto ∧ ServerState.afterGate A control req .allow reparsedAt = .cleared req order) := by
  obtain ⟨order, hparse, -⟩ := (evaluate_place_allow_iff hplace).mp hallow
  have hagain := parseOrder_again reparsedAt hparse
  have hzero : (HookGate.new control.allowlist control.risk).defaultMaxSlippage = 0 := rfl
  rw [hzero] at hagain
  refine ⟨{ order with id := nextId reparsedAt }, ?_⟩
  unfold ServerState.afterGate
  rw [if_pos ⟨rfl, hplace⟩, hagain]
  cases hmode : control.approvalMode with
  | auto => exact .inr ⟨rfl, rfl⟩
  | manual => exact .inl ⟨rfl, rfl⟩

/-- **The order tools.** They are checked exactly if none of them is listed as a
cancel. -/
theorem ordersChecked_iff (A : Arith) (c : AppConfig) :
    OrdersChecked A c.hook ↔ ∀ tool ∈ c.hook.placeTools, tool ∉ c.hook.cancelTools := by
  constructor
  · intro h tool hplace hcancel
    -- a cancel is allowed whatever its arguments are
    have hclass : c.hook.toAllowlist.classify tool = some .cancelOrder := by
      rw [HookSection.classify_toAllowlist, if_pos hcancel]
    have hallow : HookGate.evaluate A ⟨c.hook.toAllowlist, .default, 0⟩ ⟨tool, .null⟩ (contextOf (.new 1000) 10)
        .epoch = some .allow := by
      unfold HookGate.evaluate
      rw [hclass]
    obtain ⟨order, hparse, -⟩ := h.checked .default 0 ⟨tool, .null⟩ (contextOf (.new 1000) 10) .epoch hplace hallow
    have hnot : parseOrder A tool .null 0 .epoch = .err .notAnObject := rfl
    rw [hnot] at hparse
    cases hparse
  · intro hdisjoint
    have hclass : ∀ tool ∈ c.hook.placeTools, c.hook.toAllowlist.classify tool = some .placeOrder :=
      fun tool htool => HookSection.classify_eq_placeOrder.mpr ⟨htool, hdisjoint tool htool⟩
    refine ⟨fun risk slip call ctx t htool hallow => ?_, fun risk slip call ctx t htool hkill hfit => ?_,
      fun control req now parsedAt reparsedAt hlist htool hallow => ?_⟩
    · exact (evaluate_place_allow_iff (g := ⟨c.hook.toAllowlist, risk, slip⟩) (hclass _ htool)).mp hallow
    · refine evaluate_deny (g := ⟨c.hook.toAllowlist, risk, slip⟩) (hclass _ htool) hfit fun order _ hperm => ?_
      have hrunning : risk.killSwitch = false := hperm.running
      rw [hkill] at hrunning
      cases hrunning
    · exact afterGate_allow (by rw [hlist]; exact hclass _ htool) hallow

/-- A config that lists one tool as an order and as a cancel. -/
def orderAsCancel : AppConfig := { hook := { placeTools := ["place_order"], cancelTools := ["place_order"] } }

/-- It is valid, and a call of its order tool that no order can be read from is
allowed under the kill switch. -/
theorem orderAsCancel_unchecked : ¬ ∀ (A : Arith) (c : AppConfig) (readAddr : String → Option SocketAddr)
    (dashboardBuilt : Bool), c.validate readAddr dashboardBuilt = .ok () → OrdersChecked A c.hook := by
  intro h
  have hchecked : OrdersChecked .dec96 orderAsCancel.hook :=
    h .dec96 orderAsCancel loopbackAddr true (by decide +kernel)
  let call := buyCall (.num (.posInt 1000000)) (.num (.posInt 10))
  have hanswer : HookGate.evaluate .dec96 ⟨someTools, .default, 0⟩ call (contextOf (.new 1000) 10) .epoch =
      some (.deny "risk gate: order notional 10000000 exceeds cap 100") := by
    decide +kernel
  have hfit : ¬ SizeOverflows .dec96 call.arguments := fits_of_answer (by decide) hanswer
  obtain ⟨reason, hdeny⟩ := hchecked.halted { RiskConfig.default with killSwitch := true } 0 call
    (contextOf (.new 1000) 10) .epoch (by decide) rfl hfit
  have hallow : HookGate.evaluate .dec96 ⟨orderAsCancel.hook.toAllowlist,
      { RiskConfig.default with killSwitch := true }, 0⟩ call (contextOf (.new 1000) 10) .epoch = some .allow := by
    decide
  rw [hallow] at hdeny
  cases hdeny

/-! ### The lists -/

/-- A symbol as the reader of orders makes it. -/
def normalSymbol (s : String) : String := toAsciiUppercase (trimStr s)

/-- Two spellings of a symbol: the same up to case and the white space around. -/
def SameSymbol (a b : String) : Prop := normalSymbol a = normalSymbol b

theorem SameSymbol.blank {a b : String} (h : SameSymbol a b) (hb : trimStr b = "") : trimStr a = "" := by
  unfold SameSymbol normalSymbol at h
  rw [hb] at h
  have hlist : (toAsciiUppercase (trimStr a)).toList = [] := by rw [h]; rfl
  rw [toAsciiUppercase, String.toList_ofList, List.map_eq_nil_iff] at hlist
  exact String.toList_eq_nil_iff.mp hlist

/-- The symbol that the arguments of a call name, as it stands there. -/
def symbolArg (args : Json) : Option String :=
  args.asObject.bind fun obj => ((Json.get obj "symbol").or (Json.get obj "ticker")).bind Json.asStr

/-- The gate of the server over a config. -/
def AppConfig.hookGate (c : AppConfig) : HookGate := .new c.hook.toAllowlist c.risk.toCore

/-- The lists bind the orders of the agent however their symbols are spelled: a call
whose size fits is denied if the denylist has its symbol, and an order is not
turned away by an allowlist that has it. -/
structure ListsMeetOrders (A : Arith) (c : AppConfig) : Prop where
  denied : ∀ (call : ToolCall) (ctx : GateContext) (t : DateTime) (s d : String),
    c.hook.toAllowlist.classify call.name = some .placeOrder → symbolArg call.arguments = some s →
    d ∈ c.risk.denylist → SameSymbol s d → ¬ SizeOverflows A call.arguments →
    ∃ reason, c.hookGate.evaluate A call ctx t = some (.deny reason)
  listed : ∀ (call : ToolCall) (ctx : GateContext) (t : DateTime) (s a symbol : String) (order : Order),
    c.hook.toAllowlist.classify call.name = some .placeOrder → symbolArg call.arguments = some s →
    a ∈ c.risk.allowlist → SameSymbol s a →
    parseOrder A call.name call.arguments c.hookGate.defaultMaxSlippage t = .ok order →
    RiskGate.check A c.risk.toCore order ctx ≠ .err (.notAllowlisted symbol)

/-- The entries of the lists that some order meets are as the orders are: an entry
of the denylist is there in upper case and trimmed, or its symbol is not
allowed at all; an entry of the allowlist is, or its symbol is denied. -/
structure ListsNormal (risk : RiskSection) : Prop where
  denied : ∀ d ∈ risk.denylist, trimStr d ≠ "" →
    normalSymbol d ∈ risk.denylist ∨ risk.allowlist ≠ ∅ ∧ normalSymbol d ∉ risk.allowlist
  listed : ∀ a ∈ risk.allowlist, trimStr a ≠ "" →
    normalSymbol a ∈ risk.allowlist ∨ normalSymbol a ∈ risk.denylist

section

variable {A : Arith} {name : String} {args : Json} {slip : ℚ} {t : DateTime} {order : Order}

/-- The symbol of an order is the one of its call, made normal. -/
theorem symbol_of_parseOrder (h : parseOrder A name args slip t = .ok order) :
    ∃ s, symbolArg args = some s ∧ trimStr s ≠ "" ∧ order.asset.symbol = normalSymbol s := by
  unfold parseOrder at h
  simp only [Outcome.bind_eq_ok, Outcome.okOr_eq_ok, Outcome.reject_eq_ok, exists_const, Outcome.pure_eq_ok,
    Outcome.ok.injEq] at h
  obtain ⟨obj, hobj, symbol, hsymbol, _, -, _, -, _, -, _, -, _, -, _, -, -, _, -, rfl⟩ := h
  unfold symbolOf at hsymbol
  rw [Option.filter_eq_some_iff, Option.map_eq_some_iff] at hsymbol
  obtain ⟨⟨s, hs, rfl⟩, hne⟩ := hsymbol
  exact ⟨s, by rw [symbolArg, hobj, Option.bind_some, hs], by simpa using hne, rfl⟩

theorem symbol_of_sameSymbol {s d : String} (h : parseOrder A name args slip t = .ok order)
    (hs : symbolArg args = some s) (hsame : SameSymbol s d) :
    trimStr d ≠ "" ∧ order.asset.symbol = normalSymbol d := by
  obtain ⟨s', hs', hne, hsymbol⟩ := symbol_of_parseOrder h
  obtain rfl : s = s' := Option.some.inj (hs.symm.trans hs')
  exact ⟨fun hblank => hne (hsame.blank hblank), hsymbol.trans hsame⟩

/-- The arguments to sell one of `s`. -/
def sellFields (s : String) : List (String × Json) :=
  [("symbol", .str s), ("side", .str "sell"), ("quantity", .num (.posInt 1))]

/-- The order of a call with them. -/
def sellOrder (tool s : String) (t : DateTime) : Order :=
  ⟨nextId t, .ofSymbol (normalSymbol s), .sell, 1, none, 0, .robinhoodMcp, s!"agent tool call: {tool}"⟩

theorem parseOrder_sell {tool s : String} (hs : trimStr s ≠ "") :
    parseOrder .dec96 tool (.obj (sellFields s)) 0 t = .ok (sellOrder tool s t) := by
  have hsymbol : symbolOf (sellFields s) = some (trimStr s) := by
    show (some (trimStr s)).filter (· ≠ "") = _
    rw [Option.filter_some, if_pos (by simpa using hs)]
  have hword : sideWordOf (sellFields s) = some "sell" := rfl
  have hlower : toAsciiLowercase (trimStr "sell") = "sell" := by decide +kernel
  have hone : valueToDecimal .dec96 (.num (.posInt 1)) = some 1 := by decide +kernel
  have hquantity : optionalDecimal .dec96 (sellFields s) quantityKeys = .ok (some 1) := by
    show Outcome.okOr (valueToDecimal .dec96 (.num (.posInt 1)))
      (OrderParseError.badField "quantity" (.notANumber (.num (.posInt 1)))) >>= (fun d => pure (some d)) = _
    rw [hone]
    rfl
  have hlimit : optionalDecimal .dec96 (sellFields s) limitPriceKeys = .ok none := rfl
  have hnotional : optionalDecimal .dec96 (sellFields s) notionalKeys = .ok none := rfl
  have hslippage : optionalDecimal .dec96 (sellFields s) slippageKeys = .ok none := rfl
  unfold parseOrder
  simp only [Json.asObject, Outcome.okOr, Option.elim_some, Outcome.ok_bind, hsymbol, hword, hlower, hlimit,
    hquantity, hnotional, hslippage, Outcome.pure_eq_ok]
  rfl

theorem sellFields_fit {s : String} (hs : trimStr s ≠ "") : ¬ SizeOverflows .dec96 (.obj (sellFields s)) := by
  intro hover
  have hpanic : parseOrder .dec96 "" (.obj (sellFields s)) 0 .epoch = .panic := parseOrder_panic_iff.mpr hover
  rw [parseOrder_sell hs] at hpanic
  cases hpanic

/-- An account that no limit binds, with a symbol that is worth nothing. -/
def freeContext : GateContext := ⟨⟨0, ∅, 1, ∅⟩, some 0, 0, 0, none, .epoch⟩

theorem check_sellOrder {risk : RiskSection} (tool s : String) (hvalid : risk.validate = .ok ())
    (hkill : risk.killSwitch = false) (hdeny : normalSymbol s ∉ risk.denylist) :
    RiskGate.check .dec96 risk.toCore (sellOrder tool s t) freeContext =
      .reject (risk.allowlist ≠ ∅ ∧ normalSymbol s ∉ risk.allowlist) (.notAllowlisted (normalSymbol s)) := by
  obtain ⟨hnotional, -, hdaily, -, -, hslip, -⟩ := RiskSection.validate_ok hvalid
  have hsymbol : (sellOrder tool s t).asset.symbol = normalSymbol s := rfl
  have hslippage : ¬ (sellOrder tool s t).maxSlippage > risk.maxSlippage := not_lt.mpr hslip
  have hloss : ¬ freeContext.portfolio.realizedPnl ≤ -risk.maxDailyLoss := by
    show ¬ (1 : ℚ) ≤ -risk.maxDailyLoss
    linarith
  have hprice : (sellOrder tool s t).limitPrice.or freeContext.refPrice = some 0 := rfl
  have hvalue : (Arith.dec96.mul (sellOrder tool s t).qty 0 : Outcome RiskReject ℚ) = .ok 0 := by
    show (Arith.dec96.mul 1 0 : Outcome RiskReject ℚ) = .ok 0
    decide +kernel
  have hcap : ¬ (0 : ℚ) > risk.maxOrderNotional := not_lt.mpr hnotional.le
  have hside : (sellOrder tool s t).side = .sell := rfl
  unfold RiskGate.check
  by_cases hlist : risk.allowlist ≠ ∅ ∧ normalSymbol s ∉ risk.allowlist
  · simp [RiskSection.toCore, hsymbol, hkill, hdeny, hlist, Outcome.reject]
  · simp [RiskSection.toCore, hsymbol, hkill, hdeny, hlist, hslippage, hloss, hprice, hvalue, hcap, hside,
      Outcome.reject, Outcome.okOr]

end

section

variable {A : Arith} {c : AppConfig} {tool : String}

/-- Where the lists bind, an entry of the denylist is found by the orders it means:
a sale of it would be allowed else. -/
theorem ListsMeetOrders.denied_normal (h : ListsMeetOrders .dec96 c) (hrisk : c.risk.validate = .ok ())
    (hkill : c.risk.killSwitch = false) (hclass : c.hook.toAllowlist.classify tool = some .placeOrder) {d : String}
    (hd : d ∈ c.risk.denylist) (hne : trimStr d ≠ "") :
    normalSymbol d ∈ c.risk.denylist ∨ c.risk.allowlist ≠ ∅ ∧ normalSymbol d ∉ c.risk.allowlist := by
  by_contra hopen
  push Not at hopen
  obtain ⟨hdeny, hallow⟩ := hopen
  have hcheck := check_sellOrder (t := .epoch) tool d hrisk hkill hdeny
  rw [Outcome.reject, if_neg fun hlist => hlist.2 (hallow (Finset.nonempty_iff_ne_empty.mpr hlist.1))] at hcheck
  have heval : c.hookGate.evaluate .dec96 ⟨tool, .obj (sellFields d)⟩ freeContext .epoch = some .allow := by
    rw [evaluate_place_allow_iff hclass]
    exact ⟨_, parseOrder_sell hne, hcheck⟩
  obtain ⟨reason, hdenied⟩ := h.denied ⟨tool, .obj (sellFields d)⟩ freeContext .epoch d d hclass rfl hd rfl
    (sellFields_fit hne)
  rw [heval] at hdenied
  cases hdenied

theorem ListsMeetOrders.listed_normal (h : ListsMeetOrders .dec96 c) (hrisk : c.risk.validate = .ok ())
    (hkill : c.risk.killSwitch = false) (hclass : c.hook.toAllowlist.classify tool = some .placeOrder) {a : String}
    (ha : a ∈ c.risk.allowlist) (hne : trimStr a ≠ "") :
    normalSymbol a ∈ c.risk.allowlist ∨ normalSymbol a ∈ c.risk.denylist := by
  by_contra hopen
  push Not at hopen
  obtain ⟨hallow, hdeny⟩ := hopen
  have hcheck := check_sellOrder (t := .epoch) tool a hrisk hkill hdeny
  rw [Outcome.reject, if_pos ⟨Finset.ne_empty_of_mem ha, hallow⟩] at hcheck
  exact h.listed ⟨tool, .obj (sellFields a)⟩ freeContext .epoch a a _ _ hclass rfl ha rfl (parseOrder_sell hne) hcheck

theorem ListsNormal.not_permitted {risk : RiskSection} {d : String} {order : Order} {ctx : GateContext}
    (h : ListsNormal risk) (hd : d ∈ risk.denylist) (hne : trimStr d ≠ "")
    (hsymbol : order.asset.symbol = normalSymbol d) : ¬ Permitted risk.toCore order ctx := by
  intro hperm
  rcases h.denied d hd hne with hdeny | ⟨hlist, hallow⟩
  · exact hperm.notDenied (hsymbol ▸ hdeny)
  · exact hallow (hsymbol ▸ hperm.allowed hlist)

/-- Lists that no order meets, or that are normal, bind the orders. -/
theorem listsMeetOrders_of_normal (h : c.risk.killSwitch = true ∨
    (∀ tool ∈ c.hook.placeTools, tool ∈ c.hook.cancelTools) ∨ ListsNormal c.risk) : ListsMeetOrders A c := by
  have hnone : ∀ {tool}, c.hook.toAllowlist.classify tool = some .placeOrder →
      ¬ ∀ tool ∈ c.hook.placeTools, tool ∈ c.hook.cancelTools := by
    intro tool hclass hall
    obtain ⟨hplace, hcancel⟩ := HookSection.classify_eq_placeOrder.mp hclass
    exact hcancel (hall _ hplace)
  refine ⟨fun call ctx t s d hclass hs hd hsame hfit => ?_,
    fun call ctx t s a symbol order hclass hs ha hsame hparse hcheck => ?_⟩
  · refine evaluate_deny (g := c.hookGate) hclass hfit fun order hparse hperm => ?_
    obtain ⟨hne, hsymbol⟩ := symbol_of_sameSymbol hparse hs hsame
    rcases h with hkill | hall | hlists
    · exact absurd hperm.running (by simp [AppConfig.hookGate, HookGate.new, RiskSection.toCore, hkill])
    · exact hnone hclass hall
    · exact hlists.not_permitted hd hne hsymbol hperm
  · obtain ⟨hkill, hdeny, -, hallow⟩ := RiskGate.check_notAllowlisted hcheck
    obtain ⟨hne, hsymbol⟩ := symbol_of_sameSymbol hparse hs hsame
    rw [hsymbol] at hdeny hallow
    rcases h with hkill' | hall | hlists
    · have hengaged : c.risk.toCore.killSwitch = true := hkill'
      rw [hengaged] at hkill
      cases hkill
    · exact hnone hclass hall
    · rcases hlists.listed a ha hne with hallow' | hdeny'
      · exact hallow hallow'
      · exact hdeny hdeny'

end

/-- **Spelling.** The lists of a valid config bind the orders of the agent however
their symbols are spelled exactly if the kill switch is engaged, no tool is an
order tool, or the lists are normal. -/
theorem listsMeetOrders_iff (c : AppConfig) (readAddr : String → Option SocketAddr) (dashboardBuilt : Bool)
    (hvalid : c.validate readAddr dashboardBuilt = .ok ()) :
    ListsMeetOrders .dec96 c ↔ c.risk.killSwitch = true ∨
      (∀ tool ∈ c.hook.placeTools, tool ∈ c.hook.cancelTools) ∨ ListsNormal c.risk := by
  refine ⟨fun h => ?_, listsMeetOrders_of_normal⟩
  obtain ⟨-, -, -, hrisk, -⟩ := AppConfig.validate_ok hvalid
  by_contra hnot
  push Not at hnot
  obtain ⟨hkill, ⟨tool, hplace, hcancel⟩, hlists⟩ := hnot
  have hkill : c.risk.killSwitch = false := by simpa using hkill
  have hclass : c.hook.toAllowlist.classify tool = some .placeOrder :=
    HookSection.classify_eq_placeOrder.mpr ⟨hplace, hcancel⟩
  exact hlists ⟨fun d hd hne => h.denied_normal hrisk hkill hclass hd hne,
    fun a ha hne => h.listed_normal hrisk hkill hclass ha hne⟩

/-- A config that denies a symbol, in the given spelling. -/
def denying (symbol : String) : AppConfig :=
  { risk := { denylist := {symbol} }, hook := { placeTools := ["place_order"] } }

theorem listsMeetOrders_upperCase :
    AppConfig.validate loopbackAddr true (denying "ROAR") = .ok () ∧ ListsMeetOrders .dec96 (denying "ROAR") := by
  have hvalid : AppConfig.validate loopbackAddr true (denying "ROAR") = .ok () := by decide +kernel
  exact ⟨hvalid, (listsMeetOrders_iff (denying "ROAR") loopbackAddr true hvalid).mpr
    (.inr (.inr ⟨by decide +kernel, by decide +kernel⟩))⟩

/-- A symbol denied in lower case is bought. -/
theorem lowerCase_not_denied : ¬ ∀ (c : AppConfig) (readAddr : String → Option SocketAddr) (dashboardBuilt : Bool),
    c.validate readAddr dashboardBuilt = .ok () → ListsMeetOrders .dec96 c := by
  intro h
  have hlists : ListsMeetOrders .dec96 (denying "roar") := h (denying "roar") loopbackAddr true (by decide +kernel)
  have hsymbol : symbolArg (buyCall (.str "1") (.str "10")).arguments = some " roar " := rfl
  have hsame : SameSymbol " roar " "roar" := by
    unfold SameSymbol
    decide +kernel
  have hallow : (denying "roar").hookGate.evaluate .dec96 (buyCall (.str "1") (.str "10")) (contextOf (.new 1000) 10)
      .epoch = some .allow := by
    decide +kernel
  obtain ⟨reason, hdeny⟩ := hlists.denied (buyCall (.str "1") (.str "10")) (contextOf (.new 1000) 10) .epoch
    " roar " "roar" (by decide) hsymbol (by decide) hsame (fits_of_answer (by decide) hallow)
  rw [hallow] at hdeny
  cases hdeny

end Sherwood
