/-
# Who may change what

The control state changes by three pieces under its lock, each of an admin's
request (`ApiMoved.control`). One alone of them can release the kill switch, and
one alone can arm live trading (`control_safety`).

Without the admin's token nothing of it changes, nor the config file. What such
requests do to the session budget is to book orders in it: its counters grow,
as long as the count of orders does not come to the end of its `u32`
(`non_admin_noninterference`). There it starts at zero again
(`full_count_wraps`).

Key definitions: `ControlChange`, `NonInterference`, `ApiRecord.Books`.
Key theorems: `ApiMoved.control`, `control_safety`, `quietStep`, `non_admin_noninterference`,
`full_count_wraps`.
-/
import Sherwood.Server.ApiSteps
import Sherwood.Server.Safety

namespace Sherwood

variable {γ : Type} {A : Arith} {D : Digest} {cfg : ApiConfig γ} {s s' : ApiState} {a : ApiAction} {o : ApiRecord}
  {os : List ApiRecord} {n : ℕ} {bearer : Option String} {req : ApiRequest} {stage : Stage}

/-! ### The control state -/

/-- How a piece of a request changes the control state. -/
inductive ControlChange (c : Control) : RequestPhase → Control → Prop
  | mode {bearer : Option String} {mode : Mode} {reauth : String} :
      ControlChange c (.running bearer (.mode mode reauth) .ready) { c with mode }
  | kill {bearer : Option String} {engage : Bool} {reauth : String} :
      ControlChange c (.running bearer (.kill engage reauth) .ready)
        { c with risk := { c.risk with killSwitch := engage } }
  | swap {bearer : Option String} {req : ApiRequest} {fresh : Reloaded} : req.isConfig = true →
      ControlChange c (.running bearer req (.swapping fresh)) (c.applyReload fresh)

/-- The control state changes by pieces under its lock alone. -/
theorem ApiMoved.control (h : ApiMoved A D cfg s a s') : s'.server.control = s.server.control ∨
    ∃ n, a = .piece n .lock ∧ ControlChange s.server.control (s.requests n) s'.server.control := by
  cases h with
  | refused hidle => exact .inl rfl
  | @entered n bearer req dashboardBuilt stage hidle hp he =>
    obtain ⟨calls, hcalls⟩ := receive_eq s n req
    rw [hcalls]
    exact .inl rfl
  | hooked hrunning hserver => exact .inl (HookPiece.kept hserver).1
  | @ran n piece bearer req stage s₁ next hrunning hran =>
    cases hran with
    | modeSet hreq =>
      subst hreq
      exact .inr ⟨n, rfl, hrunning ▸ .mode⟩
    | killSet hreq =>
      subst hreq
      exact .inr ⟨n, rfl, hrunning ▸ .kill⟩
    | swapped hconfig => exact .inr ⟨n, rfl, hrunning ▸ .swap hconfig⟩
    | _ => exact .inl rfl
  | dropped hrunning => exact .inl rfl
  | swept => exact .inl rfl

theorem killSwitch_applyReload {c : Control} {fresh : Reloaded} (h : c.killSwitch = true) :
    (c.applyReload fresh).killSwitch = true := by
  simp only [Control.applyReload, h, if_true]
  rfl

/-- The step is the piece of a `post_kill` that releases the kill switch, of a
request that came with the admin token in both places. -/
def ApiRecord.Releases (cfg : ApiConfig γ) (past : List ApiRecord) (o : ApiRecord) : Prop :=
  ∃ n bearer reauth, o.action = .piece n .lock ∧
    o.before.requests n = .running (some bearer) (.kill false reauth) .ready ∧
    (∃ q ∈ past, ∃ dashboardBuilt, q.action = .arrive n (some bearer) (.kill false reauth) dashboardBuilt) ∧
    cfg.tokens.isAdmin bearer ∧ cfg.tokens.isAdmin reauth

/-- The step is the piece of a `post_mode` that arms live trading, of a request
that came with the admin token in both places and has passed its pre-flight. -/
def ApiRecord.Arms (cfg : ApiConfig γ) (past : List ApiRecord) (o : ApiRecord) : Prop :=
  ∃ n bearer reauth, o.action = .piece n .lock ∧
    o.before.requests n = .running (some bearer) (.mode .live reauth) .ready ∧
    (∃ q ∈ past, ∃ dashboardBuilt, q.action = .arrive n (some bearer) (.mode .live reauth) dashboardBuilt) ∧
    cfg.tokens.isAdmin bearer ∧ cfg.tokens.isAdmin reauth ∧ cfg.allowLive = true ∧ cfg.livePreflight = true ∧
    ∃ q ∈ past, q.before.requests n = .running (some bearer) (.mode .live reauth) .checking ∧
      q.action = .piece n (.preflight (.ok ()))

/-- **Who releases, and who arms.** In every run, whatever runs beside it, a step
that releases the kill switch is of an admin's `post_kill`, and one that goes
live of an admin's `post_mode` with its pre-flight passed. -/
theorem control_safety {s₀ : ApiState} {past rest : List ApiRecord} (hfresh : s₀.Fresh)
    (hrun : (Api.system A D cfg).Run s₀ os s) (hos : os = past ++ o :: rest) :
    (o.before.server.control.killSwitch = true → o.after.server.control.killSwitch = false → o.Releases cfg past) ∧
      (o.before.server.control.mode = .paper → o.after.server.control.mode = .live → o.Arms cfg past) := by
  obtain ⟨s₁, a, s₂, hpast, hstep⟩ := hrun.split hos
  have hadmitted := admitted_run hfresh hpast
  obtain ⟨rfl, hmoved⟩ := api_moved hstep
  rcases hmoved.control with hsame | ⟨n, rfl, hchange⟩
  · -- nothing changed
    refine ⟨fun hon hoff => ?_, fun hpaper hlive => ?_⟩
    · rw [hsame, hon] at hoff
      cases hoff
    · rw [hsame, hpaper] at hlive
      cases hlive
  · generalize hphase : s₁.requests n = phase at hchange
    generalize s₂.server.control = after at hchange
    cases hchange with
    | @mode bearer mode reauth =>
      have hadm := hadmitted _ _ _ _ hphase
      have hbearer := ApiRequest.bearer_of_permitted hadm.permitted rfl
      subst hbearer
      refine ⟨fun hon hoff => ?_, fun _ hlive => ?_⟩
      · exact absurd (hoff.symm.trans hon) (by simp)
      · obtain rfl : mode = .live := hlive
        obtain ⟨hallow, hpre⟩ := hadm.armable reauth rfl
        exact ⟨n, _, reauth, rfl, hphase, hadm.arrived, rfl, ApiRequest.reauth_of_permitted hadm.permitted rfl,
          hallow, hpre, hadm.checked reauth rfl (by simp)⟩
    | @kill bearer engage reauth =>
      have hadm := hadmitted _ _ _ _ hphase
      have hbearer := ApiRequest.bearer_of_permitted hadm.permitted rfl
      subst hbearer
      refine ⟨fun _ hoff => ?_, fun hpaper hlive => ?_⟩
      · obtain rfl : engage = false := hoff
        exact ⟨n, _, reauth, rfl, hphase, hadm.arrived, rfl, ApiRequest.reauth_of_permitted hadm.permitted rfl⟩
      · exact absurd (hlive.symm.trans hpaper) (by simp)
    | swap hconfig =>
      refine ⟨fun hon hoff => ?_, fun hpaper hlive => ?_⟩
      · exact absurd (hoff.symm.trans (killSwitch_applyReload hon)) (by simp)
      · exact absurd (hlive.symm.trans hpaper) (by simp)

/-- The format on two texts: an empty config, of which all is default, and one
that sets the approval mode. -/
def twoTexts : ConfigFormat ApprovalMode where
  parse text :=
    if text = "" then .ok .auto
    else if text = "[server]\napproval_mode = \"manual\"\n" then .ok .manual
    else .error "TOML parse error"
  validate _ _ := .ok ()
  toReloaded mode := ⟨.default, ⟨∅⟩, mode⟩

/-- A server on which live trading may be armed, with a token for each role. -/
def armableServer : ApiConfig ApprovalMode where
  tokens := ⟨"admin-token", some "operator-token", some "viewer-token"⟩
  allowLive := true
  format := twoTexts
  path := "config.toml"
  reloader := true
  configStore := true
  livePreflight := true
  dexSimulator := true
  reconciler := true
  router := ⟨none, false⟩

/-- A server before its first request, its config file empty. -/
def idleApi (control : Control) (budget : SessionBudget) : ApiState :=
  ⟨.start control (60 * 10 ^ 9) budget, "", none, some .empty, fun _ => .idle⟩

theorem fresh_idleApi (control : Control) (budget : SessionBudget) : (idleApi control budget).Fresh :=
  ⟨fun _ => rfl, fun _ => rfl⟩

/-- The switch is engaged while a reload has read the file, is not released by
the reload, and is released by the admin, who then goes live. -/
def releasedAndArmed : List ApiAction :=
  [.arrive 0 (some "admin-token") (.reload "admin-token") true, .piece 0 (.read none true),
    .arrive 1 (some "admin-token") (.kill true "admin-token") true, .piece 1 .lock, .piece 0 .lock,
    .arrive 2 (some "admin-token") (.kill false "admin-token") true,
    .arrive 3 (some "admin-token") (.mode .live "admin-token") true, .piece 3 (.preflight (.ok ())),
    .piece 2 .lock, .piece 3 .lock]

/-- What a step does to the switch and the mode. -/
def ApiRecord.controlMove (o : ApiRecord) : (Bool × Mode) × (Bool × Mode) :=
  ((o.before.server.control.killSwitch, o.before.server.control.mode),
    (o.after.server.control.killSwitch, o.after.server.control.mode))

theorem control_safety_releasedAndArmed : ∃ os s past o o',
    (Api.system .dec96 Sha256.digest armableServer).Run (idleApi ⟨.paper, .default, ⟨∅⟩, .auto⟩ (.new ⟨0, 0, 0⟩ 0)) os s ∧
      os = past ++ [o, o'] ∧ o.Releases armableServer past ∧ o'.Arms armableServer (past ++ [o]) := by
  have hexec : ((Api.system .dec96 Sha256.digest armableServer).exec
      (idleApi ⟨.paper, .default, ⟨∅⟩, .auto⟩ (.new ⟨0, 0, 0⟩ 0)) releasedAndArmed).map (fun r =>
        (r.2.map ApiRecord.controlMove).drop 8) =
      some [((true, .paper), (false, .paper)), ((false, .paper), (false, .live))] := by
    decide +kernel
  obtain ⟨⟨s, os⟩, hrun, hmoves⟩ := Option.map_eq_some_iff.mp hexec
  rw [← List.map_drop] at hmoves
  obtain ⟨o, rest, hdrop, ho, hrest⟩ := List.map_eq_cons_iff.mp hmoves
  obtain ⟨o', rest', rfl, ho', hnil⟩ := List.map_eq_cons_iff.mp hrest
  obtain rfl := List.map_eq_nil_iff.mp hnil
  obtain ⟨⟨hon, -⟩, hoff, -⟩ := Prod.mk.inj ho |>.imp Prod.mk.inj Prod.mk.inj
  obtain ⟨⟨-, hpaper⟩, -, hlive⟩ := Prod.mk.inj ho' |>.imp Prod.mk.inj Prod.mk.inj
  have hos : os = os.take 8 ++ o :: [o'] := by rw [← hdrop, List.take_append_drop]
  have hos' : os = (os.take 8 ++ [o]) ++ o' :: [] := by rw [List.append_assoc]; exact hos
  exact ⟨os, s, os.take 8, o, o', .of_exec hrun, hos,
    (control_safety (fresh_idleApi _ _) (.of_exec hrun) hos).1 hon hoff,
    (control_safety (fresh_idleApi _ _) (.of_exec hrun) hos').2 hpaper hlive⟩

/-! ### Without the admin's token -/

/-- The step is the piece of a `pretooluse` call that books an order in the
budget. -/
def ApiRecord.Books (A : Arith) (o : ApiRecord) : Prop :=
  ∃ n now later req order notional, o.action = .hook n (.record now later) ∧
    o.before.server.calls n = .cleared req order ∧ req.notional A order = some notional ∧
    o.before.server.budget.Admits A notional now

/-- What requests leave alone in a run from `s₀` to `s`: the control state and the
config file; what is used of the budget, and its latch, but for growing; and
what there is besides, if their token grants no more than `Viewer`. -/
structure NonInterference (t : TokenSet) (s₀ : ApiState) (os : List ApiRecord) (s : ApiState) : Prop where
  control : s.server.control = s₀.server.control
  file : s.file = s₀.file
  orders : ∀ o ∈ os, o.before.server.budget.ordersUsed ≤ o.after.server.budget.ordersUsed
  notional : ∀ o ∈ os, o.before.server.budget.notionalUsed ≤ o.after.server.budget.notionalUsed
  breached : ∀ o ∈ os, o.before.server.budget.breached = true → o.after.server.budget.breached = true
  viewer : ∀ o ∈ os, o.ofViewer t → o.after.server.approvals = o.before.server.approvals ∧
    o.after.server.budget = o.before.server.budget ∧ o.after.store = o.before.store

/-- The budget's count goes on. -/
theorem count_le_iff (count : UInt32) : count ≤ count + 1 ↔ count ≠ 4294967295 := by
  rw [UInt32.le_iff_toNat_le, UInt32.toNat_add, ne_eq, ← UInt32.toNat_inj]
  have := count.toNat_lt
  simp only [UInt32.toNat_one, UInt32.reduceToNat]
  omega

theorem phase_bearer (next : Next) (bearer : Option String) (req : ApiRequest) :
    (next.phase bearer req).bearer = bearer := by
  cases next <;> rfl

/-- Only a piece of a `pretooluse` call books an order. -/
theorem not_books (h : ∀ n piece, o.action ≠ .hook n piece) : ¬ o.Books A := by
  intro hbooks
  obtain ⟨n, now, later, -, -, -, haction, -⟩ := hbooks
  exact h n _ haction

theorem not_viewer_of_permitted {t : TokenSet} (h : req.permitted t bearer = .ok ()) {role : Role}
    (hneeds : req.needs = some role) (hrole : role ≠ .viewer) : bearer.bind t.roleFor ≠ some .viewer := by
  obtain ⟨granted, hauth⟩ := ApiRequest.authorize_of_permitted h hneeds
  obtain ⟨hgranted, hrank⟩ := TokenSet.authorize_ok hauth
  intro hviewer
  obtain rfl := Option.some.inj (hgranted.symm.trans hviewer)
  cases role <;> simp [Role.rank] at hrank hrole

/-- What a step does that is not of an admin's request. -/
structure QuietStep (t : TokenSet) (o : ApiRecord) : Prop where
  control : o.after.server.control = o.before.server.control
  file : o.after.file = o.before.file
  orders : o.before.server.budget.ordersUsed ≤ o.after.server.budget.ordersUsed ↔
    (o.Books .dec96 → o.before.server.budget.ordersUsed ≠ 4294967295)
  notional : IsDecimal o.before.server.budget.notionalUsed → IsDecimal o.after.server.budget.notionalUsed ∧
    o.before.server.budget.notionalUsed ≤ o.after.server.budget.notionalUsed
  breached : o.before.server.budget.breached = true → o.after.server.budget.breached = true
  viewer : o.ofViewer t → o.after.server.approvals = o.before.server.approvals ∧
    o.after.server.budget = o.before.server.budget ∧ o.after.store = o.before.store

theorem quietStep_of_budget {t : TokenSet} (hcontrol : o.after.server.control = o.before.server.control)
    (hfile : o.after.file = o.before.file) (hbudget : o.after.server.budget = o.before.server.budget)
    (hbooks : ¬ o.Books .dec96) (hviewer : o.ofViewer t →
      o.after.server.approvals = o.before.server.approvals ∧ o.after.store = o.before.store) : QuietStep t o where
  control := hcontrol
  file := hfile
  orders := by
    rw [hbudget]
    exact iff_of_true (UInt32.le_refl _) fun h => absurd h hbooks
  notional hdec := by
    rw [hbudget]
    exact ⟨hdec, le_rfl⟩
  breached hb := by rw [hbudget, hb]
  viewer hv := ⟨(hviewer hv).1, hbudget, (hviewer hv).2⟩

/-- What a booking does to the count of orders: it is one more, which at the end of
its `u32` is zero. -/
theorem orders_of_books {after : ApiState} {server' : ServerState} {e : ServerEvent} {piece : HookPiece}
    (hserver : s.server.move A cfg.toServerConfig (piece.action n) = some (server', e))
    (hbooks : (⟨s, .hook n piece, after⟩ : ApiRecord).Books A) :
    server'.budget.ordersUsed = s.server.budget.ordersUsed + 1 := by
  obtain ⟨n', now, later, req, order, notional, haction, hcleared, hn, hadmits⟩ := hbooks
  obtain ⟨rfl, rfl⟩ := ApiAction.hook.inj haction
  obtain ⟨budget, htry⟩ := SessionBudget.tryRecord_of_admits hadmits later
  have hcalls : s.server.calls n = .cleared req order := hcleared
  simp only [HookPiece.action, ServerState.move, ServerState.record, hcalls, hn, Option.bind_some, htry,
    Option.map_some] at hserver
  obtain ⟨rfl, -⟩ := Prod.mk.inj (Option.some.inj hserver)
  obtain ⟨-, -, -, -, -, hbudget⟩ := SessionBudget.tryRecord_ok htry
  show budget.ordersUsed = _
  rw [hbudget]

theorem orders_of_not_books {after : ApiState} {server' : ServerState} {e : ServerEvent} {piece : HookPiece}
    (hserver : s.server.move A cfg.toServerConfig (piece.action n) = some (server', e))
    (hbooks : ¬ (⟨s, .hook n piece, after⟩ : ApiRecord).Books A) :
    server'.budget.ordersUsed = s.server.budget.ordersUsed := by
  rcases (HookPiece.kept hserver).2.2 with hsame | ⟨now, later, req, order, notional, r, rfl, hcleared, hn, htry⟩
  · rw [hsame]
  · cases r with
    | error e => exact (SessionBudget.tryRecord_error htry).1
    | ok _ =>
      exact absurd ⟨n, now, later, req, order, notional, rfl, hcleared, hn, SessionBudget.admits_of_tryRecord htry⟩
        hbooks

theorem quietStep_hooked {server : ServerState} {e : ServerEvent} {piece : HookPiece} {body : Except String HookRequest}
    (hadm : Admitted cfg os n bearer (.pretooluse body) .hook)
    (hrunning : s.requests n = .running bearer (.pretooluse body) .hook)
    (hserver : s.server.move .dec96 cfg.toServerConfig (piece.action n) = some (server, e)) :
    QuietStep cfg.tokens ⟨s, .hook n piece, { s with server }⟩ := by
  obtain ⟨hcontrol, -, hbudget⟩ := HookPiece.kept hserver
  refine ⟨hcontrol, rfl, ?_, fun hdec => ?_, fun hb => ?_, fun hviewer => ?_⟩
  · by_cases hbooks : (⟨s, .hook n piece, { s with server }⟩ : ApiRecord).Books .dec96
    · have hcount : server.budget.ordersUsed = s.server.budget.ordersUsed + 1 := orders_of_books hserver hbooks
      show s.server.budget.ordersUsed ≤ server.budget.ordersUsed ↔ _
      rw [hcount, count_le_iff]
      exact ⟨fun h _ => h, fun h => h hbooks⟩
    · have hcount : server.budget.ordersUsed = s.server.budget.ordersUsed := orders_of_not_books hserver hbooks
      show s.server.budget.ordersUsed ≤ server.budget.ordersUsed ↔ _
      rw [hcount]
      exact iff_of_true (UInt32.le_refl _) fun h => absurd h hbooks
  · rcases hbudget with hsame | ⟨now, later, req, order, notional, r, -, -, -, htry⟩
    · show IsDecimal server.budget.notionalUsed ∧ _ ≤ server.budget.notionalUsed
      rw [hsame]
      exact ⟨hdec, le_rfl⟩
    · exact SessionBudget.tryRecord_notional htry hdec
  · show server.budget.breached = true
    rcases hbudget with hsame | ⟨now, later, req, order, notional, r, -, -, -, htry⟩
    · rw [hsame]
      exact hb
    · rw [SessionBudget.tryRecord_breached htry hb]
      exact hb
  · -- a call of a viewer was not let in
    have hbearer : ApiRecord.bearer ⟨s, .hook n piece, { s with server }⟩ = bearer := by
      simp [ApiRecord.bearer, ApiAction.request, hrunning, RequestPhase.bearer]
    rw [ApiRecord.ofViewer, hbearer] at hviewer
    exact absurd hviewer (not_viewer_of_permitted hadm.permitted rfl (by simp))

theorem quietStep (hi : AllAdmitted cfg os s) (h : (Api.system .dec96 D cfg).step s a = some (s', o))
    (hno : ∀ presented ∈ o.bearer, ¬ cfg.tokens.isAdmin presented) : QuietStep cfg.tokens o := by
  obtain ⟨rfl, hmoved⟩ := api_moved h
  cases hmoved with
  | refused hidle =>
    exact quietStep_of_budget rfl rfl rfl (not_books (by simp)) fun _ => ⟨rfl, rfl⟩
  | @entered n bearer req dashboardBuilt stage hidle hp he =>
    obtain ⟨calls, hcalls⟩ := receive_eq s n req
    rw [hcalls]
    exact quietStep_of_budget rfl rfl rfl (not_books (by simp)) fun _ => ⟨rfl, rfl⟩
  | hooked hrunning hserver => exact quietStep_hooked (hi _ _ _ _ hrunning) hrunning hserver
  | @ran n piece bearer req stage s₁ next hrunning hran =>
    have hp := (hi _ _ _ _ hrunning).permitted
    have hbearer : ApiRecord.bearer ⟨s, .piece n piece, s₁.setRequest n (next.phase bearer req)⟩ = bearer := by
      simp [ApiRecord.bearer, ApiAction.request, phase_bearer]
    rw [hbearer] at hno
    have hbooks : ¬ ApiRecord.Books .dec96 ⟨s, .piece n piece, s₁.setRequest n (next.phase bearer req)⟩ :=
      not_books (by simp)
    have hadmin : req.needs ≠ some .admin := by
      intro hneeds
      exact hno _ (ApiRequest.bearer_of_permitted hp hneeds) rfl
    have hviewer : req.needs = some .operator →
        ¬ ApiRecord.ofViewer ⟨s, .piece n piece, s₁.setRequest n (next.phase bearer req)⟩ cfg.tokens := by
      intro hneeds hv
      rw [ApiRecord.ofViewer, hbearer] at hv
      exact not_viewer_of_permitted hp hneeds (by simp) hv
    cases hran with
    | modeSet hreq => exact absurd (by rw [hreq]; rfl) hadmin
    | killSet hreq => exact absurd (by rw [hreq]; rfl) hadmin
    | swapped hconfig => exact absurd (ApiRequest.needs_of_isConfig hconfig) hadmin
    | budgetReset hreq => exact absurd (by rw [hreq]; rfl) hadmin
    | tmpWritten hreq _ => exact absurd (by rw [hreq]; rfl) hadmin
    | renamed hreq _ => exact absurd (by rw [hreq]; rfl) hadmin
    | decided hreq _ _ =>
      exact quietStep_of_budget rfl rfl rfl hbooks fun hv => absurd hv (hviewer (by rw [hreq]; rfl))
    | called hreq _ =>
      exact quietStep_of_budget rfl rfl rfl hbooks fun hv => absurd hv (hviewer (by rw [hreq]; rfl))
    | _ => exact quietStep_of_budget rfl rfl rfl hbooks fun _ => ⟨rfl, rfl⟩
  | dropped hrunning =>
    exact quietStep_of_budget rfl rfl rfl (not_books (by simp)) fun _ => ⟨rfl, rfl⟩
  | swept =>
    refine quietStep_of_budget rfl rfl rfl (not_books (by simp)) fun hv => ?_
    simp [ApiRecord.ofViewer, ApiRecord.bearer, ApiAction.request] at hv

/-- **Without the admin's token.** In every run of requests none of which has it,
nothing of the admin's changes, and a viewer's request changes nothing; the
budget's counters do not decrease exactly when no order is booked at the end of
their count. -/
theorem non_admin_noninterference {s₀ : ApiState} (hfresh : s₀.Fresh) (hdec : IsDecimal s₀.server.budget.notionalUsed)
    (hrun : (Api.system .dec96 D cfg).Run s₀ os s)
    (hno : ∀ o ∈ os, ∀ presented ∈ o.bearer, ¬ cfg.tokens.isAdmin presented) :
    NonInterference cfg.tokens s₀ os s ↔
      ∀ o ∈ os, o.Books .dec96 → o.before.server.budget.ordersUsed ≠ 4294967295 := by
  have hquiet : (∀ o ∈ os, ∀ presented ∈ o.bearer, ¬ cfg.tokens.isAdmin presented) →
      s.server.control = s₀.server.control ∧ s.file = s₀.file ∧ IsDecimal s.server.budget.notionalUsed ∧
        ∀ o ∈ os, QuietStep cfg.tokens o ∧ IsDecimal o.before.server.budget.notionalUsed := by
    refine Lts.Run.inv (P := fun os s => (∀ o ∈ os, ∀ presented ∈ o.bearer, ¬ cfg.tokens.isAdmin presented) →
      s.server.control = s₀.server.control ∧ s.file = s₀.file ∧ IsDecimal s.server.budget.notionalUsed ∧
        ∀ o ∈ os, QuietStep cfg.tokens o ∧ IsDecimal o.before.server.budget.notionalUsed) ?_ ?_ hrun
    · exact fun _ => ⟨rfl, rfl, hdec, by simp⟩
    · intro os s a s' o hr ih hstep hno
      obtain ⟨hcontrol, hfile, hd, hos⟩ := ih fun o' ho' => hno o' (List.mem_append_left _ ho')
      have hq := quietStep (admitted_run hfresh hr) hstep (hno o (by simp))
      obtain ⟨rfl, -⟩ := api_moved hstep
      refine ⟨hq.control.trans hcontrol, hq.file.trans hfile, (hq.notional hd).1, fun o' ho' => ?_⟩
      rcases List.mem_append.mp ho' with ho' | ho'
      · exact hos o' ho'
      · obtain rfl := List.mem_singleton.mp ho'
        exact ⟨hq, hd⟩
  obtain ⟨hcontrol, hfile, -, hos⟩ := hquiet hno
  constructor
  · intro hni o ho
    exact (hos o ho).1.orders.mp (hni.orders o ho)
  · intro hbooks
    exact ⟨hcontrol, hfile, fun o ho => (hos o ho).1.orders.mpr (hbooks o ho),
      fun o ho => ((hos o ho).1.notional (hos o ho).2).2, fun o ho => (hos o ho).1.breached,
      fun o ho => (hos o ho).1.viewer⟩

/-- A server whose orders are not held, with a viewer and an operator about. -/
def autoApi (budget : SessionBudget) : ApiState := idleApi ⟨.paper, .default, someTools, .auto⟩ budget

/-- An operator's order is booked, and a viewer asks to go live. -/
def orderAndViewer : List ApiAction :=
  [.arrive 0 (some "operator-token") (.pretooluse (.ok (buyRequest 2))) true,
    .arrive 1 (some "viewer-token") (.mode .live "viewer-token") true, .hook 0 (.gate .epoch .epoch .epoch),
    .hook 0 (.record 0 0), .hook 0 .reply]

theorem non_admin_noninterference_orderAndViewer : ∃ os s,
    (Api.system .dec96 Sha256.digest armableServer).Run (autoApi (.new ⟨0, 0, 0⟩ 0)) os s ∧
      NonInterference armableServer.tokens (autoApi (.new ⟨0, 0, 0⟩ 0)) os s ∧ s.server.budget.ordersUsed = 1 ∧
      ∃ o ∈ os, o.bearer = some "viewer-token" := by
  have hexec : ((Api.system .dec96 Sha256.digest armableServer).exec (autoApi (.new ⟨0, 0, 0⟩ 0)) orderAndViewer).map
      (fun r => decide ((∀ o ∈ r.2, ∀ presented ∈ o.bearer, ¬ armableServer.tokens.isAdmin presented) ∧
        (∀ o ∈ r.2, o.before.server.budget.ordersUsed ≠ 4294967295) ∧ r.1.server.budget.ordersUsed = 1 ∧
        ∃ o ∈ r.2, o.bearer = some "viewer-token")) = some true := by
    decide +kernel
  obtain ⟨⟨s, os⟩, hrun, hall⟩ := Option.map_eq_some_iff.mp hexec
  obtain ⟨hno, hcount, hone, hviewer⟩ := of_decide_eq_true hall
  have hdec : IsDecimal (autoApi (.new ⟨0, 0, 0⟩ 0)).server.budget.notionalUsed := isDecimal_zero
  have hquiet := (non_admin_noninterference (fresh_idleApi _ _) hdec (.of_exec hrun) hno).mpr fun o ho _ => hcount o ho
  exact ⟨os, s, .of_exec hrun, hquiet, hone, hviewer⟩

/-- A budget without limits that has counted as many orders as it can. -/
def fullCount : SessionBudget := ⟨⟨0, 0, 0⟩, 4294967295, 0, 0, false⟩

/-- The order after the last that can be counted sets the count to zero. -/
theorem full_count_wraps : ¬ ∀ (s₀ s : ApiState) (os : List ApiRecord), s₀.Fresh →
    IsDecimal s₀.server.budget.notionalUsed → (Api.system .dec96 Sha256.digest armableServer).Run s₀ os s →
    (∀ o ∈ os, ∀ presented ∈ o.bearer, ¬ armableServer.tokens.isAdmin presented) →
    NonInterference armableServer.tokens s₀ os s := by
  intro hclaim
  have hexec : ((Api.system .dec96 Sha256.digest armableServer).exec (autoApi fullCount) orderAndViewer).map
      (fun r => decide ((∀ o ∈ r.2, ∀ presented ∈ o.bearer, ¬ armableServer.tokens.isAdmin presented) ∧
        ∃ o ∈ r.2, ¬ o.before.server.budget.ordersUsed ≤ o.after.server.budget.ordersUsed)) = some true := by
    decide +kernel
  obtain ⟨⟨s, os⟩, hrun, hall⟩ := Option.map_eq_some_iff.mp hexec
  obtain ⟨hno, o, ho, hless⟩ := of_decide_eq_true hall
  have hdec : IsDecimal (autoApi fullCount).server.budget.notionalUsed := isDecimal_zero
  exact hless ((hclaim _ _ _ (fresh_idleApi _ _) hdec (.of_exec hrun) hno).orders o ho)

end Sherwood
