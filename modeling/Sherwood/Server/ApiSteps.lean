/-
# What the API's steps do

One lemma for each kind of step says everything such a step can do: a piece of a
handler (`Ran`), a step of the API (`ApiMoved`), a piece of a `pretooluse` call
(`HookPiece.kept`). From these, what holds of every request that is handled in
a run: it was let in, with a token of the role its route asks for, and if it is
privileged with the admin token twice (`admitted_run`).

Key definitions: `Ran`, `ApiMoved`, `Admitted`.
Key theorems: `Piece.run_ran`, `api_moved`, `HookPiece.kept`, `admitted_run`.
-/
import Sherwood.Server.Api

namespace Sherwood

/-! ### What a step does -/

/-- The file is written or read for the running config. -/
def ApiRequest.isConfig : ApiRequest → Bool
  | .reload _ | .writeConfig .. => true
  | _ => false

/-- **The pieces.** What a piece of the handler of `req` at a stage leaves. The
first seven change what is shared. -/
inductive Ran {γ : Type} (D : Digest) (cfg : ApiConfig γ) (s : ApiState) (req : ApiRequest) :
    Stage → Piece → ApiState → Next → Prop
  | modeSet {mode : Mode} {reauth : String} {reply : ApiReply} : req = .mode mode reauth →
      Ran D cfg s req .ready .lock (s.setControl { s.server.control with mode }) (.reply reply)
  | killSet {engage : Bool} {reauth : String} {reply : ApiReply} : req = .kill engage reauth →
      Ran D cfg s req .ready .lock
        (s.setControl { s.server.control with risk := { s.server.control.risk with killSwitch := engage } })
        (.reply reply)
  | swapped {fresh : Reloaded} {reply : ApiReply} : req.isConfig = true →
      Ran D cfg s req (.swapping fresh) .lock (s.setControl (s.server.control.applyReload fresh)) (.reply reply)
  | budgetReset {reauth : String} {now : Instant} {reply : ApiReply} : req = .reset reauth →
      Ran D cfg s req .ready (.reset now)
        { s with server := { s.server with budget := s.server.budget.reset now } } (.reply reply)
  | decided {id decision : String} {reason : Option String} {target : ApprovalState} {now : DateTime}
      {next : Next} : req = .approval id decision reason → decisionTarget decision = .ok target →
      next = .stage .listing ∨ (∃ answer, next = .answer answer) →
      Ran D cfg s req .ready (.decide now) (s.setApprovals (s.server.approvals.decide id target reason now).2) next
  | tmpWritten {toml reauth : String} {failure : Option (String × Option String)} {tmp : Option String}
      {next : Next} : req = .writeConfig toml reauth → next = .stage .renaming ∨ (∃ e, next = .fail e) →
      Ran D cfg s req .ready (.write failure) { s with tmp } next
  | renamed {toml reauth text : String} : req = .writeConfig toml reauth → s.tmp = some text →
      Ran D cfg s req .renaming (.rename none) { s with file := text, tmp := none } (.stage .reading)
  | called {receipt : TxReceipt} {fill : Fill} {phase : RecordPhase} {now : DateTime} {failure : Option String}
      {store : Store} {next : Next} {expected : ExpectedTrade} : req = .reconcile expected →
      (∃ phase', next = .stage (.recording receipt fill phase')) ∨ (∃ answer, next = .answer answer) →
      Ran D cfg s req (.recording receipt fill phase) (.call now failure) { s with store := some store } next
  | checked {mode : Mode} {reauth : String} {result : Except String Unit} : req = .mode mode reauth →
      ServerState.liveRefusal cfg.toServerConfig mode (some result) = none →
      Ran D cfg s req .checking (.preflight result) s (.stage .ready)
  | fileRead {fresh : Reloaded} {dashboardBuilt : Bool} : cfg.format.load cfg.path s.file dashboardBuilt = .ok fresh →
      Ran D cfg s req .reading (.read none dashboardBuilt) s (.stage (.swapping fresh))
  | heard {receipt : TxReceipt} {fill : Fill} {polls : List Poll} {expected : ExpectedTrade} :
      req = .reconcile expected →
      Ran D cfg s req .ready (.reconcile polls) s (.stage (.recording receipt fill .starting))
  | failed {stage : Stage} {piece : Piece} {e : ApiFailure} : Ran D cfg s req stage piece s (.answer (.error e))
  | answered {stage : Stage} {piece : Piece} {answer : Except ApiFailure ApiReply} : req.isConfig = false →
      Ran D cfg s req stage piece s (.answer answer)

namespace Piece

variable {γ : Type} {D : Digest} {cfg : ApiConfig γ} {s s' : ApiState} {req : ApiRequest} {stage : Stage}
  {next : Next}

theorem lock_ran (h : s.lock req stage = some (s', next)) : Ran D cfg s req stage .lock s' next := by
  unfold ApiState.lock at h
  split at h
  · obtain ⟨rfl, rfl⟩ := Prod.mk.inj (Option.some.inj h)
    exact .modeSet rfl
  · obtain ⟨rfl, rfl⟩ := Prod.mk.inj (Option.some.inj h)
    exact .killSet rfl
  · obtain ⟨rfl, rfl⟩ := Prod.mk.inj (Option.some.inj h)
    exact .swapped rfl
  · obtain ⟨rfl, rfl⟩ := Prod.mk.inj (Option.some.inj h)
    exact .swapped rfl
  · cases h

theorem preflight_ran {result : Except String Unit} (h : s.preflight cfg result req stage = some (s', next)) :
    Ran D cfg s req stage (.preflight result) s' next := by
  unfold ApiState.preflight at h
  split at h
  · next mode reauth =>
    split at h <;> obtain ⟨rfl, rfl⟩ := Prod.mk.inj (Option.some.inj h)
    · exact .failed
    · next hnone => exact .checked rfl hnone
  · cases h

theorem reset_ran {now : Instant} (h : s.reset now req stage = some (s', next)) :
    Ran D cfg s req stage (.reset now) s' next := by
  unfold ApiState.reset at h
  split at h
  · obtain ⟨rfl, rfl⟩ := Prod.mk.inj (Option.some.inj h)
    exact .budgetReset rfl
  · cases h

theorem decide_ran {now : DateTime} (h : s.decide now req stage = some (s', next)) :
    Ran D cfg s req stage (.decide now) s' next := by
  unfold ApiState.decide at h
  split at h
  · split at h
    · obtain ⟨rfl, rfl⟩ := Prod.mk.inj (Option.some.inj h)
      exact .failed
    · next target htarget =>
      obtain ⟨rfl, rfl⟩ := Prod.mk.inj (Option.some.inj h)
      refine .decided rfl htarget ?_
      split
      · exact .inr ⟨_, rfl⟩
      · exact .inr ⟨_, rfl⟩
      · exact .inl rfl
  · cases h

theorem list_ran (h : s.list req stage = some (s', next)) : Ran D cfg s req stage .list s' next := by
  unfold ApiState.list at h
  split at h
  · obtain ⟨rfl, rfl⟩ := Prod.mk.inj (Option.some.inj h)
    cases s.server.approvals.list.find? _ with
    | none => exact .failed
    | some a => exact .answered rfl
  · cases h

theorem write_ran {failure : Option (String × Option String)} (h : s.write failure req stage = some (s', next)) :
    Ran D cfg s req stage (.write failure) s' next := by
  unfold ApiState.write at h
  split at h
  · split at h <;> obtain ⟨rfl, rfl⟩ := Prod.mk.inj (Option.some.inj h)
    · exact .tmpWritten rfl (.inr ⟨_, rfl⟩)
    · exact .tmpWritten rfl (.inl rfl)
  · cases h

theorem rename_ran {failure : Option String} (h : s.rename failure req stage = some (s', next)) :
    Ran D cfg s req stage (.rename failure) s' next := by
  unfold ApiState.rename at h
  split at h
  · obtain ⟨rfl, rfl⟩ := Prod.mk.inj (Option.some.inj h)
    exact .failed
  · obtain ⟨text, htmp, h⟩ := Option.map_eq_some_iff.mp h
    obtain ⟨rfl, rfl⟩ := Prod.mk.inj h
    exact .renamed rfl htmp
  · cases h

theorem read_ran {failure : Option String} {dashboardBuilt : Bool}
    (h : s.read cfg failure dashboardBuilt stage = some (s', next)) :
    Ran D cfg s req stage (.read failure dashboardBuilt) s' next := by
  unfold ApiState.read at h
  split at h
  · split_ifs at h
    · split at h
      · obtain ⟨rfl, rfl⟩ := Prod.mk.inj (Option.some.inj h)
        exact .failed
      · split at h <;> obtain ⟨rfl, rfl⟩ := Prod.mk.inj (Option.some.inj h)
        · exact .failed
        · next fresh hload => exact .fileRead hload
    · obtain ⟨rfl, rfl⟩ := Prod.mk.inj (Option.some.inj h)
      exact .failed
  · cases h

theorem simulate_ran {result : Except String Unit} (h : s.simulate result req stage = some (s', next)) :
    Ran D cfg s req stage (.simulate result) s' next := by
  unfold ApiState.simulate at h
  split at h
  · obtain ⟨rfl, rfl⟩ := Prod.mk.inj (Option.some.inj h)
    exact .failed
  · obtain ⟨rfl, rfl⟩ := Prod.mk.inj (Option.some.inj h)
    exact .answered rfl
  · cases h

theorem reconciled_answer (phase : Option RecordPhase) (outcome : ReconcileOutcome) :
    ∃ answer, ApiState.reconciled phase outcome = .answer answer := by
  unfold ApiState.reconciled
  split <;> exact ⟨_, rfl⟩

theorem reconcile_ran {polls : List Poll} (h : s.reconcile polls req stage = some (s', next)) :
    Ran D cfg s req stage (.reconcile polls) s' next := by
  unfold ApiState.reconcile at h
  split at h
  · obtain ⟨result, -, h⟩ := Option.map_eq_some_iff.mp h
    obtain ⟨rfl, rfl⟩ := Prod.mk.inj h
    split
    · exact .failed
    · exact .heard rfl
    · next outcome _ _ =>
      obtain ⟨answer, h⟩ := reconciled_answer none outcome
      rw [h]
      exact .answered rfl
  · cases h

theorem call_ran {now : DateTime} {failure : Option String} (h : s.call D now failure req stage = some (s', next)) :
    Ran D cfg s req stage (.call now failure) s' next := by
  unfold ApiState.call at h
  split at h
  · next receipt fill phase store _ =>
    generalize recordCalls D .server fill now (fun _ => failure) 1 (store, phase) = r at h
    obtain ⟨rfl, rfl⟩ := Prod.mk.inj (Option.some.inj h)
    refine .called rfl ?_
    split
    · exact .inl ⟨_, rfl⟩
    · exact .inr (reconciled_answer _ _)
  · cases h

theorem look_ran {now : Instant} {failure : Option String}
    (h : s.look cfg D now failure req stage = some (s', next)) :
    Ran D cfg s req stage (.look now failure) s' next := by
  unfold ApiState.look at h
  split at h
  · obtain ⟨rfl, rfl⟩ := Prod.mk.inj (Option.some.inj h)
    exact .answered rfl
  · obtain ⟨rfl, rfl⟩ := Prod.mk.inj (Option.some.inj h)
    exact .answered rfl
  · cases h

theorem run_ran {piece : Piece} (h : piece.run D cfg s req stage = some (s', next)) :
    Ran D cfg s req stage piece s' next := by
  cases piece with
  | preflight result => exact preflight_ran h
  | lock => exact lock_ran h
  | reset now => exact reset_ran h
  | decide now => exact decide_ran h
  | list => exact list_ran h
  | write failure => exact write_ran h
  | rename failure => exact rename_ran h
  | read failure dashboardBuilt => exact read_ran h
  | simulate result => exact simulate_ran h
  | reconcile polls => exact reconcile_ran h
  | call now failure => exact call_ran h
  | look now failure => exact look_ran h

end Piece

theorem Ran.requests {γ : Type} {D : Digest} {cfg : ApiConfig γ} {s s' : ApiState} {req : ApiRequest} {stage : Stage}
    {piece : Piece} {next : Next} (h : Ran D cfg s req stage piece s' next) : s'.requests = s.requests := by
  cases h <;> rfl

@[simp] theorem ApiState.receive_requests (s : ApiState) (n : ℕ) (req : ApiRequest) :
    (s.receive n req).requests = s.requests := by
  unfold receive
  split <;> rfl

/-- **The steps.** -/
inductive ApiMoved {γ : Type} (A : Arith) (D : Digest) (cfg : ApiConfig γ) (s : ApiState) :
    ApiAction → ApiState → Prop
  | refused {n : ℕ} {bearer : Option String} {req : ApiRequest} {dashboardBuilt : Bool} {e : ApiError} :
      s.requests n = .idle →
      ApiMoved A D cfg s (.arrive n bearer req dashboardBuilt)
        (s.setRequest n (.done bearer req (.error (.shown e))))
  | entered {n : ℕ} {bearer : Option String} {req : ApiRequest} {dashboardBuilt : Bool} {stage : Stage} :
      s.requests n = .idle → req.permitted cfg.tokens bearer = .ok () → cfg.enter dashboardBuilt req = .ok stage →
      ApiMoved A D cfg s (.arrive n bearer req dashboardBuilt)
        ((s.receive n req).setRequest n (.running bearer req stage))
  | hooked {n : ℕ} {piece : HookPiece} {bearer : Option String} {body : Except String HookRequest}
      {server : ServerState} {e : ServerEvent} : s.requests n = .running bearer (.pretooluse body) .hook →
      s.server.move A cfg.toServerConfig (piece.action n) = some (server, e) →
      ApiMoved A D cfg s (.hook n piece) { s with server }
  | ran {n : ℕ} {piece : Piece} {bearer : Option String} {req : ApiRequest} {stage : Stage} {s₁ : ApiState}
      {next : Next} : s.requests n = .running bearer req stage → Ran D cfg s req stage piece s₁ next →
      ApiMoved A D cfg s (.piece n piece) (s₁.setRequest n (next.phase bearer req))
  | dropped {n : ℕ} {bearer : Option String} {req : ApiRequest} {stage : Stage} :
      s.requests n = .running bearer req stage →
      ApiMoved A D cfg s (.drop n) (s.setRequest n (.dropped bearer req))
  | swept {now : DateTime} :
      ApiMoved A D cfg s (.sweep now) (s.setApprovals (s.server.approvals.sweepExpired now))

theorem api_moved {γ : Type} {A : Arith} {D : Digest} {cfg : ApiConfig γ} {s s' : ApiState} {a : ApiAction}
    {o : ApiRecord} (h : (Api.system A D cfg).step s a = some (s', o)) :
    o = ⟨s, a, s'⟩ ∧ ApiMoved A D cfg s a s' := by
  obtain ⟨s₁, hmove, heq⟩ := Option.map_eq_some_iff.mp h
  obtain ⟨rfl, rfl⟩ := Prod.mk.inj heq
  refine ⟨rfl, ?_⟩
  cases a with
  | arrive n bearer req dashboardBuilt =>
    simp only [ApiState.move] at hmove
    split at hmove
    · next hidle =>
      cases hp : req.permitted cfg.tokens bearer with
      | error e =>
        simp only [ApiConfig.letIn, hp, Next.refuse, Next.phase, Option.some.injEq] at hmove
        rw [← hmove]
        exact .refused hidle
      | ok _ =>
        cases he : cfg.enter dashboardBuilt req with
        | error e =>
          simp only [ApiConfig.letIn, hp, he, Next.refuse, Next.phase, Option.some.injEq] at hmove
          rw [← hmove]
          exact .refused hidle
        | ok stage =>
          simp only [ApiConfig.letIn, hp, he, Next.phase, Option.some.injEq] at hmove
          rw [← hmove]
          exact .entered hidle hp he
    · cases hmove
  | hook n piece =>
    simp only [ApiState.move] at hmove
    split at hmove
    · next bearer body hrunning =>
      obtain ⟨⟨server, e⟩, hserver, rfl⟩ := Option.map_eq_some_iff.mp hmove
      exact .hooked hrunning hserver
    · cases hmove
  | piece n piece =>
    simp only [ApiState.move] at hmove
    split at hmove
    · next bearer req stage hrunning =>
      obtain ⟨⟨s₂, next⟩, hrun, rfl⟩ := Option.map_eq_some_iff.mp hmove
      exact .ran hrunning (Piece.run_ran hrun)
    · cases hmove
  | drop n =>
    simp only [ApiState.move] at hmove
    split at hmove
    · next bearer req stage hrunning =>
      split_ifs at hmove
      rw [← Option.some.inj hmove]
      exact .dropped hrunning
    · cases hmove
  | sweep now =>
    rw [← Option.some.inj hmove]
    exact .swept

/-! ### The request of a step -/

/-- The request that a step is of. -/
def ApiAction.request : ApiAction → Option ℕ
  | .arrive n .. | .hook n _ | .piece n _ | .drop n => some n
  | .sweep _ => none

/-- The bearer token of a request that came. -/
def RequestPhase.bearer : RequestPhase → Option String
  | .idle => none
  | .running bearer _ _ | .done bearer _ _ | .dropped bearer _ => bearer

/-- The bearer token of the request that a step is of. -/
def ApiRecord.bearer (o : ApiRecord) : Option String :=
  o.action.request.bind fun n => (o.after.requests n).bearer

/-- The step is of a request whose token grants no more than `Viewer`. -/
def ApiRecord.ofViewer (o : ApiRecord) (t : TokenSet) : Prop := o.bearer.bind t.roleFor = some .viewer

namespace ApiRequest

variable {req : ApiRequest} {t : TokenSet} {bearer : Option String}

theorem needs_of_isConfig (h : req.isConfig = true) : req.needs = some .admin := by
  cases req <;> simp [isConfig] at h <;> rfl

theorem authorize_of_permitted {role : Role} (h : req.permitted t bearer = .ok ()) (hneeds : req.needs = some role) :
    ∃ granted, t.authorize bearer role = .ok granted := by
  unfold permitted at h
  rw [hneeds, Option.elim_some] at h
  cases hauth : t.authorize bearer role with
  | error e => simp [hauth, Except.map] at h
  | ok granted => exact ⟨granted, rfl⟩

theorem reauth_of_permitted {reauth : String} (h : req.permitted t bearer = .ok ()) (hreauth : req.reauth = some reauth) :
    t.isAdmin reauth := by
  unfold permitted at h
  split at h
  · cases h
  · rw [hreauth, Option.elim_some] at h
    unfold TokenSet.checkReauth at h
    by_contra hne
    simp [hne] at h

/-- What only the admin may ask is asked with the admin's token. -/
theorem bearer_of_permitted (h : req.permitted t bearer = .ok ()) (hneeds : req.needs = some .admin) :
    bearer = some t.admin := by
  obtain ⟨granted, hauth⟩ := authorize_of_permitted h hneeds
  exact TokenSet.authorize_admin hauth

end ApiRequest

variable {γ : Type} {A : Arith} {D : Digest} {cfg : ApiConfig γ} {s s' : ApiState} {a : ApiAction} {o : ApiRecord}
  {os : List ApiRecord} {n : ℕ} {bearer : Option String} {req : ApiRequest} {stage : Stage}

theorem ApiMoved.requests (h : ApiMoved A D cfg s a s') {m : ℕ} (hm : a.request ≠ some m) :
    s'.requests m = s.requests m := by
  have hne : ∀ {n : ℕ}, some n ≠ some m → m ≠ n := fun h heq => h (by rw [heq])
  cases h with
  | refused hidle => exact ApiState.setRequest_of_ne _ (hne hm) _
  | entered hidle hp he => rw [ApiState.setRequest_of_ne _ (hne hm), ApiState.receive_requests]
  | hooked hrunning hserver => rfl
  | ran hrunning hran => rw [ApiState.setRequest_of_ne _ (hne hm), hran.requests]
  | dropped hrunning => exact ApiState.setRequest_of_ne _ (hne hm) _
  | swept => rfl

/-- A step of a request is one after which it has come. -/
theorem ApiMoved.own (h : ApiMoved A D cfg s a s') (hown : a.request = some n) : s'.requests n ≠ .idle := by
  cases h with
  | refused hidle =>
    obtain rfl := Option.some.inj hown
    simp
  | entered hidle hp he =>
    obtain rfl := Option.some.inj hown
    simp
  | hooked hrunning hserver =>
    obtain rfl := Option.some.inj hown
    intro hidle
    have hnone := hrunning.symm.trans hidle
    cases hnone
  | @ran n' piece bearer req stage s₁ next hrunning hran =>
    obtain rfl := Option.some.inj hown
    cases next <;> simp [Next.phase]
  | dropped hrunning =>
    obtain rfl := Option.some.inj hown
    simp
  | swept => cases hown

/-! ### What is handled was let in -/

/-- A request that is handled: it came and was let in, and if it is to arm live
trading, that may be, and it has left its pre-flight only by passing it. -/
structure Admitted (cfg : ApiConfig γ) (os : List ApiRecord) (n : ℕ) (bearer : Option String) (req : ApiRequest)
    (stage : Stage) : Prop where
  arrived : ∃ o ∈ os, ∃ dashboardBuilt, o.action = .arrive n bearer req dashboardBuilt
  permitted : req.permitted cfg.tokens bearer = .ok ()
  armable : ∀ reauth, req = .mode .live reauth → cfg.allowLive = true ∧ cfg.livePreflight = true
  checked : ∀ reauth, req = .mode .live reauth → stage ≠ .checking →
    ∃ o ∈ os, o.before.requests n = .running bearer req .checking ∧ o.action = .piece n (.preflight (.ok ()))

theorem liveRefusal_eq_none {cfg : ServerConfig} {preflight : Option (Except String Unit)}
    (h : ServerState.liveRefusal cfg .live preflight = none) : cfg.allowLive = true ∧ preflight = some (.ok ()) := by
  simp only [ServerState.liveRefusal, if_true] at h
  split_ifs at h with hallow
  split at h
  · cases h
  · cases h
  · exact ⟨by simpa using hallow, rfl⟩

theorem Admitted.mono (h : Admitted cfg os n bearer req stage) (os' : List ApiRecord) :
    Admitted cfg (os ++ os') n bearer req stage where
  arrived := by
    obtain ⟨o, ho, ha⟩ := h.arrived
    exact ⟨o, List.mem_append_left _ ho, ha⟩
  permitted := h.permitted
  armable := h.armable
  checked reauth hreq hstage := by
    obtain ⟨o, ho, hc⟩ := h.checked reauth hreq hstage
    exact ⟨o, List.mem_append_left _ ho, hc⟩

theorem admitted_entered {dashboardBuilt : Bool} (hp : req.permitted cfg.tokens bearer = .ok ())
    (he : cfg.enter dashboardBuilt req = .ok stage) (ho : o.action = .arrive n bearer req dashboardBuilt) :
    Admitted cfg (os ++ [o]) n bearer req stage := by
  have hlive : ∀ reauth, req = .mode .live reauth →
      cfg.allowLive = true ∧ cfg.livePreflight = true ∧ stage = .checking := by
    rintro reauth rfl
    simp only [ApiConfig.enter] at he
    split at he
    · cases he
    · next hnone =>
      obtain ⟨hallow, hpre⟩ := liveRefusal_eq_none hnone
      exact ⟨hallow, by by_contra hno; simp [hno] at hpre, (Except.ok.inj he).symm⟩
  refine ⟨⟨o, by simp, dashboardBuilt, ho⟩, hp, fun reauth hreq => ?_, fun reauth hreq hstage => ?_⟩
  · exact ⟨(hlive reauth hreq).1, (hlive reauth hreq).2.1⟩
  · exact absurd (hlive reauth hreq).2.2 hstage

theorem Admitted.ran {piece : Piece} {stage' : Stage} {s₁ : ApiState} (h : Admitted cfg os n bearer req stage)
    (hran : Ran D cfg s req stage piece s₁ (.stage stage')) (hs : s.requests n = .running bearer req stage)
    (hbefore : o.before = s) (ho : o.action = .piece n piece) : Admitted cfg (os ++ [o]) n bearer req stage' := by
  have hm := h.mono [o]
  refine ⟨hm.arrived, hm.permitted, hm.armable, fun reauth hreq _ => ?_⟩
  -- only the pre-flight leads away from its stage
  have hleft : stage ≠ .checking → ∃ o' ∈ os ++ [o], o'.before.requests n = .running bearer req .checking ∧
      o'.action = .piece n (.preflight (.ok ())) := hm.checked reauth hreq
  cases hran with
  | checked hmode hnone =>
    rw [hreq] at hmode
    obtain ⟨rfl, -⟩ := ApiRequest.mode.inj hmode
    obtain ⟨-, hok⟩ := liveRefusal_eq_none hnone
    rw [Option.some.inj hok] at ho
    exact ⟨o, by simp, by rw [hbefore, hs], ho⟩
  | _ => exact hleft (by simp)

/-- What is handled after the records `os` was let in. -/
def AllAdmitted (cfg : ApiConfig γ) (os : List ApiRecord) (s : ApiState) : Prop :=
  ∀ n bearer req stage, s.requests n = .running bearer req stage → Admitted cfg os n bearer req stage

theorem running_of_phase {next : Next} {bearer' : Option String} {req' : ApiRequest}
    (h : next.phase bearer req = .running bearer' req' stage) :
    bearer' = bearer ∧ req' = req ∧ next = .stage stage := by
  cases next with
  | stage st =>
    obtain ⟨rfl, rfl, rfl⟩ := RequestPhase.running.inj h
    exact ⟨rfl, rfl, rfl⟩
  | answer answer => cases h

/-- **One step.** What is handled after it was let in. -/
theorem admitted_step (hi : AllAdmitted cfg os s) (h : (Api.system A D cfg).step s a = some (s', o)) :
    AllAdmitted cfg (os ++ [o]) s' := by
  obtain ⟨rfl, hmoved⟩ := api_moved h
  intro m bearer' req' stage' hm
  by_cases hown : a.request = some m
  · -- the request that the step is of
    cases hmoved with
    | refused hidle =>
      obtain rfl := Option.some.inj hown
      rw [ApiState.setRequest_self] at hm
      cases hm
    | entered hidle hp he =>
      obtain rfl := Option.some.inj hown
      rw [ApiState.setRequest_self] at hm
      obtain ⟨rfl, rfl, rfl⟩ := RequestPhase.running.inj hm
      exact admitted_entered hp he rfl
    | hooked hrunning hserver => exact (hi m bearer' req' stage' hm).mono _
    | ran hrunning hran =>
      obtain rfl := Option.some.inj hown
      rw [ApiState.setRequest_self] at hm
      obtain ⟨rfl, rfl, rfl⟩ := running_of_phase hm
      exact (hi _ _ _ _ hrunning).ran hran hrunning rfl rfl
    | dropped hrunning =>
      obtain rfl := Option.some.inj hown
      rw [ApiState.setRequest_self] at hm
      cases hm
    | swept => cases hown
  · -- another stands where it stood
    rw [hmoved.requests hown] at hm
    exact (hi m bearer' req' stage' hm).mono _

/-- **Every run.** What is handled was let in. -/
theorem admitted_run {s₀ : ApiState} (hfresh : s₀.Fresh) (hrun : (Api.system A D cfg).Run s₀ os s) :
    AllAdmitted cfg os s := by
  refine Lts.Run.inv (P := AllAdmitted cfg) ?_ ?_ hrun
  · intro n bearer req stage h
    rw [hfresh.requests n] at h
    cases h
  · intro os s a s' o _ hi h
    exact admitted_step hi h

/-- A request that no step is of has not come. -/
theorem idle_of_no_step {s₀ : ApiState} (hfresh : s₀.Fresh) (hrun : (Api.system A D cfg).Run s₀ os s) :
    ∀ n, (∀ o ∈ os, o.action.request ≠ some n) → s.requests n = .idle := by
  intro n
  refine Lts.Run.inv (P := fun os s => (∀ o ∈ os, o.action.request ≠ some n) → s.requests n = .idle) ?_ ?_ hrun
  · exact fun _ => hfresh.requests n
  · intro os s a s' o _ ih hstep hno
    have hown := hno o (by simp)
    obtain ⟨rfl, hmoved⟩ := api_moved hstep
    rw [hmoved.requests hown, ih fun o' ho' => hno o' (List.mem_append_left _ ho')]

/-- A piece of a `pretooluse` call leaves the control state and the other calls
alone, and the budget unless it books in it. -/
theorem HookPiece.kept {piece : HookPiece} {server server' : ServerState} {e : ServerEvent}
    (h : server.move A cfg.toServerConfig (piece.action n) = some (server', e)) :
    server'.control = server.control ∧ (∀ m, m ≠ n → server'.calls m = server.calls m) ∧
      (server'.budget = server.budget ∨ ∃ now later req order notional r,
        piece = .record now later ∧ server.calls n = .cleared req order ∧ req.notional A order = some notional ∧
          server.budget.tryRecord A notional now later = some (r, server'.budget)) := by
  have others : ∀ {s₀ : ServerState} (p : Phase), s₀.calls = server.calls →
      ∀ m, m ≠ n → (s₀.setCall n p).calls m = server.calls m := by
    intro s₀ p hcalls m hm
    simp [ServerState.setCall, hm, hcalls]
  cases piece with
  | gate now parsedAt reparsedAt =>
    simp only [HookPiece.action, ServerState.move, ServerState.gate] at h
    split at h
    · split at h <;> obtain ⟨rfl, -⟩ := Prod.mk.inj (Option.some.inj h) <;> exact ⟨rfl, others _ rfl, .inl rfl⟩
    · cases h
  | enqueue idAt createdAt =>
    simp only [HookPiece.action, ServerState.move, ServerState.enqueue] at h
    split at h
    · obtain ⟨rfl, -⟩ := Prod.mk.inj (Option.some.inj h)
      exact ⟨rfl, others _ rfl, .inl rfl⟩
    · cases h
  | poll timedOut =>
    simp only [HookPiece.action, ServerState.move, ServerState.poll] at h
    split at h
    · obtain ⟨state, -, h⟩ := Option.map_eq_some_iff.mp h
      obtain ⟨rfl, -⟩ := Prod.mk.inj h
      exact ⟨rfl, others _ rfl, .inl rfl⟩
    · cases h
  | record now later =>
    simp only [HookPiece.action, ServerState.move, ServerState.record] at h
    split at h
    · next req order hcleared =>
      split at h <;> obtain ⟨rfl, -⟩ := Prod.mk.inj (Option.some.inj h)
      · next notional budget hrec =>
        obtain ⟨n', hn, hmap⟩ := Option.bind_eq_some_iff.mp hrec
        obtain ⟨r, htry, heq⟩ := Option.map_eq_some_iff.mp hmap
        obtain ⟨rfl, rfl⟩ := Prod.mk.inj heq
        exact ⟨rfl, others _ rfl, .inr ⟨now, later, req, order, n', _, rfl, hcleared, hn, htry⟩⟩
      · next notional breach budget hrec =>
        obtain ⟨n', hn, hmap⟩ := Option.bind_eq_some_iff.mp hrec
        obtain ⟨r, htry, heq⟩ := Option.map_eq_some_iff.mp hmap
        obtain ⟨rfl, rfl⟩ := Prod.mk.inj heq
        exact ⟨rfl, others _ rfl, .inr ⟨now, later, req, order, n', _, rfl, hcleared, hn, htry⟩⟩
      · exact ⟨rfl, others _ rfl, .inl rfl⟩
    · cases h
  | reply =>
    simp only [HookPiece.action, ServerState.move, ServerState.reply] at h
    split at h
    · obtain ⟨rfl, -⟩ := Prod.mk.inj (Option.some.inj h)
      exact ⟨rfl, others _ rfl, .inl rfl⟩
    · cases h
  | drop =>
    simp only [HookPiece.action, ServerState.move, ServerState.drop] at h
    split at h
    · obtain ⟨rfl, -⟩ := Prod.mk.inj (Option.some.inj h)
      exact ⟨rfl, others _ rfl, .inl rfl⟩
    · obtain ⟨rfl, -⟩ := Prod.mk.inj (Option.some.inj h)
      exact ⟨rfl, others _ rfl, .inl rfl⟩
    · cases h

theorem receive_eq (s : ApiState) (n : ℕ) (req : ApiRequest) :
    ∃ calls, s.receive n req = { s with server := { s.server with calls } } := by
  unfold ApiState.receive
  split
  · exact ⟨_, rfl⟩
  · exact ⟨s.server.calls, rfl⟩

theorem ApiMoved.calls (h : ApiMoved A D cfg s a s') {m : ℕ} (hm : a.request ≠ some m) :
    s'.server.calls m = s.server.calls m := by
  have hne : ∀ {n : ℕ}, some n ≠ some m → m ≠ n := fun h heq => h (by rw [heq])
  cases h with
  | refused hidle => rfl
  | entered hidle hp he =>
    unfold ApiState.receive
    split
    · exact Function.update_of_ne (hne hm) _ _
    · rfl
  | hooked hrunning hserver => exact (HookPiece.kept hserver).2.1 m (hne hm)
  | ran hrunning hran => cases hran <;> rfl
  | dropped hrunning => rfl
  | swept => rfl

end Sherwood
