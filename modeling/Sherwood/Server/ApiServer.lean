/-
# The API is the server

`Server.system` cuts the requests at fewer places: a privileged request is
checked and done in one step, and a config is swapped in without the file it is
from. Seen at the state that both have, a step of the API is none or one of that
system's, and the pieces of a `pretooluse` call are the same
(`server_of_step`). So what holds of every run of the one holds of the shared
state in every run of the other (`server_of_run`).

Key theorems: `server_of_step`, `server_of_run`.
-/
import Sherwood.Server.ApiSteps

namespace Sherwood

variable {γ : Type} {A : Arith} {D : Digest} {cfg : ApiConfig γ} {s s' : ApiState} {a : ApiAction} {o : ApiRecord}
  {os : List ApiRecord} {n : ℕ} {bearer : Option String} {req : ApiRequest} {stage : Stage}

theorem privileged_of_permitted {t : TokenSet} {reauth : String} (h : req.permitted t bearer = .ok ())
    (hneeds : req.needs = some .admin) (hreauth : req.reauth = some reauth) : t.privileged bearer reauth = .ok () := by
  obtain ⟨granted, hauth⟩ := ApiRequest.authorize_of_permitted h hneeds
  have hadmin := ApiRequest.reauth_of_permitted h hreauth
  simp only [TokenSet.privileged, hauth, TokenSet.checkReauth, hadmin, if_true]

/-- A privileged request that was let in does what it is for. -/
theorem privileged_eq {server : ServerState} {cfg : ServerConfig} {reauth : String} {change : ServerState × ServerEvent}
    (h : cfg.tokens.privileged bearer reauth = .ok ()) : server.privileged cfg bearer reauth change = change := by
  simp only [ServerState.privileged, h]

/-- A call has not come if its request has not. -/
def CallsIdle (s : ApiState) : Prop := ∀ n, s.requests n = .idle → s.server.calls n = .idle

theorem callsIdle_step (hidle : CallsIdle s) (h : (Api.system A D cfg).step s a = some (s', o)) : CallsIdle s' := by
  obtain ⟨rfl, hmoved⟩ := api_moved h
  intro m hm
  by_cases hown : a.request = some m
  · exact absurd hm (hmoved.own hown)
  · rw [hmoved.requests hown] at hm
    exact (hmoved.calls hown).trans (hidle m hm)

/-- One decision, as `post_approval` of the one system makes it and of the other. -/
theorem approval_eq {server : ServerState} {cfg : ServerConfig} {id decision : String} {reason : Option String}
    {target : ApprovalState} {now : DateTime} {granted : Role} (hauth : cfg.tokens.authorize bearer .operator = .ok granted)
    (htarget : decisionTarget decision = .ok target) : (server.approval cfg bearer id decision reason now).1 =
      { server with approvals := (server.approvals.decide id target reason now).2 } := by
  unfold decisionTarget at htarget
  split at htarget
  · obtain rfl := Except.ok.inj htarget
    simp only [ServerState.approval, hauth]
    -- whatever the queue answers, it is what the decision made of it
    split <;> next hdecide => rw [hdecide]
  · obtain rfl := Except.ok.inj htarget
    simp only [ServerState.approval, hauth]
    split <;> next hdecide => rw [hdecide]
  · cases htarget

/-- **One step.** Of what both systems have, a step of the API changes nothing, or
it is a step of the server. -/
theorem server_of_step (hi : AllAdmitted cfg os s) (hidle : CallsIdle s)
    (h : (Api.system A D cfg).step s a = some (s', o)) :
    s'.server = s.server ∨ ∃ b e, s.server.move A cfg.toServerConfig b = some (s'.server, e) := by
  obtain ⟨rfl, hmoved⟩ := api_moved h
  cases hmoved with
  | refused _ => exact .inl rfl
  | @entered n bearer req dashboardBuilt stage hcame hp he =>
    cases req with
    | pretooluse body =>
      cases body with
      | error e => exact .inl rfl
      | ok body =>
        obtain ⟨granted, hauth⟩ := ApiRequest.authorize_of_permitted hp rfl
        refine .inr ⟨.arrive n bearer (.ok body), .arrived n, ?_⟩
        simp only [ServerState.move, ServerState.arrive, hidle n hcame, hauth]
        rfl
    | _ => exact .inl rfl
  | @hooked n piece bearer body server e hrunning hserver => exact .inr ⟨piece.action n, e, hserver⟩
  | @ran n piece bearer req stage s₁ next hrunning hran =>
    have hadm := hi _ _ _ _ hrunning
    cases hran with
    | @modeSet mode reauth reply hreq =>
      subst hreq
      have hpriv := privileged_of_permitted hadm.permitted rfl rfl
      have hrefusal : ServerState.liveRefusal cfg.toServerConfig mode (some (.ok ())) = none := by
        cases mode with
        | paper => rfl
        | live => simp [ServerState.liveRefusal, (hadm.armable reauth rfl).1]
      refine .inr ⟨.mode bearer reauth mode (some (.ok ())), .modeSet mode, ?_⟩
      simp only [ServerState.move, ServerState.setMode, privileged_eq hpriv, hrefusal]
      rfl
    | @killSet engage reauth reply hreq =>
      subst hreq
      have hpriv := privileged_of_permitted hadm.permitted rfl rfl
      refine .inr ⟨.kill bearer reauth engage, .killSet engage, ?_⟩
      simp only [ServerState.move, ServerState.kill, privileged_eq hpriv]
      rfl
    | @swapped fresh reply hconfig =>
      have hreauth : ∃ reauth, req.reauth = some reauth := by
        cases req <;> simp [ApiRequest.isConfig] at hconfig <;> exact ⟨_, rfl⟩
      obtain ⟨reauth, hreauth⟩ := hreauth
      have hpriv := privileged_of_permitted hadm.permitted (ApiRequest.needs_of_isConfig hconfig) hreauth
      refine .inr ⟨.reload bearer reauth (.ok fresh), .reloaded, ?_⟩
      simp only [ServerState.move, ServerState.reload, privileged_eq hpriv]
      rfl
    | @budgetReset reauth now reply hreq =>
      subst hreq
      have hpriv := privileged_of_permitted hadm.permitted rfl rfl
      refine .inr ⟨.reset bearer reauth now, .budgetReset, ?_⟩
      simp only [ServerState.move, privileged_eq hpriv]
      rfl
    | @decided id decision reason target now next hreq htarget _ =>
      subst hreq
      obtain ⟨granted, hauth⟩ := ApiRequest.authorize_of_permitted hadm.permitted rfl
      refine .inr ⟨.approval bearer id decision reason now,
        (s.server.approval cfg.toServerConfig bearer id decision reason now).2, ?_⟩
      exact congrArg some (Prod.ext (approval_eq hauth htarget) rfl)
    | _ => exact .inl rfl
  | dropped _ => exact .inl rfl
  | @swept now => exact .inr ⟨.sweep now, .swept, rfl⟩

/-- **Every run.** What both systems have goes through a run of the server. -/
theorem server_of_run {s₀ : ApiState} (hfresh : s₀.Fresh) (hrun : (Api.system A D cfg).Run s₀ os s) :
    ∃ events, (Server.system A cfg.toServerConfig).Run s₀.server events s.server := by
  have hboth : CallsIdle s ∧ ∃ events, (Server.system A cfg.toServerConfig).Run s₀.server events s.server := by
    refine Lts.Run.inv (P := fun _ s => CallsIdle s ∧
      ∃ events, (Server.system A cfg.toServerConfig).Run s₀.server events s.server) ?_ ?_ hrun
    · exact ⟨fun n _ => hfresh.calls n, [], .nil⟩
    · intro os s a s' o hr ⟨hidle, events, hserver⟩ hstep
      refine ⟨callsIdle_step hidle hstep, ?_⟩
      rcases server_of_step (admitted_run hfresh hr) hidle hstep with hsame | ⟨b, e, hmove⟩
      · rw [hsame]
        exact ⟨events, hserver⟩
      · have hb : (Server.system A cfg.toServerConfig).step s.server b = some (s'.server, ⟨s.server, e, s'.server⟩) := by
          show (s.server.move A cfg.toServerConfig b).map _ = _
          rw [hmove]
          rfl
        exact ⟨_, hserver.snoc hb⟩
  exact hboth.2

end Sherwood
