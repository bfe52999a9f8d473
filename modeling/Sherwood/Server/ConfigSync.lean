/-
# The running config and the config file

`POST /v1/config` writes the config file and then does what
`POST /v1/config/reload` does: it reads the file, and swaps what it read in
under the control lock. Nothing holds the file between the look at it and the
swap. What is swapped in is what the file says as long as no write came between
the two (`ApiRecord.Current`), and in a run of such steps the running config is
that of the file once every request has succeeded (`config_converges`).
Otherwise an old config replaces a newer one that was already in force, and
stays (`stale_reload_wins`).

Key definitions: `Reloaded.Same`, `ApiState.InSync`, `RequestPhase.Succeeded`, `ApiRecord.Current`.
Key theorems: `sync_step`, `config_converges`, `inSync_of_unwritten`, `stale_reload_wins`.
-/
import Sherwood.Server.ApiSafety

namespace Sherwood

/-! ### In sync -/

/-- The part of the control state that a reload swaps in. -/
def Control.config (c : Control) : Reloaded := ⟨c.risk, c.allowlist, c.approvalMode⟩

/-- Two configs agree, the kill switch aside. -/
structure Reloaded.Same (r r' : Reloaded) : Prop where
  risk : { r.risk with killSwitch := false } = { r'.risk with killSwitch := false }
  allowlist : r.allowlist = r'.allowlist
  approvalMode : r.approvalMode = r'.approvalMode

namespace Reloaded.Same

theorem trans {r r' r'' : Reloaded} (h : r.Same r') (h' : r'.Same r'') : r.Same r'' :=
  ⟨h.risk.trans h'.risk, h.allowlist.trans h'.allowlist, h.approvalMode.trans h'.approvalMode⟩

theorem of_eq {c c' : Control} (h : c' = c) : c'.config.Same c.config := by
  rw [h]
  exact ⟨rfl, rfl, rfl⟩

theorem applyReload (c : Control) (fresh : Reloaded) : (c.applyReload fresh).config.Same fresh := by
  refine ⟨?_, rfl, rfl⟩
  simp only [Control.config, Control.applyReload]
  split_ifs <;> rfl

end Reloaded.Same

/-- The running config is that of the config file, the kill switch aside. -/
def ApiState.InSync {γ : Type} (F : ConfigFormat γ) (s : ApiState) : Prop :=
  ∃ config, F.parse s.file = .ok config ∧ s.server.control.config.Same (F.toReloaded config)

/-- The request, if it is one for the config, has succeeded. -/
def RequestPhase.Succeeded : RequestPhase → Prop
  | .idle | .done _ _ (.ok _) => True
  | .running _ req _ | .done _ req (.error _) | .dropped _ req => req.isConfig = false

instance : (p : RequestPhase) → Decidable p.Succeeded
  | .idle | .done _ _ (.ok _) => .isTrue trivial
  | .running _ req _ | .done _ req (.error _) | .dropped _ req => inferInstanceAs (Decidable (req.isConfig = false))

/-- A config request was answered that its config is in force. -/
def RequestPhase.swapped : RequestPhase → Bool
  | .done _ req (.ok _) => req.isConfig
  | _ => false

/-- What the step swaps in, if it is a swap. -/
def ApiRecord.swapIn (o : ApiRecord) : Option Reloaded :=
  match o.action with
  | .piece n .lock =>
    match o.before.requests n with
    | .running _ _ (.swapping fresh) => some fresh
    | _ => none
  | _ => none

/-- What the step swaps in, if it is a swap, is what the file says then. -/
def ApiRecord.Current {γ : Type} (F : ConfigFormat γ) (o : ApiRecord) : Prop :=
  ∀ fresh ∈ o.swapIn, ∃ config, F.parse o.before.file = .ok config ∧ fresh.Same (F.toReloaded config)

variable {γ : Type} {A : Arith} {D : Digest} {cfg : ApiConfig γ} {s s' : ApiState} {a : ApiAction} {o : ApiRecord}
  {os : List ApiRecord} {n : ℕ} {bearer : Option String} {req : ApiRequest} {stage : Stage}

theorem ApiState.InSync.congr {F : ConfigFormat γ} (hfile : s'.file = s.file)
    (hconfig : s'.server.control.config.Same s.server.control.config) (h : s.InSync F) : s'.InSync F := by
  obtain ⟨config, hparse, hsame⟩ := h
  exact ⟨config, by rw [hfile, hparse], hconfig.trans hsame⟩

/-! ### One step -/

/-- What a piece of a request that is not for the config leaves in force. -/
theorem Ran.config_kept {piece : Piece} {s₁ : ApiState} {next : Next} (h : Ran D cfg s req stage piece s₁ next)
    (hreq : req.isConfig = false) :
    s₁.file = s.file ∧ s₁.server.control.config.Same s.server.control.config := by
  cases h with
  | swapped hconfig => rw [hreq] at hconfig; cases hconfig
  | renamed hwrite _ => rw [hwrite] at hreq; cases hreq
  | _ => exact ⟨rfl, rfl, rfl, rfl⟩

/-- A config request succeeds by its swap alone. -/
theorem Ran.swap_of_succeeded {piece : Piece} {s₁ : ApiState} {next : Next} (h : Ran D cfg s req stage piece s₁ next)
    (hreq : req.isConfig = true) (hdone : (next.phase bearer req).Succeeded) :
    ∃ fresh reply, stage = .swapping fresh ∧ piece = .lock ∧
      s₁ = s.setControl (s.server.control.applyReload fresh) ∧ next = .reply reply := by
  have hrunning : ∀ {st : Stage}, next = .stage st → False := by
    rintro st rfl
    exact absurd hdone (by simp [Next.phase, RequestPhase.Succeeded, hreq])
  have herror : ∀ {e : ApiFailure}, next = .answer (.error e) → False := by
    rintro e rfl
    exact absurd hdone (by simp [Next.phase, RequestPhase.Succeeded, hreq])
  cases h with
  | modeSet hmode => rw [hmode] at hreq; cases hreq
  | killSet hkill => rw [hkill] at hreq; cases hreq
  | @swapped fresh reply _ => exact ⟨fresh, reply, rfl, rfl, rfl, rfl⟩
  | budgetReset hreset => rw [hreset] at hreq; cases hreq
  | decided hdecided _ _ => rw [hdecided] at hreq; cases hreq
  | tmpWritten _ hnext =>
    rcases hnext with hnext | ⟨e, hnext⟩
    · exact (hrunning hnext).elim
    · exact (herror hnext).elim
  | renamed _ _ => exact (hrunning rfl).elim
  | called hcalled _ => rw [hcalled] at hreq; cases hreq
  | checked _ _ => exact (hrunning rfl).elim
  | fileRead _ => exact (hrunning rfl).elim
  | heard _ => exact (hrunning rfl).elim
  | failed => exact (herror rfl).elim
  | answered hanswered => rw [hreq] at hanswered; cases hanswered

/-- Once every request has succeeded the config is in sync, or it was not from the
start and none of them was for the config. -/
def Synced (F : ConfigFormat γ) (s₀ s : ApiState) : Prop :=
  (∀ n, (s.requests n).Succeeded) → s.InSync F ∨ (¬ s₀.InSync F ∧ ∀ n, (s.requests n).swapped = false)

theorem Synced.set {F : ConfigFormat γ} {s₀ s₁ : ApiState} {p : RequestPhase} (h : Synced F s₀ s)
    (hrequests : s₁.requests = s.requests) (hfile : s₁.file = s.file)
    (hconfig : s₁.server.control.config.Same s.server.control.config)
    (hback : p.Succeeded → (s.requests n).Succeeded) (hswap : p.swapped = false) : Synced F s₀ (s₁.setRequest n p) := by
  intro hdone
  have hother : ∀ m, m ≠ n → (s₁.setRequest n p).requests m = s.requests m := by
    intro m hm
    rw [ApiState.setRequest_of_ne _ hm, hrequests]
  have hbefore : ∀ m, (s.requests m).Succeeded := by
    intro m
    by_cases hm : m = n
    · subst hm
      exact hback (by simpa using hdone m)
    · rw [← hother m hm]
      exact hdone m
  rcases h hbefore with hsync | ⟨hnot, hnone⟩
  · have hkept : (s₁.setRequest n p).InSync F := hsync.congr hfile hconfig
    exact .inl hkept
  · refine .inr ⟨hnot, fun m => ?_⟩
    by_cases hm : m = n
    · subst hm
      simpa using hswap
    · rw [hother m hm]
      exact hnone m

/-- **One step.** A step whose swap is current keeps the config in sync. -/
theorem sync_step {s₀ : ApiState} (hi : Synced cfg.format s₀ s) (h : (Api.system A D cfg).step s a = some (s', o))
    (hcurrent : o.Current cfg.format) : Synced cfg.format s₀ s' := by
  obtain ⟨rfl, hmoved⟩ := api_moved h
  cases hmoved with
  | refused hidle => exact hi.set rfl rfl ⟨rfl, rfl, rfl⟩ (fun _ => by rw [hidle]; trivial) rfl
  | @entered n bearer req dashboardBuilt stage hidle hp he =>
    obtain ⟨calls, hcalls⟩ := receive_eq s n req
    rw [hcalls]
    exact hi.set rfl rfl ⟨rfl, rfl, rfl⟩ (fun _ => by rw [hidle]; trivial) rfl
  | hooked hrunning hserver =>
    intro hdone
    exact (hi hdone).imp_left fun hsync => hsync.congr (s := s) rfl (.of_eq (HookPiece.kept hserver).1)
  | @ran n piece bearer req stage s₁ next hrunning hran =>
    by_cases hreq : req.isConfig = true
    · intro hdone
      have hnext : (next.phase bearer req).Succeeded := by simpa using hdone n
      obtain ⟨fresh, reply, rfl, rfl, rfl, rfl⟩ := hran.swap_of_succeeded hreq hnext
      obtain ⟨config, hparse, hsame⟩ := hcurrent fresh (by simp [ApiRecord.swapIn, hrunning])
      exact .inl ⟨config, hparse, (Reloaded.Same.applyReload _ _).trans hsame⟩
    · have hreq : req.isConfig = false := by simpa using hreq
      obtain ⟨hfile, hconfig⟩ := hran.config_kept hreq
      refine hi.set hran.requests hfile hconfig (fun _ => by rw [hrunning]; exact hreq) ?_
      rcases next with stage' | (e | reply)
      · rfl
      · rfl
      · exact hreq
  | dropped hrunning => exact hi.set rfl rfl ⟨rfl, rfl, rfl⟩ (fun hreq => by rw [hrunning]; exact hreq) rfl
  | swept =>
    intro hdone
    exact (hi hdone).imp_left fun hsync => hsync.congr rfl ⟨rfl, rfl, rfl⟩

/-! ### Every run -/

theorem ConfigFormat.load_eq_ok {F : ConfigFormat γ} {path text : String} {dashboardBuilt : Bool} {fresh : Reloaded}
    (h : F.load path text dashboardBuilt = .ok fresh) :
    ∃ config, F.parse text = .ok config ∧ fresh = F.toReloaded config := by
  unfold load at h
  split at h
  · cases h
  · next config hparse =>
    split at h
    · cases h
    · exact ⟨config, hparse, (Except.ok.inj h).symm⟩

theorem enter_ne_swapping {dashboardBuilt : Bool} {fresh : Reloaded} :
    cfg.enter dashboardBuilt req ≠ .ok (.swapping fresh) := by
  intro h
  unfold ApiConfig.enter at h
  split at h
  · cases h
  · cases h
  · cases h
  · split at h <;> cases h
  · split at h <;> cases h
  · split at h <;> cases h
  · cases h
  · next toml reauth =>
    split at h
    · cases hcheck : cfg.format.check toml dashboardBuilt <;> simp [hcheck, Except.map] at h
    · cases h
  · next decision _ =>
    cases htarget : decisionTarget decision <;> simp [htarget, Except.map] at h
  all_goals cases h

/-- What a request is to swap in it has read from the file. -/
theorem read_of_swapping {s₀ : ApiState} (hfresh : s₀.Fresh) (hrun : (Api.system A D cfg).Run s₀ os s) :
    ∀ n bearer req fresh, s.requests n = .running bearer req (.swapping fresh) →
      ∃ o ∈ os, ∃ dashboardBuilt, o.action = .piece n (.read none dashboardBuilt) ∧
        cfg.format.load cfg.path o.before.file dashboardBuilt = .ok fresh := by
  refine Lts.Run.inv (P := fun os s => ∀ n bearer req fresh, s.requests n = .running bearer req (.swapping fresh) →
    ∃ o ∈ os, ∃ dashboardBuilt, o.action = .piece n (.read none dashboardBuilt) ∧
      cfg.format.load cfg.path o.before.file dashboardBuilt = .ok fresh) ?_ ?_ hrun
  · intro n bearer req fresh h
    rw [hfresh.requests n] at h
    cases h
  · intro os s a s' o _ ih hstep m bearer req fresh h
    have hearlier : s.requests m = .running bearer req (.swapping fresh) → ∃ q ∈ os ++ [o], ∃ dashboardBuilt,
        q.action = .piece m (.read none dashboardBuilt) ∧
          cfg.format.load cfg.path q.before.file dashboardBuilt = .ok fresh := by
      intro hbefore
      obtain ⟨q, hq, hread⟩ := ih m bearer req fresh hbefore
      exact ⟨q, List.mem_append_left _ hq, hread⟩
    obtain ⟨rfl, hmoved⟩ := api_moved hstep
    by_cases hm : a.request = some m
    · cases hmoved with
      | refused hidle =>
        obtain rfl := Option.some.inj hm
        simp at h
      | entered hidle hp he =>
        obtain rfl := Option.some.inj hm
        simp only [ApiState.setRequest_self] at h
        obtain ⟨rfl, rfl, rfl⟩ := RequestPhase.running.inj h
        exact absurd he enter_ne_swapping
      | hooked hrunning hserver => exact hearlier h
      | ran hrunning hran =>
        obtain rfl := Option.some.inj hm
        rw [ApiState.setRequest_self] at h
        obtain ⟨rfl, rfl, rfl⟩ := running_of_phase h
        cases hran with
        | fileRead hload => exact ⟨_, List.mem_append_right _ (List.mem_singleton_self _), _, rfl, hload⟩
        | decided _ _ hnext => simp at hnext
        | tmpWritten _ hnext => simp [Next.fail] at hnext
        | called _ hnext => simp at hnext
      | dropped hrunning =>
        obtain rfl := Option.some.inj hm
        simp at h
      | swept => exact hearlier h
    · rw [hmoved.requests hm] at h
      exact hearlier h

/-- A swap is current if the file says what it said to its reader. -/
theorem current_of_unwritten {s₀ : ApiState} {past rest : List ApiRecord} (hfresh : s₀.Fresh)
    (hrun : (Api.system A D cfg).Run s₀ os s) (hos : os = past ++ o :: rest)
    (hunwritten : ∀ n, o.action = .piece n .lock → ∀ q ∈ past, ∀ dashboardBuilt,
      q.action = .piece n (.read none dashboardBuilt) → q.before.file = o.before.file) : o.Current cfg.format := by
  intro fresh hswap
  obtain ⟨s₁, a, s₂, hpast, hstep⟩ := hrun.split hos
  obtain ⟨rfl, -⟩ := api_moved hstep
  unfold ApiRecord.swapIn at hswap
  split at hswap
  · next n hlock =>
    split at hswap
    · next bearer req fresh' hrunning =>
      obtain rfl : fresh' = fresh := by simpa using hswap
      obtain ⟨q, hq, dashboardBuilt, hread, hload⟩ := read_of_swapping hfresh hpast n bearer req fresh' hrunning
      obtain ⟨config, hparse, rfl⟩ := ConfigFormat.load_eq_ok hload
      rw [hunwritten n hlock q hq dashboardBuilt hread] at hparse
      exact ⟨config, hparse, rfl, rfl, rfl⟩
    · cases hswap
  · cases hswap

/-- Once every request that took a step has succeeded, all have. -/
theorem succeeded_of_done {s₀ : ApiState} (hfresh : s₀.Fresh) (hrun : (Api.system A D cfg).Run s₀ os s)
    (hdone : ∀ o ∈ os, ∀ n ∈ o.action.request, (s.requests n).Succeeded) (n : ℕ) : (s.requests n).Succeeded := by
  by_cases hn : ∃ o ∈ os, o.action.request = some n
  · obtain ⟨o, ho, hon⟩ := hn
    exact hdone o ho n hon
  · rw [idle_of_no_step hfresh hrun n fun o ho hon => hn ⟨o, ho, hon⟩]
    trivial

theorem synced_run {s₀ : ApiState} (hfresh : s₀.Fresh) (hrun : (Api.system A D cfg).Run s₀ os s)
    (hcurrent : ∀ o ∈ os, o.Current cfg.format) : Synced cfg.format s₀ s := by
  refine Lts.Run.inv (P := fun os s => (∀ o ∈ os, o.Current cfg.format) → Synced cfg.format s₀ s) ?_ ?_ hrun hcurrent
  · intro _ _
    by_cases hsync : s₀.InSync cfg.format
    · exact .inl hsync
    · exact .inr ⟨hsync, fun n => by rw [hfresh.requests n]; rfl⟩
  · intro os s a s' o _ ih hstep hcur
    exact sync_step (ih fun o' ho' => hcur o' (List.mem_append_left _ ho')) hstep (hcur o (by simp))

theorem Synced.inSync {format : ConfigFormat γ} {s₀ : ApiState} (h : Synced format s₀ s)
    (hall : ∀ n, (s.requests n).Succeeded)
    (hstart : s₀.InSync format ∨ ∃ n, (s.requests n).swapped = true) : s.InSync format := by
  rcases h hall with hsync | ⟨hnot, hnone⟩
  · exact hsync
  · rcases hstart with hsync | ⟨n, hn⟩
    · exact absurd hsync hnot
    · rw [hnone n] at hn
      cases hn

/-- **The running config is that of the file.** In a run whose swaps are all of
what the file says, once every request for the config has succeeded; it was so
at the start, or there was such a request. -/
theorem config_converges {s₀ : ApiState} (hfresh : s₀.Fresh) (hrun : (Api.system A D cfg).Run s₀ os s)
    (hcurrent : ∀ o ∈ os, o.Current cfg.format)
    (hdone : ∀ o ∈ os, ∀ n ∈ o.action.request, (s.requests n).Succeeded)
    (hstart : s₀.InSync cfg.format ∨ ∃ n, (s.requests n).swapped = true) : s.InSync cfg.format :=
  (synced_run hfresh hrun hcurrent).inSync (succeeded_of_done hfresh hrun hdone) hstart

/-- **By the schedule.** So it is where no write is renamed into place between a request's
look at the file and its swap. -/
theorem inSync_of_unwritten {s₀ : ApiState} (hfresh : s₀.Fresh) (hrun : (Api.system A D cfg).Run s₀ os s)
    (hunwritten : ∀ past o rest, os = past ++ o :: rest → ∀ n, o.action = .piece n .lock →
      ∀ q ∈ past, ∀ dashboardBuilt, q.action = .piece n (.read none dashboardBuilt) → q.before.file = o.before.file)
    (hdone : ∀ o ∈ os, ∀ n ∈ o.action.request, (s.requests n).Succeeded)
    (hstart : s₀.InSync cfg.format ∨ ∃ n, (s.requests n).swapped = true) : s.InSync cfg.format := by
  refine (synced_run hfresh hrun fun o ho => ?_).inSync (succeeded_of_done hfresh hrun hdone) hstart
  obtain ⟨past, rest, hos⟩ := List.append_of_mem ho
  exact current_of_unwritten hfresh hrun hos (hunwritten past o rest hos)

/-- A server in sync with its config file. -/
def syncedApi : ApiState := idleApi ⟨.paper, .default, ⟨∅⟩, .auto⟩ (.new ⟨0, 0, 0⟩ 0)

theorem inSync_syncedApi : syncedApi.InSync armableServer.format := ⟨.auto, by decide, rfl, rfl, rfl⟩

/-- The config that holds every order. -/
def manualText : String := "[server]\napproval_mode = \"manual\"\n"

/-- It is written while a reload waits, which reads the file after. -/
def reloadAfterWrite : List ApiAction :=
  [.arrive 0 (some "admin-token") (.reload "admin-token") true,
    .arrive 1 (some "admin-token") (.writeConfig manualText "admin-token") true,
    .piece 1 (.write none), .piece 1 (.rename none), .piece 0 (.read none true), .piece 1 (.read none true),
    .piece 1 .lock, .piece 0 .lock]

/-- The step reads the file, or swaps in what was read. -/
def ApiAction.usesFile : ApiAction → Bool
  | .piece _ (.read ..) | .piece _ .lock => true
  | _ => false

theorem config_converges_reloadAfterWrite : ∃ os s,
    (Api.system .dec96 Sha256.digest armableServer).Run syncedApi os s ∧ s.InSync armableServer.format ∧
      s.file = manualText := by
  have hexec : ((Api.system .dec96 Sha256.digest armableServer).exec syncedApi reloadAfterWrite).map (fun r =>
      decide ((∀ o ∈ r.2, ∀ n ∈ o.action.request, (r.1.requests n).Succeeded) ∧ r.1.file = manualText ∧
        ∀ o ∈ r.2, o.action.usesFile = true → o.before.file = manualText)) = some true := by
    decide +kernel
  obtain ⟨⟨s, os⟩, hrun, hall⟩ := Option.map_eq_some_iff.mp hexec
  obtain ⟨hdone, hfile, huses⟩ := of_decide_eq_true hall
  refine ⟨os, s, .of_exec hrun, config_converges (fresh_idleApi _ _) (.of_exec hrun) ?_ hdone (.inl inSync_syncedApi),
    hfile⟩
  intro o ho
  obtain ⟨past, rest, rfl⟩ := List.append_of_mem ho
  refine current_of_unwritten (fresh_idleApi _ _) (.of_exec hrun) rfl fun n hlock q hq dashboardBuilt hread => ?_
  rw [huses q (List.mem_append_left _ hq) (by rw [hread]; rfl), huses o ho (by rw [hlock]; rfl)]

/-- The reload has read the file before the write. -/
def reloadAroundWrite : List ApiAction :=
  [.arrive 0 (some "admin-token") (.reload "admin-token") true, .piece 0 (.read none true),
    .arrive 1 (some "admin-token") (.writeConfig manualText "admin-token") true,
    .piece 1 (.write none), .piece 1 (.rename none), .piece 1 (.read none true), .piece 1 .lock, .piece 0 .lock]

/-- Both succeed, the file says that orders are held, and none is. -/
theorem stale_reload_wins : ¬ ∀ (s₀ s : ApiState) (os : List ApiRecord), s₀.Fresh →
    (Api.system .dec96 Sha256.digest armableServer).Run s₀ os s → s₀.InSync armableServer.format →
    (∀ o ∈ os, ∀ n ∈ o.action.request, (s.requests n).Succeeded) → s.InSync armableServer.format := by
  intro hclaim
  have hexec : ((Api.system .dec96 Sha256.digest armableServer).exec syncedApi reloadAroundWrite).map (fun r =>
      decide ((∀ o ∈ r.2, ∀ n ∈ o.action.request, (r.1.requests n).Succeeded) ∧ r.1.file = manualText ∧
        r.1.server.control.approvalMode = .auto)) = some true := by
    decide +kernel
  obtain ⟨⟨s, os⟩, hrun, hall⟩ := Option.map_eq_some_iff.mp hexec
  obtain ⟨hdone, hfile, hauto⟩ := of_decide_eq_true hall
  obtain ⟨config, hparse, hsame⟩ := hclaim _ _ _ (fresh_idleApi _ _) (.of_exec hrun) inSync_syncedApi hdone
  have hmanual : armableServer.format.parse manualText = .ok .manual := by decide
  rw [hfile, hmanual] at hparse
  obtain rfl := Except.ok.inj hparse
  have hmode : s.server.control.approvalMode = .manual := hsame.approvalMode
  rw [hauto] at hmode
  cases hmode

end Sherwood
