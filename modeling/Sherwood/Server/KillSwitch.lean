/-
# The kill switch and the orders in flight

The gate reads the kill switch once, under the control lock, and nothing after
it reads the switch again: not when the operator's approval comes, not when
the budget books. So an order that passed the gate before the switch was
engaged is still answered `allow` after (`engagedDuringApproval_allows`). An
order is let through under an engaged switch only if the switch was engaged
while the order was between its gate and its answer (`killSwitch_immediate`).

Key definitions: `Phase.Open`, `PendingOrder`, `EngagedBetweenOrders`.
Key theorems: `pendingOrder_gate`, `quiet_step`, `killSwitch_immediate`.
-/
import Sherwood.Server.Safety

namespace Sherwood

/-- A call that has passed the gate and may yet be allowed. -/
def Phase.Open : Phase → Prop
  | .held .. | .waiting .. | .cleared .. | .replying .allow => True
  | _ => False

instance : (p : Phase) → Decidable p.Open
  | .held .. | .waiting .. | .cleared .. | .replying .allow => .isTrue trivial
  | .idle | .received _ | .replying (.deny _) | .answered _ | .refused _ | .dropped | .panicked => .isFalse id

/-- After the records `os`, in `s`, the call `c` of a place-order tool has passed
the gate and may yet be allowed. -/
def PendingOrder (os : List ServerRecord) (s : ServerState) (c : ℕ) : Prop :=
  (∃ g ∈ os, g.gatesOrder c = true) ∧ (s.calls c).Open

/-- The step engages the kill switch. -/
def ServerRecord.Engages (o : ServerRecord) : Prop :=
  o.before.control.killSwitch = false ∧ o.after.control.killSwitch = true

instance (o : ServerRecord) : Decidable o.Engages := inferInstanceAs (Decidable (_ ∧ _))

/-- No step engages the kill switch while an order is pending. -/
def EngagedBetweenOrders (os : List ServerRecord) : Prop :=
  ∀ past o rest, os = past ++ o :: rest → o.Engages → ∀ c, ¬ PendingOrder past o.before c

variable {A : Arith} {os : List ServerRecord} {o : ServerRecord} {s s' : ServerState} {c : ℕ}

theorem EngagedBetweenOrders.snoc (h : EngagedBetweenOrders (os ++ [o])) :
    EngagedBetweenOrders os ∧ (o.Engages → ∀ c, ¬ PendingOrder os o.before c) := by
  constructor
  · intro past o' rest hos
    exact h past o' (rest ++ [o]) (by simp [hos])
  · exact h os o [] rfl

/-! ### One step -/

/-- The pieces of a call leave the control state alone. -/
theorem Moved.control {e : ServerEvent} (h : Moved A s s' e) (hc : e.call = some c) : s'.control = s.control := by
  cases h with
  | other _ _ hnone _ => simp [hnone] at hc
  | _ => rfl

theorem Moved.gate_received {e : ServerEvent} (h : Moved A s s' e) (hg : e.isGate c = true) :
    ∃ req, s.calls c = .received req := by
  cases h with
  | @gated c' req now parsedAt reparsedAt outcome hc heval =>
    obtain rfl : c' = c := of_decide_eq_true hg
    exact ⟨req, hc⟩
  | other _ _ hnone _ => cases e <;> simp [ServerEvent.isGate, ServerEvent.call] at hg hnone
  | _ => simp [ServerEvent.isGate] at hg

/-- A call comes to be open by its gate only. -/
theorem Moved.isOpen {e : ServerEvent} (h : Moved A s s' e) (hg : e.isGate c = false)
    (ho : (s'.calls c).Open) : (s.calls c).Open := by
  -- what has moved was open before, or is not open now
  have hset : ∀ (s₀ : ServerState) (c' : ℕ) (p : Phase), s₀.calls = s.calls →
      (c = c' → p.Open → (s.calls c).Open) → ((s₀.setCall c' p).calls c).Open → (s.calls c).Open := by
    intro s₀ c' p hcalls hmoved
    exact setCall_calls (motive := fun q => q.Open → (s.calls c).Open) hcalls hmoved fun _ => id
  cases h with
  | received hc => exact hset _ _ _ rfl (fun _ hp => by exact hp.elim) ho
  | refused hc => exact hset _ _ _ rfl (fun _ hp => by exact hp.elim) ho
  | gated hc heval =>
    exact hset _ _ _ rfl (fun hcc _ => by simp [ServerEvent.isGate, hcc] at hg) ho
  | enqueued hc => exact hset _ _ _ rfl (fun hcc _ => by rw [hcc, hc]; trivial) ho
  | resumed hc hpoll => exact hset _ _ _ rfl (fun hcc _ => by rw [hcc, hc]; trivial) ho
  | booked hc hn htry => exact hset _ _ _ rfl (fun hcc _ => by rw [hcc, hc]; trivial) ho
  | breached hc htry => exact hset _ _ _ rfl (fun hcc _ => by rw [hcc, hc]; trivial) ho
  | replied hc => exact hset _ _ _ rfl (fun _ hp => by exact hp.elim) ho
  | dropped hf => exact hset _ _ _ rfl (fun _ hp => by exact hp.elim) ho
  | panicked hf => exact hset _ _ _ rfl (fun _ hp => by exact hp.elim) ho
  | decided hd => exact ho
  | swept => exact ho
  | other hcalls _ _ _ => rw [hcalls] at ho; exact ho

/-- A pending order passed the gate, and the switch was not engaged there. -/
theorem pendingOrder_gate (hI : Inv A os s) (h : PendingOrder os s c) :
    ∃ g, gatesOf c os = [g] ∧ g.before.control.killSwitch = false := by
  obtain ⟨⟨g₀, hg₀, horder⟩, hopen⟩ := h
  have hgated : ∀ g req order, Gated A g c req order → g.before.control.killSwitch = false := by
    rintro g req order ⟨-, -, -, hcheck, -⟩
    exact (RiskGate.check_ok_priced hcheck).1.running
  have hphase := hI.phase c
  revert hopen hphase
  cases s.calls c with
  | held req order =>
    rintro - ⟨-, g, hgates, hg⟩
    exact ⟨g, hgates, hgated _ _ _ hg⟩
  | waiting req order ticket =>
    rintro - ⟨-, ⟨g, hgates, hg⟩, -⟩
    exact ⟨g, hgates, hgated _ _ _ hg⟩
  | cleared req order =>
    rintro - ⟨-, g, hv⟩
    exact ⟨g, hv.gates, hgated _ _ _ hv.gated⟩
  | replying outcome =>
    cases outcome with
    | deny reason => exact fun hopen _ => hopen.elim
    | allow =>
      rintro - hverdict
      obtain ⟨req, order, notional, hv, -, -⟩ := hverdict.vetted hg₀ horder
      exact ⟨g₀, hv.gates, hgated _ _ _ hv.gated⟩
  | _ => exact fun hopen _ => hopen.elim

/-- While the kill switch is engaged no order is pending. -/
def Quiet (os : List ServerRecord) (s : ServerState) : Prop :=
  s.control.killSwitch = true → ∀ c, ¬ PendingOrder os s c

/-- **One step.** A step that does not engage the switch on a pending order keeps
it so. -/
theorem quiet_step (hI : Inv A os s) (hq : Quiet os s) (hb : o.before = s) (ha : o.after = s')
    (h : Moved A s s' o.event) (hcond : o.Engages → ∀ c, ¬ PendingOrder os o.before c) :
    Quiet (os ++ [o]) s' := by
  intro hkill c hpending
  obtain ⟨g, hgates, hoff⟩ := pendingOrder_gate (inv_step hI hb ha h) hpending
  obtain ⟨⟨g', hg', horder⟩, hopen⟩ := hpending
  have hgate := ServerRecord.isGate_of_gatesOrder horder
  obtain rfl := gate_eq hgates hg' hgate
  rcases List.mem_append.mp hg' with hmem | hmem
  · -- the order was pending before, so the step is not one of engaging
    have hnot : o.event.isGate c = false := by
      by_contra hisGate
      rw [Bool.not_eq_false] at hisGate
      obtain ⟨req, hreceived⟩ := h.gate_received hisGate
      have hphase := hI.phase c
      rw [hreceived] at hphase
      have hmem' : g' ∈ gatesOf c os := List.mem_filter.mpr ⟨hmem, hgate⟩
      rw [hphase.1] at hmem'
      exact absurd hmem' List.not_mem_nil
    have hpending : PendingOrder os s c := ⟨⟨g', hmem, horder⟩, h.isOpen hnot hopen⟩
    by_cases hk : s.control.killSwitch = true
    · exact hq hk c hpending
    · have hengages : o.Engages := ⟨by rw [hb]; simpa using hk, by rw [ha]; exact hkill⟩
      exact hcond hengages c (by rw [hb]; exact hpending)
  · -- the order was gated now, under the switch as it still is
    rw [List.mem_singleton.mp hmem] at hoff hgate
    have hcall : o.event.call = some c := by
      by_contra hne
      rw [isGate_of_call_ne hne] at hgate
      simp at hgate
    rw [hb, ← h.control hcall |> congrArg Control.killSwitch, hkill] at hoff
    simp at hoff

/-! ### Every run -/

/-- The answers so far: an allowed order met a switch that was not engaged. -/
def AllowedOff (os : List ServerRecord) : Prop :=
  ∀ o ∈ os, ∀ c, o.event = .replied c .allow → (∃ g ∈ os, g.gatesOrder c = true) →
    o.before.control.killSwitch = false

theorem allowedOff_step (hI : Inv A os s) (hq : Quiet os s) (hb : o.before = s) (h : Moved A s s' o.event)
    (hold : AllowedOff os) : AllowedOff (os ++ [o]) := by
  rintro o₁ ho₁ c he ⟨g, hg, horder⟩
  have hgate := ServerRecord.isGate_of_gatesOrder horder
  rcases List.mem_append.mp ho₁ with ho₁ | ho₁
  · rcases List.mem_append.mp hg with hg | hg
    · exact hold o₁ ho₁ c he ⟨g, hg, horder⟩
    · -- a call that was answered is not gated again
      rw [List.mem_singleton.mp hg] at hgate
      obtain ⟨req, hreceived⟩ := h.gate_received hgate
      have hanswered := hI.answered o₁ ho₁ c .allow he
      simp [hreceived] at hanswered
  · rw [List.mem_singleton.mp ho₁] at he ⊢
    rcases List.mem_append.mp hg with hg | hg
    · have hreplying : s.calls c = .replying .allow := (h.replied_calls he).1
      by_contra hk
      rw [hb, Bool.not_eq_false] at hk
      exact hq hk c ⟨⟨g, hg, horder⟩, by rw [hreplying]; trivial⟩
    · rw [List.mem_singleton.mp hg, he] at hgate
      simp [ServerEvent.isGate] at hgate

variable {cfg : ServerConfig} {control : Control} {timeout : ℕ} {budget : SessionBudget}

/-- **When the switch is immediate.** In every run in which no step engages the
kill switch while an order is between its gate and its answer, no order is
answered `allow` while the kill switch is engaged. -/
theorem killSwitch_immediate (h : (Server.system A cfg).Run (.start control timeout budget) os s)
    (hbetween : EngagedBetweenOrders os) (o : ServerRecord) (ho : o ∈ os) (c : ℕ)
    (he : o.event = .replied c .allow) (horder : ∃ g ∈ os, g.gatesOrder c = true) :
    o.before.control.killSwitch = false := by
  have hall : EngagedBetweenOrders os → Quiet os s ∧ AllowedOff os := by
    refine Lts.Run.inv (P := fun os s => EngagedBetweenOrders os → Quiet os s ∧ AllowedOff os) ?_ ?_ h
    · intro _
      refine ⟨?_, by simp [AllowedOff]⟩
      rintro - c ⟨⟨g, hg, -⟩, -⟩
      exact absurd hg List.not_mem_nil
    · intro os s a s' o hrun ih hs hbetween
      obtain ⟨hpast, hlast⟩ := hbetween.snoc
      obtain ⟨hq, hoff⟩ := ih hpast
      obtain ⟨hb, ha, hmoved⟩ := ServerState.step_moved hs
      have hI := inv_run hrun
      exact ⟨quiet_step hI hq hb ha hmoved hlast, allowedOff_step hI hq hb hmoved hoff⟩
  exact (hall hbetween).2 o ho c he horder

/-- It is enough that no call of the run is open when the switch is engaged. -/
theorem engagedBetween_of_calls
    (h : ∀ o ∈ os, o.Engages → ∀ g ∈ os, ∀ c ∈ g.event.call, ¬ (o.before.calls c).Open) :
    EngagedBetweenOrders os := by
  rintro past o rest rfl hengages c ⟨⟨g, hg, horder⟩, hopen⟩
  have hcall : g.event.call = some c := by
    obtain ⟨req, now, parsedAt, reparsedAt, he, -⟩ := ServerRecord.gatesOrder_iff.mp horder
    rw [he]
    rfl
  exact h o (by simp) hengages g (List.mem_append_left _ hg) c hcall hopen

/-- An order is approved and answered, the switch is engaged, and a second order
is denied at its gate. -/
def engagedAfterAnswer : List ServerAction :=
  [.arrive 0 (some "operator-token") (.ok (buyRequest 2)), .gate 0 .epoch .epoch .epoch, .enqueue 0 .epoch .epoch,
    .approval (some "operator-token") "apr-0-1" "approve" none .epoch, .poll 0 false, .record 0 0 0, .reply 0,
    .kill (some "admin-token") "admin-token" true,
    .arrive 1 (some "operator-token") (.ok (buyRequest 2)), .gate 1 .epoch .epoch .epoch, .reply 1]

theorem killSwitch_immediate_engagedAfterAnswer :
    ∃ os s, (Server.system .dec96 twoTokens).Run manualServer os s ∧ (∃ o ∈ os, o.Engages) ∧
      ∃ o ∈ os, o.event = .replied 0 .allow ∧ o.before.control.killSwitch = false := by
  have hexec : ((Server.system .dec96 twoTokens).exec manualServer engagedAfterAnswer).map (fun r =>
      decide ((∃ o ∈ r.2, o.Engages) ∧ (∃ o ∈ r.2, o.event.reply = some (0, .allow)) ∧
        (∃ g ∈ r.2, g.gatesOrder 0 = true) ∧
        ∀ o ∈ r.2, o.Engages → ∀ g ∈ r.2, ∀ c ∈ g.event.call, ¬ (o.before.calls c).Open)) = some true := by
    decide +kernel
  obtain ⟨⟨s, os⟩, hrun, hlog⟩ := Option.map_eq_some_iff.mp hexec
  obtain ⟨hengages, ⟨o, ho, he⟩, horder, hcalls⟩ := of_decide_eq_true hlog
  rw [ServerEvent.reply_eq_some] at he
  exact ⟨os, s, .of_exec hrun, hengages, o, ho, he,
    killSwitch_immediate (.of_exec hrun) (engagedBetween_of_calls hcalls) o ho 0 he horder⟩

/-- The operator approves. -/
def ServerEvent.isApproval : ServerEvent → Bool
  | .decided .approved _ => true
  | _ => false

theorem ServerEvent.isApproval_iff {e : ServerEvent} :
    e.isApproval = true ↔ ∃ entry, e = .decided .approved entry := by
  cases e with
  | decided state entry => cases state <;> simp [ServerEvent.isApproval]
  | _ => simp [ServerEvent.isApproval]

/-- An order waits for its approval, the switch is engaged, and then the operator
approves. -/
def engagedDuringApproval : List ServerAction :=
  [.arrive 0 (some "operator-token") (.ok (buyRequest 2)), .gate 0 .epoch .epoch .epoch, .enqueue 0 .epoch .epoch,
    .kill (some "admin-token") "admin-token" true,
    .approval (some "operator-token") "apr-0-1" "approve" none .epoch, .poll 0 false, .record 0 0 0, .reply 0]

/-- The order is allowed, under an engaged switch. -/
theorem engagedDuringApproval_allows :
    ∃ os s, (Server.system .dec96 twoTokens).Run manualServer os s ∧ (∃ g ∈ os, g.gatesOrder 0 = true) ∧
      (∃ o ∈ os, (∃ entry, o.event = .decided .approved entry) ∧ o.before.control.killSwitch = true) ∧
      ∃ o ∈ os, o.event = .replied 0 .allow ∧ o.before.control.killSwitch = true := by
  have hexec : ((Server.system .dec96 twoTokens).exec manualServer engagedDuringApproval).map (fun r =>
      decide ((∃ g ∈ r.2, g.gatesOrder 0 = true) ∧
        (∃ o ∈ r.2, o.event.isApproval = true ∧ o.before.control.killSwitch = true) ∧
        ∃ o ∈ r.2, o.event.reply = some (0, .allow) ∧ o.before.control.killSwitch = true)) = some true := by
    decide +kernel
  obtain ⟨⟨s, os⟩, hrun, hlog⟩ := Option.map_eq_some_iff.mp hexec
  obtain ⟨hgated, ⟨o, ho, happroval, hkill⟩, o', ho', he, hkill'⟩ := of_decide_eq_true hlog
  rw [ServerEvent.reply_eq_some] at he
  exact ⟨os, s, .of_exec hrun, hgated, ⟨o, ho, ServerEvent.isApproval_iff.mp happroval, hkill⟩, o', ho', he, hkill'⟩

end Sherwood
