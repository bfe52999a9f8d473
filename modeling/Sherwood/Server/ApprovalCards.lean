/-
# The approval cards

The dashboard asks for the approvals every two seconds and after each decision, shows the answer
that came last, and for a pending one has the buttons; a button posts the decision under the
approval's id. Between what the operator sees and what the server does lie answers that come late,
in any order or not at all, other pages, other operators, and everything the server does in the
meantime.

What a click decides is what its card shows: an order that is let through in manual mode was
approved under its own approval, and if by a click, then on a card that shows this very order
(`approved_is_shown`).

Key definitions: `Console.system`, `Click`, `Known`, `ApprovedAsShown`.
Key theorems: `known_eq`, `decision_of_click`, `Console.inv_run`, `approved_is_shown`.
-/
import Sherwood.Server.ApprovalHistory
import Sherwood.Server.Safety

namespace Sherwood

/-- The buttons of a card. -/
inductive Button where
  | approve
  | deny
  deriving DecidableEq, Repr

/-- What it posts. -/
def Button.decision : Button → String
  | .approve => "approve"
  | .deny => "deny"

def Button.target : Button → ApprovalState
  | .approve => .approved
  | .deny => .denied

/-- A click on a card, with the page's token. -/
structure Click where
  token : String
  card : Approval
  button : Button

/-- The server; what each page shows, and the answers on their way to it; and the clicks whose
posts are on their way. -/
structure Console where
  server : ServerState
  pages : ℕ → List Approval
  answers : ℕ → List (List Approval)
  posts : List Click

/-- A step of the server, of which any client may be the cause; a page's poll is answered; an
answer arrives; a button is clicked on the `i`-th card; a post arrives. -/
inductive ConsoleAction where
  | server (a : ServerAction)
  | poll (p : ℕ)
  | arrive (p n : ℕ)
  | click (p i : ℕ) (token : String) (button : Button)
  | deliver (k : ℕ) (now : DateTime)

/-- What the server did, and the click it did it for. -/
structure ConsoleRecord where
  server : Option ServerRecord
  click : Option Click

namespace Console

def poll (s : Console) (p : ℕ) : Console :=
  { s with answers := Function.update s.answers p (s.answers p ++ [s.server.approvals.list]) }

/-- `setData` of `usePoll`. -/
def arrive (s : Console) (p n : ℕ) : Option Console :=
  match (s.answers p)[n]? with
  | none => none
  | some cards =>
    some { s with pages := Function.update s.pages p cards
                  answers := Function.update s.answers p ((s.answers p).eraseIdx n) }

/-- `decide` of a card that is pending. -/
def click (s : Console) (p i : ℕ) (token : String) (button : Button) : Option Console :=
  match (s.pages p)[i]? with
  | none => none
  | some card => if card.state = .pending then some { s with posts := s.posts ++ [⟨token, card, button⟩] } else none

def deliver (A : Arith) (cfg : ServerConfig) (s : Console) (k : ℕ) (now : DateTime) :
    Option (Console × ConsoleRecord) :=
  match s.posts[k]? with
  | none => none
  | some c =>
    (s.server.step A cfg (.approval (some c.token) c.card.id c.button.decision none now)).map fun (server, o) =>
      ({ s with server, posts := s.posts.eraseIdx k }, ⟨some o, some c⟩)

def step (A : Arith) (cfg : ServerConfig) (s : Console) : ConsoleAction → Option (Console × ConsoleRecord)
  | .server a => (s.server.step A cfg a).map fun (server, o) => ({ s with server }, ⟨some o, none⟩)
  | .poll p => some (s.poll p, ⟨none, none⟩)
  | .arrive p n => (s.arrive p n).map fun s => (s, ⟨none, none⟩)
  | .click p i token button => (s.click p i token button).map fun s => (s, ⟨none, none⟩)
  | .deliver k now => s.deliver A cfg k now

/-- Empty pages. -/
def start (server : ServerState) : Console := ⟨server, fun _ => [], fun _ => [], []⟩

def system (A : Arith) (cfg : ServerConfig) : Lts Console ConsoleAction ConsoleRecord := ⟨step A cfg⟩

end Console

/-- The server's records. -/
def consoleLog (os : List ConsoleRecord) : List ServerRecord := os.filterMap ConsoleRecord.server

/-! ### What is known of a card -/

/-- A card is of an approval that was queued, and shows its order. -/
def Known (log : List ServerRecord) (a : Approval) : Prop :=
  ∃ o ∈ log, ∃ c queued ch, o.event = .enqueued c queued ch ∧ a.id = queued.id ∧ a.order = queued.order

/-- The id of a queued approval tells its channel. -/
def Numbered (log : List ServerRecord) : Prop :=
  ∀ o ∈ log, ∀ c queued ch, o.event = .enqueued c queued ch → ∃ ms, queued.id = approvalId ms ch

section

variable {A : Arith} {cfg : ServerConfig} {log : List ServerRecord} {o : ServerRecord} {server server' : ServerState}
  {a : Approval} {os : List ConsoleRecord} {s : Console}

theorem Known.snoc (h : Known log a) (o : ServerRecord) : Known (log ++ [o]) a := by
  obtain ⟨o', ho', hqueued⟩ := h
  exact ⟨o', List.mem_append_left _ ho', hqueued⟩

theorem known_of_list (hI : Inv A log server) (h : a ∈ server.approvals.list) : Known log a := by
  obtain ⟨e, he, rfl⟩ := ApprovalStore.mem_list.mp h
  obtain ⟨o, ho, c, queued, henq, hid, horder⟩ := hI.entries e he
  exact ⟨o, ho, c, queued, e.tx, henq, hid, horder⟩

/-- **Ids.** A card and an entry of one id show one order. -/
theorem known_eq (hI : Inv A log server) (hnumbered : Numbered log) (ha : Known log a) {e : Entry}
    (he : e ∈ server.approvals.entries) (hid : a.id = e.approval.id) : a.order = e.approval.order := by
  obtain ⟨o, ho, c, queued, ch, henq, haid, haorder⟩ := ha
  obtain ⟨o', ho', c', queued', henq', heid, heorder⟩ := hI.entries e he
  obtain ⟨ms, hms⟩ := hnumbered o ho c queued ch henq
  obtain ⟨ms', hms'⟩ := hnumbered o' ho' c' queued' e.tx henq'
  have hch : ch = e.tx := approvalId_injective (by rw [← hms, ← haid, hid, heid, hms'])
  subst hch
  obtain ⟨-, rfl⟩ := hI.unique o ho o' ho' c c' queued queued' e.tx henq henq'
  rw [haorder, heorder]

theorem Numbered.step (h : Numbered log) (hmoved : Moved A server server' o.event) : Numbered (log ++ [o]) := by
  intro o₁ ho₁ c queued ch henq
  rcases List.mem_append.mp ho₁ with ho₁ | ho₁
  · exact h o₁ ho₁ c queued ch henq
  · rw [List.mem_singleton.mp ho₁] at henq
    rw [henq] at hmoved
    cases hmoved with
    | @enqueued _ _ _ idAt createdAt hc => exact ⟨_, rfl⟩
    | other _ _ hnone _ => simp [ServerEvent.call] at hnone

/-- What the post of a click decides is the entry of its card. -/
theorem decision_of_click {click : Click} {now : DateTime} {state : ApprovalState} {entry : Option Entry}
    (hstep : server.step A cfg (.approval (some click.token) click.card.id click.button.decision none now) =
      some (server', o)) (he : o.event = .decided state entry) :
    state = click.button.target ∧ entry = server.approvals.find click.card.id := by
  obtain ⟨⟨server₁, e⟩, hmove, heq⟩ := Option.map_eq_some_iff.mp hstep
  obtain ⟨rfl, rfl⟩ := Prod.mk.inj heq
  change some (server.approval cfg _ _ _ _ _) = some (server₁, e) at hmove
  rw [Option.some.injEq] at hmove
  have hevent : (server.approval cfg (some click.token) click.card.id click.button.decision none now).2 =
      .decided state entry := by
    rw [hmove]
    exact he
  unfold ServerState.approval at hevent
  split at hevent
  · simp at hevent
  · dsimp only at hevent
    split at hevent
    · simp at hevent
    · next target hdecision =>
      have htarget : target = click.button.target := by
        revert hdecision
        cases click.button with
        | approve => exact fun h => (Option.some.inj h).symm
        | deny => exact fun h => (Option.some.inj h).symm
      subst htarget
      split at hevent
      · simp at hevent
      · obtain ⟨rfl, rfl⟩ := ServerEvent.decided.inj hevent
        exact ⟨rfl, rfl⟩
      · simp at hevent

theorem mem_of_find {st : ApprovalStore} {id : String} {e : Entry} (h : st.find id = some e) :
    e ∈ st.entries ∧ e.approval.id = id :=
  ⟨List.mem_of_find?_eq_some h, by simpa using List.find?_some h⟩

/-! ### Runs -/

/-- What a click approves or denies is on its card. -/
def ConsoleRecord.AsShown (r : ConsoleRecord) : Prop :=
  ∀ click o state e, r.click = some click → r.server = some o → o.event = .decided state (some e) →
    state = click.button.target ∧ click.card.state = .pending ∧ click.card.id = e.approval.id ∧
      click.card.order = e.approval.order

theorem consoleLog_snoc {r : ConsoleRecord} : consoleLog (os ++ [r]) = consoleLog os ++ r.server.toList := by
  rw [consoleLog, List.filterMap_append]
  cases h : r.server with
  | none => simp [h, consoleLog]
  | some o => simp [h, consoleLog]

namespace Console

/-- **The invariant.** Every card, wherever it is, is known. -/
structure Inv (A : Arith) (cfg : ServerConfig) (server : ServerState) (os : List ConsoleRecord) (s : Console) :
    Prop where
  run : (Server.system A cfg).Run server (consoleLog os) s.server
  numbered : Numbered (consoleLog os)
  pages : ∀ p, ∀ a ∈ s.pages p, Known (consoleLog os) a
  answers : ∀ p, ∀ cards ∈ s.answers p, ∀ a ∈ cards, Known (consoleLog os) a
  posts : ∀ c ∈ s.posts, Known (consoleLog os) c.card ∧ c.card.state = .pending
  shown : ∀ r ∈ os, r.AsShown

theorem Inv.server_step {a : ServerAction} {click : Option Click} (hI : Inv A cfg server os s)
    (hstep : s.server.step A cfg a = some (server', o)) (hshown : (ConsoleRecord.mk (some o) click).AsShown) :
    Inv A cfg server (os ++ [⟨some o, click⟩]) { s with server := server' } := by
  obtain ⟨-, -, hmoved⟩ := ServerState.step_moved hstep
  have hlog : consoleLog (os ++ [⟨some o, click⟩]) = consoleLog os ++ [o] := consoleLog_snoc
  refine ⟨?_, ?_, fun p a ha => ?_, fun p cards hcards a ha => ?_, fun c hc => ?_, ?_⟩
  · rw [hlog]
    exact .snoc hI.run hstep
  · rw [hlog]
    exact hI.numbered.step hmoved
  · rw [hlog]
    exact (hI.pages p a ha).snoc o
  · rw [hlog]
    exact (hI.answers p cards hcards a ha).snoc o
  · rw [hlog]
    exact ⟨(hI.posts c hc).1.snoc o, (hI.posts c hc).2⟩
  · exact List.forall_mem_append.mpr ⟨hI.shown, List.forall_mem_singleton.mpr hshown⟩

theorem Inv.page_step {s' : Console} (hI : Inv A cfg server os s) (hserver : s'.server = s.server)
    (hpages : ∀ p, ∀ a ∈ s'.pages p, Known (consoleLog os) a)
    (hanswers : ∀ p, ∀ cards ∈ s'.answers p, ∀ a ∈ cards, Known (consoleLog os) a)
    (hposts : ∀ c ∈ s'.posts, Known (consoleLog os) c.card ∧ c.card.state = .pending) :
    Inv A cfg server (os ++ [⟨none, none⟩]) s' := by
  have hlog : consoleLog (os ++ [⟨none, none⟩]) = consoleLog os := consoleLog_snoc.trans (List.append_nil _)
  refine ⟨?_, ?_, ?_, ?_, ?_, ?_⟩
  · rw [hlog, hserver]
    exact hI.run
  · rw [hlog]
    exact hI.numbered
  · rw [hlog]
    exact hpages
  · rw [hlog]
    exact hanswers
  · rw [hlog]
    exact hposts
  · exact List.forall_mem_append.mpr ⟨hI.shown, List.forall_mem_singleton.mpr fun _ _ _ _ hclick => by simp at hclick⟩

variable {control : Control} {timeout : ℕ} {budget : SessionBudget}

theorem Inv.poll {p : ℕ} (hI : Inv A cfg (.start control timeout budget) os s) :
    Inv A cfg (.start control timeout budget) (os ++ [⟨none, none⟩]) (s.poll p) := by
  refine hI.page_step rfl hI.pages (fun q cards hcards a ha => ?_) hI.posts
  by_cases hq : q = p
  · have hlist : (s.poll p).answers q = s.answers p ++ [s.server.approvals.list] := by simp [Console.poll, hq]
    rw [hlist] at hcards
    rcases List.mem_append.mp hcards with hcards | hcards
    · exact hI.answers p cards hcards a ha
    · rw [List.mem_singleton.mp hcards] at ha
      exact known_of_list (Sherwood.inv_run hI.run) ha
  · have hsame : (s.poll p).answers q = s.answers q := by simp [Console.poll, hq]
    rw [hsame] at hcards
    exact hI.answers q cards hcards a ha

theorem Inv.arrive {p n : ℕ} {s' : Console} (hI : Inv A cfg server os s) (hstep : s.arrive p n = some s') :
    Inv A cfg server (os ++ [⟨none, none⟩]) s' := by
  unfold Console.arrive at hstep
  split at hstep
  · simp at hstep
  · next cards hcards =>
    obtain rfl := Option.some.inj hstep
    refine hI.page_step rfl (fun q a ha => ?_) (fun q cards' hcards' a ha => ?_) hI.posts
    · dsimp only at ha
      by_cases hq : q = p
      · rw [hq, Function.update_self] at ha
        exact hI.answers p cards (List.mem_of_getElem? hcards) a ha
      · rw [Function.update_of_ne hq] at ha
        exact hI.pages q a ha
    · dsimp only at hcards'
      by_cases hq : q = p
      · rw [hq, Function.update_self] at hcards'
        exact hI.answers p cards' (List.mem_of_mem_eraseIdx hcards') a ha
      · rw [Function.update_of_ne hq] at hcards'
        exact hI.answers q cards' hcards' a ha

theorem Inv.click {p i : ℕ} {token : String} {button : Button} {s' : Console} (hI : Inv A cfg server os s)
    (hstep : s.click p i token button = some s') : Inv A cfg server (os ++ [⟨none, none⟩]) s' := by
  unfold Console.click at hstep
  split at hstep
  · simp at hstep
  · next card hcard =>
    obtain ⟨hpending, hstep⟩ := Option.ite_none_right_eq_some.mp hstep
    obtain rfl := Option.some.inj hstep
    refine hI.page_step rfl hI.pages hI.answers (List.forall_mem_append.mpr ⟨hI.posts, ?_⟩)
    exact List.forall_mem_singleton.mpr ⟨hI.pages p card (List.mem_of_getElem? hcard), hpending⟩

/-- The entry that a post finds has the order of its card. -/
theorem Inv.deliver {k : ℕ} {now : DateTime} {s' : Console} {r : ConsoleRecord}
    (hI : Inv A cfg (.start control timeout budget) os s) (hstep : s.deliver A cfg k now = some (s', r)) :
    Inv A cfg (.start control timeout budget) (os ++ [r]) s' := by
  unfold Console.deliver at hstep
  split at hstep
  · simp at hstep
  · next click hclick =>
    obtain ⟨⟨server', o⟩, hserver, heq⟩ := Option.map_eq_some_iff.mp hstep
    obtain ⟨rfl, rfl⟩ := Prod.mk.inj heq
    obtain ⟨hknown, hpending⟩ := hI.posts click (List.mem_of_getElem? hclick)
    have hshown : (ConsoleRecord.mk (some o) (some click)).AsShown := by
      intro click' o' state e hc ho hevent
      obtain rfl := Option.some.inj hc
      obtain rfl := Option.some.inj ho
      obtain ⟨rfl, hfind⟩ := decision_of_click hserver hevent
      obtain ⟨hmem, hid⟩ := mem_of_find hfind.symm
      exact ⟨rfl, hpending, hid.symm, known_eq (Sherwood.inv_run hI.run) hI.numbered hknown hmem hid.symm⟩
    have hnext := hI.server_step hserver hshown
    exact ⟨hnext.run, hnext.numbered, hnext.pages, hnext.answers,
      fun c hc => hnext.posts c (List.mem_of_mem_eraseIdx hc), hnext.shown⟩

theorem inv_run (hrun : (system A cfg).Run (start (.start control timeout budget)) os s) :
    Inv A cfg (.start control timeout budget) os s := by
  refine Lts.Run.inv (P := Inv A cfg (.start control timeout budget)) ?_ ?_ hrun
  · exact ⟨.nil, fun o ho => by simp [consoleLog] at ho, fun p a ha => by simp [start] at ha,
      fun p cards hcards => by simp [start] at hcards, fun c hc => by simp [start] at hc, fun r hr => by simp at hr⟩
  · intro os s a s' r _ hI hstep
    cases a with
    | server a =>
      obtain ⟨⟨server', o⟩, hserver, heq⟩ := Option.map_eq_some_iff.mp hstep
      obtain ⟨rfl, rfl⟩ := Prod.mk.inj heq
      exact hI.server_step hserver fun _ _ _ _ hclick => by simp at hclick
    | poll p =>
      obtain ⟨rfl, rfl⟩ := Prod.mk.inj (Option.some.inj hstep)
      exact hI.poll
    | arrive p n =>
      obtain ⟨s₁, harrive, heq⟩ := Option.map_eq_some_iff.mp hstep
      obtain ⟨rfl, rfl⟩ := Prod.mk.inj heq
      exact hI.arrive harrive
    | click p i token button =>
      obtain ⟨s₁, hclick, heq⟩ := Option.map_eq_some_iff.mp hstep
      obtain ⟨rfl, rfl⟩ := Prod.mk.inj heq
      exact hI.click hclick
    | deliver k now => exact hI.deliver hstep

end Console

/-- The order of the call `c` was approved under an approval that no other call queued; and if by a
click, on a card that shows this order. -/
def ApprovedAsShown (os : List ConsoleRecord) (c : ℕ) (order : Order) : Prop :=
  ∃ r ∈ os, ∃ o e, r.server = some o ∧ o.event = .decided .approved (some e) ∧
    (∀ o' ∈ consoleLog os, ∀ c' a, o'.event = .enqueued c' a e.tx → c' = c) ∧
    ∀ click, r.click = some click → click.button = .approve ∧ click.card.state = .pending ∧
      click.card.id = e.approval.id ∧ click.card.order = .ofOrder order

/-- **What is shown.** In manual mode an order is let through only if it was approved as such:
whatever the pages show and however late, a click approves the order on its card. -/
theorem approved_is_shown {control : Control} {timeout : ℕ} {budget : SessionBudget}
    (hrun : (Console.system A cfg).Run (.start (.start control timeout budget)) os s) {g : ServerRecord} {c : ℕ}
    {req : HookRequest} {now parsedAt reparsedAt : DateTime} (hg : g ∈ consoleLog os)
    (hgated : g.event = .gated c req now parsedAt reparsedAt)
    (hclass : g.before.control.allowlist.classify req.toolCall.name = some .placeOrder)
    (hmanual : g.before.control.approvalMode = .manual)
    (hallow : ∃ o ∈ consoleLog os, o.event = .replied c .allow) :
    ∃ order, AllowedOrder A (consoleLog os) g c req now parsedAt order ∧ ApprovedAsShown os c order := by
  have hI := Console.inv_run hrun
  have hserver := Sherwood.inv_run hI.run
  have hverdict : Verdict A (consoleLog os) c .allow := by
    obtain ⟨o, ho, he⟩ := hallow
    have hphase := hserver.phase c
    rw [hserver.answered o ho c .allow he] at hphase
    exact hphase
  have horder : g.gatesOrder c = true :=
    ServerRecord.gatesOrder_iff.mpr ⟨req, now, parsedAt, reparsedAt, hgated, hclass⟩
  obtain ⟨req', order', notional, hvetted, hnotional, hbooked⟩ := hverdict.vetted hg horder
  obtain ⟨order, hallowed⟩ := hvetted.allowedOrder hserver hgated hnotional hbooked
  obtain ⟨a, ch, hqueued, ⟨o, ho, e, he, rfl, hid, hsame⟩, hown⟩ := hallowed.approved hmanual
  obtain ⟨r, hr, hro⟩ := List.mem_filterMap.mp ho
  refine ⟨order, hallowed, r, hr, o, e, hro, he, hown, fun click hclick => ?_⟩
  obtain ⟨htarget, hpending, hcard, hshown⟩ := hI.shown r hr click o .approved e hclick hro he
  refine ⟨?_, hpending, hcard, by rw [hshown, hsame, hqueued.summary]⟩
  cases hbutton : click.button with
  | approve => rfl
  | deny =>
    rw [hbutton] at htarget
    simp [Button.target] at htarget

end

/-! ### A card that is shown late -/

/-- The first order is queued and a page asks for the approvals; the answer comes when a second
order is queued, and the operator approves what it shows. -/
def lateCard : List ConsoleAction :=
  [.server (.arrive 0 (some "operator-token") (.ok (buyRequest 2))), .server (.gate 0 .epoch .epoch .epoch),
    .server (.enqueue 0 .epoch .epoch), .poll 5, .server (.arrive 1 (some "operator-token") (.ok (buyRequest 1))),
    .server (.gate 1 .epoch .epoch .epoch), .server (.enqueue 1 .epoch .epoch), .arrive 5 0,
    .click 5 0 "operator-token" .approve, .deliver 0 .epoch, .server (.poll 0 false), .server (.record 0 0 0),
    .server (.reply 0)]

/-- It approves the first. -/
theorem approved_is_shown_lateCard : ∃ os s, (Console.system .dec96 twoTokens).Run (.start manualServer) os s ∧
    (∃ r ∈ os, r.click.isSome) ∧ ∃ order, ApprovedAsShown os 0 order := by
  have hexec : ((Console.system .dec96 twoTokens).exec (.start manualServer) lateCard).map (fun r =>
      decide ((∃ q ∈ r.2, q.click.isSome) ∧ (∃ o ∈ consoleLog r.2, o.event.reply = some (0, .allow)) ∧
        ∃ g ∈ consoleLog r.2, g.gatesOrder 0 = true ∧ g.before.control.approvalMode = .manual)) = some true := by
    decide +kernel
  obtain ⟨⟨s, os⟩, hrun, hlog⟩ := Option.map_eq_some_iff.mp hexec
  obtain ⟨hclick, ⟨o, ho, hallow⟩, g, hg, hgate, hmanual⟩ := of_decide_eq_true hlog
  rw [ServerEvent.reply_eq_some] at hallow
  obtain ⟨req, now, parsedAt, reparsedAt, hgated, hclass⟩ := ServerRecord.gatesOrder_iff.mp hgate
  obtain ⟨order, -, hshown⟩ := approved_is_shown (.of_exec hrun) hg hgated hclass hmanual ⟨o, ho, hallow⟩
  exact ⟨os, s, .of_exec hrun, hclick, order, hshown⟩

end Sherwood
