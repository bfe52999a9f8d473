/-
# Recordings and sessions on one database

Any number of recordings of reconciled fills and of paper run sessions, each
taking its next piece whenever it gets to it. A recording and a session load
the snapshot, keep the portfolio in memory and save it later, with nothing
that tells them of a save in between.

So a save that changes the snapshot while another party has one loaded loses
the fills of one of them (`concurrent_recordings_lose_fill`). In a run without
such a save, whose sessions' subscribers keep up, the snapshot has every
recorded fill in the end (`no_lost_update`).

Key definitions: `Party`, `Parties.system`, `PartyRecord.Alone`.
Key theorems: `acts_turn`, `acts_called`, `inv_parties_run`, `no_lost_update`,
`concurrent_recordings_lose_fill`.
-/
import Sherwood.Cli.RunTask
import Sherwood.Lib.Lts
import Sherwood.Lib.SharedCell
import Sherwood.Reconcile.Record

namespace Sherwood

/-- A recording, or a session. -/
inductive Party where
  | recording (who : Recorder) (fill : Fill) (phase : RecordPhase)
  | session (cfg : RunConfig) (task : RunTask)

/-- The next call of a recording, or a piece of a session. -/
inductive PartyAction where
  | call (now : DateTime)
  | turn (a : RunAction)

/-- What a party did: a call, with what it wrote, or a piece of a session. -/
inductive PartyEvent where
  | called (w : Option StoreWrite)
  | turned (e : RunEvent)

namespace PartyEvent

def write? : PartyEvent → Option StoreWrite
  | .called w => w
  | .turned e => e.write?

def turn? : PartyEvent → Option RunEvent
  | .called _ => none
  | .turned e => some e

/-- The event a session publishes. -/
def published? : PartyEvent → Option Event
  | .turned (.published ev) => some ev
  | _ => none

end PartyEvent

namespace Party

/-- A party that has done nothing. -/
def Starting : Party → Prop
  | .recording _ _ phase => phase = .starting
  | .session _ task => task = .start

/-- It returned, without an error. -/
def finished : Party → Bool
  | .recording _ _ (.finished _) => true
  | .session _ ⟨.returned _, _, _, _⟩ => true
  | _ => false

/-- It has a snapshot loaded that it is to save. -/
def holds : Party → Bool
  | .recording _ _ (.loaded _) => true
  | .recording _ _ (.booking _) => true
  | .session _ ⟨.running _, _, _, _⟩ => true
  | _ => false

/-- Its subscriber is not as far behind as the bus keeps. -/
def hasRoom : Party → Bool
  | .recording _ _ _ => true
  | .session cfg task => task.bus.unread < cfg.capacity

/-- The portfolio it starts from when it loads. -/
def base (store : Store) : Party → Option Portfolio
  | .recording who _ _ => RecordPhase.loadedBy who store
  | .session cfg _ => some (store.loadOrNew cfg.startingCash)

/-- One call or one piece. -/
def move (store : Store) : Party → PartyAction → Option (Party × PartyEvent)
  | .recording who fill phase, .call now =>
    (phase.advance who fill store now).map fun r => (.recording who fill r.1, .called r.2)
  | .session cfg task, .turn a => (task.move cfg store a).map fun r => (.session cfg r.1, .turned r.2)
  | _, _ => none

end Party

/-- The database and the parties on it. -/
structure Parties (ι : Type) where
  store : Store
  party : ι → Party

/-- What a party did. -/
structure PartyRecord (ι : Type) where
  before : Parties ι
  who : ι
  event : PartyEvent
  after : Parties ι

variable {ι : Type} [DecidableEq ι]

def Parties.step (D : Digest) (s : Parties ι) (a : ι × PartyAction) : Option (Parties ι × PartyRecord ι) :=
  ((s.party a.1).move s.store a.2).map fun r =>
    let after : Parties ι := ⟨s.store.writeAll D r.2.write?.toList, Function.update s.party a.1 r.1⟩
    (after, ⟨s, a.1, r.2, after⟩)

/-- The parties as a system: whichever is next takes a step. -/
def Parties.system (ι : Type) [DecidableEq ι] (D : Digest) : Lts (Parties ι) (ι × PartyAction) (PartyRecord ι) :=
  ⟨Parties.step D⟩

/-- The snapshot, `first` being the one there was when all began. -/
def latest (first : Portfolio) (store : Store) : Portfolio := store.loadPortfolio.getD first

/-- No snapshot is changed while another party has one loaded. -/
def PartyRecord.Alone (first : Portfolio) (o : PartyRecord ι) : Prop :=
  ∀ p ∈ o.event.write?.bind StoreWrite.save?, p ≠ latest first o.before.store →
    ∀ j, j ≠ o.who → (o.before.party j).holds = false

/-- There is room on the bus for what is published. -/
def PartyRecord.Room (o : PartyRecord ι) : Prop := o.event.published?.isSome → (o.before.party o.who).hasRoom

/-! ### The parties as clients of the snapshot -/

/-- A session's copy, its records and what it saved. -/
def RunTask.client (es : List RunEvent) (t : RunTask) : Client Portfolio Fill where
  held := match t.stage with
    | .running _ => (loads es).head?.map fun p => (p, appliedFills es)
    | _ => none
  logged := (writes es).filterMap StoreWrite.fill?
  saved := match t.stage with
    | .starting => []
    | .running _ => []
    | _ => appliedFills es

/-- A recording's copy, its record and what it saved. -/
def RecordPhase.client (fill : Fill) : RecordPhase → Client Portfolio Fill
  | .starting => ⟨none, [], []⟩
  | .loaded p => ⟨some (p, []), [], []⟩
  | .appended => ⟨none, [fill], []⟩
  | .booking p => ⟨some (p, [fill]), [fill], []⟩
  | .saved => ⟨none, [fill], [fill]⟩
  | .finished recorded => if recorded then ⟨none, [fill], [fill]⟩ else ⟨none, [], []⟩
  | .failed _ => ⟨none, [], []⟩

def Party.client (es : List RunEvent) : Party → Client Portfolio Fill
  | .recording _ fill phase => phase.client fill
  | .session _ task => task.client es

/-- What a piece of a session does to the snapshot. -/
def RunEvent.steps : RunEvent → List (CellStep Fill)
  | .loaded _ => [.read]
  | .ticked o => [.change o.fill.toList]
  | .wrote (.fill f) => [.log f]
  | .wrote (.save _) => [.write]
  | _ => []

/-- What the next call of a recording does to it. -/
def RecordPhase.steps (who : Recorder) (fill : Fill) (store : Store) : RecordPhase → List (CellStep Fill)
  | .starting => match who with
    | .server => if store.loadPortfolio.isSome then [.read] else []
    | .cli _ => [.log fill]
  | .loaded _ => [.change [fill], .log fill]
  | .appended => if (loadedBy who store).isSome then [.read, .change [fill]] else []
  | .booking _ => [.write]
  | _ => []

variable {D : Digest} {first : Portfolio} {store : Store} {c : SharedCell ι Portfolio Fill} {i : ι}

theorem latest_write (w : StoreWrite) : latest first (store.write D w) = w.save?.getD (latest first store) := by
  cases w <;> simp [latest, Store.write, Store.appendFill, Store.appendAudit, Store.savePortfolio,
    Store.loadPortfolio, StoreWrite.save?]

/-- A session's client stays, as long as it neither loads, applies, saves nor appends. -/
theorem RunTask.client_congr {t t' : RunTask} {es es' : List RunEvent} (hstage : t'.stage = t.stage)
    (hfill : appliedFills es' = appliedFills es) (hload : loads es' = loads es)
    (hlog : (writes es').filterMap StoreWrite.fill? = (writes es).filterMap StoreWrite.fill?) :
    t'.client es' = t.client es := by
  unfold client
  rw [hstage, hfill, hload, hlog]

theorem RunTask.client_told {t t' : RunTask} {e : RunEvent} (es : List RunEvent) (hstage : t'.stage = t.stage)
    (hf : e.fill? = none) (hl : e.load? = none) (hw : e.write? = none) : t'.client (es ++ [e]) = t.client es := by
  obtain ⟨hfill, hload, hwrites⟩ := RunTask.lists_snoc es hf hl hw
  exact client_congr hstage hfill hload (by rw [hwrites])

theorem acts_nil {c' : Client Portfolio Fill} (hvalue : c.value = latest first store) (hclient : c.client i = c') :
    c.acts Portfolio.apply i [] = ⟨latest first store, c.log ++ [], Function.update c.client i c'⟩ := by
  rw [← hvalue, ← hclient, Function.update_eq_self, List.append_nil]
  rfl

theorem acts_turn {cfg : RunConfig} {t t' : RunTask} {a : RunAction} {e : RunEvent} {es : List RunEvent}
    (hmove : t.move cfg store a = some (t', e)) (hi : t.Inv es)
    (hbase : store.loadOrNew cfg.startingCash = latest first store) (hvalue : c.value = latest first store)
    (hclient : c.client i = t.client es) :
    c.acts Portfolio.apply i e.steps = ⟨latest first (store.writeAll D e.write?.toList),
      c.log ++ (e.write?.bind StoreWrite.fill?).toList.map fun f => (i, f),
      Function.update c.client i (t'.client (es ++ [e]))⟩ := by
  have hstage := hi.stage
  cases RunTask.run_moved hmove with
  | loaded hs =>
    simp only [RunTask.StageInv, hs] at hstage
    obtain ⟨rfl, rfl⟩ := hstage
    simp only [RunEvent.steps, SharedCell.acts, List.foldl, SharedCell.act, SharedCell.withClient, hclient, hvalue,
      RunEvent.write?, Option.bind, Option.toList, List.map, List.append_nil, hbase]
    rfl
  | @ticked run run' a o hs ho htick =>
    simp only [RunTask.StageInv, hs] at hstage
    obtain ⟨-, -, p, hload, -⟩ := hstage
    obtain ⟨hfill, hloads, hwrites⟩ := RunTask.lists_ticked es o
    rw [hload] at hloads
    simp only [RunEvent.steps, SharedCell.acts, List.foldl, SharedCell.act, SharedCell.withClient, hclient, hvalue,
      RunEvent.write?, Option.bind, Option.toList, List.map, List.append_nil, RunTask.client, hs, hfill, hload,
      hloads, hwrites]
    rfl
  | published ho =>
    rw [RunTask.client_told es rfl rfl rfl rfl]
    exact acts_nil hvalue hclient
  | received hh hrecv =>
    rw [RunTask.client_told es rfl rfl rfl rfl]
    exact acts_nil hvalue hclient
  | lagged hh hrecv =>
    rw [RunTask.client_told es rfl rfl rfl rfl]
    exact acts_nil hvalue hclient
  | stopped hh hrecv =>
    rw [RunTask.client_told es rfl rfl rfl rfl]
    exact acts_nil hvalue hclient
  | @filled f hh =>
    obtain ⟨hfill, hload, hwrites⟩ := RunTask.lists_wrote es (.fill f)
    simp only [RunEvent.steps, SharedCell.acts, List.foldl, SharedCell.act, SharedCell.withClient, hclient, hvalue,
      RunEvent.write?, Option.bind, Option.toList, RunTask.client, hfill, hload, hwrites, List.filterMap_append]
    rfl
  | @audited kind data now hh =>
    obtain ⟨hfill, hload, hwrites⟩ := RunTask.lists_wrote es (.audit ⟨now, kind, data⟩)
    rw [RunTask.client_congr rfl hfill hload (by rw [hwrites]; simp [StoreWrite.fill?])]
    exact acts_nil hvalue hclient
  | @saved run interrupted hs ho =>
    obtain ⟨hfill, hload, hwrites⟩ := RunTask.lists_wrote es (.save run.portfolio)
    simp only [RunTask.StageInv, hs] at hstage
    obtain ⟨-, -, p, hloads, hport⟩ := hstage
    have hheld : (c.client i).held = some (p, appliedFills es) := by
      rw [hclient, RunTask.client, hs, hloads]
      rfl
    have hfold : (appliedFills es).foldl Portfolio.apply p = run.portfolio := hport.symm
    have hlog : (writes es ++ [StoreWrite.save run.portfolio]).filterMap StoreWrite.fill? =
        (writes es).filterMap StoreWrite.fill? := by simp [StoreWrite.fill?]
    have hsaved : latest first (store.writeAll D [.save run.portfolio]) = run.portfolio :=
      latest_write (D := D) (.save run.portfolio)
    simp only [RunEvent.steps, SharedCell.acts, List.foldl, SharedCell.act, hheld, SharedCell.withClient,
      RunEvent.write?, Option.toList, hsaved, hfold, RunTask.client, hfill, hwrites, hlog]
    rw [hclient, RunTask.client, hs]
    simp [StoreWrite.fill?]
  | dropped hs ho =>
    obtain ⟨hfill, hload, hwrites⟩ := RunTask.lists_snoc es (e := .dropped) rfl rfl rfl
    refine acts_nil hvalue (hclient.trans ?_)
    simp only [RunTask.client, hs, hfill, hwrites]
  | joined hs hh =>
    obtain ⟨hfill, hload, hwrites⟩ := RunTask.lists_snoc es (e := .joined) rfl rfl rfl
    refine acts_nil hvalue (hclient.trans ?_)
    simp only [RunTask.client, hs, hfill, hwrites]

theorem acts_called {who : Recorder} {fill : Fill} {phase phase' : RecordPhase} {now : DateTime} {w : Option StoreWrite}
    (hmove : phase.advance who fill store now = some (phase', w))
    (happended : phase = .appended → who ≠ .server)
    (hbase : ∀ p, RecordPhase.loadedBy who store = some p → p = latest first store)
    (hvalue : c.value = latest first store) (hclient : c.client i = phase.client fill) :
    c.acts Portfolio.apply i (phase.steps who fill store) = ⟨latest first (store.writeAll D w.toList),
      c.log ++ (w.bind StoreWrite.fill?).toList.map fun f => (i, f),
      Function.update c.client i (phase'.client fill)⟩ := by
  cases phase with
  | starting =>
    cases who with
    | server =>
      obtain ⟨rfl, rfl⟩ := Prod.mk.inj (Option.some.inj hmove)
      cases hload : store.loadPortfolio with
      | none =>
        simp only [RecordPhase.steps, hload, RecordPhase.loadedBy, Option.elim]
        exact acts_nil hvalue hclient
      | some p =>
        obtain rfl := hbase p hload
        simp only [RecordPhase.steps, hload, RecordPhase.loadedBy, Option.elim, Option.isSome, if_true,
          SharedCell.acts, List.foldl, SharedCell.act, SharedCell.withClient, hclient, hvalue, Option.bind, Option.toList,
          List.map, List.append_nil]
        rfl
    | cli startingCash =>
      obtain ⟨rfl, rfl⟩ := Prod.mk.inj (Option.some.inj hmove)
      simp only [RecordPhase.steps, SharedCell.acts, List.foldl, SharedCell.act, SharedCell.withClient, hclient, hvalue]
      rfl
  | loaded p =>
    obtain ⟨rfl, rfl⟩ := Prod.mk.inj (Option.some.inj hmove)
    simp only [RecordPhase.steps, SharedCell.acts, List.foldl, SharedCell.act, SharedCell.withClient, hclient, hvalue,
      Function.update_self, Function.update_idem]
    rfl
  | appended =>
    cases who with
    | server => exact absurd rfl (happended rfl)
    | cli startingCash =>
      obtain ⟨rfl, rfl⟩ := Prod.mk.inj (Option.some.inj hmove)
      have hload : RecordPhase.loadedBy (.cli startingCash) store = some (latest first store) :=
        congrArg some (hbase _ rfl)
      simp only [RecordPhase.steps, hload, Option.elim, Option.isSome, if_true, SharedCell.acts, List.foldl,
        SharedCell.act, SharedCell.withClient, hclient, hvalue, Function.update_self, Function.update_idem,
        Option.bind, Option.toList, List.map, List.append_nil]
      rfl
  | booking p =>
    obtain ⟨rfl, rfl⟩ := Prod.mk.inj (Option.some.inj hmove)
    have hheld : (c.client i).held = some (p, [fill]) := by rw [hclient, RecordPhase.client]
    have hsaved : latest first (store.writeAll D [.save (p.apply fill)]) = p.apply fill :=
      latest_write (D := D) (.save (p.apply fill))
    simp only [RecordPhase.steps, SharedCell.acts, List.foldl, SharedCell.act, hheld, SharedCell.withClient,
      Option.toList, hsaved]
    rw [hclient]
    simp [RecordPhase.client, StoreWrite.fill?]
  | saved =>
    obtain ⟨rfl, rfl⟩ := Prod.mk.inj (Option.some.inj hmove)
    exact acts_nil hvalue hclient
  | finished recorded => cases hmove
  | failed e => cases hmove

/-- What a party's next step does to the snapshot. -/
def Party.steps (store : Store) : Party → PartyEvent → List (CellStep Fill)
  | .recording who fill phase, _ => phase.steps who fill store
  | .session _ _, .turned e => e.steps
  | .session _ _, .called _ => []

/-- A server's recording never has appended its fill before it has loaded the snapshot. -/
def Party.Ordered : Party → Prop
  | .recording who _ phase => phase = .appended → who ≠ .server
  | .session _ _ => True

/-- A session satisfies the invariant of a task. -/
def Party.TaskInv (es : List RunEvent) : Party → Prop
  | .recording _ _ _ => True
  | .session cfg task => task.Inv es ∧ task.KeptUp cfg.capacity es

variable {party party' : Party} {a : PartyAction} {e : PartyEvent} {es : List RunEvent}

/-- What a party's step can be: a call of a recording, or a piece of a session. -/
inductive PartyMoved (store : Store) : Party → PartyAction → Party → PartyEvent → Prop where
  | called {who : Recorder} {fill : Fill} {phase phase' : RecordPhase} {now : DateTime} {w : Option StoreWrite}
    (hadv : phase.advance who fill store now = some (phase', w)) :
    PartyMoved store (.recording who fill phase) (.call now) (.recording who fill phase') (.called w)
  | turned {cfg : RunConfig} {task task' : RunTask} {a : RunAction} {ev : RunEvent}
    (hturn : task.move cfg store a = some (task', ev)) :
    PartyMoved store (.session cfg task) (.turn a) (.session cfg task') (.turned ev)

theorem party_moved (hmove : party.move store a = some (party', e)) : PartyMoved store party a party' e := by
  cases party with
  | recording who fill phase =>
    cases a with
    | turn a => cases hmove
    | call now =>
      obtain ⟨⟨phase', w⟩, hadv, heq⟩ := Option.map_eq_some_iff.mp hmove
      obtain ⟨rfl, rfl⟩ := Prod.mk.inj heq
      exact .called hadv
  | session cfg task =>
    cases a with
    | call now => cases hmove
    | turn a =>
      obtain ⟨⟨task', ev⟩, hturn, heq⟩ := Option.map_eq_some_iff.mp hmove
      obtain ⟨rfl, rfl⟩ := Prod.mk.inj heq
      exact .turned hturn

/-- **One step.** A party's step is what it does to the snapshot. -/
theorem acts_move (hmove : party.move store a = some (party', e)) (htask : party.TaskInv es) (hord : party.Ordered)
    (hbase : ∀ p, party.base store = some p → p = latest first store) (hvalue : c.value = latest first store)
    (hclient : c.client i = party.client es) :
    c.acts Portfolio.apply i (party.steps store e) = ⟨latest first (store.writeAll D e.write?.toList),
      c.log ++ (e.write?.bind StoreWrite.fill?).toList.map fun f => (i, f),
      Function.update c.client i (party'.client (es ++ e.turn?.toList))⟩ := by
  cases party_moved hmove with
  | called hadv => exact acts_called hadv hord hbase hvalue hclient
  | turned hturn => exact acts_turn hturn htask.1 (hbase _ rfl) hvalue hclient

/-- Saving is all that a step that saves does to the snapshot. -/
theorem steps_write (hmove : party.move store a = some (party', e)) (hmem : CellStep.write ∈ party.steps store e) :
    party.steps store e = [.write] ∧ ∃ p, e.write? = some (.save p) := by
  cases party_moved hmove with
  | @called who fill phase phase' now w hadv =>
    cases phase with
    | booking p =>
      obtain ⟨rfl, rfl⟩ := Prod.mk.inj (Option.some.inj hadv)
      exact ⟨rfl, _, rfl⟩
    | starting => cases who <;> simp [Party.steps, RecordPhase.steps] at hmem
    | _ => simp [Party.steps, RecordPhase.steps] at hmem
  | @turned cfg task task' a ev hturn =>
    cases ev with
    | wrote w =>
      cases w with
      | save p => exact ⟨rfl, p, rfl⟩
      | _ => simp [Party.steps, RunEvent.steps] at hmem
    | _ => simp [Party.steps, RunEvent.steps] at hmem

theorem held_of_not_holds (h : party.holds = false) : (party.client es).held = none := by
  cases party with
  | recording who fill phase =>
    cases phase with
    | finished recorded => cases recorded <;> rfl
    | loaded p => cases h
    | booking p => cases h
    | _ => rfl
  | session cfg task =>
    obtain ⟨stage, outbox, bus, handling⟩ := task
    cases stage with
    | running run => cases h
    | _ => rfl

theorem move_kept (hmove : party.move store a = some (party', e)) :
    (∀ s, party'.base s = party.base s) ∧ party'.Ordered := by
  cases party_moved hmove with
  | @called who fill phase phase' now w hadv =>
    refine ⟨fun _ => rfl, ?_⟩
    rintro rfl rfl
    cases phase with
    | starting => cases hl : store.loadPortfolio <;> simp [RecordPhase.advance, RecordPhase.loadedBy, hl] at hadv
    | appended => cases hl : store.loadPortfolio <;> simp [RecordPhase.advance, RecordPhase.loadedBy, hl] at hadv
    | _ => simp [RecordPhase.advance] at hadv
  | turned hturn => exact ⟨fun _ => rfl, trivial⟩

/-- A session's piece keeps its invariant, where there is room for what it publishes. -/
theorem taskInv_move (hmove : party.move store a = some (party', e)) (htask : party.TaskInv es)
    (hroom : e.published?.isSome → party.hasRoom) : party'.TaskInv (es ++ e.turn?.toList) := by
  cases party_moved hmove with
  | called hadv => trivial
  | turned hturn =>
    refine ⟨RunTask.inv_move hturn htask.1, RunTask.keptUp_move hturn htask.2 fun published hev => ?_⟩
    subst hev
    exact of_decide_eq_true (hroom rfl)

/-- Whoever loads gets the snapshot, also after a write. -/
theorem base_write (w : StoreWrite) (hbase : ∀ p, party.base store = some p → p = latest first store) :
    ∀ p, party.base (store.write D w) = some p → p = latest first (store.write D w) := by
  intro p hp
  cases w with
  | save q =>
    have hload : (store.write D (.save q)).loadPortfolio = some q := by
      simp [Store.write, Store.savePortfolio, Store.loadPortfolio]
    have hq : p = q := by
      cases party with
      | recording who fill phase =>
        cases who <;> simp_all [Party.base, RecordPhase.loadedBy, Store.loadOrNew]
      | session cfg task => simp_all [Party.base, Store.loadOrNew]
    rw [hq, latest, hload]
    rfl
  | fill f => exact hbase p hp
  | audit call => exact hbase p hp

/-- The pieces of a session among what was done. -/
def turnsOf (i : ι) (os : List (PartyRecord ι)) : List RunEvent :=
  (os.filter fun o => o.who = i).filterMap fun o => o.event.turn?

/-- The fills appended, with who appended them. -/
def appendedBy (os : List (PartyRecord ι)) : List (ι × Fill) :=
  os.flatMap fun o => (o.event.write?.bind StoreWrite.fill?).toList.map fun f => (o.who, f)

/-- The snapshot and its clients. -/
def cellOf (first : Portfolio) (os : List (PartyRecord ι)) (s : Parties ι) : SharedCell ι Portfolio Fill :=
  ⟨latest first s.store, appendedBy os, fun i => (s.party i).client (turnsOf i os)⟩

/-- **The invariant.** The snapshot is shared as it is to be, the fills are those
appended, and each party keeps to its own invariant. -/
structure Parties.Inv (first : Portfolio) (start : Store) (os : List (PartyRecord ι)) (s : Parties ι) : Prop where
  cell : (cellOf first os s).Inv Portfolio.apply (latest first start)
  fills : s.store.fills = start.fills ++ (appendedBy os).map Prod.snd
  task : ∀ i, (s.party i).TaskInv (turnsOf i os)
  ordered : ∀ i, (s.party i).Ordered
  base : ∀ i p, (s.party i).base s.store = some p → p = latest first s.store

theorem turnsOf_snoc (i : ι) (os : List (PartyRecord ι)) (o : PartyRecord ι) :
    turnsOf i (os ++ [o]) = turnsOf i os ++ if o.who = i then o.event.turn?.toList else [] := by
  by_cases h : o.who = i
  · cases ht : o.event.turn? <;> simp [turnsOf, List.filter_append, h, ht]
  · simp [turnsOf, List.filter_append, h]

omit [DecidableEq ι] in
theorem appendedBy_snoc (os : List (PartyRecord ι)) (o : PartyRecord ι) : appendedBy (os ++ [o]) =
    appendedBy os ++ (o.event.write?.bind StoreWrite.fill?).toList.map fun f => (o.who, f) := by
  simp [appendedBy]

theorem cellOf_step (os : List (PartyRecord ι)) {s : Parties ι}
    (hmove : (s.party i).move s.store a = some (party', e)) (htask : (s.party i).TaskInv (turnsOf i os))
    (hord : (s.party i).Ordered) (hbase : ∀ p, (s.party i).base s.store = some p → p = latest first s.store) :
    ∀ after : Parties ι, after = ⟨s.store.writeAll D e.write?.toList, Function.update s.party i party'⟩ →
      cellOf first (os ++ [⟨s, i, e, after⟩]) after =
        (cellOf first os s).acts Portfolio.apply i ((s.party i).steps s.store e) := by
  rintro after rfl
  rw [acts_move (D := D) (c := cellOf first os s) hmove htask hord hbase rfl rfl, cellOf, appendedBy_snoc]
  congr 1
  funext j
  by_cases hj : j = i
  · subst hj
    simp [turnsOf_snoc]
  · simp [turnsOf_snoc, hj, Ne.symm hj, cellOf]

theorem aloneIn_of_not_mem : ∀ {steps : List (CellStep Fill)} {c : SharedCell ι Portfolio Fill},
    CellStep.write ∉ steps → SharedCell.AloneIn Portfolio.apply i c steps
  | [], _, _ => trivial
  | _ :: _, _, h =>
    ⟨fun hw => absurd (hw ▸ List.mem_cons_self) h, aloneIn_of_not_mem fun hm => h (List.mem_cons_of_mem _ hm)⟩

/-- **A step keeps the invariant**, if it changes no snapshot that another has loaded and publishes only
where there is room. -/
theorem inv_parties_step {start : Store} {os : List (PartyRecord ι)} {s s' : Parties ι} {o : PartyRecord ι}
    {b : ι × PartyAction} (h : s.step D b = some (s', o)) (hi : s.Inv first start os) (halone : o.Alone first)
    (hroom : o.Room) : s'.Inv first start (os ++ [o]) := by
  obtain ⟨i, a⟩ := b
  obtain ⟨⟨party', e⟩, hmove, heq⟩ := Option.map_eq_some_iff.mp h
  obtain ⟨rfl, rfl⟩ := Prod.mk.inj heq
  have hcell := cellOf_step (D := D) os hmove (hi.task i) (hi.ordered i) (hi.base i) _ rfl
  have hstore : s.store.writeAll D e.write?.toList = (e.write?.elim s.store (s.store.write D)) := by
    cases e.write? <;> rfl
  refine ⟨?_, ?_, fun j => ?_, fun j => ?_, fun j => ?_⟩
  · rw [hcell]
    refine SharedCell.inv_acts hi.cell ?_
    by_cases hw : CellStep.write ∈ (s.party i).steps s.store e
    · obtain ⟨hsteps, p, hp⟩ := steps_write hmove hw
      rw [hsteps]
      refine ⟨fun _ hne j hj => held_of_not_holds (halone p (by simp [hp, StoreWrite.save?]) ?_ j hj), trivial⟩
      -- what is written is the portfolio saved
      intro hsame
      refine hne ?_
      rw [hsteps] at hcell
      have hsaved : latest first (s.store.writeAll D e.write?.toList) = p := by
        rw [hp]
        exact latest_write (D := D) (.save p)
      calc _ = latest first (s.store.writeAll D e.write?.toList) := (congrArg SharedCell.value hcell).symm
        _ = p := hsaved
        _ = latest first s.store := hsame
    · exact aloneIn_of_not_mem hw
  · rw [Store.fills_writeAll, hi.fills, appendedBy_snoc]
    cases hw : e.write? with
    | none => simp
    | some w => cases hf : w.fill? <;> simp [hf]
  · by_cases hj : j = i
    · subst hj
      simpa [turnsOf_snoc] using taskInv_move hmove (hi.task j) hroom
    · simpa [turnsOf_snoc, hj, Ne.symm hj] using hi.task j
  · by_cases hj : j = i
    · subst hj
      simpa using (move_kept hmove).2
    · simpa [hj] using hi.ordered j
  · have hbase : ∀ p, (Function.update s.party i party' j).base s.store = some p → p = latest first s.store := by
      by_cases hj : j = i
      · subst hj
        simpa [(move_kept hmove).1] using hi.base j
      · simpa [hj] using hi.base j
    show ∀ p, (Function.update s.party i party' j).base (s.store.writeAll D e.write?.toList) = some p →
      p = latest first (s.store.writeAll D e.write?.toList)
    rw [hstore]
    cases e.write? with
    | none => exact hbase
    | some w => exact base_write w hbase

theorem client_of_starting (h : party.Starting) : party.client [] = ⟨none, [], []⟩ := by
  cases party <;> cases h <;> rfl

theorem starting_inv (h : party.Starting) : party.TaskInv [] ∧ party.Ordered := by
  cases party with
  | recording who fill phase =>
    cases h
    exact ⟨trivial, (nomatch ·)⟩
  | session cfg task =>
    cases h
    exact ⟨⟨RunTask.inv_start, RunTask.keptUp_start⟩, trivial⟩

/-- A party that is done has saved what it appended. -/
theorem client_of_finished (h : party.finished) (htask : party.TaskInv es) :
    (party.client es).logged = (party.client es).saved := by
  cases party with
  | recording who fill phase =>
    cases phase with
    | finished recorded => cases recorded <;> rfl
    | _ => cases h
  | session cfg task =>
    obtain ⟨stage, outbox, bus, handling⟩ := task
    cases stage with
    | returned saved => exact htask.2.recorded htask.1 rfl
    | _ => cases h

theorem inv_parties_run {start : Store} {parties : ι → Party} {os : List (PartyRecord ι)} {s : Parties ι}
    (hrun : (Parties.system ι D).Run ⟨start, parties⟩ os s) (hstart : ∀ i, (parties i).Starting)
    (hbase : ∀ i p, (parties i).base start = some p → p = latest first start)
    (halone : ∀ o ∈ os, o.Alone first) (hroom : ∀ o ∈ os, o.Room) : s.Inv first start os := by
  induction hrun with
  | nil =>
    have hfresh : cellOf first [] ⟨start, parties⟩ = SharedCell.fresh (latest first start) := by
      have hclient : ∀ i, (parties i).client [] = ⟨none, [], []⟩ := fun i => client_of_starting (hstart i)
      simp [cellOf, SharedCell.fresh, appendedBy, turnsOf, hclient]
    refine ⟨hfresh ▸ SharedCell.inv_fresh _, by simp [appendedBy], fun i => ?_, fun i => ?_, hbase⟩
    · exact (starting_inv (hstart i)).1
    · exact (starting_inv (hstart i)).2
  | snoc hr hstep ih =>
    exact inv_parties_step hstep (ih (fun o ho => halone o (by simp [ho])) fun o ho => hroom o (by simp [ho]))
      (halone _ (by simp)) (hroom _ (by simp))

/-- **No update is lost.** In a run that changes no snapshot while another party
has one loaded, and whose sessions' subscribers keep up: once all parties are
done, the snapshot is the first one with every recorded fill applied, so its cash
and positions are those of the first with the sums over these fills. -/
theorem no_lost_update (D : Digest) (first : Portfolio) (start : Store) (parties : ι → Party)
    (os : List (PartyRecord ι)) (s : Parties ι) (hrun : (Parties.system ι D).Run ⟨start, parties⟩ os s)
    (hstart : ∀ i, (parties i).Starting) (hbase : ∀ i p, (parties i).base start = some p → p = latest first start)
    (halone : ∀ o ∈ os, o.Alone first) (hroom : ∀ o ∈ os, o.Room) (hfinished : ∀ i, (s.party i).finished) :
    ∃ recorded applied, s.store.fills = start.fills ++ recorded ∧ applied.Perm recorded ∧
      latest first s.store = (latest first start).applyAll applied ∧
      (latest first s.store).cash = (latest first start).cash + (recorded.map Fill.cashDelta).sum ∧
      ∀ sym, (latest first s.store).position sym =
        (latest first start).position sym + (recorded.map (Fill.positionDelta sym)).sum := by
  have hi := inv_parties_run hrun hstart hbase halone hroom
  obtain ⟨applied, hperm, hvalue⟩ := hi.cell.settled fun i => client_of_finished (hfinished i) (hi.task i)
  have hperm : applied.Perm ((appendedBy os).map Prod.snd) := hperm
  have hlatest : latest first s.store = (latest first start).applyAll applied := hvalue
  refine ⟨_, applied, hi.fills, hperm, hlatest, ?_, fun sym => ?_⟩
  · rw [hlatest, Portfolio.cash_applyAll, (hperm.map Fill.cashDelta).sum_eq]
  · rw [hlatest, Portfolio.position_applyAll, (hperm.map (Fill.positionDelta sym)).sum_eq]

/-! ### Two at once -/

instance (o : PartyRecord (Fin 2)) : Decidable (o.Alone first) :=
  inferInstanceAs (Decidable (∀ p ∈ o.event.write?.bind StoreWrite.save?, p ≠ latest first o.before.store →
    ∀ j, j ≠ o.who → (o.before.party j).holds = false))

instance (o : PartyRecord ι) : Decidable o.Room :=
  inferInstanceAs (Decidable (o.event.published?.isSome → (o.before.party o.who).hasRoom))

/-- Two requests of the server at once. -/
def twoRecordings : Fin 2 → Party := fun _ => .recording .server reconciledBuy .starting

/-- One request, and then the other. -/
def inTurn : List (Fin 2 × PartyAction) := [0, 0, 0, 0, 1, 1, 1, 1].map fun i => (i, .call .epoch)

/-- Both load the snapshot before either saves it. -/
def overlapping : List (Fin 2 × PartyAction) := [0, 1, 0, 1, 0, 1, 0, 1].map fun i => (i, .call .epoch)

theorem no_lost_update_inTurn : ∃ os s, (Parties.system (Fin 2) Sha256.digest).Run ⟨oneSnapshot, twoRecordings⟩ os s ∧
    ∃ recorded applied, s.store.fills = recorded ∧ recorded.length = 2 ∧ applied.Perm recorded ∧
      latest (.new 1000) s.store = (Portfolio.new 1000).applyAll applied := by
  have hexec : ((Parties.system (Fin 2) Sha256.digest).exec ⟨oneSnapshot, twoRecordings⟩ inTurn).map
      (fun r => decide ((∀ i, (r.1.party i).finished) ∧ r.1.store.fills.length = 2 ∧
        (∀ o ∈ r.2, o.Alone (.new 1000)) ∧ ∀ o ∈ r.2, o.Room)) = some true := by
    decide +kernel
  obtain ⟨⟨s, os⟩, hrun, hall⟩ := Option.map_eq_some_iff.mp hexec
  obtain ⟨hfinished, htwo, halone, hroom⟩ := of_decide_eq_true hall
  obtain ⟨recorded, applied, hfills, hperm, hlatest, -, -⟩ := no_lost_update Sha256.digest (.new 1000) oneSnapshot
    twoRecordings os s (.of_exec hrun) (fun _ => rfl) (fun _ p hp => (Option.some.inj hp).symm) halone hroom hfinished
  have hnone : s.store.fills = recorded := hfills
  exact ⟨os, s, .of_exec hrun, recorded, applied, hnone, hnone ▸ htwo, hperm, hlatest⟩

/-- Two recordings that overlap leave one fill out of the snapshot. -/
theorem concurrent_recordings_lose_fill : ¬ ∀ (first : Portfolio) (start : Store) (parties : Fin 2 → Party)
    (os : List (PartyRecord (Fin 2))) (s : Parties (Fin 2)),
    (Parties.system (Fin 2) Sha256.digest).Run ⟨start, parties⟩ os s → (∀ i, (parties i).Starting) →
      (∀ i p, (parties i).base start = some p → p = latest first start) → (∀ i, (s.party i).finished) →
      ∃ recorded, s.store.fills = start.fills ++ recorded ∧
        (latest first s.store).cash = (latest first start).cash + (recorded.map Fill.cashDelta).sum := by
  intro hclaim
  have hexec : ((Parties.system (Fin 2) Sha256.digest).exec ⟨oneSnapshot, twoRecordings⟩ overlapping).map
      (fun r => decide ((∀ i, (r.1.party i).finished) ∧
        (latest (.new 1000) r.1.store).cash ≠ 1000 + (r.1.store.fills.map Fill.cashDelta).sum)) = some true := by
    decide +kernel
  obtain ⟨⟨s, os⟩, hrun, hall⟩ := Option.map_eq_some_iff.mp hexec
  obtain ⟨hfinished, hcash⟩ := of_decide_eq_true hall
  obtain ⟨recorded, hfills, hsum⟩ := hclaim (.new 1000) oneSnapshot twoRecordings os s (.of_exec hrun) (fun _ => rfl)
    (fun _ p hp => (Option.some.inj hp).symm) hfinished
  have hall : s.store.fills = recorded := hfills
  rw [← hall] at hsum
  exact hcash hsum

end Sherwood
