/-
# A run and its store subscriber

`run_loop` of `crates/cli/src/runner.rs` with a state store, as it runs beside
`run_subscriber`: the loop subscribes the store to the bus, loads the latest
snapshot, turns on ticks and publishes what they made, one event at a time,
and at the end saves the portfolio, publishes that the run ended, drops the
bus and waits for the subscriber. The subscriber receives an event whenever it
gets to it and makes its calls of the store one by one. Every piece is one
move of the task; what it wrote or told is its event.

What a task applied is what it published or will, and what its subscriber was given
is what it appended or is about to (`RunTask.Inv`, `inv_move`). As long as there is room on
the bus for what is published, the subscriber is given all of it (`RunTask.KeptUp`).

Key definitions: `RunTask`, `RunTask.move`, `RunTask.Inv`, `RunTask.KeptUp`.
Key theorems: `run_moved`, `onTick_events`, `inv_start`, `inv_move`, `keptUp_move`.
-/
import Sherwood.Cli.Runner
import Sherwood.Core.Ledger
import Sherwood.Store.Store

namespace Sherwood

/-- What a run is started with; `capacity` is what its bus keeps. -/
structure RunConfig where
  gate : RiskConfig
  label : String
  startingCash : ℚ
  capacity : ℕ

/-- Where `run_loop` stands. -/
inductive RunStage where
  | starting
  | running (run : RunState)
  | ending (saved : Portfolio)
  | draining (saved : Portfolio)
  | returned (saved : Portfolio)

/-- The loop, what it has yet to publish, the bus, and the subscriber. -/
structure RunTask where
  stage : RunStage
  outbox : List Event
  bus : Bus
  handling : Handling

/-- The pieces of the loop and of the subscriber. -/
inductive RunAction where
  | load
  | tick (a : TickInput)
  | publish
  | recv
  | persist (now : DateTime)
  | finish (interrupted : Bool)
  | drop
  | join

/-- What a piece did. -/
inductive RunEvent where
  | loaded (p : Portfolio)
  | ticked (o : TickRecord)
  | published (e : Event)
  | received (r : Broadcast.Received Event)
  | wrote (w : StoreWrite)
  | dropped
  | joined

namespace RunEvent

def load? : RunEvent → Option Portfolio
  | .loaded p => some p
  | _ => none

/-- The fill that was applied to the portfolio. -/
def fill? : RunEvent → Option Fill
  | .ticked o => o.fill
  | _ => none

def write? : RunEvent → Option StoreWrite
  | .wrote w => some w
  | _ => none

/-- What the subscriber received. -/
def received? : RunEvent → Option (Broadcast.Received Event)
  | .received r => some r
  | _ => none

end RunEvent

namespace RunTask

/-- A task before it has loaded anything; both tasks are subscribed. -/
def start : RunTask := ⟨.starting, [], .subscribe, .waiting⟩

/-- `load_portfolio`, or a new portfolio. -/
def load (cfg : RunConfig) (store : Store) (t : RunTask) : Option (RunTask × RunEvent) :=
  match t.stage with
  | .starting =>
    let p := store.loadOrNew cfg.startingCash
    some ({ t with stage := .running (.start p) }, .loaded p)
  | _ => none

/-- One turn of the loop, once the last one's events are out. -/
def tick (cfg : RunConfig) (t : RunTask) (a : TickInput) : Option (RunTask × RunEvent) :=
  match t.stage, t.outbox with
  | .running run, [] =>
    (run.onTick cfg.gate a).map fun r => ({ t with stage := .running r.1, outbox := r.2.events }, .ticked r.2)
  | _, _ => none

/-- `Bus::publish`. -/
def publish (t : RunTask) : Option (RunTask × RunEvent) :=
  match t.outbox with
  | e :: outbox => some ({ t with outbox, bus := t.bus.send e }, .published e)
  | [] => none

/-- `run_subscriber` receives: it handles an event, goes on when it has missed
some, and stops when the bus is closed. -/
def recv (cfg : RunConfig) (t : RunTask) : Option (RunTask × RunEvent) :=
  match t.handling with
  | .waiting =>
    (t.bus.recv cfg.capacity).map fun r =>
      let handling := match r.1 with
        | .value e => StoreSubscriber.handle e
        | .lagged _ => .waiting
        | .closed => .stopped
      ({ t with bus := r.2, handling }, .received r.1)
  | _ => none

/-- A call of the store by `StoreSubscriber::handle`: `append_fill`, then
`append_audit`. -/
def persist (t : RunTask) (now : DateTime) : Option (RunTask × RunEvent) :=
  match t.handling with
  | .filling f => some ({ t with handling := .auditing "fill" (fillData none f) }, .wrote (.fill f))
  | .auditing kind data => some ({ t with handling := .waiting }, .wrote (.audit ⟨now, kind, data⟩))
  | _ => none

/-- The feed has ended, or a shutdown was asked for: `save_portfolio`, then the
run's end is to be published. -/
def finish (cfg : RunConfig) (t : RunTask) (interrupted : Bool) : Option (RunTask × RunEvent) :=
  match t.stage, t.outbox with
  | .running run, [] =>
    let p := run.portfolio
    some ({ t with stage := .ending p, outbox := [.runEnded cfg.label interrupted p.cash p.realizedPnl] },
      .wrote (.save p))
  | _, _ => none

/-- `drop(bus)`. -/
def drop (t : RunTask) : Option (RunTask × RunEvent) :=
  match t.stage, t.outbox with
  | .ending p, [] => some ({ t with stage := .draining p, bus := t.bus.close }, .dropped)
  | _, _ => none

/-- The loop has waited for the subscriber, and returns. -/
def join (t : RunTask) : Option (RunTask × RunEvent) :=
  match t.stage, t.handling with
  | .draining p, .stopped => some ({ t with stage := .returned p }, .joined)
  | _, _ => none

/-- One piece of the task, on a store. -/
def move (cfg : RunConfig) (store : Store) (t : RunTask) : RunAction → Option (RunTask × RunEvent)
  | .load => t.load cfg store
  | .tick a => t.tick cfg a
  | .publish => t.publish
  | .recv => t.recv cfg
  | .persist now => t.persist now
  | .finish interrupted => t.finish cfg interrupted
  | .drop => t.drop
  | .join => t.join

/-- What a piece can do. -/
inductive Moved (cfg : RunConfig) (store : Store) (t : RunTask) : RunTask → RunEvent → Prop where
  | loaded (hs : t.stage = .starting) :
    Moved cfg store t { t with stage := .running (.start (store.loadOrNew cfg.startingCash)) }
      (.loaded (store.loadOrNew cfg.startingCash))
  | ticked {run run' : RunState} {a : TickInput} {o : TickRecord} (hs : t.stage = .running run) (ho : t.outbox = [])
    (htick : run.onTick cfg.gate a = some (run', o)) :
    Moved cfg store t { t with stage := .running run', outbox := o.events } (.ticked o)
  | published {ev : Event} {rest : List Event} (ho : t.outbox = ev :: rest) :
    Moved cfg store t { t with outbox := rest, bus := t.bus.send ev } (.published ev)
  | received {ev : Event} {bus : Bus} (hh : t.handling = .waiting)
    (hrecv : t.bus.recv cfg.capacity = some (.value ev, bus)) :
    Moved cfg store t { t with bus, handling := StoreSubscriber.handle ev } (.received (.value ev))
  | lagged {missed : ℕ} {bus : Bus} (hh : t.handling = .waiting)
    (hrecv : t.bus.recv cfg.capacity = some (.lagged missed, bus)) :
    Moved cfg store t { t with bus, handling := .waiting } (.received (.lagged missed))
  | stopped {bus : Bus} (hh : t.handling = .waiting) (hrecv : t.bus.recv cfg.capacity = some (.closed, bus)) :
    Moved cfg store t { t with bus, handling := .stopped } (.received .closed)
  | filled {f : Fill} (hh : t.handling = .filling f) :
    Moved cfg store t { t with handling := .auditing "fill" (fillData none f) } (.wrote (.fill f))
  | audited {kind : String} {data : Json} {now : DateTime} (hh : t.handling = .auditing kind data) :
    Moved cfg store t { t with handling := .waiting } (.wrote (.audit ⟨now, kind, data⟩))
  | saved {run : RunState} {interrupted : Bool} (hs : t.stage = .running run) (ho : t.outbox = []) :
    Moved cfg store t { t with stage := .ending run.portfolio, outbox :=
      [.runEnded cfg.label interrupted run.portfolio.cash run.portfolio.realizedPnl] } (.wrote (.save run.portfolio))
  | dropped {saved : Portfolio} (hs : t.stage = .ending saved) (ho : t.outbox = []) :
    Moved cfg store t { t with stage := .draining saved, bus := t.bus.close } .dropped
  | joined {saved : Portfolio} (hs : t.stage = .draining saved) (hh : t.handling = .stopped) :
    Moved cfg store t { t with stage := .returned saved } .joined

theorem run_moved {cfg : RunConfig} {store : Store} {t t' : RunTask} {a : RunAction} {e : RunEvent}
    (h : t.move cfg store a = some (t', e)) : Moved cfg store t t' e := by
  cases a with
  | load =>
    simp only [move, load] at h
    split at h
    · next hs =>
      obtain ⟨rfl, rfl⟩ := Prod.mk.inj (Option.some.inj h)
      exact .loaded hs
    · cases h
  | tick a =>
    simp only [move, tick] at h
    split at h
    · next run hs ho =>
      obtain ⟨⟨run', o⟩, htick, heq⟩ := Option.map_eq_some_iff.mp h
      obtain ⟨rfl, rfl⟩ := Prod.mk.inj heq
      exact .ticked hs ho htick
    · cases h
  | publish =>
    simp only [move, publish] at h
    split at h
    · next ev rest ho =>
      obtain ⟨rfl, rfl⟩ := Prod.mk.inj (Option.some.inj h)
      exact .published ho
    · cases h
  | recv =>
    simp only [move, recv] at h
    split at h
    · next hh =>
      obtain ⟨⟨r, bus⟩, hrecv, heq⟩ := Option.map_eq_some_iff.mp h
      obtain ⟨rfl, rfl⟩ := Prod.mk.inj heq
      cases r with
      | value ev => exact .received hh hrecv
      | lagged missed => exact .lagged hh hrecv
      | closed => exact .stopped hh hrecv
    · cases h
  | persist now =>
    simp only [move, persist] at h
    split at h
    · next f hh =>
      obtain ⟨rfl, rfl⟩ := Prod.mk.inj (Option.some.inj h)
      exact .filled hh
    · next kind data hh =>
      obtain ⟨rfl, rfl⟩ := Prod.mk.inj (Option.some.inj h)
      exact .audited hh
    · cases h
  | finish interrupted =>
    simp only [move, finish] at h
    split at h
    · next run hs ho =>
      obtain ⟨rfl, rfl⟩ := Prod.mk.inj (Option.some.inj h)
      exact .saved hs ho
    · cases h
  | drop =>
    simp only [move, drop] at h
    split at h
    · next saved hs ho =>
      obtain ⟨rfl, rfl⟩ := Prod.mk.inj (Option.some.inj h)
      exact .dropped hs ho
    · cases h
  | join =>
    simp only [move, join] at h
    split at h
    · next saved hs hh =>
      obtain ⟨rfl, rfl⟩ := Prod.mk.inj (Option.some.inj h)
      exact .joined hs hh
    · cases h

end RunTask

/-! ### What a task has done -/

/-- The fills that events tell of. -/
def fillsIn (events : List Event) : List Fill := events.filterMap Event.fill?

/-- The fills a task has applied to its portfolio. -/
def appliedFills (es : List RunEvent) : List Fill := es.filterMap RunEvent.fill?

/-- The portfolios it has loaded. -/
def loads (es : List RunEvent) : List Portfolio := es.filterMap RunEvent.load?

/-- Its writes. -/
def writes (es : List RunEvent) : List StoreWrite := es.filterMap RunEvent.write?

/-- The payloads of the `fill` rows among the writes. -/
def fillRows (ws : List StoreWrite) : List Json :=
  ((ws.filterMap StoreWrite.audit?).filter fun call => call.kind = "fill").map AuditCall.data

/-- What its subscriber received from the bus. -/
def receipts (es : List RunEvent) : List (Broadcast.Received Event) := es.filterMap RunEvent.received?

/-- The events its subscriber was given. -/
def given (es : List RunEvent) : List Event := (receipts es).filterMap Broadcast.Received.value?

@[simp] theorem fillsIn_append (es es' : List Event) : fillsIn (es ++ es') = fillsIn es ++ fillsIn es' :=
  List.filterMap_append

@[simp] theorem appliedFills_append (es es' : List RunEvent) :
    appliedFills (es ++ es') = appliedFills es ++ appliedFills es' :=
  List.filterMap_append

@[simp] theorem loads_append (es es' : List RunEvent) : loads (es ++ es') = loads es ++ loads es' :=
  List.filterMap_append

@[simp] theorem writes_append (es es' : List RunEvent) : writes (es ++ es') = writes es ++ writes es' :=
  List.filterMap_append

/-- The fill the subscriber has taken and not yet appended. -/
def Handling.pendingFill : Handling → List Fill
  | .filling f => [f]
  | _ => []

/-- The payload of the `fill` row it has yet to append. -/
def Handling.pendingRow : Handling → List Json
  | .filling f => [fillData none f]
  | .auditing kind data => if kind = "fill" then [data] else []
  | _ => []

theorem pendingFill_handle (e : Event) : (StoreSubscriber.handle e).pendingFill = fillsIn [e] := by
  cases e <;> rfl

theorem pendingRow_handle (e : Event) :
    (StoreSubscriber.handle e).pendingRow = (fillsIn [e]).map (fillData none) := by
  cases e <;> rfl

namespace RunTask

/-- What a stage says of what was done before it. -/
def StageInv (t : RunTask) (es : List RunEvent) : Prop :=
  match t.stage with
  | .starting => es = [] ∧ t = start
  | .running run => (writes es).filterMap StoreWrite.save? = [] ∧ t.bus.closed = false ∧
      ∃ p, loads es = [p] ∧ run.portfolio = p.applyAll (appliedFills es)
  | .ending saved => (writes es).filterMap StoreWrite.save? = [saved] ∧ t.bus.closed = false ∧
      ∃ p, loads es = [p] ∧ saved = p.applyAll (appliedFills es)
  | .draining saved => (writes es).filterMap StoreWrite.save? = [saved] ∧ t.outbox = [] ∧
      ∃ p, loads es = [p] ∧ saved = p.applyAll (appliedFills es)
  | .returned saved => (writes es).filterMap StoreWrite.save? = [saved] ∧ t.outbox = [] ∧ t.handling = .stopped ∧
      ∃ p, loads es = [p] ∧ saved = p.applyAll (appliedFills es)

/-- **The invariant of a task** that has done `es`: what it applied is what it has
published or will, and what it was given from the bus is what it appended, to the fills
and to the audit log, or is about to. -/
structure Inv (es : List RunEvent) (t : RunTask) : Prop where
  next_le : t.bus.next ≤ t.bus.sent.length
  published : appliedFills es = fillsIn (t.bus.sent ++ t.outbox)
  tiled : Broadcast.Tiled t.bus.taken (receipts es)
  appended : (writes es).filterMap StoreWrite.fill? ++ t.handling.pendingFill = fillsIn (given es)
  audited : fillRows (writes es) ++ t.handling.pendingRow = (fillsIn (given es)).map (fillData none)
  stopped : t.handling = .stopped → t.bus.closed ∧ t.bus.taken = t.bus.sent
  stage : t.StageInv es

/-- The subscriber has missed nothing, and is in reach. -/
structure KeptUp (capacity : ℕ) (es : List RunEvent) (t : RunTask) : Prop where
  inReach : t.bus.InReach capacity
  given : given es = t.bus.taken

end RunTask

/-! ### What a move keeps -/

theorem onTick_events {gate : RiskConfig} {s s' : RunState} {a : TickInput} {o : TickRecord}
    (h : s.onTick gate a = some (s', o)) : fillsIn o.events = o.fill.toList := by
  unfold RunState.onTick at h
  simp only [Option.bind_eq_bind, Option.bind_eq_some_iff, Option.pure_def, Option.some.injEq, Prod.mk.injEq,
    Prod.exists] at h
  obtain ⟨s₁, placed, fill, hplace, rfl, rfl⟩ := h
  have hplaced : fillsIn placed = fill.toList := by
    cases horder : (s.observe a.tick).order a with
    | none =>
      simp only [horder, Option.some.injEq, Prod.mk.injEq] at hplace
      obtain ⟨-, rfl, rfl⟩ := hplace
      rfl
    | some order =>
      simp only [horder] at hplace
      unfold RunState.place at hplace
      split at hplace
      · split at hplace
        · simp only [Option.some.injEq, Prod.mk.injEq] at hplace
          obtain ⟨-, rfl, rfl⟩ := hplace
          rfl
        · simp only [Option.some.injEq, Prod.mk.injEq] at hplace
          obtain ⟨-, rfl, rfl⟩ := hplace
          rfl
        · simp at hplace
      · simp only [Option.some.injEq, Prod.mk.injEq] at hplace
        obtain ⟨-, rfl, rfl⟩ := hplace
        rfl
      · simp at hplace
  -- the decision's own event is no fill
  rw [fillsIn_append, hplaced]
  cases (s.observe a.tick).decision a <;> rfl

theorem onTick_portfolio {gate : RiskConfig} {s s' : RunState} {a : TickInput} {o : TickRecord}
    (h : s.onTick gate a = some (s', o)) : s'.portfolio = s.portfolio.applyAll o.fill.toList := by
  obtain ⟨-, -, hcases⟩ := onTick_cases h
  rcases hcases with ⟨hfill, hport, -⟩ | ⟨order, fill, hfill, hfilled⟩
  · rw [hfill, hport]
    rfl
  · rw [hfill, hfilled.booked]
    rfl

namespace RunTask

variable {cfg : RunConfig} {store : Store} {es : List RunEvent} {t t' : RunTask} {e : RunEvent}

theorem inv_start : Inv [] start := ⟨Nat.le_refl _, rfl, .nil, rfl, rfl, (nomatch ·), rfl, rfl⟩

theorem receipts_snoc (es : List RunEvent) (e : RunEvent) : receipts (es ++ [e]) = receipts es ++ e.received?.toList := by
  cases h : e.received? <;> simp [receipts, h]

theorem given_snoc (es : List RunEvent) (e : RunEvent) :
    given (es ++ [e]) = given es ++ (e.received?.bind Broadcast.Received.value?).toList := by
  rw [given, receipts_snoc, List.filterMap_append, ← given]
  cases hr : e.received? with
  | none => simp
  | some r => cases hv : r.value? <;> simp [hv]

/-- What is not received is not given. -/
theorem receipts_told (es : List RunEvent) (h : e.received? = none) :
    receipts (es ++ [e]) = receipts es ∧ given (es ++ [e]) = given es := by
  constructor
  · rw [receipts_snoc, h]
    exact List.append_nil _
  · rw [given_snoc, h]
    exact List.append_nil _

theorem inv_loaded (hi : t.Inv es) (hs : t.stage = .starting) (p : Portfolio) :
    Inv (es ++ [.loaded p]) { t with stage := .running (.start p) } := by
  have hstage := hi.stage
  simp only [StageInv, hs] at hstage
  obtain ⟨rfl, rfl⟩ := hstage
  exact ⟨Nat.le_refl _, rfl, .nil, rfl, rfl, (nomatch ·), rfl, rfl, _, rfl, rfl⟩

theorem lists_ticked (es : List RunEvent) (o : TickRecord) :
    appliedFills (es ++ [.ticked o]) = appliedFills es ++ o.fill.toList ∧
      loads (es ++ [.ticked o]) = loads es ∧ writes (es ++ [.ticked o]) = writes es := by
  refine ⟨?_, by simp [loads, RunEvent.load?], by simp [writes, RunEvent.write?]⟩
  rw [appliedFills_append]
  cases hof : o.fill <;> simp [appliedFills, RunEvent.fill?, hof]

theorem inv_ticked {run run' : RunState} {a : TickInput} {o : TickRecord} (hi : t.Inv es) (hs : t.stage = .running run)
    (ho : t.outbox = []) (htick : run.onTick cfg.gate a = some (run', o)) :
    Inv (es ++ [.ticked o]) { t with stage := .running run', outbox := o.events } := by
  have hstage := hi.stage
  simp only [StageInv, hs] at hstage
  obtain ⟨hsave, hclosed, p, hload, hport⟩ := hstage
  have hpub := hi.published
  rw [ho, List.append_nil] at hpub
  obtain ⟨hfill, hloads, hwrites⟩ := lists_ticked es o
  obtain ⟨hreceipts, hgiven⟩ := receipts_told es (e := .ticked o) rfl
  refine ⟨hi.next_le, ?_, ?_, ?_, ?_, hi.stopped, ?_, hclosed, p, ?_, ?_⟩
  · rw [hfill, hpub, ← onTick_events htick, fillsIn_append]
  · rw [hreceipts]
    exact hi.tiled
  · rw [hwrites, hgiven]
    exact hi.appended
  · rw [hwrites, hgiven]
    exact hi.audited
  · rwa [hwrites]
  · rw [hloads, hload]
  · rw [hfill, Portfolio.applyAll_append, ← hport, onTick_portfolio htick]

/-- What a stage says stays, as long as nothing is applied, loaded or saved. -/
theorem StageInv.congr {es' : List RunEvent} (h : t.StageInv es) (hne : t ≠ start) (hstage : t'.stage = t.stage)
    (hclosed : t'.bus.closed = t.bus.closed) (hout : t.outbox = [] → t'.outbox = [])
    (hstop : t.handling = .stopped → t'.handling = .stopped)
    (hsave : (writes es').filterMap StoreWrite.save? = (writes es).filterMap StoreWrite.save?)
    (hload : loads es' = loads es) (hfill : appliedFills es' = appliedFills es) : t'.StageInv es' := by
  unfold StageInv at h ⊢
  rw [hstage, hclosed, hsave, hload, hfill]
  cases hs : t.stage with
  | starting =>
    rw [hs] at h
    exact absurd h.2 hne
  | running run => rwa [hs] at h
  | ending saved => rwa [hs] at h
  | draining saved =>
    rw [hs] at h
    exact ⟨h.1, hout h.2.1, h.2.2⟩
  | returned saved =>
    rw [hs] at h
    exact ⟨h.1, hout h.2.1, hstop h.2.2.1, h.2.2.2⟩

theorem lists_snoc (es : List RunEvent) (hf : e.fill? = none) (hl : e.load? = none) (hw : e.write? = none) :
    appliedFills (es ++ [e]) = appliedFills es ∧ loads (es ++ [e]) = loads es ∧ writes (es ++ [e]) = writes es := by
  simp [appliedFills, loads, writes, hf, hl, hw]

theorem lists_wrote (es : List RunEvent) (w : StoreWrite) : appliedFills (es ++ [.wrote w]) = appliedFills es ∧
    loads (es ++ [.wrote w]) = loads es ∧ writes (es ++ [.wrote w]) = writes es ++ [w] := by
  simp [appliedFills, loads, writes, RunEvent.fill?, RunEvent.load?, RunEvent.write?]

/-- Sending leaves what is behind the receiver. -/
theorem Inv.taken_send (hi : t.Inv es) (ev : Event) : (t.bus.send ev).taken = t.bus.taken := by
  rw [Broadcast.taken, Broadcast.taken, Broadcast.send]
  exact List.take_append_of_le_length hi.next_le

theorem inv_published {ev : Event} {rest : List Event} (hi : t.Inv es) (ho : t.outbox = ev :: rest) :
    Inv (es ++ [.published ev]) { t with outbox := rest, bus := t.bus.send ev } := by
  obtain ⟨hfill, hload, hwrites⟩ := lists_snoc es (e := .published ev) rfl rfl rfl
  obtain ⟨hreceipts, hgiven⟩ := receipts_told es (e := .published ev) rfl
  have hne : t ≠ start := by
    rintro rfl
    cases ho
  -- a stopped subscriber has seen the bus closed, and nothing is published after that
  have hopen : t.handling ≠ .stopped := by
    intro hstopped
    have hstage := hi.stage
    have hclosed := (hi.stopped hstopped).1
    unfold StageInv at hstage
    split at hstage
    · exact hne hstage.2
    · rw [hstage.2.1] at hclosed
      cases hclosed
    · rw [hstage.2.1] at hclosed
      cases hclosed
    · rw [ho] at hstage
      cases hstage.2.1
    · rw [ho] at hstage
      cases hstage.2.1
  refine ⟨?_, ?_, ?_, ?_, ?_, fun hs => absurd hs hopen, ?_⟩
  · have := hi.next_le
    simp only [Broadcast.send, List.length_append]
    omega
  · rw [hfill, hi.published, ho]
    simp [Broadcast.send]
  · rw [hreceipts, hi.taken_send]
    exact hi.tiled
  · rw [hwrites, hgiven]
    exact hi.appended
  · rw [hwrites, hgiven]
    exact hi.audited
  · refine hi.stage.congr hne rfl rfl ?_ id (by rw [hwrites]) hload hfill
    intro hnil
    rw [ho] at hnil
    cases hnil

theorem Inv.of_waiting (hi : t.Inv es) (hh : t.handling = .waiting) :
    (writes es).filterMap StoreWrite.fill? = fillsIn (given es) ∧
      fillRows (writes es) = (fillsIn (given es)).map (fillData none) := by
  have happ := hi.appended
  have haud := hi.audited
  rw [hh] at happ haud
  simp only [Handling.pendingFill, Handling.pendingRow, List.append_nil] at happ haud
  exact ⟨happ, haud⟩

theorem ne_start_of_recv {r : Broadcast.Received Event} {bus : Bus} (hrecv : t.bus.recv cfg.capacity = some (r, bus)) :
    t ≠ start := by
  rintro rfl
  simp [start, Broadcast.subscribe, Broadcast.recv] at hrecv

theorem inv_received {r : Broadcast.Received Event} {bus : Bus} {handling : Handling} (hi : t.Inv es)
    (hh : t.handling = .waiting) (hrecv : t.bus.recv cfg.capacity = some (r, bus))
    (hfills : handling.pendingFill = fillsIn r.value?.toList)
    (hrows : handling.pendingRow = (fillsIn r.value?.toList).map (fillData none))
    (hstopped : handling = .stopped → r = .closed) : Inv (es ++ [.received r]) { t with bus, handling } := by
  obtain ⟨hfill, hload, hwrites⟩ := lists_snoc es (e := .received r) rfl rfl rfl
  obtain ⟨happ, haud⟩ := hi.of_waiting hh
  obtain ⟨hsent, hclosed, hnext, htiled, hrest⟩ := Broadcast.tiled_recv hi.next_le hi.tiled hrecv
  refine ⟨hnext, ?_, ?_, ?_, ?_, fun hs => ?_, ?_⟩
  · rw [hfill, hsent, hi.published]
  · rw [receipts_snoc]
    exact htiled
  · rw [hwrites, happ, given_snoc, fillsIn_append]
    exact congrArg _ hfills
  · rw [hwrites, haud, given_snoc, fillsIn_append, List.map_append]
    exact congrArg _ hrows
  · obtain rfl := hstopped hs
    obtain ⟨rfl, hclosed, hunread⟩ := hrest
    exact ⟨hclosed, List.take_of_length_le (Nat.sub_eq_zero_iff_le.mp hunread)⟩
  · exact hi.stage.congr (ne_start_of_recv hrecv) rfl hclosed id (by simp [hh]) (by rw [hwrites]) hload hfill

/-- A call of the subscriber that appends what was pending, and leaves the rest to
the next. -/
theorem inv_wrote {w : StoreWrite} {handling : Handling} (hi : t.Inv es) (hne : t.handling ≠ .waiting)
    (hopen : t.handling ≠ .stopped) (hnext : handling ≠ .stopped) (hsave : w.save? = none)
    (hfills : w.fill?.toList ++ handling.pendingFill = t.handling.pendingFill)
    (hrows : fillRows [w] ++ handling.pendingRow = t.handling.pendingRow) :
    Inv (es ++ [.wrote w]) { t with handling } := by
  obtain ⟨hfill, hload, hw⟩ := lists_wrote es w
  obtain ⟨hreceipts, hgiven⟩ := receipts_told es (e := .wrote w) rfl
  have hrow : fillRows (writes es ++ [w]) = fillRows (writes es) ++ fillRows [w] := by simp [fillRows]
  refine ⟨hi.next_le, ?_, ?_, ?_, ?_, fun hs => absurd hs hnext, ?_⟩
  · rw [hfill, hi.published]
  · rw [hreceipts]
    exact hi.tiled
  · rw [hw, hgiven, ← hi.appended, ← hfills]
    cases hwf : w.fill? <;> simp [hwf]
  · rw [hw, hgiven, ← hi.audited, ← hrows, hrow, List.append_assoc]
  · refine hi.stage.congr ?_ rfl rfl id (fun hs => absurd hs hopen) ?_ hload hfill
    · rintro rfl
      exact hne rfl
    · rw [hw]
      simp [hsave]

theorem inv_filled {f : Fill} (hi : t.Inv es) (hh : t.handling = .filling f) :
    Inv (es ++ [.wrote (.fill f)]) { t with handling := .auditing "fill" (fillData none f) } := by
  refine inv_wrote hi (by simp [hh]) (by simp [hh]) (by simp) rfl ?_ ?_
  · rw [hh]
    rfl
  · rw [hh]
    rfl

theorem inv_audited {kind : String} {data : Json} {now : DateTime} (hi : t.Inv es)
    (hh : t.handling = .auditing kind data) :
    Inv (es ++ [.wrote (.audit ⟨now, kind, data⟩)]) { t with handling := .waiting } := by
  refine inv_wrote hi (by simp [hh]) (by simp [hh]) (by simp) rfl ?_ ?_
  · rw [hh]
    rfl
  · rw [hh]
    by_cases hk : kind = "fill" <;> simp [Handling.pendingRow, fillRows, StoreWrite.audit?, hk]

theorem inv_saved {run : RunState} {interrupted : Bool} (hi : t.Inv es) (hs : t.stage = .running run)
    (ho : t.outbox = []) : Inv (es ++ [.wrote (.save run.portfolio)])
      { t with stage := .ending run.portfolio, outbox :=
        [.runEnded cfg.label interrupted run.portfolio.cash run.portfolio.realizedPnl] } := by
  obtain ⟨hfill, hload, hw⟩ := lists_wrote es (.save run.portfolio)
  obtain ⟨hreceipts, hgiven⟩ := receipts_told es (e := .wrote (.save run.portfolio)) rfl
  have hstage := hi.stage
  simp only [StageInv, hs] at hstage
  obtain ⟨hsave, hclosed, p, hloads, hport⟩ := hstage
  refine ⟨hi.next_le, ?_, ?_, ?_, ?_, hi.stopped, ?_, hclosed, p, ?_, ?_⟩
  · rw [hfill, hi.published, ho]
    simp [fillsIn, Event.fill?]
  · rw [hreceipts]
    exact hi.tiled
  · rw [hw, hgiven, ← hi.appended]
    simp [StoreWrite.fill?]
  · rw [hw, hgiven, ← hi.audited]
    simp [fillRows, StoreWrite.audit?]
  · rw [hw, List.filterMap_append, hsave]
    rfl
  · rw [hload, hloads]
  · rw [hfill, hport]

theorem inv_ended {stage : RunStage} {bus : Bus} (hi : t.Inv es) (hf : e.fill? = none) (hl : e.load? = none)
    (hw : e.write? = none) (hr : e.received? = none) (hsent : bus.sent = t.bus.sent) (hnext : bus.next = t.bus.next)
    (hclosed : t.bus.closed → bus.closed) (hstage : StageInv { t with stage, bus } (es ++ [e])) :
    Inv (es ++ [e]) { t with stage, bus } := by
  obtain ⟨hfill, hload, hwrites⟩ := lists_snoc es hf hl hw
  obtain ⟨hreceipts, hgiven⟩ := receipts_told es hr
  have htaken : bus.taken = t.bus.taken := by rw [Broadcast.taken, Broadcast.taken, hsent, hnext]
  refine ⟨?_, ?_, ?_, ?_, ?_, fun hs => ?_, hstage⟩
  · rw [hsent, hnext]
    exact hi.next_le
  · rw [hfill, hsent]
    exact hi.published
  · rw [hreceipts, htaken]
    exact hi.tiled
  · rw [hwrites, hgiven]
    exact hi.appended
  · rw [hwrites, hgiven]
    exact hi.audited
  · rw [htaken, hsent]
    exact ⟨hclosed (hi.stopped hs).1, (hi.stopped hs).2⟩

theorem inv_dropped {saved : Portfolio} (hi : t.Inv es) (hs : t.stage = .ending saved) (ho : t.outbox = []) :
    Inv (es ++ [.dropped]) { t with stage := .draining saved, bus := t.bus.close } := by
  obtain ⟨hfill, hload, hw⟩ := lists_snoc es (e := .dropped) rfl rfl rfl
  have hstage := hi.stage
  simp only [StageInv, hs] at hstage
  obtain ⟨hsave, -, p, hloads, hport⟩ := hstage
  exact inv_ended hi rfl rfl rfl rfl rfl rfl (fun _ => rfl)
    ⟨by rw [hw, hsave], ho, p, by rw [hload, hloads], by rw [hfill, hport]⟩

theorem inv_joined {saved : Portfolio} (hi : t.Inv es) (hs : t.stage = .draining saved) (hh : t.handling = .stopped) :
    Inv (es ++ [.joined]) { t with stage := .returned saved } := by
  obtain ⟨hfill, hload, hw⟩ := lists_snoc es (e := .joined) rfl rfl rfl
  have hstage := hi.stage
  simp only [StageInv, hs] at hstage
  obtain ⟨hsave, hout, p, hloads, hport⟩ := hstage
  exact inv_ended hi rfl rfl rfl rfl rfl rfl id
    ⟨by rw [hw, hsave], hout, hh, p, by rw [hload, hloads], by rw [hfill, hport]⟩

/-- **One piece.** A piece of a task keeps its invariant. -/
theorem inv_move {a : RunAction} (h : t.move cfg store a = some (t', e)) (hi : t.Inv es) : t'.Inv (es ++ [e]) := by
  cases run_moved h with
  | loaded hs => exact inv_loaded hi hs _
  | ticked hs ho htick => exact inv_ticked hi hs ho htick
  | published ho => exact inv_published hi ho
  | @received ev bus hh hrecv =>
    refine inv_received hi hh hrecv ?_ ?_ fun hs => ?_
    · rw [pendingFill_handle]
      rfl
    · rw [pendingRow_handle]
      rfl
    · cases ev <;> cases hs
  | lagged hh hrecv => exact inv_received hi hh hrecv rfl rfl (nomatch ·)
  | stopped hh hrecv => exact inv_received hi hh hrecv rfl rfl fun _ => rfl
  | filled hh => exact inv_filled hi hh
  | audited hh => exact inv_audited hi hh
  | saved hs ho => exact inv_saved hi hs ho
  | dropped hs ho => exact inv_dropped hi hs ho
  | joined hs hh => exact inv_joined hi hs hh

theorem keptUp_start {capacity : ℕ} : KeptUp capacity [] start := ⟨Broadcast.inReach_subscribe, rfl⟩

/-- With room on the bus for what is published, the subscriber keeps up. -/
theorem keptUp_move {a : RunAction} (h : t.move cfg store a = some (t', e)) (hk : t.KeptUp cfg.capacity es)
    (hroom : ∀ ev, e = .published ev → t.bus.unread < cfg.capacity) : t'.KeptUp cfg.capacity (es ++ [e]) := by
  have htold : e.received? = none → t'.bus = t.bus → t'.KeptUp cfg.capacity (es ++ [e]) := by
    intro hr hbus
    refine ⟨hbus ▸ hk.inReach, ?_⟩
    rw [(receipts_told es hr).2, hbus]
    exact hk.given
  cases run_moved h with
  | loaded hs => exact htold rfl rfl
  | ticked hs ho htick => exact htold rfl rfl
  | @published ev rest ho =>
    refine ⟨hk.inReach.send (hroom ev rfl) ev, ?_⟩
    rw [(receipts_told es (e := .published ev) rfl).2, hk.inReach.taken_send]
    exact hk.given
  | received hh hrecv =>
    rcases Broadcast.recv_cases hk.inReach hrecv with ⟨ev', heq, -, htaken, hreach⟩ | ⟨heq, -⟩
    · refine ⟨hreach, ?_⟩
      rw [given_snoc, hk.given, htaken, heq]
      rfl
    · cases heq
  | lagged hh hrecv =>
    rcases Broadcast.recv_cases hk.inReach hrecv with ⟨ev', heq, -⟩ | ⟨heq, -⟩
    · cases heq
    · cases heq
  | stopped hh hrecv =>
    rcases Broadcast.recv_cases hk.inReach hrecv with ⟨ev', heq, -⟩ | ⟨-, rfl, -, -⟩
    · cases heq
    · refine ⟨hk.inReach, ?_⟩
      rw [given_snoc, hk.given]
      exact List.append_nil _
  | filled hh => exact htold rfl rfl
  | audited hh => exact htold rfl rfl
  | saved hs ho => exact htold rfl rfl
  | dropped hs ho =>
    refine ⟨⟨hk.inReach.next_le, hk.inReach.kept⟩, ?_⟩
    rw [(receipts_told es (e := .dropped) rfl).2]
    exact hk.given
  | joined hs hh => exact htold rfl rfl

theorem move_loaded {a : RunAction} {p : Portfolio} (h : t.move cfg store a = some (t', .loaded p)) :
    t.stage = .starting ∧ p = store.loadOrNew cfg.startingCash := by
  cases run_moved h with
  | loaded hs => exact ⟨hs, rfl⟩

/-- What a task that has returned leaves: the fills it was given, of those that it applied,
appended once and in order, to the fills and to the audit log, and one snapshot with all. -/
theorem Inv.returned {saved : Portfolio} (hi : t.Inv es) (hs : t.stage = .returned saved) :
    (writes es).filterMap StoreWrite.fill? = fillsIn (given es) ∧
      fillRows (writes es) = (fillsIn (given es)).map (fillData none) ∧
      (appliedFills es = fillsIn t.bus.sent ∧ t.bus.taken = t.bus.sent) ∧
      (writes es).filterMap StoreWrite.save? = [saved] ∧
      ∃ p, loads es = [p] ∧ saved = p.applyAll (appliedFills es) := by
  have hstage := hi.stage
  simp only [StageInv, hs] at hstage
  obtain ⟨hsave, hout, hstop, hload⟩ := hstage
  have hpub := hi.published
  have happ := hi.appended
  have haud := hi.audited
  rw [hstop] at happ haud
  rw [hout, List.append_nil] at hpub
  simp only [Handling.pendingFill, Handling.pendingRow, List.append_nil] at happ haud
  exact ⟨happ, haud, ⟨hpub, (hi.stopped hstop).2⟩, hsave, hload⟩

/-- A subscriber that kept up has appended all that was applied. -/
theorem KeptUp.recorded {capacity : ℕ} {saved : Portfolio} (hk : t.KeptUp capacity es) (hi : t.Inv es)
    (hs : t.stage = .returned saved) : (writes es).filterMap StoreWrite.fill? = appliedFills es := by
  obtain ⟨hfills, -, ⟨happlied, htaken⟩, -⟩ := hi.returned hs
  rw [hfills, happlied, hk.given, htaken]

end RunTask

end Sherwood
