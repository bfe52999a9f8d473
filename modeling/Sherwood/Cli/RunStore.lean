/-
# What a run leaves in the store

A run alone on its state database. The bus keeps so many events, and a subscriber
that falls further behind is told how many it missed. The snapshot has every fill in any
case. The fills table gains the fills applied to the portfolio, each once and in order
and each with a `fill` row in the audit log, exactly if none of the events that the
subscriber missed told of a fill (`fills_recorded_iff`).

So a run that publishes enough before the subscriber gets to it leaves a fill in the
snapshot only (`fill_lost`).

Key definitions: `RunWorld`, `RunStore.system`, `RunRecorded`, `RunRecord.lost`.
Key theorems: `fills_recorded_iff`, `fill_lost`.
-/
import Sherwood.Cli.RunInvariants
import Sherwood.Cli.RunTask

namespace Sherwood

/-- A store and the task that runs on it. -/
structure RunWorld where
  store : Store
  task : RunTask

/-- What one piece did. -/
structure RunRecord where
  before : RunWorld
  event : RunEvent
  after : RunWorld

/-- One piece of the task, with its write. -/
def RunWorld.step (D : Digest) (cfg : RunConfig) (w : RunWorld) (a : RunAction) : Option (RunWorld × RunRecord) :=
  (w.task.move cfg w.store a).map fun r =>
    let after : RunWorld := ⟨w.store.writeAll D r.2.write?.toList, r.1⟩
    (after, ⟨w, r.2, after⟩)

/-- The run and its subscriber as a system. -/
def RunStore.system (D : Digest) (cfg : RunConfig) : Lts RunWorld RunAction RunRecord := ⟨RunWorld.step D cfg⟩

/-- The events of a run. -/
def eventsOf (os : List RunRecord) : List RunEvent := os.map RunRecord.event

/-- The store gained the fills `applied`, once each and in order, each with a
`fill` row, and its snapshot is the starting portfolio with them. -/
structure RunRecorded (startingCash : ℚ) (before after : Store) (applied : List Fill) : Prop where
  fills : after.fills = before.fills ++ applied
  rows : after.audit.fillRows = before.audit.fillRows ++ applied.map fun f => (fillData none f).render
  snapshot : after.loadPortfolio = some ((before.loadOrNew startingCash).applyAll applied)

variable {D : Digest} {cfg : RunConfig}

/-- The fills among the events that the subscriber misses by this piece. -/
def RunRecord.lost (capacity : ℕ) (o : RunRecord) : List Fill :=
  match o.event with
  | .received (.lagged _) => fillsIn (o.before.task.bus.passed capacity)
  | _ => []

/-- What a world has become, from a store: its task has done the events, its store has
their writes, and what is behind the subscriber tells of the fills it was given and those
it missed. -/
structure RunWorld.Inv (D : Digest) (cfg : RunConfig) (start : Store) (os : List RunRecord) (w : RunWorld) : Prop where
  task : w.task.Inv (eventsOf os)
  store : w.store = start.writeAll D (writes (eventsOf os))
  loaded : ∀ p ∈ loads (eventsOf os), p = start.loadOrNew cfg.startingCash
  count : (fillsIn (given (eventsOf os))).length + (os.map fun o => (o.lost cfg.capacity).length).sum =
    (fillsIn w.task.bus.taken).length

theorem taken_move {store : Store} {t t' : RunTask} {a : RunAction} {e : RunEvent} {es : List RunEvent}
    (h : t.move cfg store a = some (t', e)) (hi : t.Inv es) :
    (fillsIn t'.bus.taken).length = (fillsIn t.bus.taken).length +
      ((fillsIn (e.received?.bind Broadcast.Received.value?).toList).length +
        (RunRecord.lost cfg.capacity ⟨⟨store, t⟩, e, ⟨store, t'⟩⟩).length) := by
  cases RunTask.run_moved h with
  | published ho =>
    simp only [hi.taken_send]
    rfl
  | received hh hrecv =>
    rw [Broadcast.taken_value hrecv, fillsIn_append, List.length_append]
    rfl
  | lagged hh hrecv =>
    rw [(Broadcast.taken_lagged hrecv).1, fillsIn_append, List.length_append]
    simp [RunRecord.lost, RunEvent.received?, Broadcast.Received.value?, fillsIn]
  | stopped hh hrecv =>
    obtain ⟨-, -, -, -, hrest⟩ := Broadcast.tiled_recv hi.next_le hi.tiled hrecv
    rw [hrest.1]
    rfl
  | _ => rfl

theorem inv_world_step {start : Store} {os : List RunRecord} {w w' : RunWorld} {a : RunAction} {o : RunRecord}
    (h : w.step D cfg a = some (w', o)) (hi : w.Inv D cfg start os) : w'.Inv D cfg start (os ++ [o]) := by
  obtain ⟨⟨t', e⟩, hmove, heq⟩ := Option.map_eq_some_iff.mp h
  obtain ⟨rfl, rfl⟩ := Prod.mk.inj heq
  have hevents : eventsOf (os ++ [⟨w, e, ⟨w.store.writeAll D e.write?.toList, t'⟩⟩]) = eventsOf os ++ [e] := by
    simp [eventsOf]
  refine ⟨?_, ?_, ?_, ?_⟩
  · rw [hevents]
    exact RunTask.inv_move hmove hi.task
  · have hw : writes [e] = e.write?.toList := by
      cases hwrite : e.write? <;> simp [writes, hwrite]
    rw [hevents, writes_append, Store.writeAll_append, ← hi.store, hw]
  · intro p hp
    rw [hevents, loads_append, List.mem_append] at hp
    rcases hp with hp | hp
    · exact hi.loaded p hp
    · cases e with
      | loaded q =>
        obtain rfl : p = q := by simpa [loads, RunEvent.load?] using hp
        obtain ⟨hstage, hq⟩ := RunTask.move_loaded hmove
        -- nothing was done before
        have hes := hi.task.stage
        simp only [RunTask.StageInv, hstage] at hes
        rw [hq, hi.store, hes.1]
        rfl
      | _ => simp [loads, RunEvent.load?] at hp
  · have htaken := taken_move hmove hi.task
    rw [hevents, RunTask.given_snoc, fillsIn_append, List.length_append, List.map_append, List.sum_append, htaken, ← hi.count]
    simp only [List.map_cons, List.map_nil, List.sum_cons, List.sum_nil]
    have hlost : (RunRecord.lost cfg.capacity ⟨w, e, ⟨w.store.writeAll D e.write?.toList, t'⟩⟩).length =
        (RunRecord.lost cfg.capacity ⟨⟨w.store, w.task⟩, e, ⟨w.store, t'⟩⟩).length := rfl
    omega

theorem inv_world_run {start : Store} {os : List RunRecord} {w : RunWorld}
    (hrun : (RunStore.system D cfg).Run ⟨start, .start⟩ os w) : w.Inv D cfg start os := by
  refine Lts.Run.inv (P := fun os w => w.Inv D cfg start os) ?_ ?_ hrun
  · exact ⟨RunTask.inv_start, rfl, fun p hp => (nomatch hp), rfl⟩
  · intro os w a w' o _ hi hstep
    exact inv_world_step hstep hi

/-- When the run has returned, the subscriber was given every fill that was applied exactly if it missed none. -/
theorem RunWorld.Inv.given_iff {start : Store} {os : List RunRecord} {w : RunWorld} {saved : Portfolio}
    (hi : w.Inv D cfg start os) (hreturned : w.task.stage = .returned saved) :
    fillsIn (given (eventsOf os)) = appliedFills (eventsOf os) ↔ ∀ o ∈ os, o.lost cfg.capacity = [] := by
  obtain ⟨-, -, ⟨happlied, hall⟩, -⟩ := hi.task.returned hreturned
  have hcount := hi.count
  rw [hall, ← happlied] at hcount
  constructor
  · intro hgiven o ho
    rw [hgiven, Nat.add_eq_left, List.sum_eq_zero_iff] at hcount
    exact List.length_eq_zero_iff.mp (hcount _ (List.mem_map_of_mem ho))
  · intro hlost
    -- what it was given is a sublist of what was sent, and as long
    have hsub : (fillsIn (given (eventsOf os))).Sublist (appliedFills (eventsOf os)) := by
      have htiled := hi.task.tiled
      rw [hall] at htiled
      rw [happlied]
      exact htiled.sublist.filterMap _
    refine hsub.eq_of_length ?_
    rw [← hcount, List.sum_eq_zero_iff.mpr, Nat.add_zero]
    intro n hn
    obtain ⟨o, ho, rfl⟩ := List.mem_map.mp hn
    rw [hlost o ho]
    rfl

/-- What was given is recorded when the run has returned. -/
theorem RunWorld.Inv.recorded {start : Store} {os : List RunRecord} {w : RunWorld} {saved : Portfolio}
    (hi : w.Inv D cfg start os) (hreturned : w.task.stage = .returned saved)
    (hgiven : fillsIn (given (eventsOf os)) = appliedFills (eventsOf os)) :
    RunRecorded cfg.startingCash start w.store (appliedFills (eventsOf os)) := by
  obtain ⟨hfills, hrows, -, hsave, p, hload, hsaved⟩ := hi.task.returned hreturned
  rw [hgiven] at hfills hrows
  have hp : p = start.loadOrNew cfg.startingCash := hi.loaded p (by simp [hload])
  refine ⟨?_, ?_, ?_⟩
  · rw [hi.store, Store.fills_writeAll, hfills]
  · have hdata := congrArg (List.map Json.render) hrows
    rw [fillRows, List.map_map] at hdata
    rw [hi.store, Store.audit_writeAll, fillRows_appendAll]
    simp only [List.map_map] at hdata ⊢
    exact congrArg _ hdata
  · rw [Store.loadPortfolio, hi.store, Store.snapshots_writeAll, hsave, List.getLast?_concat, hsaved, hp]

/-- **When no fill is lost.** When `run_loop` has returned, the store has every fill that was
applied, exactly if no event that the subscriber missed told of one. -/
theorem fills_recorded_iff (D : Digest) (cfg : RunConfig) (start : Store) (os : List RunRecord) (w : RunWorld)
    (saved : Portfolio) (hrun : (RunStore.system D cfg).Run ⟨start, .start⟩ os w)
    (hreturned : w.task.stage = .returned saved) :
    RunRecorded cfg.startingCash start w.store (appliedFills (eventsOf os)) ↔
      ∀ o ∈ os, o.lost cfg.capacity = [] := by
  have hi := inv_world_run hrun
  rw [← hi.given_iff hreturned]
  constructor
  · intro hrec
    have hfill := hrec.fills
    rw [hi.store, Store.fills_writeAll, (hi.task.returned hreturned).1] at hfill
    exact List.append_cancel_left hfill
  · exact hi.recorded hreturned

/-! ### Falling behind -/

/-- The defaults, on a bus that keeps `capacity` events. -/
def defaultRun (capacity : ℕ) : RunConfig := ⟨.default, "run", 1000, capacity⟩

/-- The loop is between two ticks and the subscriber waits for an event. -/
def RunTask.between (t : RunTask) : Bool :=
  match t.stage, t.outbox, t.handling with
  | .running _, [], .waiting => true
  | _, _, _ => false

theorem RunTask.of_between {t : RunTask} (h : t.between) :
    ∃ run, t = ⟨.running run, [], t.bus, .waiting⟩ := by
  obtain ⟨stage, outbox, bus, handling⟩ := t
  unfold between at h
  split at h
  · next run hs ho hh =>
    simp only at hs ho hh
    subst hs ho hh
    exact ⟨run, rfl⟩
  · cases h

/-- A run in which one order is filled, the subscriber keeping up. -/
def keptUp : List RunAction :=
  [.load, .tick (buyTick (1 / 20) 100), .publish, .publish, .recv, .persist .epoch, .recv, .persist .epoch,
    .persist .epoch, .finish false, .publish, .drop, .recv, .persist .epoch, .recv, .join]

/-- The run has returned. -/
def RunStage.hasReturned : RunStage → Bool
  | .returned _ => true
  | _ => false

theorem RunStage.of_hasReturned {stage : RunStage} (h : stage.hasReturned) : ∃ saved, stage = .returned saved := by
  cases stage with
  | returned saved => exact ⟨saved, rfl⟩
  | _ => cases h

theorem fills_recorded_keptUp : ∃ os w, (RunStore.system Sha256.digest (defaultRun busCapacity)).Run
    ⟨.empty, .start⟩ os w ∧ (appliedFills (eventsOf os)).length = 1 ∧
      RunRecorded 1000 .empty w.store (appliedFills (eventsOf os)) := by
  have hexec : ((RunStore.system Sha256.digest (defaultRun busCapacity)).exec ⟨.empty, .start⟩ keptUp).map
      (fun r => decide (r.1.task.stage.hasReturned ∧ r.2.all (fun o => (o.lost busCapacity).isEmpty) ∧
        (appliedFills (eventsOf r.2)).length = 1)) = some true := by
    decide +kernel
  obtain ⟨⟨w, os⟩, hrun, hall⟩ := Option.map_eq_some_iff.mp hexec
  obtain ⟨hreturned, hkept, hone⟩ := of_decide_eq_true hall
  obtain ⟨saved, hstage⟩ := RunStage.of_hasReturned hreturned
  refine ⟨os, w, .of_exec hrun, hone, (fills_recorded_iff Sha256.digest (defaultRun busCapacity) .empty os w saved
    (.of_exec hrun) hstage).mpr fun o ho => ?_⟩
  exact List.isEmpty_iff.mp (List.all_eq_true.mp hkept o ho)

/-- A tick on which the decider asks for nothing of its equity: it is told and
no order is made. -/
theorem onTick_idle (gate : RiskConfig) (run : RunState) : ∃ run' o, run.onTick gate (buyTick 0 100) = some (run', o) ∧
    o.fill = none ∧ ∃ ev, o.events = [ev] ∧ ev.fill? = none := by
  have horder : (run.observe (buyTick 0 100).tick).order (buyTick 0 100) = none := by
    simp [RunState.order, RunState.decision, buyTick, tickOf, size]
  have hdecision : (run.observe (buyTick 0 100).tick).decision (buyTick 0 100) = .buy 0 "t" := rfl
  simp only [RunState.onTick, horder, hdecision]
  exact ⟨_, _, rfl, rfl, .decided _ _ _, rfl, rfl⟩

/-- Any number of such ticks, the subscriber not getting to run. -/
theorem idle_run (D : Digest) (cfg : RunConfig) (n : ℕ) : ∀ {w : RunWorld} {run : RunState} {bus : Bus},
    w.task = ⟨.running run, [], bus, .waiting⟩ → ∃ os run' evs, evs.length = n ∧ fillsIn evs = [] ∧
      appliedFills (eventsOf os) = [] ∧ (RunStore.system D cfg).Run w os
        ⟨w.store, ⟨.running run', [], { bus with sent := bus.sent ++ evs }, .waiting⟩⟩ := by
  induction n with
  | zero =>
    intro w run bus hw
    refine ⟨[], run, [], rfl, rfl, rfl, ?_⟩
    rw [List.append_nil, ← hw]
    exact .nil
  | succ n ih =>
    intro w run bus hw
    obtain ⟨run₁, o, htick, hfill, ev, hev, hnone⟩ := onTick_idle cfg.gate run
    have h1 : (RunStore.system D cfg).step w (.tick (buyTick 0 100)) =
        some (⟨w.store, ⟨.running run₁, [ev], bus, .waiting⟩⟩,
          ⟨w, .ticked o, ⟨w.store, ⟨.running run₁, [ev], bus, .waiting⟩⟩⟩) := by
      simp [RunStore.system, RunWorld.step, RunTask.move, RunTask.tick, hw, htick, hev, RunEvent.write?]
    have h2 : (RunStore.system D cfg).step ⟨w.store, ⟨.running run₁, [ev], bus, .waiting⟩⟩ .publish =
        some (⟨w.store, ⟨.running run₁, [], bus.send ev, .waiting⟩⟩,
          ⟨⟨w.store, ⟨.running run₁, [ev], bus, .waiting⟩⟩, .published ev,
            ⟨w.store, ⟨.running run₁, [], bus.send ev, .waiting⟩⟩⟩) := rfl
    have hnext : (⟨w.store, ⟨.running run₁, [], bus.send ev, .waiting⟩⟩ : RunWorld).task =
        ⟨.running run₁, [], bus.send ev, .waiting⟩ := rfl
    obtain ⟨os, run', evs, hlen, hfills, happ, hrun⟩ := ih hnext
    have hsent : { bus.send ev with sent := (bus.send ev).sent ++ evs } =
        { bus with sent := bus.sent ++ ev :: evs } := by
      simp [Broadcast.send]
    rw [hsent] at hrun
    refine ⟨_, run', ev :: evs, by rw [List.length_cons, hlen], ?_, ?_, ((Lts.Run.nil.snoc h1).snoc h2).trans hrun⟩
    · simpa [fillsIn, hnone] using hfills
    · simpa [eventsOf, appliedFills, RunEvent.fill?, hfill] using happ

theorem handle_of_no_fill {ev : Event} (h : ev.fill? = none) :
    ∃ kind data, StoreSubscriber.handle ev = .auditing kind data := by
  cases ev with
  | orderFilled fill => simp [Event.fill?] at h
  | _ => exact ⟨_, _, rfl⟩

/-- Once the bus is closed, the subscriber takes what is left, and the loop
returns. What is left tells of no fill. -/
theorem drain_run (D : Digest) (cfg : RunConfig) (k : ℕ) : ∀ {w : RunWorld} {saved : Portfolio} {bus : Bus},
    w.task = ⟨.draining saved, [], bus, .waiting⟩ → bus.closed → bus.InReach cfg.capacity → bus.unread = k →
    fillsIn (bus.sent.drop bus.next) = [] → ∃ os w', (RunStore.system D cfg).Run w os w' ∧
      w'.task.stage = .returned saved ∧ w'.store.fills = w.store.fills ∧ appliedFills (eventsOf os) = [] := by
  induction k with
  | zero =>
    intro w saved bus hw hclosed hreach hunread _
    have hend : bus.sent[bus.next]? = none := by
      unfold Broadcast.unread at hunread
      exact List.getElem?_eq_none_iff.mpr (by omega)
    have hrecv : bus.recv cfg.capacity = some (.closed, bus) := by
      have := hreach.kept
      rw [Broadcast.recv, if_neg (by omega), hend]
      simp [hclosed]
    have h1 : (RunStore.system D cfg).step w .recv = some (⟨w.store, ⟨.draining saved, [], bus, .stopped⟩⟩,
        ⟨w, .received .closed, ⟨w.store, ⟨.draining saved, [], bus, .stopped⟩⟩⟩) := by
      simp [RunStore.system, RunWorld.step, RunTask.move, RunTask.recv, hw, hrecv, RunEvent.write?]
    have h2 : (RunStore.system D cfg).step ⟨w.store, ⟨.draining saved, [], bus, .stopped⟩⟩ .join =
        some (⟨w.store, ⟨.returned saved, [], bus, .stopped⟩⟩,
          ⟨⟨w.store, ⟨.draining saved, [], bus, .stopped⟩⟩, .joined,
            ⟨w.store, ⟨.returned saved, [], bus, .stopped⟩⟩⟩) := rfl
    exact ⟨_, _, (Lts.Run.nil.snoc h1).snoc h2, rfl, rfl, rfl⟩
  | succ k ih =>
    intro w saved bus hw hclosed hreach hunread hnone
    have hlt : bus.next < bus.sent.length := by unfold Broadcast.unread at hunread; omega
    obtain ⟨ev, hev⟩ : ∃ ev, bus.sent[bus.next]? = some ev := ⟨_, List.getElem?_eq_getElem hlt⟩
    have hrecv : bus.recv cfg.capacity = some (.value ev, { bus with next := bus.next + 1 }) := by
      have := hreach.kept
      rw [Broadcast.recv, if_neg (by omega), hev]
    have hdrop : bus.sent.drop bus.next = ev :: bus.sent.drop (bus.next + 1) := by
      rw [List.drop_eq_getElem_cons hlt]
      congr 1
      exact Option.some.inj ((List.getElem?_eq_getElem hlt).symm.trans hev)
    have hfill : ev.fill? = none ∧ fillsIn (bus.sent.drop (bus.next + 1)) = [] := by
      rw [hdrop] at hnone
      cases hf : ev.fill? <;> simp_all [fillsIn]
    obtain ⟨kind, data, hhandle⟩ := handle_of_no_fill hfill.1
    have h1 : (RunStore.system D cfg).step w .recv =
        some (⟨w.store, ⟨.draining saved, [], { bus with next := bus.next + 1 }, .auditing kind data⟩⟩,
          ⟨w, .received (.value ev),
            ⟨w.store, ⟨.draining saved, [], { bus with next := bus.next + 1 }, .auditing kind data⟩⟩⟩) := by
      simp [RunStore.system, RunWorld.step, RunTask.move, RunTask.recv, hw, hrecv, hhandle, RunEvent.write?]
    have h2 : (RunStore.system D cfg).step
        ⟨w.store, ⟨.draining saved, [], { bus with next := bus.next + 1 }, .auditing kind data⟩⟩ (.persist .epoch) =
        some (⟨w.store.appendAudit D ⟨.epoch, kind, data⟩, ⟨.draining saved, [], { bus with next := bus.next + 1 }, .waiting⟩⟩,
          ⟨⟨w.store, ⟨.draining saved, [], { bus with next := bus.next + 1 }, .auditing kind data⟩⟩,
            .wrote (.audit ⟨.epoch, kind, data⟩), ⟨w.store.appendAudit D ⟨.epoch, kind, data⟩,
              ⟨.draining saved, [], { bus with next := bus.next + 1 }, .waiting⟩⟩⟩) := rfl
    have hkept : ({ bus with next := bus.next + 1 } : Bus).InReach cfg.capacity := by
      have := hreach.kept
      exact ⟨hlt, by simp only; omega⟩
    have hleft : ({ bus with next := bus.next + 1 } : Bus).unread = k := by
      unfold Broadcast.unread at hunread ⊢
      simp only
      omega
    have hnext : (⟨w.store.appendAudit D ⟨.epoch, kind, data⟩, ⟨.draining saved, [],
        { bus with next := bus.next + 1 }, .waiting⟩⟩ : RunWorld).task =
        ⟨.draining saved, [], { bus with next := bus.next + 1 }, .waiting⟩ := rfl
    obtain ⟨os, w', hrun, hreturned, hfills, happ⟩ := ih hnext hclosed hkept hleft hfill.2
    refine ⟨_, w', ((Lts.Run.nil.snoc h1).snoc h2).trans hrun, hreturned, hfills, ?_⟩
    simpa [eventsOf, appliedFills, RunEvent.fill?] using happ

theorem exec_capacity (capacity : ℕ) : ∀ (as : List RunAction) (w : RunWorld), (∀ a ∈ as, a ≠ .recv) →
    (RunStore.system D { cfg with capacity }).exec w as = (RunStore.system D cfg).exec w as
  | [], _, _ => rfl
  | a :: as, w, h => by
    have hstep : (RunStore.system D { cfg with capacity }).step w a = (RunStore.system D cfg).step w a := by
      cases a with
      | recv => exact absurd rfl (h _ List.mem_cons_self)
      | _ => rfl
    have hrest := fun w' => exec_capacity capacity as w' fun b hb => h b (List.mem_cons_of_mem _ hb)
    simp only [Lts.exec, hstep, hrest]

/-- A run that begins by filling an order, its two events being published. -/
def fillFirst : List RunAction := [.load, .tick (buyTick (1 / 20) 100), .publish, .publish]

theorem fillFirst_run (capacity : ℕ) : ∃ os store run sent,
    (RunStore.system Sha256.digest (defaultRun capacity)).Run ⟨.empty, .start⟩ os
      ⟨store, ⟨.running run, [], ⟨sent, 0, false⟩, .waiting⟩⟩ ∧
    sent.length = 2 ∧ store.fills = [] ∧ (appliedFills (eventsOf os)).length = 1 := by
  have hexec : ((RunStore.system Sha256.digest (defaultRun 0)).exec ⟨.empty, .start⟩ fillFirst).map
      (fun r => decide (r.1.task.between ∧ r.1.task.bus.sent.length = 2 ∧ r.1.task.bus.next = 0 ∧
        r.1.task.bus.closed = false ∧ r.1.store.fills = [] ∧ (appliedFills (eventsOf r.2)).length = 1)) =
        some true := by
    decide +kernel
  obtain ⟨⟨⟨store, task⟩, os⟩, hrun, hall⟩ := Option.map_eq_some_iff.mp hexec
  obtain ⟨hbetween, hlen, hnext, hopen, hfills, hone⟩ := of_decide_eq_true hall
  rw [← exec_capacity capacity fillFirst _ (by simp [fillFirst])] at hrun
  obtain ⟨run, htask⟩ := RunTask.of_between hbetween
  obtain ⟨stage, outbox, ⟨sent, next, closed⟩, handling⟩ := task
  simp only at hlen hnext hopen htask
  subst hnext hopen
  rw [htask] at hrun
  exact ⟨os, store, run, sent, .of_exec hrun, hlen, hfills, hone⟩

theorem end_run (D : Digest) (cfg : RunConfig) (w : RunWorld) {run : RunState} {bus : Bus}
    (hw : w.task = ⟨.running run, [], bus, .waiting⟩) :
    ∃ os ended, ended.fill? = none ∧ appliedFills (eventsOf os) = [] ∧
      (RunStore.system D cfg).Run w os ⟨w.store.savePortfolio run.portfolio,
        ⟨.draining run.portfolio, [], (bus.send ended).close, .waiting⟩⟩ := by
  obtain ⟨store, task⟩ := w
  simp only at hw
  subst hw
  refine ⟨_, .runEnded cfg.label false run.portfolio.cash run.portfolio.realizedPnl, rfl, ?_,
    (((Lts.Run.nil).snoc (a := .finish false) rfl).snoc (a := .publish) rfl).snoc (a := .drop) rfl⟩
  rfl

/-- However much the bus keeps, some run returns without having recorded a fill. -/
theorem fill_lost : ¬ ∃ capacity, busCapacity ≤ capacity ∧ ∀ os w saved,
    (RunStore.system Sha256.digest (defaultRun capacity)).Run ⟨.empty, .start⟩ os w →
      w.task.stage = .returned saved →
      RunRecorded 1000 .empty w.store (appliedFills (eventsOf os)) := by
  rintro ⟨capacity, -, hclaim⟩
  obtain ⟨os₁, store, run, sent, hrun₁, hlen, hfills, hone⟩ := fillFirst_run capacity
  -- the loop goes on until the bus has let go of the fill, and ends
  have hw₁ : (⟨store, ⟨.running run, [], ⟨sent, 0, false⟩, .waiting⟩⟩ : RunWorld).task =
      ⟨.running run, [], ⟨sent, 0, false⟩, .waiting⟩ := rfl
  obtain ⟨os₂, run', evs, hevs, hquiet, happ₂, hrun₂⟩ := idle_run Sha256.digest (defaultRun capacity) capacity hw₁
  obtain ⟨os₃, ended, hended, happ₃, hrun₃⟩ := end_run Sha256.digest (defaultRun capacity)
    ⟨store, ⟨.running run', [], ⟨sent ++ evs, 0, false⟩, .waiting⟩⟩ rfl
  -- the subscriber gets to run: it is told that it missed three events, and takes the rest
  have hall : (sent ++ evs ++ [ended]).length = capacity + 3 := by
    simp only [List.length_append, hlen, hevs, List.length_singleton]
    omega
  have hlag : (((⟨sent ++ evs, 0, false⟩ : Bus).send ended).close).recv capacity =
      some (.lagged 3, ⟨sent ++ evs ++ [ended], 3, true⟩) := by
    simp only [Broadcast.recv, Broadcast.send, Broadcast.close]
    rw [if_pos (by omega), hall]
    congr 3 <;> omega
  let w₄ : RunWorld := ⟨store.savePortfolio run'.portfolio,
    ⟨.draining run'.portfolio, [], ⟨sent ++ evs ++ [ended], 3, true⟩, .waiting⟩⟩
  obtain ⟨o, hstep, hno⟩ : ∃ o, (RunStore.system Sha256.digest (defaultRun capacity)).step
      ⟨store.savePortfolio run'.portfolio,
        ⟨.draining run'.portfolio, [], ((⟨sent ++ evs, 0, false⟩ : Bus).send ended).close, .waiting⟩⟩ .recv =
      some (w₄, o) ∧ o.event.fill? = none := by
    simp only [RunStore.system, RunWorld.step, RunTask.move, RunTask.recv, defaultRun, hlag]
    exact ⟨_, rfl, rfl⟩
  have hquiet₄ : fillsIn ((sent ++ evs ++ [ended]).drop 3) = [] := by
    have hrest : fillsIn (evs ++ [ended]) = [] := by
      rw [fillsIn_append, hquiet]
      simp [fillsIn, hended]
    have hdrop : sent.drop 3 = [] := List.drop_eq_nil_of_le (by omega)
    rw [List.append_assoc, List.drop_append, hdrop, List.nil_append]
    unfold fillsIn at hrest ⊢
    rw [List.filterMap_eq_nil_iff] at hrest ⊢
    exact fun ev hev => hrest ev (List.mem_of_mem_drop hev)
  have hreach : (⟨sent ++ evs ++ [ended], 3, true⟩ : Bus).InReach capacity := by
    constructor <;> simp only <;> omega
  have hw₄ : w₄.task = ⟨.draining run'.portfolio, [], ⟨sent ++ evs ++ [ended], 3, true⟩, .waiting⟩ := rfl
  obtain ⟨os₅, w, hrun₅, hreturned, hfills₅, happ₅⟩ :=
    drain_run Sha256.digest (defaultRun capacity) _ hw₄ rfl hreach rfl hquiet₄
  -- the one fill was applied, and the table has none
  have hrecorded := hclaim _ w _ ((((hrun₁.trans hrun₂).trans hrun₃).snoc hstep).trans hrun₅) hreturned
  have happlied : appliedFills (eventsOf (os₁ ++ os₂ ++ os₃ ++ [o] ++ os₅)) = appliedFills (eventsOf os₁) := by
    have ho : appliedFills (eventsOf [o]) = [] := by simp [eventsOf, appliedFills, hno]
    simp only [eventsOf, List.map_append, appliedFills_append] at happ₂ happ₃ happ₅ ho ⊢
    rw [happ₂, happ₃, happ₅, ho]
    simp only [List.append_nil]
  have hnone : w.store.fills = [] := hfills₅.trans hfills
  have hgot : w.store.fills = [] ++ appliedFills (eventsOf os₁) := happlied ▸ hrecorded.fills
  rw [hnone, List.nil_append] at hgot
  rw [← hgot] at hone
  cases hone

end Sherwood
