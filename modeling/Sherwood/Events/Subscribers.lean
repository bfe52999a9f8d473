/-
# Many subscribers on one bus

`Bus`, `Subscriber` and `run_subscriber` of `crates/events/src/lib.rs` as one system: any
number of handles publish, any number of tasks each receive from the bus and handle what
they get, and their steps interleave as they will. A handler may be as slow as it likes,
may fail, and may panic.

Each subscriber accounts for every event published since it subscribed, in order and
none twice (`subscriber_accounts`). What it does and what it is given is the same
with the other subscribers as without them (`others_do_not_matter`), so a slow or failing
one takes neither the bus nor another one down. And once the last handle is dropped,
a subscriber empties its backlog and returns (`subscriber_flushes`).

Key definitions: `Envelope`, `Subscriber`, `EventBus`, `EventBus.system`.
Key theorems: `accounted_step`, `subscriber_accounts`, `others_do_not_matter`, `subscriber_flushes`.
-/
import Sherwood.Events.Bus
import Sherwood.Lib.Lts
import Mathlib.Logic.Function.Basic

namespace Sherwood

open Broadcast (Received Tiled)

/-- `EVENT_SCHEMA_VERSION`. -/
def eventSchemaVersion : UInt16 := 1

/-- `Event::correlation_id`. -/
def Event.correlationId : Event → String
  | .orderFilled fill => fill.orderId.val
  | .riskRejected orderId .. => orderId.val
  | .decided tick .. => s!"tick-{tick}"
  | .runEnded label .. => s!"run-{label}"

/-- An event with the metadata every event carries. -/
structure Envelope where
  version : UInt16
  publishedAt : DateTime
  correlationId : String
  event : Event
  deriving DecidableEq

/-- What `Bus::publish` sends. -/
def Envelope.seal (event : Event) (now : DateTime) : Envelope := ⟨eventSchemaVersion, now, event.correlationId, event⟩

/-- What a handler makes of an event: it may change its state also where it fails. -/
inductive HandlerResult (σ : Type) where
  | ok (s : σ)
  | err (s : σ) (e : String)
  | panic

/-- A consumer of events. -/
structure Subscriber (σ : Type) where
  handle : σ → Envelope → HandlerResult σ

/-- The state after some events, one after the other; `none` once the handler panics. -/
def Subscriber.run {σ : Type} (h : Subscriber σ) (s : σ) (envs : List Envelope) : Option σ :=
  envs.foldlM (fun s env => match h.handle s env with | .ok s => some s | .err s _ => some s | .panic => none) s

theorem Subscriber.run_snoc {σ : Type} (h : Subscriber σ) (s : σ) (envs : List Envelope) (env : Envelope) :
    h.run s (envs ++ [env]) = (h.run s envs).bind fun s =>
      match h.handle s env with | .ok s => some s | .err s _ => some s | .panic => none := by
  unfold Subscriber.run
  rw [List.foldlM_append]
  refine congrArg (Option.bind _) (funext fun s => ?_)
  rw [List.foldlM_cons]
  exact bind_pure _

/-- Where a task that runs `run_subscriber` is. -/
inductive TaskPhase where
  | waiting
  | handling (env : Envelope)
  | returned
  | crashed
  deriving DecidableEq

/-- A subscriber's task: the bus as its receiver sees it, and its state. -/
structure SubscriberTask (σ : Type) where
  rx : Broadcast Envelope
  phase : TaskPhase
  sub : σ

namespace SubscriberTask

variable {σ : Type}

def start (s : σ) : SubscriberTask σ := ⟨.subscribe, .waiting, s⟩

/-- `rx.recv().await`. -/
def recv (cap : ℕ) (t : SubscriberTask σ) : Option (SubscriberTask σ × Received Envelope) :=
  match t.phase with
  | .waiting =>
    (t.rx.recv cap).map fun r =>
      let phase := match r.1 with
        | .value env => .handling env
        | .lagged _ => .waiting
        | .closed => .returned
      ({ t with rx := r.2, phase }, r.1)
  | _ => none

/-- `sub.handle(&env).await` comes back. A failure is logged, and the loop goes on. -/
def finish (h : Subscriber σ) (t : SubscriberTask σ) : Option (SubscriberTask σ) :=
  match t.phase with
  | .handling env =>
    some (match h.handle t.sub env with
      | .ok s => { t with phase := .waiting, sub := s }
      | .err s _ => { t with phase := .waiting, sub := s }
      | .panic => { t with phase := .crashed })
  | _ => none

/-- How many steps the task has left to take, once nothing more is sent. -/
def backlog (t : SubscriberTask σ) : ℕ :=
  match t.phase with
  | .waiting => 2 * t.rx.unread + 1
  | .handling _ => 2 * t.rx.unread + 2
  | _ => 0

/-- The task has ended. -/
def Done (t : SubscriberTask σ) : Prop := t.phase = .returned ∨ t.phase = .crashed

/-! ### Accounting -/

/-- What a task that began with `s₀` has made of the events it was given, failures
included: it has handled all, or all but the one it is at, or has crashed on the last. -/
def HasHandled (h : Subscriber σ) (s₀ : σ) (t : SubscriberTask σ) (given : List Envelope) : Prop :=
  match t.phase with
  | .waiting => h.run s₀ given = some t.sub
  | .handling env => ∃ envs, given = envs ++ [env] ∧ h.run s₀ envs = some t.sub
  | .returned => h.run s₀ given = some t.sub
  | .crashed => h.run s₀ given = none

/-- What a task that began with `s₀` has made of the events published since: it has
received those up to somewhere, and handled the ones it was given. -/
structure Accounted (h : Subscriber σ) (s₀ : σ) (published : List Envelope) (log : List (Received Envelope))
    (t : SubscriberTask σ) : Prop where
  sent : t.rx.sent = published
  next : t.rx.next ≤ t.rx.sent.length
  tiled : Tiled t.rx.taken log
  handled : t.HasHandled h s₀ (log.filterMap Received.value?)
  returned : t.phase = .returned → t.rx.taken = published ∧ t.rx.closed

variable {cap : ℕ} {h : Subscriber σ} {s₀ : σ} {published : List Envelope} {log : List (Received Envelope)}
  {t t' : SubscriberTask σ}

theorem accounted_start (h : Subscriber σ) (s : σ) : Accounted h s [] [] (.start s) :=
  ⟨rfl, le_rfl, .nil, rfl, fun hphase => by cases hphase⟩

theorem Accounted.send (hacc : Accounted h s₀ published log t) (hopen : t.rx.closed = false)
    (env : Envelope) : Accounted h s₀ (published ++ [env]) log { t with rx := t.rx.send env } := by
  have htaken : (t.rx.send env).taken = t.rx.taken := List.take_append_of_le_length hacc.next
  refine ⟨congrArg (· ++ [env]) hacc.sent, ?_, htaken ▸ hacc.tiled, hacc.handled, fun hphase => ?_⟩
  · show t.rx.next ≤ (t.rx.sent ++ [env]).length
    rw [List.length_append]
    exact hacc.next.trans (Nat.le_add_right _ _)
  · -- it does not return while the bus is open
    have := (hacc.returned hphase).2
    rw [hopen] at this
    cases this

theorem Accounted.close (hacc : Accounted h s₀ published log t) :
    Accounted h s₀ published log { t with rx := t.rx.close } :=
  ⟨hacc.sent, hacc.next, hacc.tiled, hacc.handled, fun hphase => ⟨(hacc.returned hphase).1, rfl⟩⟩

theorem Accounted.recv (hacc : Accounted h s₀ published log t) {r : Received Envelope}
    (hrecv : t.recv cap = some (t', r)) :
    Accounted h s₀ published (log ++ [r]) t' ∧ t'.rx.closed = t.rx.closed := by
  unfold SubscriberTask.recv at hrecv
  cases hphase : t.phase with
  | waiting =>
    simp only [hphase, Option.map_eq_some_iff, Prod.mk.injEq, Prod.exists] at hrecv
    obtain ⟨r, rx, hrx, rfl, rfl⟩ := hrecv
    obtain ⟨hsent, hclosed, hnext, htiled, hrest⟩ := Broadcast.tiled_recv hacc.next hacc.tiled hrx
    have hhandled := hacc.handled
    simp only [HasHandled, hphase] at hhandled
    refine ⟨⟨hsent.trans hacc.sent, hnext, htiled, ?_, ?_⟩, hclosed⟩
    · cases r with
      | value env => exact ⟨_, List.filterMap_append, hhandled⟩
      | lagged n =>
        rw [List.filterMap_append]
        exact (List.append_nil _).symm ▸ hhandled
      | closed =>
        rw [List.filterMap_append]
        exact (List.append_nil _).symm ▸ hhandled
    · intro hreturned
      cases r with
      | value env => cases hreturned
      | lagged n => cases hreturned
      | closed =>
        obtain ⟨hsame, hshut, hempty⟩ := hrest
        have hall : rx.taken = rx.sent := by
          rw [hsame]
          exact List.take_of_length_le (Nat.sub_eq_zero_iff_le.mp hempty)
        exact ⟨hall.trans (hsent.trans hacc.sent), hclosed.trans hshut⟩
  | handling env => simp [hphase] at hrecv
  | returned => simp [hphase] at hrecv
  | crashed => simp [hphase] at hrecv

/-- It has handled one event more, or has crashed on it. -/
theorem Accounted.finish (hacc : Accounted h s₀ published log t)
    (hfinish : t.finish h = some t') : Accounted h s₀ published log t' ∧ t'.rx = t.rx := by
  unfold SubscriberTask.finish at hfinish
  cases hphase : t.phase with
  | handling env =>
    simp only [hphase, Option.some.injEq] at hfinish
    have hhandled := hacc.handled
    simp only [HasHandled, hphase] at hhandled
    obtain ⟨envs, hvalues, hrun⟩ := hhandled
    have hsnoc := Subscriber.run_snoc h s₀ envs env
    rw [hrun, Option.bind_some, ← hvalues] at hsnoc
    subst hfinish
    cases hresult : h.handle t.sub env with
    | ok s =>
      rw [hresult] at hsnoc
      exact ⟨⟨hacc.sent, hacc.next, hacc.tiled, hsnoc, fun hphase => by cases hphase⟩, rfl⟩
    | err s e =>
      rw [hresult] at hsnoc
      exact ⟨⟨hacc.sent, hacc.next, hacc.tiled, hsnoc, fun hphase => by cases hphase⟩, rfl⟩
    | panic =>
      rw [hresult] at hsnoc
      exact ⟨⟨hacc.sent, hacc.next, hacc.tiled, hsnoc, fun hphase => by cases hphase⟩, rfl⟩
  | waiting => simp [hphase] at hfinish
  | returned => simp [hphase] at hfinish
  | crashed => simp [hphase] at hfinish

theorem Accounted.backlog_recv (hacc : Accounted h s₀ published log t) {r : Received Envelope}
    (hrecv : t.recv cap = some (t', r)) : t'.backlog < t.backlog := by
  unfold SubscriberTask.recv at hrecv
  cases hphase : t.phase with
  | waiting =>
    simp only [hphase, Option.map_eq_some_iff, Prod.mk.injEq, Prod.exists] at hrecv
    obtain ⟨r, rx, hrx, rfl, rfl⟩ := hrecv
    obtain ⟨-, -, -, -, hrest⟩ := Broadcast.tiled_recv hacc.next hacc.tiled hrx
    have hbefore : t.backlog = 2 * t.rx.unread + 1 := by
      unfold backlog
      rw [hphase]
    rw [hbefore]
    cases r with
    | value env =>
      show 2 * rx.unread + 2 < _
      have : rx.unread + 1 = t.rx.unread := hrest
      omega
    | lagged n =>
      show 2 * rx.unread + 1 < _
      have : rx.unread = cap ∧ t.rx.unread = cap + n ∧ 0 < n := hrest
      omega
    | closed => exact Nat.succ_pos _
  | handling env => simp [hphase] at hrecv
  | returned => simp [hphase] at hrecv
  | crashed => simp [hphase] at hrecv

theorem backlog_finish (hfinish : t.finish h = some t') : t'.backlog < t.backlog := by
  unfold finish at hfinish
  cases hphase : t.phase with
  | handling env =>
    simp only [hphase, Option.some.injEq] at hfinish
    have hbefore : t.backlog = 2 * t.rx.unread + 2 := by
      unfold backlog
      rw [hphase]
    rw [hbefore]
    subst hfinish
    cases h.handle t.sub env with
    | ok s => exact Nat.lt_succ_self _
    | err s e => exact Nat.lt_succ_self _
    | panic => exact Nat.succ_pos _
  | waiting => simp [hphase] at hfinish
  | returned => simp [hphase] at hfinish
  | crashed => simp [hphase] at hfinish

/-- With the bus closed, a task that has not ended can go on. -/
theorem can_go_on (hclosed : t.rx.closed = true) :
    t.Done ∨ (t.recv cap).isSome ∨ (t.finish h).isSome := by
  unfold Done
  cases hphase : t.phase with
  | waiting =>
    refine .inr (.inl ?_)
    cases hrecv : t.rx.recv cap with
    | none =>
      have := (Broadcast.recv_eq_none hrecv).2
      rw [hclosed] at this
      cases this
    | some r => simp [recv, hphase, hrecv]
  | handling env => exact .inr (.inr (by simp [finish, hphase]))
  | returned => exact .inl (.inl rfl)
  | crashed => exact .inl (.inr rfl)

end SubscriberTask

/-- The bus: how many handles there are, and the tasks of the subscribers. -/
structure EventBus {ι : Type} (σ : ι → Type) where
  handles : ℕ
  task : (i : ι) → Option (SubscriberTask (σ i))

/-- A step of a publisher or of a subscriber's task. -/
inductive BusAction {ι : Type} (σ : ι → Type) where
  | publish (event : Event) (now : DateTime)
  | clone
  | drop
  | subscribe (i : ι) (s : σ i)
  | recv (i : ι)
  | finish (i : ι)

/-- What a step did. -/
inductive BusEvent {ι : Type} (σ : ι → Type) where
  | published (env : Envelope)
  | cloned
  | dropped
  | subscribed (i : ι) (s : σ i)
  | received (i : ι) (r : Received Envelope)
  | finished (i : ι)

variable {ι : Type} {σ : ι → Type}

namespace EventBus

/-- `Bus::new`. -/
def new : EventBus σ := ⟨1, fun _ => none⟩

/-- Every receiver sees what is sent. -/
def send (b : EventBus σ) (env : Envelope) : EventBus σ :=
  { b with task := fun i => (b.task i).map fun t => { t with rx := t.rx.send env } }

/-- Every receiver sees that the last handle is gone. -/
def close (b : EventBus σ) : EventBus σ :=
  { b with task := fun i => (b.task i).map fun t => { t with rx := t.rx.close } }

variable [DecidableEq ι]

def update (b : EventBus σ) (i : ι) (t : SubscriberTask (σ i)) : EventBus σ :=
  { b with task := Function.update b.task i (some t) }

/-- One step, of a channel that keeps `cap` events. Publishing, cloning and subscribing
take a handle. -/
def step (cap : ℕ) (h : (i : ι) → Subscriber (σ i)) (b : EventBus σ) : BusAction σ → Option (EventBus σ × BusEvent σ)
  | .publish event now => if b.handles = 0 then none else some (b.send (.seal event now), .published (.seal event now))
  | .clone => if b.handles = 0 then none else some ({ b with handles := b.handles + 1 }, .cloned)
  | .drop =>
    match b.handles with
    | 0 => none
    | 1 => some ({ b.close with handles := 0 }, .dropped)
    | n + 2 => some ({ b with handles := n + 1 }, .dropped)
  | .subscribe i s =>
    if b.handles = 0 ∨ (b.task i).isSome then none else some (b.update i (.start s), .subscribed i s)
  | .recv i => do
    let t ← b.task i
    let (t, r) ← t.recv cap
    return (b.update i t, .received i r)
  | .finish i => do
    let t ← b.task i
    let t ← t.finish (h i)
    return (b.update i t, .finished i)

/-- The bus and its subscribers as a system. -/
def system (cap : ℕ) (h : (i : ι) → Subscriber (σ i)) : Lts (EventBus σ) (BusAction σ) (BusEvent σ) := ⟨step cap h⟩

end EventBus

namespace BusEvent

def published? : BusEvent σ → Option Envelope
  | .published env => some env
  | _ => none

variable [DecidableEq ι]

def received? (i : ι) : BusEvent σ → Option (Received Envelope)
  | .received j r => if j = i then some r else none
  | _ => none

/-- A step of the subscriber's own task. -/
def of (i : ι) : BusEvent σ → Bool
  | .received j _ => j = i
  | .finished j => j = i
  | _ => false

/-- An event that the subscriber can tell of: a publisher's, or its own. -/
def concerns (i : ι) : BusEvent σ → Bool
  | .subscribed j _ => j = i
  | .received j _ => j = i
  | .finished j => j = i
  | _ => true

end BusEvent

/-- A step of a publisher or of the subscriber. -/
def BusAction.concerns [DecidableEq ι] (i : ι) : BusAction σ → Bool
  | .subscribe j _ => j = i
  | .recv j => j = i
  | .finish j => j = i
  | _ => true

namespace EventBus

variable [DecidableEq ι] {cap : ℕ} {h : (i : ι) → Subscriber (σ i)} {b b' : EventBus σ} {a : BusAction σ} {o : BusEvent σ}
  {i j : ι} {os : List (BusEvent σ)}

@[simp] theorem task_update_self (t : SubscriberTask (σ i)) : (b.update i t).task i = some t :=
  Function.update_self i _ b.task

theorem task_update_of_ne (hne : j ≠ i) (t : SubscriberTask (σ i)) : (b.update i t).task j = b.task j :=
  Function.update_of_ne hne _ b.task

/-! ### What a step does to one subscriber -/

/-- The subscriber's task before a step and after it, with the number of handles. -/
inductive TaskStep (cap : ℕ) (i : ι) (h : Subscriber (σ i)) :
    ℕ → Option (SubscriberTask (σ i)) → BusEvent σ → ℕ → SubscriberTask (σ i) → Prop
  | published {n : ℕ} {t : SubscriberTask (σ i)} (env : Envelope) (hn : 0 < n) :
      TaskStep cap i h n (some t) (.published env) n { t with rx := t.rx.send env }
  | closed {t : SubscriberTask (σ i)} : TaskStep cap i h 1 (some t) .dropped 0 { t with rx := t.rx.close }
  | subscribed {n : ℕ} (s : σ i) (hn : 0 < n) : TaskStep cap i h n none (.subscribed i s) n (.start s)
  | received {n : ℕ} {t t' : SubscriberTask (σ i)} {r : Received Envelope} (hrecv : t.recv cap = some (t', r)) :
      TaskStep cap i h n (some t) (.received i r) n t'
  | finished {n : ℕ} {t t' : SubscriberTask (σ i)} (hfinish : t.finish h = some t') :
      TaskStep cap i h n (some t) (.finished i) n t'
  | idle {n n' : ℕ} {t : SubscriberTask (σ i)} {o : BusEvent σ} (hpub : o.published? = none)
      (hrecv : o.received? i = none) (hof : o.of i = false) (hn : n' = 0 ↔ n = 0) :
      TaskStep cap i h n (some t) o n' t

/-- **A step, as one subscriber sees it.** -/
theorem taskStep_of_step {t' : SubscriberTask (σ i)} (hs : step cap h b a = some (b', o)) (ht : b'.task i = some t') :
    TaskStep cap i (h i) b.handles (b.task i) o b'.handles t' := by
  cases a with
  | publish event now =>
    simp only [step, Option.ite_none_left_eq_some, Option.some.injEq, Prod.mk.injEq] at hs
    obtain ⟨hn, rfl, rfl⟩ := hs
    obtain ⟨t, hbefore, rfl⟩ := Option.map_eq_some_iff.mp ht
    rw [hbefore]
    exact .published _ (Nat.pos_of_ne_zero hn)
  | clone =>
    simp only [step, Option.ite_none_left_eq_some, Option.some.injEq, Prod.mk.injEq] at hs
    obtain ⟨hn, rfl, rfl⟩ := hs
    rw [show b.task i = some t' from ht]
    exact .idle rfl rfl rfl (by simp [hn])
  | drop =>
    simp only [step] at hs
    split at hs
    · cases hs
    · rename_i hn
      obtain ⟨rfl, rfl⟩ := Prod.mk.inj (Option.some.inj hs)
      obtain ⟨t, hbefore, rfl⟩ := Option.map_eq_some_iff.mp ht
      rw [hbefore, hn]
      exact .closed
    · rename_i n hn
      obtain ⟨rfl, rfl⟩ := Prod.mk.inj (Option.some.inj hs)
      rw [show b.task i = some t' from ht]
      exact .idle rfl rfl rfl (by simp [hn])
  | subscribe j s =>
    simp only [step, Option.ite_none_left_eq_some, Option.some.injEq, Prod.mk.injEq, not_or] at hs
    obtain ⟨⟨hn, hnew⟩, rfl, rfl⟩ := hs
    by_cases hj : i = j
    · subst hj
      rw [task_update_self, Option.some.injEq] at ht
      rw [Option.not_isSome_iff_eq_none.mp hnew, ← ht]
      exact .subscribed s (Nat.pos_of_ne_zero hn)
    · rw [task_update_of_ne hj] at ht
      rw [ht]
      exact .idle rfl rfl rfl Iff.rfl
  | recv j =>
    simp only [step, Option.bind_eq_bind, Option.bind_eq_some_iff, Option.pure_def, Option.some.injEq, Prod.mk.injEq,
      Prod.exists] at hs
    obtain ⟨t, hbefore, t₁, r, hrecv, rfl, rfl⟩ := hs
    by_cases hj : i = j
    · subst hj
      rw [task_update_self, Option.some.injEq] at ht
      rw [hbefore]
      exact .received (ht ▸ hrecv)
    · rw [task_update_of_ne hj] at ht
      rw [ht]
      exact .idle rfl (if_neg (Ne.symm hj)) (decide_eq_false (Ne.symm hj)) Iff.rfl
  | finish j =>
    simp only [step, Option.bind_eq_bind, Option.bind_eq_some_iff, Option.pure_def, Option.some.injEq,
      Prod.mk.injEq] at hs
    obtain ⟨t, hbefore, t₁, hfinish, rfl, rfl⟩ := hs
    by_cases hj : i = j
    · subst hj
      rw [task_update_self, Option.some.injEq] at ht
      rw [hbefore]
      exact .finished (ht ▸ hfinish)
    · rw [task_update_of_ne hj] at ht
      rw [ht]
      exact .idle rfl rfl (decide_eq_false (Ne.symm hj)) Iff.rfl

theorem task_step {t : SubscriberTask (σ i)} (hs : step cap h b a = some (b', o)) (ht : b.task i = some t) :
    ∃ t', b'.task i = some t' := by
  refine Option.isSome_iff_exists.mp ?_
  have hupdate : ∀ j (u : SubscriberTask (σ j)), ((b.update j u).task i).isSome := by
    intro j u
    by_cases hj : i = j
    · subst hj
      simp
    · rw [task_update_of_ne hj, ht]
      rfl
  cases a with
  | publish event now =>
    simp only [step, Option.ite_none_left_eq_some, Option.some.injEq, Prod.mk.injEq] at hs
    obtain ⟨-, rfl, -⟩ := hs
    simp [send, ht]
  | clone =>
    simp only [step, Option.ite_none_left_eq_some, Option.some.injEq, Prod.mk.injEq] at hs
    obtain ⟨-, rfl, -⟩ := hs
    simp [ht]
  | drop =>
    simp only [step] at hs
    split at hs
    · cases hs
    · obtain ⟨rfl, -⟩ := Prod.mk.inj (Option.some.inj hs)
      simp [close, ht]
    · obtain ⟨rfl, -⟩ := Prod.mk.inj (Option.some.inj hs)
      simp [ht]
  | subscribe j s =>
    simp only [step, Option.ite_none_left_eq_some, Option.some.injEq, Prod.mk.injEq] at hs
    obtain ⟨-, rfl, -⟩ := hs
    exact hupdate j _
  | recv j =>
    simp only [step, Option.bind_eq_bind, Option.bind_eq_some_iff, Option.pure_def, Option.some.injEq, Prod.mk.injEq,
      Prod.exists] at hs
    obtain ⟨_, -, _, _, -, rfl, -⟩ := hs
    exact hupdate j _
  | finish j =>
    simp only [step, Option.bind_eq_bind, Option.bind_eq_some_iff, Option.pure_def, Option.some.injEq,
      Prod.mk.injEq] at hs
    obtain ⟨_, -, _, -, rfl, -⟩ := hs
    exact hupdate j _

/-! ### Runs -/

variable {t' : SubscriberTask (σ i)}

/-- What holds of each subscriber in a state that a run reaches. -/
structure Subscribed (h : (i : ι) → Subscriber (σ i)) (os : List (BusEvent σ)) (n : ℕ) (i : ι)
    (t : SubscriberTask (σ i)) : Prop where
  accounted : ∃ pre s₀ post, os = pre ++ .subscribed i s₀ :: post ∧
    SubscriberTask.Accounted (h i) s₀ (post.filterMap BusEvent.published?) (post.filterMap (BusEvent.received? i)) t
  closed : t.rx.closed = true ↔ n = 0

theorem filterMap_hidden {α β : Type} {f : α → Option β} {l : List α} {a : α} (ha : f a = none) :
    (l ++ [a]).filterMap f = l.filterMap f := by
  rw [List.filterMap_append, List.filterMap_cons_none ha]
  exact List.append_nil _

/-- **One step.** Every subscriber's account is carried on. -/
theorem accounted_step (hall : ∀ i t, b.task i = some t → Subscribed h os b.handles i t)
    (hs : step cap h b a = some (b', o)) (i : ι) (t' : SubscriberTask (σ i)) (ht' : b'.task i = some t') :
    Subscribed h (os ++ [o]) b'.handles i t' := by
  have hmove := taskStep_of_step hs ht'
  revert hmove
  generalize htask : b.task i = before
  generalize hn : b.handles = n
  generalize b'.handles = n'
  intro hmove
  cases hmove with
  | @subscribed _ s hpos =>
    refine ⟨⟨os, s, [], rfl, SubscriberTask.accounted_start (h i) s⟩, ?_⟩
    exact ⟨fun hclosed => (by cases hclosed), fun hzero => absurd hzero hpos.ne'⟩
  | @published _ t env hpos =>
    obtain ⟨⟨pre, s₀, post, rfl, hacc⟩, hclosed⟩ := hall i t htask
    rw [hn] at hclosed
    have hopen : t.rx.closed = false := Bool.not_eq_true _ ▸ fun hc => hpos.ne' (hclosed.mp hc)
    refine ⟨⟨pre, s₀, post ++ [.published env], by simp, ?_⟩, hclosed⟩
    rw [filterMap_hidden (f := BusEvent.received? i) rfl, List.filterMap_append]
    exact hacc.send hopen env
  | @closed t =>
    obtain ⟨⟨pre, s₀, post, rfl, hacc⟩, -⟩ := hall i t htask
    refine ⟨⟨pre, s₀, post ++ [.dropped], by simp, ?_⟩, by simp [Broadcast.close]⟩
    rw [filterMap_hidden rfl, filterMap_hidden rfl]
    exact hacc.close
  | @received _ t _ r hrecv =>
    obtain ⟨⟨pre, s₀, post, rfl, hacc⟩, hclosed⟩ := hall i t htask
    obtain ⟨hnext, hsame⟩ := hacc.recv hrecv
    refine ⟨⟨pre, s₀, post ++ [.received i r], by simp, ?_⟩, by rw [hsame, hclosed, hn]⟩
    have hlog : BusEvent.received? i (BusEvent.received (σ := σ) i r) = some r := if_pos rfl
    rw [filterMap_hidden rfl, List.filterMap_append, List.filterMap_cons_some hlog, List.filterMap_nil]
    exact hnext
  | @finished _ t _ hfinish =>
    obtain ⟨⟨pre, s₀, post, rfl, hacc⟩, hclosed⟩ := hall i t htask
    obtain ⟨hnext, hsame⟩ := hacc.finish hfinish
    refine ⟨⟨pre, s₀, post ++ [.finished i], by simp, ?_⟩, by rw [hsame, hclosed, hn]⟩
    rw [filterMap_hidden rfl, filterMap_hidden rfl]
    exact hnext
  | idle hpub hrecv _ hzero =>
    obtain ⟨⟨pre, s₀, post, rfl, hacc⟩, hclosed⟩ := hall i t' htask
    refine ⟨⟨pre, s₀, post ++ [o], by simp, ?_⟩, by rw [hclosed, hn, hzero]⟩
    rw [filterMap_hidden hpub, filterMap_hidden hrecv]
    exact hacc

theorem subscribed_of_run (h : (i : ι) → Subscriber (σ i)) (hrun : (system cap h).Run .new os b) (i : ι)
    (t : SubscriberTask (σ i)) (ht : b.task i = some t) : Subscribed h os b.handles i t :=
  Lts.Run.inv (P := fun os b => ∀ i t, b.task i = some t → Subscribed h os b.handles i t)
    (fun _ _ ht => by cases ht) (fun _ _ _ _ _ _ ih hstep => accounted_step ih hstep) hrun i t ht

/-- **What a subscriber accounts for.** In every state that is reached, each subscriber
has received the events published since it subscribed, up to somewhere: one after the
other or told how many it missed, so what it was given is of them, in order and none
twice. It has handled what it was given, one by one. It returns only when nothing
is left and the last handle is gone. -/
theorem subscriber_accounts (cap : ℕ) (h : (i : ι) → Subscriber (σ i)) (hrun : (system cap h).Run .new os b) (i : ι)
    (t : SubscriberTask (σ i)) (ht : b.task i = some t) :
    ∃ pre s₀ post seen rest, os = pre ++ .subscribed i s₀ :: post ∧
      post.filterMap BusEvent.published? = seen ++ rest ∧
      Tiled seen (post.filterMap (BusEvent.received? i)) ∧
      t.HasHandled (h i) s₀ ((post.filterMap (BusEvent.received? i)).filterMap Received.value?) ∧
      (t.phase = .returned → rest = [] ∧ b.handles = 0) := by
  obtain ⟨⟨pre, s₀, post, hos, hacc⟩, hclosed⟩ := subscribed_of_run h hrun i t ht
  have hsplit : post.filterMap BusEvent.published? = t.rx.taken ++ t.rx.sent.drop t.rx.next := by
    rw [← hacc.sent]
    exact (List.take_append_drop _ _).symm
  refine ⟨pre, s₀, post, _, _, hos, hsplit, hacc.tiled, hacc.handled, fun hphase => ?_⟩
  obtain ⟨hall, hshut⟩ := hacc.returned hphase
  refine ⟨?_, hclosed.mp hshut⟩
  rw [hall] at hsplit
  exact List.self_eq_append_right.mp hsplit

/-- One handler that counts, and one that panics. -/
def countAndPanic : (i : Bool) → Subscriber ℕ
  | true => ⟨fun n _ => .ok (n + 1)⟩
  | false => ⟨fun _ _ => .panic⟩

/-- The end of a run, published. -/
def sayEnd : BusAction fun _ : Bool => ℕ := .publish (.runEnded "t" false 1000 0) .epoch

/-- Two subscribers, of which one crashes, and two events before the last handle goes. -/
def crashActions : List (BusAction fun _ : Bool => ℕ) :=
  [.subscribe false 0, .subscribe true 0, sayEnd, .recv false, .finish false, sayEnd, .recv true, .recv true,
    .finish true, .drop, .recv true]

/-- The one that counts misses the first event, of a channel that keeps one, and has all
accounted for when it returns. -/
theorem subscriber_accounts_crash : ∃ os b t, (system 1 countAndPanic).Run .new os b ∧ b.task true = some t ∧
    t.phase = .returned ∧ t.sub = 1 ∧ ∃ pre s₀ post, os = pre ++ .subscribed true s₀ :: post ∧
      Tiled (post.filterMap BusEvent.published?) (post.filterMap (BusEvent.received? true)) := by
  have hexec : ((system 1 countAndPanic).exec .new crashActions).map
      (fun r => (r.1.task true).map fun t => (t.phase, t.sub)) = some (some (.returned, 1)) := by
    rfl
  obtain ⟨⟨b, os⟩, hrun, htask⟩ := Option.map_eq_some_iff.mp hexec
  obtain ⟨t, ht, hphase⟩ := Option.map_eq_some_iff.mp htask
  obtain ⟨hphase, hsub⟩ := Prod.mk.inj hphase
  obtain ⟨pre, s₀, post, seen, rest, hos, hsplit, htiled, -, hreturned⟩ :=
    subscriber_accounts 1 countAndPanic (.of_exec hrun) true t ht
  rw [(hreturned hphase).1, List.append_nil] at hsplit
  exact ⟨os, b, t, .of_exec hrun, ht, hphase, hsub, pre, s₀, post, hos, hsplit ▸ htiled⟩

/-! ### The other subscribers -/

/-- The bus with one subscriber only. -/
def only (i : ι) (b : EventBus σ) : EventBus σ := { b with task := fun j => if j = i then b.task j else none }

theorem only_task_self (i : ι) (b : EventBus σ) : (b.only i).task i = b.task i := if_pos rfl

theorem only_map (i : ι) (b : EventBus σ) (f : {j : ι} → SubscriberTask (σ j) → SubscriberTask (σ j)) :
    (fun j => ((b.only i).task j).map f) = fun j => if j = i then (b.task j).map f else none := by
  funext j
  unfold only
  by_cases hj : j = i
  · simp only [if_pos hj]
  · simp only [if_neg hj, Option.map_none]

theorem only_update (i : ι) (b : EventBus σ) (t : SubscriberTask (σ i)) :
    (b.only i).update i t = (b.update i t).only i := by
  refine congrArg (EventBus.mk b.handles) (funext fun j => ?_)
  by_cases hj : j = i
  · subst hj
    simp [update]
  · simp [only, hj]

theorem only_update_of_ne (hne : j ≠ i) (b : EventBus σ) (t : SubscriberTask (σ j)) :
    (b.update j t).only i = b.only i := by
  refine congrArg (EventBus.mk b.handles) (funext fun k => ?_)
  by_cases hk : k = i
  · subst hk
    simp [update, Function.update_of_ne hne.symm]
  · simp [hk]

/-- A step that concerns the subscriber is the same without the others. -/
theorem step_only (cap : ℕ) (h : (i : ι) → Subscriber (σ i)) (i : ι) (b : EventBus σ) (ha : a.concerns i = true) :
    step cap h (b.only i) a = (step cap h b a).map fun r => (r.1.only i, r.2) := by
  cases a with
  | publish event now =>
    by_cases hn : b.handles = 0
    · simp [step, only, hn]
    · simp only [step, hn, if_false, show (b.only i).handles = b.handles from rfl, Option.map_some, send, only_map]
      rfl
  | clone =>
    by_cases hn : b.handles = 0 <;> simp [step, only, hn]
  | drop =>
    rcases hn : b.handles with _ | _ | n
    · simp [step, only, hn]
    · simp only [step, hn, show (b.only i).handles = b.handles from rfl, Option.map_some, close, only_map]
      rfl
    · simp [step, only, hn]
  | subscribe j s =>
    obtain rfl : j = i := of_decide_eq_true ha
    by_cases hguard : b.handles = 0 ∨ (b.task j).isSome
    · have hguard' : (b.only j).handles = 0 ∨ ((b.only j).task j).isSome := by rwa [only_task_self]
      rw [step, step, if_pos hguard, if_pos hguard', Option.map_none]
    · have hguard' : ¬ ((b.only j).handles = 0 ∨ ((b.only j).task j).isSome) := by rwa [only_task_self]
      rw [step, step, if_neg hguard, if_neg hguard', Option.map_some, only_update]
  | recv j =>
    obtain rfl : j = i := of_decide_eq_true ha
    simp only [step, only_task_self, Option.bind_eq_bind, Option.pure_def, only_update]
    cases b.task j with
    | none => rfl
    | some t => cases ht : t.recv cap <;> simp [ht]
  | finish j =>
    obtain rfl : j = i := of_decide_eq_true ha
    simp only [step, only_task_self, Option.bind_eq_bind, Option.pure_def, only_update]
    cases b.task j with
    | none => rfl
    | some t => cases ht : t.finish (h j) <;> simp [ht]

theorem concerns_of_step (hs : step cap h b a = some (b', o)) : o.concerns i = a.concerns i := by
  cases a with
  | publish event now =>
    simp only [step, Option.ite_none_left_eq_some, Option.some.injEq, Prod.mk.injEq] at hs
    rw [← hs.2.2]
    rfl
  | clone =>
    simp only [step, Option.ite_none_left_eq_some, Option.some.injEq, Prod.mk.injEq] at hs
    rw [← hs.2.2]
    rfl
  | drop =>
    simp only [step] at hs
    split at hs
    · cases hs
    · rw [← (Prod.mk.inj (Option.some.inj hs)).2]
      rfl
    · rw [← (Prod.mk.inj (Option.some.inj hs)).2]
      rfl
  | subscribe j s =>
    simp only [step, Option.ite_none_left_eq_some, Option.some.injEq, Prod.mk.injEq] at hs
    rw [← hs.2.2]
    rfl
  | recv j =>
    simp only [step, Option.bind_eq_bind, Option.bind_eq_some_iff, Option.pure_def, Option.some.injEq, Prod.mk.injEq,
      Prod.exists] at hs
    obtain ⟨_, -, _, _, -, -, rfl⟩ := hs
    rfl
  | finish j =>
    simp only [step, Option.bind_eq_bind, Option.bind_eq_some_iff, Option.pure_def, Option.some.injEq,
      Prod.mk.injEq] at hs
    obtain ⟨_, -, _, -, -, rfl⟩ := hs
    rfl

/-- A step of another subscriber leaves this one's part of the bus alone. -/
theorem only_of_step (hs : step cap h b a = some (b', o)) (ha : a.concerns i = false) : b'.only i = b.only i := by
  cases a with
  | publish event now => cases ha
  | clone => cases ha
  | drop => cases ha
  | subscribe j s =>
    simp only [step, Option.ite_none_left_eq_some, Option.some.injEq, Prod.mk.injEq] at hs
    rw [← hs.2.1]
    exact only_update_of_ne (of_decide_eq_false ha) b _
  | recv j =>
    simp only [step, Option.bind_eq_bind, Option.bind_eq_some_iff, Option.pure_def, Option.some.injEq, Prod.mk.injEq,
      Prod.exists] at hs
    obtain ⟨_, -, _, _, -, rfl, -⟩ := hs
    exact only_update_of_ne (of_decide_eq_false ha) b _
  | finish j =>
    simp only [step, Option.bind_eq_bind, Option.bind_eq_some_iff, Option.pure_def, Option.some.injEq,
      Prod.mk.injEq] at hs
    obtain ⟨_, -, _, -, rfl, -⟩ := hs
    exact only_update_of_ne (of_decide_eq_false ha) b _

/-- **The other subscribers do not matter.** Whatever they do, the publishers and this
one take the same steps, see the same and come to the same state without them; and
a step that one of these can take, it can take with them or without. -/
theorem others_do_not_matter (cap : ℕ) (h : (i : ι) → Subscriber (σ i)) (i : ι) (b b' : EventBus σ)
    (as : List (BusAction σ)) (os : List (BusEvent σ)) (hexec : (system cap h).exec b as = some (b', os)) :
    (system cap h).exec (b.only i) (as.filter fun a => a.concerns i) =
        some (b'.only i, os.filter fun o => o.concerns i) ∧
      ∀ a : BusAction σ, a.concerns i = true →
        ((step cap h b' a).isSome ↔ (step cap h (b'.only i) a).isSome) := by
  refine ⟨?_, fun a ha => by rw [step_only cap h i b' ha, Option.isSome_map]⟩
  rw [← List.filterMap_eq_filter, ← List.filterMap_eq_filter]
  refine Lts.exec_project (M := system cap h) ?_ ?_ hexec
  · intro b a b' o a' hs hact
    obtain ⟨rfl, ha⟩ := Option.guard_eq_some_iff.mp hact
    refine ⟨o, Option.guard_eq_some_iff.mpr ⟨rfl, (concerns_of_step hs).trans ha⟩, ?_⟩
    show step cap h (b.only i) a = _
    rw [step_only cap h i b ha, show step cap h b a = some (b', o) from hs]
    rfl
  · intro b a b' o hs hact
    have ha : a.concerns i = false := by simpa using Option.guard_eq_none_iff.mp hact
    refine ⟨Option.guard_eq_none_iff.mpr ?_, only_of_step hs ha⟩
    simpa using (concerns_of_step hs).trans ha

/-- Without the one that crashes. -/
theorem others_do_not_matter_crash : ∃ b os, (system 1 countAndPanic).exec .new crashActions = some (b, os) ∧
    (system 1 countAndPanic).exec (EventBus.only true .new) (crashActions.filter fun a => a.concerns true) =
      some (b.only true, os.filter fun o => o.concerns true) := by
  have hexec : ((system 1 countAndPanic).exec .new crashActions).isSome = true := by
    rfl
  obtain ⟨⟨b, os⟩, hrun⟩ := Option.isSome_iff_exists.mp hexec
  exact ⟨b, os, hrun, (others_do_not_matter 1 countAndPanic true .new b crashActions os hrun).1⟩

/-! ### Draining -/

/-- Once the last handle is dropped no step adds to what a subscriber has left, and each one of its own takes from it. -/
theorem backlog_step {t : SubscriberTask (σ i)} (hs : step cap h b a = some (b', o)) (hzero : b.handles = 0)
    (ht : b.task i = some t) (hsubscribed : Subscribed h os b.handles i t) :
    b'.handles = 0 ∧ ∃ t', b'.task i = some t' ∧ [o].countP (BusEvent.of i) + t'.backlog ≤ t.backlog := by
  obtain ⟨t₂, ht₂⟩ := task_step hs ht
  obtain ⟨⟨_, _, _, -, hacc⟩, -⟩ := hsubscribed
  have hmove := taskStep_of_step hs ht₂
  rw [hzero, ht] at hmove
  rw [List.countP_singleton]
  generalize hn : b'.handles = n' at hmove
  cases hmove with
  | published _ hpos => exact absurd hpos (Nat.lt_irrefl 0)
  | received hrecv =>
    refine ⟨rfl, t₂, ht₂, ?_⟩
    have := hacc.backlog_recv hrecv
    rw [if_pos (by simp [BusEvent.of])]
    omega
  | finished hfinish =>
    refine ⟨rfl, t₂, ht₂, ?_⟩
    have := SubscriberTask.backlog_finish hfinish
    rw [if_pos (by simp [BusEvent.of])]
    omega
  | idle _ _ hof hiff =>
    refine ⟨hiff.mpr rfl, t, ht₂, ?_⟩
    rw [if_neg (by simp [hof])]
    omega

theorem backlog_run {t : SubscriberTask (σ i)} (hrun : (system cap h).Run .new os b) (hzero : b.handles = 0)
    (ht : b.task i = some t) {os' : List (BusEvent σ)} (hlater : (system cap h).Run b os' b') :
    b'.handles = 0 ∧ ∃ t', b'.task i = some t' ∧ os'.countP (BusEvent.of i) + t'.backlog ≤ t.backlog := by
  refine Lts.Run.inv (P := fun os' b' => b'.handles = 0 ∧ ∃ t', b'.task i = some t' ∧
    os'.countP (BusEvent.of i) + t'.backlog ≤ t.backlog) ⟨hzero, t, ht, by simp⟩ ?_ hlater
  rintro os' b₁ a b₂ o hr ⟨hzero₁, t₁, ht₁, hcount⟩ hs
  obtain ⟨hzero₂, t₂, ht₂, hstep⟩ := backlog_step hs hzero₁ ht₁ (subscribed_of_run h (hrun.trans hr) i t₁ ht₁)
  refine ⟨hzero₂, t₂, ht₂, ?_⟩
  rw [List.countP_append]
  omega

/-- A subscriber of a closed channel that is not done can take a step. -/
theorem can_step {t : SubscriberTask (σ i)} (ht : b.task i = some t) (hclosed : t.rx.closed = true) :
    t.Done ∨ (step cap h b (.recv i)).isSome ∨ (step cap h b (.finish i)).isSome := by
  have hgo : t.Done ∨ (t.recv cap).isSome ∨ (t.finish (h i)).isSome := SubscriberTask.can_go_on hclosed
  rcases hgo with hdone | hrecv | hfinish
  · exact .inl hdone
  · refine .inr (.inl ?_)
    obtain ⟨r, hr⟩ := Option.isSome_iff_exists.mp hrecv
    simp [step, ht, hr]
  · refine .inr (.inr ?_)
    obtain ⟨r, hr⟩ := Option.isSome_iff_exists.mp hfinish
    simp [step, ht, hr]

/-- **A subscriber flushes.** Once the last handle is dropped, and whatever the others do
in the meantime, a subscriber takes no more steps than two an event that it has left, and
two more; until it has returned, or crashed, it can take one. -/
theorem subscriber_flushes (cap : ℕ) (h : (i : ι) → Subscriber (σ i)) (hrun : (system cap h).Run .new os b)
    (hdropped : b.handles = 0) (i : ι) (t : SubscriberTask (σ i)) (ht : b.task i = some t) {os' : List (BusEvent σ)}
    (hlater : (system cap h).Run b os' b') :
    ∃ t', b'.task i = some t' ∧ os'.countP (BusEvent.of i) ≤ 2 * t.rx.unread + 2 ∧
      (t'.Done ∨ (step cap h b' (.recv i)).isSome ∨ (step cap h b' (.finish i)).isSome) := by
  obtain ⟨hzero, t', ht', hcount⟩ := backlog_run hrun hdropped ht hlater
  obtain ⟨-, hclosed⟩ := subscribed_of_run h (hrun.trans hlater) i t' ht'
  have hbacklog : t.backlog ≤ 2 * t.rx.unread + 2 := by
    unfold SubscriberTask.backlog
    split <;> omega
  exact ⟨t', ht', by omega, can_step ht' (hclosed.mpr hzero)⟩

/-- One event is left when the last handle is dropped: three steps, of the four at most. -/
theorem subscriber_flushes_crash : ∃ os b t os' b' t', (system 1 countAndPanic).Run .new os b ∧
    b.task true = some t ∧ t.rx.unread = 1 ∧ (system 1 countAndPanic).Run b os' b' ∧ b'.task true = some t' ∧
    os'.countP (BusEvent.of true) = 3 ∧ os'.countP (BusEvent.of true) ≤ 2 * t.rx.unread + 2 ∧ t'.Done := by
  have hexec : ((system 1 countAndPanic).exec .new [.subscribe true 0, sayEnd, .drop]).bind (fun r =>
      ((system 1 countAndPanic).exec r.1 [.recv true, .finish true, .recv true]).map fun r' =>
        (r.1.handles, (r.1.task true).map fun t => t.rx.unread,
          r'.2.countP (BusEvent.of true), (r'.1.task true).map fun t => t.phase)) =
      some (0, some 1, 3, some .returned) := by
    rfl
  obtain ⟨⟨b, os⟩, hrun, hnext⟩ := Option.bind_eq_some_iff.mp hexec
  obtain ⟨⟨b', os'⟩, hrun', hresult⟩ := Option.map_eq_some_iff.mp hnext
  simp only [Prod.mk.injEq, Option.map_eq_some_iff] at hresult
  obtain ⟨hdropped, ⟨t, ht, hunread⟩, hcount, t', ht', hphase⟩ := hresult
  obtain ⟨t'', ht'', hbound, -⟩ := subscriber_flushes 1 countAndPanic (.of_exec hrun) hdropped true t ht (.of_exec hrun')
  exact ⟨os, b, t, os', b', t', .of_exec hrun, ht, hunread, .of_exec hrun', ht', hcount, hbound, .inl hphase⟩

end EventBus

end Sherwood
