/-
# The live price feed

`ChainFeed` of `crates/chain/src/feed.rs`: it goes round its symbols, waits at the start of
each round for the poll interval to be over, and reads a price; a symbol's pool is looked
for the first time and kept, and a read that fails is made again after a pause.

In every run the symbols come in turn, each tick's price is one that the symbol's pool
gave in the last requests of its own call, all of one symbol's are of one pool, and from
the second round on nothing but calls is made for them. Rounds start an interval apart
(`live_feed_run`).

Key definitions: `ChainFeed`, `ChainFeed.nextTick`, `LiveFeed.system`, `LiveFeed.Good`.
Key theorems: `run_readOne`, `tick_of_step`, `live_feed_run`.
-/
import Sherwood.Chain.Live
import Sherwood.Chain.ReadOnly
import Sherwood.Cli.PreviewBounds
import Sherwood.Core.Types
import Sherwood.Lib.Lts

namespace Sherwood.Chain

open Dex (PoolKey)
open DexPreview

/-- One symbol the feed polls, with its pool once it was found. -/
structure Sym where
  symbol : String
  address : String
  decimals : UInt8
  pool : Option PoolKey

/-- A known symbol or a raw address. -/
def Sym.ofText (text : String) (pool : Option PoolKey) : Sym :=
  ⟨(resolve text).symbol, (resolve text).address, (resolve text).decimals, pool⟩

/-- Tunables; times are in milliseconds. -/
structure ChainFeedConfig where
  poolManager : String
  stateView : String
  denomAddress : String
  denomDecimals : UInt8
  pollInterval : ℕ
  maxRetries : ℕ

def ChainFeedConfig.default : ChainFeedConfig :=
  let usdg := resolve "USDG"
  ⟨Chain.poolManager, Chain.stateView, usdg.address, usdg.decimals, 15000, 8⟩

structure ChainFeed where
  cfg : ChainFeedConfig
  symbols : List Sym
  idx : ℕ
  cycleDeadline : Option ℕ

namespace ChainFeed

/-- `ChainFeed::new`. -/
def new (symbols : List String) (cfg : ChainFeedConfig) : ChainFeed where
  cfg
  symbols := symbols.map fun s => .ofText s none
  idx := 0
  cycleDeadline := none

/-- The wait for the round to be over, if there was one. -/
def sleepOver {ε : Type} : Option ℕ → Live ε Unit
  | none => return ()
  | some deadline => do
    let now ← Live.now
    if now < deadline then Live.sleepUntil deadline else return ()

/-- `wait_for_cycle`. -/
def waitForCycle {ε : Type} (feed : ChainFeed) : Live ε ChainFeed := do
  sleepOver feed.cycleDeadline
  let now ← Live.now
  return { feed with cycleDeadline := some (now + feed.cfg.pollInterval) }

/-- The next symbol, the pool of this one being known. -/
def keep (feed : ChainFeed) (sym : Sym) (pool : PoolKey) : ChainFeed :=
  { feed with
    idx := (feed.idx + 1) % feed.symbols.length
    symbols := feed.symbols.set feed.idx { sym with pool := some pool } }

variable (crates : Crates)

/-- The symbol's pool, looked for if there is none yet. -/
def findPool (cfg : ChainFeedConfig) (sym : Sym) : Rpc PoolKey :=
  match sym.pool with
  | some pool => return pool
  | none => do
    let head ← blockNumber crates
    let ranked ← findBestPool crates ⟨cfg.poolManager, cfg.stateView⟩ sym.address cfg.denomAddress 0 head
    return ranked.key

/-- The price of the symbol in a pool. -/
def quote (cfg : ChainFeedConfig) (sym : Sym) (pool : PoolKey) : Rpc ℚ :=
  quotePool crates cfg.stateView pool sym.address ⟨sym.decimals, cfg.denomDecimals⟩

/-- One attempt at a price. -/
def attemptRead (cfg : ChainFeedConfig) (sym : Sym) : Rpc (ℚ × PoolKey) := do
  let pool ← findPool crates cfg sym
  let price ← quote crates cfg sym pool
  return (price, pool)

/-- `read_one`, for so many attempts; `none` where they do not suffice. `failed` counts those
since the last long pause. -/
def readOne {ε : Type} (cfg : ChainFeedConfig) (sym : Sym) : (turns failed : ℕ) → Live ε (Option (ℚ × PoolKey))
  | 0, _ => return none
  | turns + 1, failed => do
    match ← (live (attemptRead crates cfg sym)).attempt with
    | .ok result => return some result
    | .error _ =>
      if failed + 1 > cfg.maxRetries then
        Live.sleep (max cfg.pollInterval 5000)
        readOne cfg sym turns 0
      else
        Live.sleep (300 * 2 ^ min (failed + 1) 6)
        readOne cfg sym turns (failed + 1)

/-- The symbol's read, and the tick, at the wall clock's time. -/
def readTick {ε : Type} (turns : ℕ) (utc : DateTime) (feed : ChainFeed) : Live ε (Option (Option Tick × ChainFeed)) :=
  match feed.symbols[feed.idx]? with
  | none => .done .panic
  | some sym => do
    match ← readOne crates feed.cfg sym turns 0 with
    | none => return none
    | some (price, pool) => return some (some ⟨utc, sym.symbol, price⟩, feed.keep sym pool)

/-- `next_tick`. -/
def nextTick {ε : Type} (turns : ℕ) (utc : DateTime) (feed : ChainFeed) : Live ε (Option (Option Tick × ChainFeed)) :=
  if feed.symbols = [] then return some (none, feed)
  else do
    let feed ← if feed.idx = 0 then waitForCycle feed else pure feed
    readTick crates turns utc feed

end ChainFeed

namespace LiveFeed

open ChainFeed

/-- One call of `next_tick`: how many attempts it gets, and the wall clock at its end. -/
structure Call where
  turns : ℕ
  utc : DateTime

/-- A tick: which symbol's it is, the pool then kept, the deadline of the round, and what was
done before the call and after it. -/
structure Delivered where
  index : ℕ
  tick : Tick
  pool : Option PoolKey
  deadline : Option ℕ
  before : List Effect
  after : List Effect

/-- A call in a world. -/
def step (crates : Crates) (world : World) (s : ChainFeed × List Effect) (call : Call) :
    Option ((ChainFeed × List Effect) × Delivered) :=
  match (nextTick crates call.turns call.utc s.1 : Live ChainError _).run world s.2 with
  | (.ok (some (some tick, feed)), done) =>
    some ((feed, done), ⟨s.1.idx, tick, (feed.symbols[s.1.idx]?).bind Sym.pool, feed.cycleDeadline, s.2, done⟩)
  | _ => none

/-- The feed as a system: the calls that deliver. -/
def system (crates : Crates) (world : World) : Lts (ChainFeed × List Effect) Call Delivered := ⟨step crates world⟩

variable {crates : Crates} {world : World} {cfg : ChainFeedConfig} {sym : Sym} {done done' : List Effect}

/-! ### One read -/

/-- What is returned was read: at some time, in one attempt, and that was the last. -/
theorem run_readOne : ∀ (turns failed : ℕ) {done done' : List Effect} {result : ℚ × PoolKey},
    (readOne crates cfg sym turns failed : Live ChainError _).run world done = (.ok (some result), done') →
    ∃ mid asked, done <+: mid ∧ (attemptRead crates cfg sym).run (world.node mid) [] = (.ok result, asked) ∧
      done' = mid ++ asked.map .request
  | 0, _, done, done', result, h => by
    rw [readOne, Dialogue.run_pure] at h
    cases congrArg Prod.fst h
  | turns + 1, failed, done, done', result, h => by
    rw [readOne] at h
    obtain ⟨r, mid, hattempt, hrest⟩ := Dialogue.run_bind_eq_ok.mp h
    rw [Dialogue.run_attempt, run_live] at hattempt
    rcases hread : (attemptRead crates cfg sym).run (world.node done) [] with ⟨read, asked⟩
    rw [hread] at hattempt
    cases read with
    | panic => cases congrArg Prod.fst hattempt
    | ok found =>
      obtain ⟨hr, rfl⟩ := Prod.mk.inj hattempt
      obtain rfl := Outcome.ok.inj hr
      obtain ⟨hfound, rfl⟩ := Prod.mk.inj hrest
      obtain rfl := Option.some.inj (Outcome.ok.inj hfound)
      exact ⟨done, asked, List.prefix_rfl, hread, rfl⟩
    | err e =>
      obtain ⟨hr, rfl⟩ := Prod.mk.inj hattempt
      obtain rfl := Outcome.ok.inj hr
      -- it pauses, and what is returned is read later
      dsimp only at hrest
      have hlater : ∀ (pause failed : ℕ) {mid : List Effect}, done <+: mid →
          (Live.sleep pause >>= fun _ => readOne crates cfg sym turns failed : Live ChainError _).run world mid =
            (.ok (some result), done') →
          ∃ mid asked, done <+: mid ∧ (attemptRead crates cfg sym).run (world.node mid) [] = (.ok result, asked) ∧
            done' = mid ++ asked.map .request := by
        intro pause failed mid hmid hrun
        rw [Dialogue.run_bind, run_sleep] at hrun
        obtain ⟨mid', asked', hprefix, hread, hend⟩ := run_readOne turns failed hrun
        exact ⟨mid', asked', hmid.trans ((List.prefix_append _ _).trans hprefix), hread, hend⟩
      split_ifs at hrest
      · exact hlater _ _ (List.prefix_append _ _) hrest
      · exact hlater _ _ (List.prefix_append _ _) hrest

theorem run_readOne_of_ok {result : ℚ × PoolKey} {asked : List Request}
    (h : (attemptRead crates cfg sym).run (world.node done) [] = (.ok result, asked)) (turns failed : ℕ) :
    (readOne crates cfg sym (turns + 1) failed : Live ChainError _).run world done =
      (.ok (some result), done ++ asked.map .request) := by
  rw [readOne]
  refine Dialogue.run_bind_eq_ok.mpr ⟨.ok result, _, ?_, rfl⟩
  rw [Dialogue.run_attempt, run_live, h]

/-- The effects of a program that asks for calls only. -/
def CallsOnly (e : Effect) : Prop := ∀ q, e = .request q → q.method = "eth_call"

theorem asks_live {ε α : Type} {P : Request → Prop} {x : Dialogue Request (Outcome ChainError Json) ε α} (hx : x.Asks P) :
    (live x).Asks fun e => ∀ q, e = .request q → P q := by
  have hclient (_ : ℕ) (q : Request) (hq : P q) : (.ask (.request q) fun r => .done (.ok r.1) :
      Live ε (Outcome ChainError Json)).Asks fun e => ∀ q, e = .request q → P q :=
    ⟨fun q' heq => Effect.request.inj heq ▸ hq, fun _ => trivial⟩
  exact Dialogue.Asks.through hclient hx 0

/-- What is asked for in reading a price is asked for in one attempt. -/
theorem asks_readOne {ε : Type} {P : Request → Prop} (h : (attemptRead crates cfg sym).Asks P) : ∀ turns failed,
    (readOne crates cfg sym turns failed : Live ε _).Asks fun e => ∀ q, e = .request q → P q
  | 0, _ => trivial
  | turns + 1, failed => by
    have hsleep (d : ℕ) : (Live.sleep d : Live ε Unit).Asks fun e => ∀ q, e = .request q → P q :=
      ⟨fun q heq => absurd heq Effect.noConfusion, fun _ => trivial⟩
    rw [readOne]
    refine Dialogue.Asks.bind (Dialogue.Asks.attempt (asks_live h)) fun r => ?_
    cases r with
    | ok result => exact trivial
    | error e =>
      dsimp only
      split_ifs
      · exact Dialogue.Asks.bind (hsleep _) fun _ => asks_readOne h turns _
      · exact Dialogue.Asks.bind (hsleep _) fun _ => asks_readOne h turns _

theorem only_attemptRead {pool : PoolKey} (hpool : sym.pool = some pool) :
    Only ["eth_call"] (attemptRead crates cfg sym) := by
  rw [attemptRead, findPool, hpool]
  refine Dialogue.Asks.bind (Dialogue.asks_pure pool) fun _ => ?_
  exact Dialogue.Asks.bind (only_quotePool (by decide) _ _ _ _) fun _ => trivial

theorem only_attemptRead_reads : Only readMethods (attemptRead crates cfg sym) := by
  refine Dialogue.Asks.bind ?_ fun pool => ?_
  · unfold findPool
    split
    · exact trivial
    · refine Dialogue.Asks.bind (only_request_bind (by decide) _ _) fun head => ?_
      exact Dialogue.Asks.bind (only_findBestPool _ _ _ _ _) fun _ => trivial
  · exact Dialogue.Asks.bind (only_quotePool (by decide) _ _ _ _) fun _ => trivial

/-- The wait is until the round is due, and sets when the next one is. -/
theorem run_waitForCycle (hclock : world.Clocked) (feed : ChainFeed) (done : List Effect) : ∃ waits,
    (waitForCycle feed : Live ChainError _).run world done =
        (.ok { feed with cycleDeadline := some (world.time (done ++ waits) + feed.cfg.pollInterval) }, done ++ waits) ∧
      (∀ deadline ∈ feed.cycleDeadline, deadline ≤ world.time (done ++ waits)) ∧
      ∀ e ∈ waits, ∀ q, e ≠ .request q := by
  have hnow (done : List Effect) : world.time done ≤ (world done .now).2 := hclock.later done .now
  have hend (done : List Effect) : world.time (done ++ [.now]) = (world done .now).2 := World.time_snoc _ _
  unfold waitForCycle
  cases hdeadline : feed.cycleDeadline with
  | none =>
    refine ⟨[.now], ?_, by simp, by simp⟩
    rw [hend]
    rfl
  | some deadline =>
    by_cases hearly : (world done .now).2 < deadline
    · have hsleep : done ++ [.now, .sleepUntil deadline, .now] = done ++ [.now] ++ [.sleepUntil deadline] ++ [.now] := by
        simp
      refine ⟨[.now, .sleepUntil deadline, .now], ?_, ?_, by simp⟩
      · show ((if (world done .now).2 < deadline then _ else _ : Live ChainError Unit) >>= _).run world
          (done ++ [.now]) = _
        rw [if_pos hearly, hsleep, hend]
        rfl
      · intro d hd
        obtain rfl := Option.mem_some_iff.mp hd
        have hwoken := hclock.wakes (done ++ [.now]) deadline
        rw [← World.time_snoc] at hwoken
        rw [hsleep, hend]
        exact hwoken.trans (hnow _)
    · have htwice : done ++ [Effect.now, .now] = done ++ [.now] ++ [.now] := by simp
      refine ⟨[.now, .now], ?_, ?_, by simp⟩
      · show ((if (world done .now).2 < deadline then _ else _ : Live ChainError Unit) >>= _).run world
          (done ++ [.now]) = _
        rw [if_neg hearly, htwice, hend]
        rfl
      · intro d hd
        obtain rfl := Option.mem_some_iff.mp hd
        have hlate : deadline ≤ world.time (done ++ [.now]) := by
          rw [World.time_snoc]
          exact not_lt.mp hearly
        rw [htwice, hend]
        exact hlate.trans (hnow _)

/-! ### One tick -/

/-- A tick tells a price that the symbol's pool gave in the last requests of the call. If the
pool was known it is still that one, and only calls are made; else it was found right before. -/
structure Good (crates : Crates) (world : World) (cfg : ChainFeedConfig) (sym : Sym) (o : Delivered) (pool : PoolKey) :
    Prop where
  symbol : o.tick.symbol = sym.symbol
  keeps : o.pool = some pool
  read : ∃ mid asked asked', o.before <+: mid ∧ o.after = mid ++ asked'.map .request ∧
    (findPool crates cfg sym).run (world.node mid) [] = (.ok pool, asked) ∧
    (quote crates cfg sym pool).run (world.node mid) asked = (.ok o.tick.price, asked')
  kept : ∀ known, sym.pool = some known → pool = known ∧ ∃ more, o.after = o.before ++ more ∧ ∀ e ∈ more, CallsOnly e

theorem attemptRead_ok {node : Node} {price : ℚ} {pool : PoolKey} {asked' : List Request}
    (h : (attemptRead crates cfg sym).run node [] = (.ok (price, pool), asked')) :
    (∃ asked, (findPool crates cfg sym).run node [] = (.ok pool, asked) ∧
      (quote crates cfg sym pool).run node asked = (.ok price, asked')) ∧
      ∀ known, sym.pool = some known → pool = known := by
  obtain ⟨found, asked, hfind, hrest⟩ := Dialogue.run_bind_eq_ok.mp h
  obtain ⟨paid, mid, hquote, hend⟩ := Dialogue.run_bind_eq_ok.mp hrest
  obtain ⟨hpaid, rfl⟩ := Prod.mk.inj hend
  obtain ⟨rfl, rfl⟩ := Prod.mk.inj (Outcome.ok.inj hpaid)
  refine ⟨⟨asked, hfind, hquote⟩, fun known hknown => ?_⟩
  rw [findPool, hknown] at hfind
  exact (Outcome.ok.inj (congrArg Prod.fst hfind)).symm

theorem run_readTick {feed feed' : ChainFeed} {turns : ℕ} {utc : DateTime} {tick : Tick} {start more : List Effect}
    (hmore : ∀ e ∈ more, CallsOnly e)
    (h : (readTick crates turns utc feed : Live ChainError _).run world (start ++ more) =
      (.ok (some (some tick, feed')), done')) :
    ∃ sym pool, feed.symbols[feed.idx]? = some sym ∧ tick.takenAt = utc ∧ feed' = feed.keep sym pool ∧
      start ++ more <+: done' ∧
      Good crates world feed.cfg sym
        ⟨feed.idx, tick, (feed'.symbols[feed.idx]?).bind Sym.pool, feed'.cycleDeadline, start, done'⟩ pool := by
  unfold readTick at h
  cases hsym : feed.symbols[feed.idx]? with
  | none =>
    rw [hsym] at h
    cases congrArg Prod.fst h
  | some sym =>
    rw [hsym] at h
    obtain ⟨r, mid, hread, hrest⟩ := Dialogue.run_bind_eq_ok.mp h
    cases r with
    | none => cases congrArg Prod.fst hrest
    | some result =>
      obtain ⟨price, pool⟩ := result
      obtain ⟨hresult, rfl⟩ := Prod.mk.inj hrest
      obtain ⟨htick, rfl⟩ := Prod.mk.inj (Option.some.inj (Outcome.ok.inj hresult))
      obtain rfl := Option.some.inj htick
      obtain ⟨at_, asked', hbefore, hattempt, hend⟩ := run_readOne turns 0 hread
      obtain ⟨⟨asked, hfind, hquote⟩, hkept⟩ := attemptRead_ok hattempt
      have hprefix : start <+: at_ := (List.prefix_append _ _).trans hbefore
      have hafter : at_ <+: mid := hend ▸ List.prefix_append _ _
      have hidx : feed.idx < feed.symbols.length := (List.getElem?_eq_some_iff.mp hsym).1
      have hpool : ((feed.symbols.set feed.idx { sym with pool := some pool })[feed.idx]?).bind Sym.pool = some pool := by
        rw [List.getElem?_set_self hidx]
        rfl
      refine ⟨sym, pool, rfl, rfl, rfl, hbefore.trans hafter, rfl, hpool,
        ⟨at_, asked, asked', hprefix, hend, hfind, hquote⟩, fun known hknown => ⟨hkept known hknown, ?_⟩⟩
      have hasks := @asks_readOne crates feed.cfg sym ChainError _ (only_attemptRead hknown) turns 0
      obtain ⟨read, hrun, hcalls⟩ := @Dialogue.Asks.run _ _ _ _ _ world (start ++ more) _ hasks
      rw [hread] at hrun
      refine ⟨more ++ read, by rw [← List.append_assoc]; exact hrun, ?_⟩
      intro e he
      rcases List.mem_append.mp he with hwait | hlate
      · exact hmore e hwait
      · exact fun q heq => List.mem_singleton.mp (hcalls e hlate q heq)

/-- A call begins a round: it waits until the round is due, and from then on reads. -/
def Delivered.StartsAt (world : World) (cfg : ChainFeedConfig) (o : Delivered) (start : ℕ) : Prop :=
  o.deadline = some (start + cfg.pollInterval) ∧
    ∃ waits, o.before ++ waits <+: o.after ∧ (∀ e ∈ waits, ∀ q, e ≠ .request q) ∧ world.time (o.before ++ waits) = start

/-- **One call.** The symbol at the feed's index is read, and the next one is next. At the
start of a round the call waits until it is due. -/
theorem tick_of_step (hclock : world.Clocked) {s s' : ChainFeed × List Effect} {call : Call} {o : Delivered}
    (h : step crates world s call = some (s', o)) :
    ∃ sym pool, s.1.symbols[s.1.idx]? = some sym ∧ o.tick.takenAt = call.utc ∧
      (o.index = s.1.idx ∧ o.before = s.2 ∧ o.after = s'.2 ∧ o.deadline = s'.1.cycleDeadline ∧ s.2 <+: s'.2) ∧
      (s'.1.cfg = s.1.cfg ∧ s'.1.idx = (s.1.idx + 1) % s.1.symbols.length ∧
        s'.1.symbols = s.1.symbols.set s.1.idx { sym with pool := some pool }) ∧
      Good crates world s.1.cfg sym o pool ∧
      (s.1.idx = 0 → ∃ start, o.StartsAt world s.1.cfg start ∧ ∀ deadline ∈ s.1.cycleDeadline, deadline ≤ start) ∧
      (s.1.idx ≠ 0 → s'.1.cycleDeadline = s.1.cycleDeadline) := by
  obtain ⟨feed, done⟩ := s
  unfold step at h
  rcases hrun : (nextTick crates call.turns call.utc feed : Live ChainError _).run world done with ⟨result, done'⟩
  rw [hrun] at h
  match result, hrun, h with
  | .ok (some (some tick, feed')), hrun, h =>
    obtain ⟨rfl, rfl⟩ := Prod.mk.inj (Option.some.inj h)
    unfold nextTick at hrun
    by_cases hempty : feed.symbols = []
    · rw [if_pos hempty] at hrun
      cases congrArg Prod.fst hrun
    · rw [if_neg hempty] at hrun
      by_cases hzero : feed.idx = 0
      · rw [if_pos hzero] at hrun
        obtain ⟨waits, hwait, hdue, hcalls⟩ := run_waitForCycle hclock feed done
        rw [Dialogue.run_bind, hwait] at hrun
        obtain ⟨sym, pool, hsym, hutc, rfl, hprefix, hgood⟩ :=
          run_readTick (fun e he q heq => absurd heq (hcalls e he q)) hrun
        exact ⟨sym, pool, hsym, hutc, ⟨rfl, rfl, rfl, rfl, (List.prefix_append _ _).trans hprefix⟩, ⟨rfl, rfl, rfl⟩,
          hgood, fun _ => ⟨_, ⟨rfl, waits, hprefix, hcalls, rfl⟩, hdue⟩, fun hne => absurd hzero hne⟩
      · rw [if_neg hzero] at hrun
        have hread : (readTick crates call.turns call.utc feed : Live ChainError _).run world (done ++ []) = _ :=
          (congrArg _ (List.append_nil done)).trans hrun
        obtain ⟨sym, pool, hsym, hutc, rfl, hprefix, hgood⟩ := run_readTick (by simp) hread
        rw [List.append_nil] at hprefix
        exact ⟨sym, pool, hsym, hutc, ⟨rfl, rfl, rfl, rfl, hprefix⟩, ⟨rfl, rfl, rfl⟩, hgood,
          fun h0 => absurd h0 hzero, fun _ => rfl⟩

/-! ### All ticks -/

variable {symbols : List String} {os : List Delivered} {s s' : ChainFeed × List Effect}

/-- The pool a symbol has before a tick: none in the first round, and then the one of its
first tick. -/
def poolBefore (symbols : List String) (os : List Delivered) (i : ℕ) : Option PoolKey :=
  if i < symbols.length then none else (os[i % symbols.length]?).bind Delivered.pool

/-- A tick of a run: it is its symbol's turn, and the tick is good. -/
def Told (crates : Crates) (world : World) (cfg : ChainFeedConfig) (symbols : List String) (os : List Delivered) (i : ℕ)
    (o : Delivered) : Prop :=
  ∃ text pool, symbols[i % symbols.length]? = some text ∧
    Good crates world cfg (.ofText text (poolBefore symbols os i)) o pool

/-- Each round starts at some time, and the next no sooner than an interval later. -/
def Paced (world : World) (cfg : ChainFeedConfig) (symbols : List String) (os : List Delivered) : Prop :=
  ∀ i o, symbols.length ∣ i → os[i]? = some o → ∃ start, o.StartsAt world cfg start ∧
    ∀ o' start', os[i + symbols.length]? = some o' → o'.StartsAt world cfg start' → start + cfg.pollInterval ≤ start'

/-- Where the feed is after so many ticks. -/
structure At (symbols : List String) (cfg : ChainFeedConfig) (os : List Delivered) (s : ChainFeed × List Effect) : Prop where
  cfg : s.1.cfg = cfg
  idx : s.1.idx = os.length % symbols.length
  symbols : ∀ j : ℕ, s.1.symbols[j]? = symbols[j]?.map fun text => .ofText text ((os[j]?).bind Delivered.pool)
  pools : ∀ o ∈ os, ∃ pool, o.pool = some pool

theorem At.length (h : At symbols cfg os s) : s.1.symbols.length = symbols.length := by
  refine Nat.le_antisymm (Nat.le_of_not_lt fun hlt => ?_) (Nat.le_of_not_lt fun hlt => ?_)
  · have := h.symbols symbols.length
    simp [hlt] at this
  · have := h.symbols s.1.symbols.length
    simp [hlt] at this

section

variable {o : Delivered} {n j : ℕ}

/-- Another tick is nothing to the symbols whose turn it is not. -/
theorem getElem?_snoc_of_ne (hj : j < n) (hne : os.length % n ≠ j) : (os ++ [o])[j]? = os[j]? := by
  by_cases hearlier : j < os.length
  · exact List.getElem?_append_left hearlier
  · have hlate : os.length ≠ j := fun h => hne (h ▸ Nat.mod_eq_of_lt (h ▸ hj))
    have hlength : (os ++ [o]).length ≤ j := by
      rw [List.length_append, List.length_singleton]
      omega
    rw [List.getElem?_eq_none hlength, List.getElem?_eq_none (not_lt.mp hearlier)]

theorem getElem?_snoc_of_le (hpos : 0 < n) (hle : n ≤ os.length) : (os ++ [o])[os.length % n]? = os[os.length % n]? :=
  List.getElem?_append_left ((Nat.mod_lt _ hpos).trans_le hle)

theorem getElem?_snoc_of_lt (hlt : os.length < n) : (os ++ [o])[os.length % n]? = some o := by
  rw [Nat.mod_eq_of_lt hlt, List.getElem?_concat_length]

end

theorem At.next (h : At symbols cfg os s) {sym : Sym} {pool : PoolKey} {o : Delivered}
    (hsym : s.1.symbols[s.1.idx]? = some sym) (hgood : Good crates world cfg sym o pool)
    (hcfg : s'.1.cfg = s.1.cfg) (hidx : s'.1.idx = (s.1.idx + 1) % s.1.symbols.length)
    (hset : s'.1.symbols = s.1.symbols.set s.1.idx { sym with pool := some pool }) :
    At symbols cfg (os ++ [o]) s' ∧ Told crates world cfg symbols (os ++ [o]) os.length o := by
  have hlt : s.1.idx < symbols.length := h.length ▸ (List.getElem?_eq_some_iff.mp hsym).1
  have hpos : 0 < symbols.length := Nat.zero_lt_of_lt hlt
  have hturn := hsym
  rw [h.symbols, Option.map_eq_some_iff, h.idx] at hturn
  obtain ⟨text, htext, rfl⟩ := hturn
  -- what the symbol's pool was and is
  have hbefore : poolBefore symbols (os ++ [o]) os.length = (os[os.length % symbols.length]?).bind Delivered.pool := by
    unfold poolBefore
    by_cases hfirst : os.length < symbols.length
    · rw [if_pos hfirst, Nat.mod_eq_of_lt hfirst, List.getElem?_eq_none le_rfl]
      rfl
    · rw [if_neg hfirst, getElem?_snoc_of_le hpos (not_lt.mp hfirst)]
  have hafter : ((os ++ [o])[os.length % symbols.length]?).bind Delivered.pool = some pool := by
    by_cases hfirst : os.length < symbols.length
    · rw [getElem?_snoc_of_lt hfirst]
      exact hgood.keeps
    · rw [getElem?_snoc_of_le hpos (not_lt.mp hfirst)]
      have hearlier := (Nat.mod_lt os.length hpos).trans_le (not_lt.mp hfirst)
      obtain ⟨known, hknown⟩ := h.pools _ (List.getElem_mem hearlier)
      have hbind : (os[os.length % symbols.length]?).bind Delivered.pool = some known := by
        rw [List.getElem?_eq_getElem hearlier]
        exact hknown
      rw [hbind, (hgood.kept known hbind).1]
  refine ⟨⟨hcfg.trans h.cfg, ?_, fun j => ?_, fun o' ho' => ?_⟩, text, pool, htext, ?_⟩
  · rw [hidx, h.length, h.idx, Nat.mod_add_mod, List.length_append, List.length_singleton]
  · rw [hset, h.idx]
    by_cases hj : os.length % symbols.length = j
    · subst hj
      rw [List.getElem?_set_self (h.length.symm ▸ h.idx ▸ hlt), htext, hafter]
      rfl
    · rw [List.getElem?_set_ne hj, h.symbols]
      by_cases hin : j < symbols.length
      · rw [getElem?_snoc_of_ne hin hj]
      · rw [List.getElem?_eq_none (not_lt.mp hin)]
        rfl
  · rcases List.mem_append.mp ho' with hold | hnew
    · exact h.pools o' hold
    · obtain rfl := List.mem_singleton.mp hnew
      exact ⟨pool, hgood.keeps⟩
  · rw [hbefore]
    exact hgood

theorem Told.snoc {i : ℕ} {o o' : Delivered} (h : Told crates world cfg symbols os i o) (hi : i < os.length) :
    Told crates world cfg symbols (os ++ [o']) i o := by
  have hsame : poolBefore symbols (os ++ [o']) i = poolBefore symbols os i := by
    unfold poolBefore
    rw [List.getElem?_append_left ((Nat.mod_le i _).trans_lt hi)]
  obtain ⟨text, pool, htext, hgood⟩ := h
  exact ⟨text, pool, htext, hsame.symm ▸ hgood⟩

/-- A run, as far as it is. -/
structure Goes (crates : Crates) (world : World) (cfg : ChainFeedConfig) (symbols : List String) (os : List Delivered)
    (s : ChainFeed × List Effect) : Prop where
  here : At symbols cfg os s
  told : ∀ i o, os[i]? = some o → Told crates world cfg symbols os i o
  last : (os.getLast?).elim [] Delivered.after = s.2
  joined : ∀ i o o', os[i]? = some o → os[i + 1]? = some o' → o'.before = o.after
  paced : Paced world cfg symbols os
  due : ∀ i o, symbols.length ∣ i → os[i]? = some o → os.length ≤ i + symbols.length → s.1.cycleDeadline = o.deadline

theorem getElem?_snoc_eq_some {os : List Delivered} {o o' : Delivered} {i : ℕ} (h : (os ++ [o])[i]? = some o') :
    (i < os.length ∧ os[i]? = some o') ∨ (i = os.length ∧ o' = o) := by
  by_cases hold : i < os.length
  · exact .inl ⟨hold, by rwa [List.getElem?_append_left hold] at h⟩
  · rw [List.getElem?_append_right (not_lt.mp hold), List.getElem?_singleton] at h
    by_cases hnew : i - os.length = 0
    · rw [if_pos hnew] at h
      exact .inr ⟨by omega, (Option.some.inj h).symm⟩
    · rw [if_neg hnew] at h
      cases h

theorem Delivered.StartsAt.unique {o : Delivered} {start start' : ℕ} (h : o.StartsAt world cfg start)
    (h' : o.StartsAt world cfg start') : start = start' :=
  Nat.add_right_cancel (Option.some.inj (h.1.symm.trans h'.1))

theorem Goes.joined_snoc {o : Delivered} (h : Goes crates world cfg symbols os s) (hbefore : o.before = s.2) (i : ℕ)
    (o₁ o₂ : Delivered) (h₁ : (os ++ [o])[i]? = some o₁) (h₂ : (os ++ [o])[i + 1]? = some o₂) : o₂.before = o₁.after := by
  rcases getElem?_snoc_eq_some h₂ with ⟨hlt, hold⟩ | ⟨hnew, rfl⟩
  · rw [List.getElem?_append_left (by omega)] at h₁
    exact h.joined i o₁ o₂ h₁ hold
  · rw [List.getElem?_append_left (by omega)] at h₁
    have hlast : os.getLast? = some o₁ := by
      rw [List.getLast?_eq_getElem?, ← hnew, Nat.add_sub_cancel]
      exact h₁
    have hafter := h.last
    rw [hlast] at hafter
    exact hbefore.trans hafter.symm

/-- A round that begins when the deadline of the last one is over keeps the pace. -/
theorem Goes.paced_snoc {o : Delivered} (h : Goes crates world cfg symbols os s) (hpos : 0 < symbols.length)
    (hstart : s.1.idx = 0 → ∃ start, o.StartsAt world cfg start ∧ ∀ deadline ∈ s.1.cycleDeadline, deadline ≤ start) :
    Paced world cfg symbols (os ++ [o]) := by
  intro i o₁ hdvd h₁
  rcases getElem?_snoc_eq_some h₁ with ⟨hlt, hold⟩ | ⟨rfl, rfl⟩
  · obtain ⟨start, hstarts, hnext⟩ := h.paced i o₁ hdvd hold
    refine ⟨start, hstarts, fun o₂ start' h₂ hstarts' => ?_⟩
    rcases getElem?_snoc_eq_some h₂ with ⟨-, hold'⟩ | ⟨hnew, rfl⟩
    · exact hnext o₂ start' hold' hstarts'
    · have hzero : s.1.idx = 0 := by
        rw [h.here.idx, ← hnew]
        exact Nat.mod_eq_zero_of_dvd (Nat.dvd_add hdvd (Nat.dvd_refl _))
      obtain ⟨start₂, hstarts₂, hover⟩ := hstart hzero
      obtain rfl := hstarts₂.unique hstarts'
      exact hover _ ((h.due i o₁ hdvd hold hnew.ge).trans hstarts.1)
  · have hzero : s.1.idx = 0 := by
      rw [h.here.idx]
      exact Nat.mod_eq_zero_of_dvd hdvd
    obtain ⟨start, hstarts, -⟩ := hstart hzero
    refine ⟨start, hstarts, fun o₂ start' h₂ => ?_⟩
    rw [List.getElem?_eq_none (by rw [List.length_append, List.length_singleton]; omega)] at h₂
    cases h₂

/-- Within a round the deadline stays. -/
theorem Goes.due_snoc {o : Delivered} {deadline : Option ℕ} (h : Goes crates world cfg symbols os s)
    (hset : deadline = o.deadline) (hsame : s.1.idx ≠ 0 → deadline = s.1.cycleDeadline) (i : ℕ) (o' : Delivered)
    (hdvd : symbols.length ∣ i) (hi : (os ++ [o])[i]? = some o') (hlast : (os ++ [o]).length ≤ i + symbols.length) :
    deadline = o'.deadline := by
  rw [List.length_append, List.length_singleton] at hlast
  rcases getElem?_snoc_eq_some hi with ⟨hlt, hold⟩ | ⟨rfl, rfl⟩
  · have hmid : s.1.idx ≠ 0 := by
      rw [h.here.idx]
      intro hmod
      have hle := Nat.le_of_dvd (by omega) (Nat.dvd_sub (Nat.dvd_of_mod_eq_zero hmod) hdvd)
      omega
    rw [hsame hmid]
    exact h.due i o' hdvd hold (by omega)
  · exact hset

theorem goes_step (hclock : world.Clocked) (h : Goes crates world cfg symbols os s) {call : Call} {o : Delivered}
    (hstep : (system crates world).step s call = some (s', o)) : Goes crates world cfg symbols (os ++ [o]) s' := by
  obtain ⟨sym, pool, hsym, -, ⟨-, hbefore, hafter, hdeadline, -⟩, ⟨hcfg, hidx, hset⟩, hgood, hstart, hsame⟩ :=
    tick_of_step hclock hstep
  rw [h.here.cfg] at hgood hstart
  have hpos : 0 < symbols.length := (Nat.zero_le _).trans_lt (h.here.length ▸ (List.getElem?_eq_some_iff.mp hsym).1)
  obtain ⟨hhere, htold⟩ := h.here.next hsym hgood hcfg hidx hset
  refine ⟨hhere, fun i o' hi => ?_, ?_, h.joined_snoc hbefore, h.paced_snoc hpos hstart,
    h.due_snoc hdeadline.symm hsame⟩
  · rcases getElem?_snoc_eq_some hi with ⟨hlt, hold⟩ | ⟨rfl, rfl⟩
    · exact (h.told i o' hold).snoc hlt
    · exact htold
  · rw [List.getLast?_concat]
    exact hafter

theorem goes_of_run (hclock : world.Clocked) (hrun : (system crates world).Run (.new symbols cfg, []) os s) :
    Goes crates world cfg symbols os s := by
  refine hrun.inv (P := Goes crates world cfg symbols) ?_ fun os s call s' o _ h hstep => goes_step hclock h hstep
  refine ⟨⟨rfl, (Nat.zero_mod _).symm, fun j => ?_, by simp⟩, by simp, rfl, by simp, by simp [Paced], by simp⟩
  show (symbols.map fun text => Sym.ofText text none)[j]? = _
  rw [List.getElem?_map]
  rfl

/-- **The feed.** In every run the symbols come in turn, in one sequence of effects. Each
tick tells a price that a pool of its symbol gave in the call's own last requests: found in the
first round, and the same, with nothing but calls, from then on. Rounds start at least the interval
apart. -/
theorem live_feed_run (crates : Crates) (world : World) (hclock : world.Clocked) (cfg : ChainFeedConfig)
    (symbols : List String) {os : List Delivered} {s : ChainFeed × List Effect}
    (hrun : (system crates world).Run (.new symbols cfg, []) os s) :
    (∀ i o, os[i]? = some o → Told crates world cfg symbols os i o) ∧
      (∀ i o o', os[i]? = some o → os[i + 1]? = some o' → o'.before = o.after) ∧ Paced world cfg symbols os := by
  have h := goes_of_run hclock hrun
  exact ⟨h.told, h.joined, h.paced⟩

/-! ### A pool of WETH and USDG, polled -/

theorem step_of_run {feed feed' : ChainFeed} {call : Call} {tick : Tick}
    (h : (nextTick crates call.turns call.utc feed : Live ChainError _).run world done =
      (.ok (some (some tick, feed')), done')) :
    (system crates world).step (feed, done) call = some ((feed', done'),
      ⟨feed.idx, tick, (feed'.symbols[feed.idx]?).bind Sym.pool, feed'.cycleDeadline, done, done'⟩) := by
  show step crates world (feed, done) call = _
  rw [step, h]

theorem step_of_attempt (hclock : world.Clocked) {s : ChainFeed × List Effect} {sym : Sym} {price : ℚ} {pool : PoolKey}
    {n : ℕ} (hsym : s.1.symbols[s.1.idx]? = some sym)
    (hattempt : ∀ more, (∀ e ∈ more, ∀ q, e ≠ .request q) → ∃ asked : List Request, n ≤ asked.length ∧
      (attemptRead crates s.1.cfg sym).run (world.node (s.2 ++ more)) [] = (.ok (price, pool), asked))
    (turns : ℕ) (utc : DateTime) : ∃ s' o more, ∃ asked : List Request,
      (system crates world).step s ⟨turns + 1, utc⟩ = some (s', o) ∧
      (∀ e ∈ more, ∀ q, e ≠ .request q) ∧ n ≤ asked.length ∧ s'.2 = s.2 ++ more ++ asked.map .request ∧
      s'.1.cfg = s.1.cfg ∧ s'.1.idx = (s.1.keep sym pool).idx ∧ s'.1.symbols = (s.1.keep sym pool).symbols := by
  obtain ⟨feed, done⟩ := s
  have hne : feed.symbols ≠ [] := by
    intro hempty
    rw [hempty] at hsym
    cases hsym
  -- the wait, if a round begins, and the read
  have hread (feed' : ChainFeed) (more : List Effect) (asked : List Request) (hcfg : feed'.cfg = feed.cfg)
      (hidx : feed'.idx = feed.idx) (hsymbols : feed'.symbols = feed.symbols)
      (h : (attemptRead crates feed.cfg sym).run (world.node (done ++ more)) [] = (.ok (price, pool), asked)) :
      (readTick crates (turns + 1) utc feed' : Live ChainError _).run world (done ++ more) =
        (.ok (some (some ⟨utc, sym.symbol, price⟩, feed'.keep sym pool)), done ++ more ++ asked.map .request) := by
    rw [readTick, hsymbols, hidx, hsym, hcfg]
    exact Dialogue.run_bind_eq_ok.mpr ⟨_, _, run_readOne_of_ok h turns 0, rfl⟩
  by_cases hzero : feed.idx = 0
  · obtain ⟨more, hwait, -, hmore⟩ := run_waitForCycle hclock feed done
    obtain ⟨asked, hasked, hok⟩ := hattempt more hmore
    obtain ⟨deadline, hdeadline⟩ : ∃ deadline, some deadline = some (world.time (done ++ more) + feed.cfg.pollInterval) :=
      ⟨_, rfl⟩
    rw [← hdeadline] at hwait
    have hrun := hread { feed with cycleDeadline := some deadline } more asked rfl rfl rfl hok
    have hnext : (nextTick crates (turns + 1) utc feed : Live ChainError _).run world done =
        (readTick crates (turns + 1) utc { feed with cycleDeadline := some deadline } : Live ChainError _).run world
          (done ++ more) := by
      rw [nextTick, if_neg hne, if_pos hzero, Dialogue.run_bind, hwait]
    have hstep := @step_of_run crates world done _ feed _ ⟨turns + 1, utc⟩ _ (hnext.trans hrun)
    exact ⟨_, _, more, asked, hstep, hmore, hasked, rfl, rfl, rfl, rfl⟩
  · obtain ⟨asked, hasked, hok⟩ := hattempt [] (by simp)
    have hrun := hread feed [] asked rfl rfl rfl hok
    have hnext : (nextTick crates (turns + 1) utc feed : Live ChainError _).run world done =
        (readTick crates (turns + 1) utc feed : Live ChainError _).run world (done ++ []) := by
      rw [nextTick, if_neg hne, if_neg hzero, List.append_nil]
      rfl
    have hstep := @step_of_run crates world done _ feed _ ⟨turns + 1, utc⟩ _ (hnext.trans hrun)
    exact ⟨_, _, [], asked, hstep, by simp, hasked, rfl, rfl, rfl, rfl⟩

def isRequest : Effect → Bool
  | .request _ => true
  | _ => false

theorem countP_of_waits {more : List Effect} (hmore : ∀ e ∈ more, ∀ q, e ≠ .request q) : more.countP isRequest = 0 :=
  List.countP_eq_zero.mpr fun e he => by
    cases e with
    | request q => exact absurd rfl (hmore _ he q)
    | _ => exact Bool.false_ne_true

theorem countP_requests (asked : List Request) : (asked.map Effect.request).countP isRequest = asked.length := by
  rw [List.countP_map]
  exact List.countP_eq_length.mpr fun _ _ => rfl

/-- The pool's price. -/
def priceReply : Json := .str (toHex (slot0Words (.ofNat 128 (2 ^ 96))))

/-- Its node, and then only prices. -/
def wethWorld : World := .ticking fun done _ => .ok (quotedReplies.getD (done.countP isRequest) priceReply)

theorem wethWorld_node (done : List Effect) (asked : List Request) (q : Request) : wethWorld.node done asked q =
    .ok (quotedReplies.getD (done.countP isRequest + asked.length) priceReply) := by
  show Outcome.ok (quotedReplies.getD ((done ++ asked.map Effect.request).countP isRequest) priceReply) = _
  rw [List.countP_append, countP_requests]

theorem getD_quotedReplies {n : ℕ} (h : 4 ≤ n) : quotedReplies.getD n priceReply = priceReply := by
  have hlength : quotedReplies.length = 5 := by decide +kernel
  obtain rfl | hlate : n = 4 ∨ 5 ≤ n := by omega
  · rfl
  · rw [List.getD_eq_getElem?_getD, List.getElem?_eq_none (hlength ▸ hlate)]
    rfl

def wethSym : Option PoolKey → Sym := .ofText "WETH"

theorem attempt_known {done : List Effect} (h : 4 ≤ done.countP isRequest) : ∃ asked : List Request,
    (attemptRead poolCrates .default (wethSym (some wethPool))).run (wethWorld.node done) [] =
      (.ok (10 ^ 12, wethPool), asked) := by
  obtain ⟨asked, hquote⟩ := @quotePool_weth (wethWorld.node done) [] fun q => by
    rw [wethWorld_node, getD_quotedReplies (h.trans (Nat.le_add_right _ _))]
    rfl
  exact ⟨asked, Dialogue.run_bind_eq_ok.mpr ⟨wethPool, [], rfl, Dialogue.run_bind_eq_ok.mpr ⟨_, _, hquote, rfl⟩⟩⟩

theorem attempt_unknown {done : List Effect} (h : done.countP isRequest = 0) : ∃ asked : List Request,
    4 ≤ asked.length ∧ (attemptRead poolCrates .default (wethSym none)).run (wethWorld.node done) [] =
      (.ok (10 ^ 12, wethPool), asked) := by
  have hnode (asked : List Request) (q : Request) : wethWorld.node done asked q =
      .ok (quotedReplies.getD asked.length priceReply) := by
    rw [wethWorld_node, h, Nat.zero_add]
  have hheight : (blockNumber poolCrates).run (wethWorld.node done) [] = (.ok 16, [⟨"eth_blockNumber", .arr []⟩]) := by
    show (Dialogue.done (wethWorld.node done [] _) >>= _).run _ _ = _
    rw [hnode]
    rfl
  obtain ⟨best, asked, hkey, hasked, hbest⟩ := @findBestPool_weth (wethWorld.node done) [⟨"eth_blockNumber", .arr []⟩]
    fun i asked q hi hlen => by
      rw [hnode, hlen]
      match i, hi with
      | 0, _ => rfl
      | 1, _ => rfl
      | 2, _ => rfl
  obtain ⟨asked', hquote⟩ := @quotePool_weth (wethWorld.node done) asked fun q => by
    rw [hnode, hasked]
    rfl
  have hfind : (findPool poolCrates .default (wethSym none)).run (wethWorld.node done) [] = (.ok wethPool, asked) :=
    Dialogue.run_bind_eq_ok.mpr ⟨_, _, hheight, Dialogue.run_bind_eq_ok.mpr ⟨_, _, hbest, by rw [hkey]; rfl⟩⟩
  have hlater : 4 ≤ asked'.length := by
    have := (Dialogue.prefix_of_run hquote).length_le
    rw [hasked, List.length_singleton] at this
    exact this
  exact ⟨asked', hlater, Dialogue.run_bind_eq_ok.mpr ⟨_, _, hfind, Dialogue.run_bind_eq_ok.mpr ⟨_, _, hquote, rfl⟩⟩⟩

/-- Two rounds: the pool is found, and kept; they are a quarter of a minute apart. -/
theorem live_feed_run_weth : ∃ o o' s start start',
    (system poolCrates wethWorld).Run (.new ["WETH"] .default, []) [o, o'] s ∧
      (∀ i o₁, [o, o'][i]? = some o₁ → Told poolCrates wethWorld .default ["WETH"] [o, o'] i o₁) ∧
      o.StartsAt wethWorld .default start ∧ o'.StartsAt wethWorld .default start' ∧ start + 15000 ≤ start' := by
  have hclock : wethWorld.Clocked := World.clocked_ticking _
  obtain ⟨s₁, o₁, more₁, asked₁, hstep₁, hmore₁, hasked₁, hdone₁, hcfg₁, hidx₁, hsymbols₁⟩ :=
    @step_of_attempt poolCrates wethWorld hclock (.new ["WETH"] .default, []) (wethSym none) (10 ^ 12) wethPool 4 rfl
      (fun more hmore => attempt_unknown (countP_of_waits hmore)) 0 .epoch
  have hsym₁ : s₁.1.symbols[s₁.1.idx]? = some (wethSym (some wethPool)) := by
    rw [hsymbols₁, hidx₁]
    rfl
  obtain ⟨s₂, o₂, -, -, hstep₂, -⟩ := @step_of_attempt poolCrates wethWorld hclock s₁ (wethSym (some wethPool))
    (10 ^ 12) wethPool 0 hsym₁ (fun more _ => by
      have hcount : 4 ≤ (s₁.2 ++ more).countP isRequest := by
        rw [hdone₁, List.countP_append, List.countP_append, countP_requests]
        omega
      obtain ⟨asked, hattempt⟩ := attempt_known hcount
      rw [hcfg₁]
      exact ⟨asked, Nat.zero_le _, hattempt⟩) 0 .epoch
  have hrun := ((Lts.Run.nil (L := system poolCrates wethWorld)).snoc hstep₁).snoc hstep₂
  obtain ⟨htold, -, hpaced⟩ := live_feed_run poolCrates wethWorld hclock .default ["WETH"] hrun
  obtain ⟨start, hstarts, hnext⟩ := hpaced 0 o₁ (dvd_zero _) rfl
  obtain ⟨start', hstarts', -⟩ := hpaced 1 o₂ (one_dvd _) rfl
  exact ⟨o₁, o₂, _, start, start', hrun, htold, hstarts, hstarts', hnext o₂ start' rfl hstarts'⟩

end LiveFeed

end Sherwood.Chain
