/-
# Polling for a receipt

`get_transaction_receipt` of `crates/chain/src/rpc.rs` and the loop of `wait_and_reconcile`
of `crates/reconcile/src/lib.rs`, against a node and a clock. It asks for the receipt of the
one hash, and while there is none looks at the clock, sleeps, and asks again.

It comes to an end, after no more polls than intervals fit into the time and one; what it
ends with is what the last reply said; and that there is no receipt it says only when the
time is up (`wait_and_reconcile_ends`). That is `waitAndReconcile` on the polls it made.

Key definitions: `getTransactionReceipt`, `polling`, `PolledUntil`.
Key theorems: `start_add_le_clockAt`, `run_polling`, `wait_and_reconcile_ends`.
-/
import Sherwood.Chain.Live
import Sherwood.Reconcile.Reconcile
import Mathlib.Tactic.Ring

namespace Sherwood

open Chain

/-- A receipt as it is sent. -/
structure RawReceipt where
  transactionHash : String
  status : String
  blockNumber : String
  gasUsed : String
  toAddress : Option String

/-- A transaction as its sender and `serde` know it, and when and how long to poll. -/
structure Polling where
  crates : Crates
  /-- `serde_json::from_value` of a receipt, its error as its text. -/
  rawReceipt : Json → Except String RawReceipt
  txHash : String
  expected : ExpectedTrade
  interval : ℕ
  timeout : ℕ
  /-- The wall clock when a fill is made. -/
  utc : DateTime

def RawReceipt.intoReceipt (crates : Crates) (raw : RawReceipt) : Except ChainError TxReceipt := do
  let status ← parseQuantityStr crates raw.status
  let blockNumber ← parseQuantityStr crates raw.blockNumber
  let gasUsed ← parseQuantityStr crates raw.gasUsed
  return ⟨raw.transactionHash, status = 1, blockNumber, gasUsed, raw.toAddress⟩

namespace Polling

variable (p : Polling)

/-- What a reply says of a receipt. -/
def readReceipt (ret : Json) : Outcome ChainError (Option TxReceipt) :=
  if ret.isNull then .ok none
  else do
    let raw ← .ofExcept ((p.rawReceipt ret).mapError fun e => .decode s!"eth_getTransactionReceipt result: {e}")
    let receipt ← .ofExcept (raw.intoReceipt p.crates)
    return some receipt

/-- The one request. -/
def receiptRequest : Request := ⟨"eth_getTransactionReceipt", .arr [.str p.txHash]⟩

/-- `get_transaction_receipt`. -/
def getTransactionReceipt : Rpc (Option TxReceipt) := do
  let ret ← request "eth_getTransactionReceipt" (.arr [.str p.txHash])
  .done (p.readReceipt ret)

/-- `reconcile`. -/
def reconcileOnce : Live ChainError ReconcileOutcome := do
  let reply ← live p.getTransactionReceipt
  return reconcile reply p.expected p.utc

/-- The loop of `wait_and_reconcile`, for so many turns; `none` where they do not suffice. -/
def polling (deadline : ℕ) : (turns : ℕ) → Live ChainError (Option ReconcileOutcome)
  | 0 => return none
  | turns + 1 => do
    match ← p.reconcileOnce with
    | .notFound =>
      let now ← Live.now
      if now < deadline then
        Live.sleep p.interval
        polling deadline turns
      else return some .notFound
    | outcome => return some outcome

/-- `wait_and_reconcile`. -/
def waitAndReconcile (turns : ℕ) : Live ChainError (Option ReconcileOutcome) := do
  let start ← Live.now
  p.polling (start + p.timeout) turns

/-! ### What becomes of the polls -/

/-- What is done before a poll, after so many in vain. -/
def before : ℕ → List Effect
  | 0 => [.now]
  | k + 1 => before k ++ [.request p.receiptRequest, .now, .sleep p.interval]

variable (world : World)

/-- What the reply to a poll says. -/
def receiptAt (k : ℕ) : Outcome ChainError (Option TxReceipt) :=
  (world (p.before k) (.request p.receiptRequest)).1 >>= p.readReceipt

/-- What the clock shows after it. -/
def clockAt (k : ℕ) : ℕ := (world (p.before k ++ [.request p.receiptRequest]) .now).2

/-- When the time is up. -/
def deadline : ℕ := (world [] .now).2 + p.timeout

/-- So many polls in vain, each within the time, and one more: with a receipt or an error, or
not in time. -/
structure PolledUntil (n : ℕ) : Prop where
  waited : ∀ k < n, p.receiptAt world k = .ok none ∧ p.clockAt world k < p.deadline world
  ended : p.receiptAt world n = .ok none → p.deadline world ≤ p.clockAt world n

/-- Without a receipt it looks at the clock. -/
def lookAtClock : Outcome ChainError (Option TxReceipt) → List Effect
  | .ok none => [.now]
  | _ => []

/-- The polls of a run. -/
def poll (k : ℕ) : Poll where
  reply := match p.receiptAt world k with
    | .ok reply => .ok reply
    | .err e => .error e.text
    | .panic => .error "panic"
  now := p.utc
  late := p.deadline world ≤ p.clockAt world k

variable {p world}

theorem run_reconcileOnce (k : ℕ) : (p.reconcileOnce).run world (p.before k) =
    (p.receiptAt world k >>= fun reply => .ok (reconcile reply p.expected p.utc),
      p.before k ++ [.request p.receiptRequest]) := by
  have hreceipt : p.getTransactionReceipt.run (world.node (p.before k)) [] =
      (p.receiptAt world k, [p.receiptRequest]) := by
    show (Dialogue.done (world.node (p.before k) [] p.receiptRequest) >>= _).run _ [p.receiptRequest] = _
    have hnode : world.node (p.before k) [] p.receiptRequest = (world (p.before k) (.request p.receiptRequest)).1 := by
      rw [World.node, List.map_nil, List.append_nil]
    rw [hnode, receiptAt]
    cases (world (p.before k) (.request p.receiptRequest)).1 <;> rfl
  rw [reconcileOnce, Dialogue.run_bind, run_live, hreceipt]
  cases p.receiptAt world k <;> rfl

/-- Every poll in vain takes an interval at least. -/
theorem start_add_le_clockAt (hclock : world.Clocked) (k : ℕ) :
    (world [] .now).2 + k * p.interval ≤ world.time (p.before k) ∧
      world.time (p.before k) ≤ p.clockAt world k := by
  have hclockAt (k : ℕ) : world.time (p.before k) ≤ p.clockAt world k := by
    have hrequest := hclock.later (p.before k) (.request p.receiptRequest)
    have hnow := hclock.later (p.before k ++ [.request p.receiptRequest]) .now
    rw [World.time_snoc] at hnow
    exact hrequest.trans hnow
  refine ⟨?_, hclockAt k⟩
  induction k with
  | zero =>
    rw [Nat.zero_mul, Nat.add_zero]
    exact le_rfl
  | succ k ih =>
    have hslept := hclock.sleeps (p.before k ++ [.request p.receiptRequest, .now]) p.interval
    have hnow : world.time (p.before k ++ [.request p.receiptRequest, .now]) = p.clockAt world k := by
      rw [show p.before k ++ [.request p.receiptRequest, .now] = p.before k ++ [.request p.receiptRequest] ++ [.now] by
        simp, World.time_snoc]
      rfl
    have hafter : world.time (p.before (k + 1)) =
        (world (p.before k ++ [.request p.receiptRequest, .now]) (.sleep p.interval)).2 := by
      rw [before, show p.before k ++ [.request p.receiptRequest, .now, .sleep p.interval] =
        p.before k ++ [.request p.receiptRequest, .now] ++ [.sleep p.interval] by simp, World.time_snoc]
    rw [hafter, Nat.succ_mul, ← Nat.add_assoc]
    have := hclockAt k
    omega

theorem waited_lt (hclock : world.Clocked) (hinterval : 0 < p.interval) {n : ℕ}
    (hwaited : ∀ k < n, p.receiptAt world k = .ok none ∧ p.clockAt world k < p.deadline world) :
    n * p.interval < p.timeout + p.interval := by
  cases n with
  | zero =>
    rw [Nat.zero_mul]
    omega
  | succ n =>
    obtain ⟨hstart, hlater⟩ := start_add_le_clockAt (p := p) hclock n
    have hearly := (hwaited n (Nat.lt_succ_self n)).2
    unfold deadline at hearly
    rw [Nat.succ_mul]
    omega

theorem run_polling (hclock : world.Clocked) (hinterval : 0 < p.interval) : ∀ (turns k : ℕ),
    p.timeout + p.interval ≤ (k + turns) * p.interval →
    (∀ j < k, p.receiptAt world j = .ok none ∧ p.clockAt world j < p.deadline world) →
    ∃ n, p.PolledUntil world n ∧ (p.polling (p.deadline world) turns).run world (p.before k) =
      (p.receiptAt world n >>= fun reply => .ok (some (reconcile reply p.expected p.utc)),
        p.before n ++ .request p.receiptRequest :: lookAtClock (p.receiptAt world n))
  | 0, k, hturns, hwaited => by
    have := waited_lt hclock hinterval hwaited
    rw [Nat.add_zero] at hturns
    omega
  | turns + 1, k, hturns, hwaited => by
    have honce := @run_reconcileOnce p world k
    by_cases hnone : p.receiptAt world k = .ok none
    · rw [hnone] at honce
      by_cases hearly : p.clockAt world k < p.deadline world
      · -- it sleeps and polls again
        obtain ⟨n, huntil, hrun⟩ := run_polling hclock hinterval turns (k + 1)
          (by rwa [Nat.add_right_comm]) fun j hj => by
            by_cases hlast : j = k
            · exact hlast ▸ ⟨hnone, hearly⟩
            · exact hwaited j (by omega)
        refine ⟨n, huntil, ?_⟩
        rw [← hrun, polling, Dialogue.run_bind, honce]
        show (Live.now >>= fun now => _ : Live ChainError (Option ReconcileOutcome)).run world _ = _
        rw [Dialogue.run_bind, run_now]
        show ((if p.clockAt world k < p.deadline world then _ else _ : Live ChainError (Option ReconcileOutcome))).run
          world _ = _
        rw [if_pos hearly, Dialogue.run_bind, run_sleep, before]
        simp only [List.append_assoc, List.cons_append, List.nil_append]
      · refine ⟨k, ⟨hwaited, fun _ => not_lt.mp hearly⟩, ?_⟩
        rw [polling, Dialogue.run_bind, honce, hnone]
        show (Live.now >>= fun now => _ : Live ChainError (Option ReconcileOutcome)).run world _ = _
        rw [Dialogue.run_bind, run_now]
        show ((if p.clockAt world k < p.deadline world then _ else _ : Live ChainError (Option ReconcileOutcome))).run
          world _ = _
        rw [if_neg hearly]
        simp [reconcile, lookAtClock]
    · refine ⟨k, ⟨hwaited, fun h => absurd h hnone⟩, ?_⟩
      rw [polling, Dialogue.run_bind, honce]
      cases hreceipt : p.receiptAt world k with
      | err e => rfl
      | panic => rfl
      | ok reply =>
        cases reply with
        | none => exact absurd hreceipt hnone
        | some receipt =>
          by_cases hstatus : receipt.statusOk <;> simp [reconcile, hstatus, lookAtClock]

/-- The polls made are what the list of polls goes through. -/
theorem waitAndReconcile_polls {n : ℕ} (huntil : p.PolledUntil world n) :
    ∀ k ≤ n, Sherwood.waitAndReconcile p.expected ((List.range' k (n + 1 - k)).map (p.poll world)) =
      match p.receiptAt world n with
      | .ok reply => some (.ok (reconcile reply p.expected p.utc))
      | .err e => some (.error e.text)
      | .panic => some (.error "panic") := by
  intro k hk
  induction hm : n - k generalizing k with
  | zero =>
    obtain rfl : k = n := by omega
    rw [show k + 1 - k = 1 by omega, List.range'_one, List.map_singleton, Sherwood.waitAndReconcile]
    cases hreceipt : p.receiptAt world k with
    | err e => simp [poll, hreceipt]
    | panic => simp [poll, hreceipt]
    | ok reply =>
      cases reply with
      | none =>
        have hlate := huntil.ended hreceipt
        simp [poll, hreceipt, hlate, reconcile]
      | some receipt => by_cases hstatus : receipt.statusOk <;> simp [poll, hreceipt, reconcile, hstatus]
  | succ m ih =>
    obtain ⟨hnone, hearly⟩ := huntil.waited k (by omega)
    have hstep := ih (k + 1) (by omega) (by omega)
    rw [show n + 1 - k = (n + 1 - (k + 1)) + 1 by omega, List.range'_succ, List.map_cons, Sherwood.waitAndReconcile]
    simp only [poll, hnone, reconcile, not_le.mpr hearly, decide_false, Bool.false_eq_true, if_false]
    exact hstep

/-- **Polling comes to an end.** With turns enough for the time, it polls for the one
receipt so long that intervals fit into the time, and once more; the last reply is what it
ends with, and without a receipt it ends only when the time is up. This is what comes of
the polls it made. -/
theorem wait_and_reconcile_ends (p : Polling) (world : World) (hclock : world.Clocked) (hinterval : 0 < p.interval)
    (turns : ℕ) (hturns : p.timeout + p.interval ≤ turns * p.interval) :
    ∃ n, n * p.interval < p.timeout + p.interval ∧ p.PolledUntil world n ∧
      (p.waitAndReconcile turns).run world [] =
        (p.receiptAt world n >>= fun reply => .ok (some (reconcile reply p.expected p.utc)),
          p.before n ++ .request p.receiptRequest :: lookAtClock (p.receiptAt world n)) ∧
      (p.receiptAt world n ≠ .panic →
        ((p.waitAndReconcile turns).run world []).1.mapErr ChainError.text =
          (match Sherwood.waitAndReconcile p.expected ((List.range (n + 1)).map (p.poll world)) with
            | some r => .ofExcept (r.map some)
            | none => .ok none)) := by
  obtain ⟨n, huntil, hrun⟩ := run_polling hclock hinterval turns 0 (by rwa [Nat.zero_add]) fun j hj =>
    absurd hj (Nat.not_lt_zero j)
  have hwhole : (p.waitAndReconcile turns).run world [] = _ := hrun
  refine ⟨n, waited_lt hclock hinterval huntil.waited, huntil, hwhole, fun hpanic => ?_⟩
  have hpolls := waitAndReconcile_polls huntil 0 (Nat.zero_le n)
  rw [Nat.sub_zero, ← List.range_eq_range'] at hpolls
  rw [hwhole, hpolls]
  cases hreceipt : p.receiptAt world n with
  | ok reply => rfl
  | err e => rfl
  | panic => exact absurd hreceipt hpanic

/-- A receipt as the derived reader takes it from an object. -/
def rawReceiptOf (v : Json) : Except String RawReceipt :=
  let field := fun key => (v.field key).bind Json.asStr
  match field "transactionHash", field "status", field "blockNumber", field "gasUsed" with
  | some hash, some status, some blockNumber, some gasUsed => .ok ⟨hash, status, blockNumber, gasUsed, field "to"⟩
  | _, _, _, _ => .error "not a receipt"

/-- Half an NVDA, bought at 200. -/
def nvdaPolling : Polling where
  crates := knownCrates
  rawReceipt := rawReceiptOf
  txHash := "0x1f"
  expected := ⟨"NVDA", .buy, 1 / 2, 200, 1 / 10⟩
  interval := 3
  timeout := 120
  utc := .epoch

/-- There is no receipt at first, and then one. -/
def minedAtSecond : World := .ticking fun done _ =>
  if done.length < 4 then .ok .null
  else .ok (.obj [("transactionHash", .str "0x1f"), ("status", .str "0x1"), ("blockNumber", .str "0x10"),
    ("gasUsed", .str "0x5208"), ("to", .null)])

theorem wait_and_reconcile_ends_nvda : ∃ n, n * 3 < 123 ∧ nvdaPolling.PolledUntil minedAtSecond n ∧
    ((nvdaPolling.waitAndReconcile 42).run minedAtSecond []).1 =
      (nvdaPolling.receiptAt minedAtSecond n >>= fun reply =>
        .ok (some (reconcile reply nvdaPolling.expected .epoch))) ∧
    ((nvdaPolling.waitAndReconcile 42).run minedAtSecond []).1.value = some (some (.confirmed
      ⟨"0x1f", true, 16, 21000, none⟩
      ⟨⟨"reconcile-0x1f"⟩, .ofSymbol "NVDA", .buy, 1 / 2, 200, 1 / 10, .dexRouter, .epoch⟩)) := by
  obtain ⟨n, hlt, huntil, hrun, -⟩ := wait_and_reconcile_ends nvdaPolling minedAtSecond (World.clocked_ticking _)
    (by decide) 42 (by decide)
  exact ⟨n, hlt, huntil, congrArg Prod.fst hrun, by decide +kernel⟩

end Polling

end Sherwood
