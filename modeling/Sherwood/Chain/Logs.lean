/-
# The logs of a range

`get_logs` asks in halves with `u64` block numbers. It is `bisect` (`getLogsBisecting_eq`): the
midpoint of two block numbers is one, and the next block is too, up to the last there is.

A node that answers a range with all its logs or not at all is asked for the whole in less than
`2^13` requests, and what is returned is all the logs (`get_logs_complete`).

Key definitions: `logsRequest`, `AnswersLogs`.
Key theorems: `toNat_mid`, `getLogsBisecting_eq`, `get_logs_complete`.
-/
import Sherwood.Chain.Rpc
import Sherwood.Lib.Bisect

namespace Sherwood.Chain

variable (crates : Crates) (filter : LogFilter)

/-- The request for a filter's logs in a range of blocks. -/
def logsRequest (lo hi : ℕ) : Request :=
  ⟨"eth_getLogs", .arr [{ filter with fromBlock := .ofNat lo, toBlock := .ofNat hi : LogFilter }.toParams]⟩

/-- The node has these logs for the filter's address and topics, in the order of their blocks, and
answers a range of blocks with those in it or with an error. -/
structure AnswersLogs (node : Node) (matching : List RpcLog) : Prop where
  ordered : matching.Pairwise fun log log' => log.blockNumber ≤ log'.blockNumber
  answers : ∀ asked (lo hi : UInt64), lo ≤ hi →
    (∃ ret, node asked ⟨"eth_getLogs", .arr [{ filter with fromBlock := lo, toBlock := hi : LogFilter }.toParams]⟩ =
        .ok ret ∧
      logsOf crates ret = .ok (matching.filter fun log => lo ≤ log.blockNumber ∧ log.blockNumber ≤ hi)) ∨
    ∃ e, node asked ⟨"eth_getLogs", .arr [{ filter with fromBlock := lo, toBlock := hi : LogFilter }.toParams]⟩ = .err e

/-! ### Block numbers -/

theorem toNat_mid {lo hi : UInt64} (h : lo ≤ hi) : (lo + (hi - lo) / 2).toNat = Bisect.mid lo.toNat hi.toNat := by
  have hle := UInt64.le_iff_toNat_le.mp h
  have := hi.toNat_lt
  rw [UInt64.toNat_add, UInt64.toNat_div, UInt64.toNat_sub_of_le _ _ h]
  show (lo.toNat + (hi.toNat - lo.toNat) / 2) % 2 ^ 64 = _
  unfold Bisect.mid
  omega

theorem toNat_mid_succ {lo hi : UInt64} (h : lo < hi) :
    (lo + (hi - lo) / 2 + 1).toNat = Bisect.mid lo.toNat hi.toNat + 1 := by
  have hlt := UInt64.lt_iff_toNat_lt.mp h
  have := hi.toNat_lt
  have := Bisect.mid_lt hlt
  rw [UInt64.toNat_add, toNat_mid (UInt64.le_of_lt h)]
  show (Bisect.mid lo.toNat hi.toNat + 1) % 2 ^ 64 = _
  omega

theorem slice_toNat (matching : List RpcLog) (lo hi : UInt64) :
    Bisect.slice (·.blockNumber.toNat) matching lo.toNat hi.toNat =
      matching.filter fun log => lo ≤ log.blockNumber ∧ log.blockNumber ≤ hi := by
  simp only [Bisect.slice, UInt64.le_iff_toNat_le]

variable {crates filter}

theorem AnswersLogs.serves {node : Node} {matching : List RpcLog} (h : AnswersLogs crates filter node matching) :
    Bisect.Serves (logsRequest filter) (fun ret => .ofExcept (logsOf crates ret)) (·.blockNumber.toNat) matching node 0
      (2 ^ 64 - 1) := by
  intro asked lo hi _ hle hhi
  have hlo : (UInt64.ofNat lo).toNat = lo := UInt64.toNat_ofNat_of_lt (show lo < 2 ^ 64 by omega)
  have hhi' : (UInt64.ofNat hi).toNat = hi := UInt64.toNat_ofNat_of_lt (show hi < 2 ^ 64 by omega)
  have hslice := slice_toNat matching (.ofNat lo) (.ofNat hi)
  rw [hlo, hhi'] at hslice
  rw [hslice]
  have hle' : UInt64.ofNat lo ≤ .ofNat hi := by
    rw [UInt64.le_iff_toNat_le, hlo, hhi']
    exact hle
  rcases h.answers asked (.ofNat lo) (.ofNat hi) hle' with ⟨ret, hret, hlogs⟩ | hrefused
  · exact .inl ⟨ret, hret, congrArg Outcome.ofExcept hlogs⟩
  · exact .inr hrefused

/-- **Refinement.** The requests are those of `bisect`. -/
theorem getLogsBisecting_eq (splits : ℕ) (hle : filter.fromBlock ≤ filter.toBlock) :
    getLogsBisecting crates splits filter =
      Bisect.bisect (logsRequest filter) (fun ret => .ofExcept (logsOf crates ret)) isRangeTooWide splits
        filter.fromBlock.toNat filter.toBlock.toNat := by
  have hrequest (filter : LogFilter) : logsRequest filter filter.fromBlock.toNat filter.toBlock.toNat =
      ⟨"eth_getLogs", .arr [filter.toParams]⟩ := by
    simp [logsRequest]
  induction splits generalizing filter with
  | zero =>
    unfold getLogsBisecting Bisect.bisect
    rw [hrequest]
    refine congrArg (Dialogue.ask _) (funext fun ret => ?_)
    cases ret <;> rfl
  | succ splits ih =>
    unfold getLogsBisecting Bisect.bisect
    rw [hrequest]
    refine congrArg (Dialogue.ask _) (funext fun ret => ?_)
    cases ret with
    | ok ret => rfl
    | panic => rfl
    | err e =>
      show (if filter.toBlock > filter.fromBlock ∧ isRangeTooWide e then _ else Dialogue.done (.err e)) =
        if filter.fromBlock.toNat < filter.toBlock.toNat ∧ isRangeTooWide e then _ else Dialogue.done (.err e)
      by_cases hwide : filter.fromBlock < filter.toBlock ∧ isRangeTooWide e
      · have hlt := UInt64.lt_iff_toNat_lt.mp hwide.1
        have hmid := toNat_mid hle
        have hnext := toNat_mid_succ hwide.1
        rw [if_pos hwide, if_pos ⟨hlt, hwide.2⟩]
        have hleft := @ih
          { filter with toBlock := filter.fromBlock + (filter.toBlock - filter.fromBlock) / 2 }
          (UInt64.le_iff_toNat_le.mpr (hmid ▸ Bisect.le_mid _ _))
        have hright := @ih
          { filter with fromBlock := filter.fromBlock + (filter.toBlock - filter.fromBlock) / 2 + 1 }
          (UInt64.le_iff_toNat_le.mpr (hnext ▸ Bisect.mid_lt hlt))
        rw [hleft, hright]
        simp only [hmid, hnext]
        rfl
      · have hnat : ¬ (filter.fromBlock.toNat < filter.toBlock.toNat ∧ isRangeTooWide e) := by
          rwa [← UInt64.lt_iff_toNat_lt]
        rw [if_neg hwide, if_neg hnat]

/-- **The logs of a range.** Less than `2^13` requests are made, each for blocks of the range, and what is returned
is all its logs: the ranges that were answered have every block of it once. If a range fails and is not
halved, an error is returned. No midpoint overflows, nor does the block after one. -/
theorem get_logs_complete (node : Node) (matching : List RpcLog) (asked : List Request)
    (hle : filter.fromBlock ≤ filter.toBlock) (hnode : AnswersLogs crates filter node matching) :
    (∃ visits o, (getLogs crates filter).run node asked =
        (o, asked ++ visits.map fun v => logsRequest filter v.lo v.hi) ∧
      Bisect.Walk (logsRequest filter) node maxSplitDepth filter.fromBlock.toNat filter.toBlock.toNat asked visits ∧
      visits.length < 2 ^ 13 ∧
      (∀ v ∈ visits, filter.fromBlock.toNat ≤ v.lo ∧ v.lo ≤ v.hi ∧ v.hi ≤ filter.toBlock.toNat) ∧
      (∀ logs, o = .ok logs →
        logs = (matching.filter fun log =>
          filter.fromBlock ≤ log.blockNumber ∧ log.blockNumber ≤ filter.toBlock) ∧
        ∀ block, filter.fromBlock.toNat ≤ block → block ≤ filter.toBlock.toNat →
          ∃! range, range ∈ Bisect.leaves visits ∧ range.1 ≤ block ∧ block ≤ range.2) ∧
      ((∃ logs, o = .ok logs) ∨ ∃ e, o = .err e) ∧
      ((∃ v ∈ visits, v.Final isRangeTooWide) → ∃ e, o = .err e)) ∧
    ∀ lo hi : UInt64, lo < hi → (lo + (hi - lo) / 2).toNat = lo.toNat + (hi.toNat - lo.toNat) / 2 ∧
      (lo + (hi - lo) / 2 + 1).toNat = lo.toNat + (hi.toNat - lo.toNat) / 2 + 1 ∧
      lo ≤ lo + (hi - lo) / 2 ∧ lo + (hi - lo) / 2 + 1 ≤ hi := by
  refine ⟨?_, fun lo hi hlt => ?_⟩
  · have hlast : filter.toBlock.toNat ≤ 2 ^ 64 - 1 := Nat.le_sub_one_of_lt filter.toBlock.toNat_lt
    have hsorted : matching.Pairwise fun log log' => log.blockNumber.toNat ≤ log'.blockNumber.toNat :=
      hnode.ordered.imp UInt64.le_iff_toNat_le.mp
    obtain ⟨visits, o, hrun, hwalk, hend⟩ := Bisect.run_bisect isRangeTooWide hsorted hnode.serves
      maxSplitDepth (Nat.zero_le _) (UInt64.le_iff_toNat_le.mp hle) hlast asked
    refine ⟨visits, o, ?_, hwalk, hwalk.length_lt, fun v hv => ?_, ?_, hend.ok_or_err, ?_⟩
    · rw [getLogs, getLogsBisecting_eq maxSplitDepth hle, hrun]
    · exact ((hwalk.halved v hv).bounds (UInt64.le_iff_toNat_le.mp hle)).2
    · rintro logs rfl
      obtain ⟨rfl, htiles⟩ := hend.of_ok
      exact ⟨slice_toNat _ _ _, fun block hlo hhi => htiles.existsUnique hlo (Nat.lt_succ_of_le hhi)⟩
    · rintro ⟨v, hv, hfinal⟩
      exact hend.of_final hv hfinal
  · have hmid := toNat_mid (UInt64.le_of_lt hlt)
    have hnext := toNat_mid_succ hlt
    have hlt' := UInt64.lt_iff_toNat_lt.mp hlt
    refine ⟨hmid, hnext, ?_, ?_⟩
    · exact UInt64.le_iff_toNat_le.mpr (hmid ▸ Bisect.le_mid _ _)
    · exact UInt64.le_iff_toNat_le.mpr (hnext ▸ Bisect.mid_lt hlt')

/-! ### A run in halves -/

theorem hexDigits_append (left right : List Char) {acc : ℕ} (hacc : acc < 2 ^ 64) : hexDigits (left ++ right) acc =
    (hexDigits left acc).bind fun n => hexDigits right n.toNat := by
  induction left generalizing acc with
  | nil =>
    have hvalue : (UInt64.ofNat acc).toNat = acc := UInt64.toNat_ofNat_of_lt hacc
    rw [List.nil_append, hexDigits]
    exact congrArg (hexDigits right) hvalue.symm
  | cons c left ih =>
    rw [List.cons_append, hexDigits, hexDigits]
    cases Dex.hexDigit? c with
    | none => rfl
    | some d =>
      simp only
      split
      · next h => exact ih h
      · rfl

theorem hexDigit?_digitChar {d : ℕ} (h : d < 16) : Dex.hexDigit? d.digitChar = some d := by
  revert d
  decide

theorem hexDigits_toDigits {n : ℕ} (h : n < 2 ^ 64) : hexDigits (Nat.toDigits 16 n) 0 = .ok (.ofNat n) := by
  induction n using Nat.strong_induction_on with
  | _ n ih =>
    rw [Nat.toDigits_eq_if (by omega)]
    split
    · next hsmall => simp [hexDigits, hexDigit?_digitChar hsmall, show n < 18446744073709551616 from h]
    · next hlarge =>
      have hvalue : (UInt64.ofNat (n / 16)).toNat = n / 16 := UInt64.toNat_ofNat_of_lt (show n / 16 < 2 ^ 64 by omega)
      rw [hexDigits_append _ _ (by omega), ih (n / 16) (by omega) (by omega)]
      show hexDigits [_] (UInt64.ofNat (n / 16)).toNat = _
      rw [hvalue, hexDigits, hexDigit?_digitChar (Nat.mod_lt n (by omega))]
      simp only [Nat.div_add_mod', h, if_true, hexDigits]

theorem fromStrRadix_eq_hexDigits {cs : List Char} (hne : cs ≠ []) (hplus : cs.head? ≠ some '+') :
    fromStrRadix cs = hexDigits cs 0 := by
  unfold fromStrRadix
  split <;> simp_all

theorem fromStrRadix_hexQuantity (n : UInt64) : fromStrRadix (strip0x (hexQuantity n)).toList = .ok n := by
  have htext : (hexQuantity n).toList = '0' :: 'x' :: Nat.toDigits 16 n.toNat := by
    simp [hexQuantity]
  have hread := hexDigits_toDigits n.toNat_lt
  have hplus : (Nat.toDigits 16 n.toNat).head? ≠ some '+' := by
    intro hhead
    obtain ⟨rest, hrest⟩ := List.head?_eq_some_iff.mp hhead
    rw [hrest] at hread
    cases hread
  rw [strip0x_toList htext, fromStrRadix_eq_hexDigits Nat.toDigits_ne_nil hplus, hread, UInt64.ofNat_toNat]

/-- A log as a node sends it. -/
def RpcLog.json (log : RpcLog) : Json :=
  .obj [("address", .str log.address), ("topics", .arr (log.topics.map .str)), ("data", .str log.data),
    ("blockNumber", .str (hexQuantity log.blockNumber))]

/-- And as the derived reader takes it. -/
def RpcLog.raw (log : RpcLog) : RawLog := ⟨log.address, log.topics, log.data, hexQuantity log.blockNumber⟩

theorem rawLogOf_json (log : RpcLog) : rawLogOf log.json = some log.raw := by
  have htopics : (log.topics.map Json.str).mapM Json.asStr = some log.topics := by
    induction log.topics with
    | nil => rfl
    | cons topic topics ih => simp [Json.asStr, ih]
  simp [rawLogOf, RpcLog.json, RpcLog.raw, Json.asObject, Json.get, Json.asStr, htopics]

theorem intoLog_raw (log : RpcLog) : log.raw.intoLog crates = .ok log := by
  rw [RawLog.intoLog, RpcLog.raw, parseQuantityStr, fromStrRadix_hexQuantity]
  rfl

theorem logsOf_json (hcrate : crates.rawLogs = rawLogsOf) (logs : List RpcLog) :
    logsOf crates (.arr (logs.map RpcLog.json)) = .ok logs := by
  have hraw : (logs.map RpcLog.json).mapM rawLogOf = some (logs.map RpcLog.raw) := by
    induction logs with
    | nil => rfl
    | cons log logs ih =>
      rw [List.map_cons, List.mapM_cons, rawLogOf_json, ih]
      rfl
  have hlogs : (logs.map RpcLog.raw).mapM (RawLog.intoLog crates) = .ok logs := by
    clear hraw
    induction logs with
    | nil => rfl
    | cons log logs ih =>
      rw [List.map_cons, List.mapM_cons, intoLog_raw, ih]
      rfl
  rw [logsOf, hcrate]
  show ((Except.mapError _ ((_ : Option (List RawLog)).elim _ _)) >>= _) = _
  rw [hraw]
  exact hlogs

/-- A range that is answered is asked for once. -/
theorem run_getLogs_of_ok (hcrate : crates.rawLogs = rawLogsOf) (hle : filter.fromBlock ≤ filter.toBlock)
    {node : Node} {asked : List Request} {logs : List RpcLog}
    (h : node asked (logsRequest filter filter.fromBlock.toNat filter.toBlock.toNat) =
      .ok (.arr (logs.map RpcLog.json))) : (getLogs crates filter).run node asked =
        (.ok logs, asked ++ [logsRequest filter filter.fromBlock.toNat filter.toBlock.toNat]) := by
  rw [getLogs, getLogsBisecting_eq maxSplitDepth hle, Bisect.run_bisect_of_ok h, logsOf_json hcrate]
  rfl

/-- The blocks a request is for. -/
def blocksOf (q : Request) : Option (UInt64 × UInt64) := do
  let .arr [params] ← some q.params | none
  let fields ← params.asObject
  let fromBlock ← (Json.get fields "fromBlock").bind Json.asStr
  let toBlock ← (Json.get fields "toBlock").bind Json.asStr
  let lo ← (fromStrRadix (strip0x fromBlock).toList).toOption
  let hi ← (fromStrRadix (strip0x toBlock).toList).toOption
  return (lo, hi)

/-- A node with these logs that answers single blocks only. -/
def blockNode (logs : List RpcLog) : Node := fun _ q =>
  match blocksOf q with
  | some (lo, hi) =>
    if lo = hi then .ok (.arr ((logs.filter fun log => lo ≤ log.blockNumber ∧ log.blockNumber ≤ hi).map RpcLog.json))
    else .err (.rpc (-32000) "query timeout")
  | none => .err (.rpc (-32602) "invalid params")

/-- All the logs of a chain. -/
def anyLogs (lo hi : UInt64) : LogFilter := ⟨none, [], lo, hi⟩

theorem answersLogs_blockNode {logs : List RpcLog}
    (h : logs.Pairwise fun log log' => log.blockNumber ≤ log'.blockNumber) (lo hi : UInt64) :
    AnswersLogs knownCrates (anyLogs lo hi) (blockNode logs) logs where
  ordered := h
  answers asked lo hi _ := by
    have hblocks : blocksOf ⟨"eth_getLogs", .arr [(anyLogs lo hi).toParams]⟩ = some (lo, hi) := by
      simp [blocksOf, anyLogs, LogFilter.toParams, Json.asObject, Json.get, Json.asStr, fromStrRadix_hexQuantity]
      rfl
    have hreply : blockNode logs asked ⟨"eth_getLogs", .arr [(anyLogs lo hi).toParams]⟩ =
        if lo = hi then
          .ok (.arr ((logs.filter fun log => lo ≤ log.blockNumber ∧ log.blockNumber ≤ hi).map RpcLog.json))
        else .err (.rpc (-32000) "query timeout") := by
      rw [blockNode, hblocks]
    by_cases heq : lo = hi
    · rw [if_pos heq] at hreply
      exact .inl ⟨_, hreply, logsOf_json rfl _⟩
    · rw [if_neg heq] at hreply
      exact .inr ⟨_, hreply⟩

/-- Two blocks with one log each. -/
def twoLogs : List RpcLog := [⟨"0x", [], "0x", 1⟩, ⟨"0x", [], "0x", 2⟩]

/-- They are asked for together, and then one by one. -/
theorem get_logs_complete_two_blocks : AnswersLogs knownCrates (anyLogs 1 2) (blockNode twoLogs) twoLogs ∧
    ∃ asked, (getLogs knownCrates (anyLogs 1 2)).run (blockNode twoLogs) [] = (.ok twoLogs, asked) ∧
      asked.length = 3 := by
  have hnode : AnswersLogs knownCrates (anyLogs 1 2) (blockNode twoLogs) twoLogs :=
    answersLogs_blockNode (by decide) 1 2
  obtain ⟨visits, o, hrun, -, -, -, hok, -⟩ :=
    (@get_logs_complete knownCrates (anyLogs 1 2) (blockNode twoLogs) twoLogs [] (by decide) hnode).1
  have hcount : (((getLogs knownCrates (anyLogs 1 2)).run (blockNode twoLogs) []).1.value.isSome) = true ∧
      ((getLogs knownCrates (anyLogs 1 2)).run (blockNode twoLogs) []).2.length = 3 := by
    decide +kernel
  rw [hrun] at hcount
  obtain ⟨logs, hlogs⟩ := Option.isSome_iff_exists.mp hcount.1
  obtain rfl := Outcome.value_eq_some.mp hlogs
  obtain ⟨rfl, -⟩ := hok logs rfl
  exact ⟨hnode, _, hrun, hcount.2⟩

end Sherwood.Chain
