/-
# The probe of a plain token

A plain token moves any amount its sender has and refuses any other for balance. Nothing about it
is restricted, so the probe should never say so, and should find it permissionless where one of the
holders it scans has a balance.

The probe asks for the largest balance it can read and then sends a thousand base units. A balance that
does not fit 128 bits is not read, and a smaller one than a thousand is not enough: the
token is then called restricted for what its holder lacks (`plain_token_verdict_iff`, `small_holder_restricted`).

Key definitions: `callRequest`, `PlainErc20`, `richest`, `held`, `plainVerdict`, `scanned`.
Key theorems: `bestOf_richest`, `PlainErc20.delivers_checkTransferOpen`, `plain_token_verdict_iff`.
-/
import Sherwood.Chain.Hex
import Sherwood.Chain.Logs
import Sherwood.Chain.Probe
import Sherwood.Chain.RoundTrip

namespace Sherwood.Chain

open Dex (selector)

variable (crates : Crates)

/-- The logs the probe asks for. -/
def transferFilter (tokenAddress : String) (opts : ProbeOptions) (head : UInt64) : LogFilter where
  address := some (toAsciiLowercase tokenAddress)
  topics := [some (topicHex crates "Transfer(address,address,uint256)")]
  fromBlock := if opts.sampleBlocks ≤ head then head - opts.sampleBlocks else 0
  toBlock := head

/-- What a node replies of a plain token, whatever it was asked before. The token has a name, a symbol and
decimals; a transfer of what the sender has returns `true`, and any other reverts for balance. -/
structure PlainErc20 (node : Node) (tokenAddress : String) (opts : ProbeOptions) (balance : List UInt8 → ℕ)
    (head : UInt64) (logs : List RpcLog) : Prop where
  replies : ∀ asked q, node asked q ≠ .panic
  address : ∃ word, addressWord crates.hexDecode tokenAddress = .ok word
  tokenMeta : ((Erc20.mk (toAsciiLowercase tokenAddress)).tokenMeta crates).Delivers node fun _ => True
  storage : ∀ slot, (getStorageAt crates tokenAddress slot).Delivers node fun _ => True
  height : (blockNumber crates).Delivers node (· = head)
  transfers : (getLogs crates (transferFilter crates tokenAddress opts head)).Delivers node (· = logs)
  topics : ∀ log ∈ logs, log.topicAddress 1 ≠ .panic ∧ log.topicAddress 2 ≠ .panic
  balance_lt : ∀ word, balance word < 2 ^ 256
  balanceOf : ∀ asked word, word.length = 32 → ∃ ret,
    node asked (callRequest none (toAsciiLowercase tokenAddress) (calldata crates "balanceOf(address)" [word])) =
        .ok ret ∧
      bytesOf crates ret = .ok (Abi.word (balance word))
  transfer : ∀ asked sender word recipient amount, addressWord crates.hexDecode sender = .ok word →
    recipient.length = 32 →
    if amount.toNat ≤ balance word then
      ∃ ret, node asked (callRequest (some sender) tokenAddress
          (calldata crates "transfer(address,uint256)" [recipient, uintWord amount])) = .ok ret ∧
        bytesOf crates ret = .ok (Abi.word 1)
    else
      ∃ data, node asked (callRequest (some sender) tokenAddress
          (calldata crates "transfer(address,uint256)" [recipient, uintWord amount])) = .err (.reverted none data) ∧
        revertSelector crates.hexDecode data = .ok errInsufficientBalance
  fresh : ∃ word, addressWord crates.hexDecode opts.freshAddress = .ok word ∧ balance word = 0

variable {crates}

/-! ### The best holder -/

/-- A turn of the scan, on what is read of a balance. -/
def improve (read : String → Option (BitVec 128)) (best : Option (String × BitVec 128)) (a : String) :
    Option (String × BitVec 128) :=
  match read a with
  | some bal => if bal > 0 ∧ (best.all fun b => bal > b.2) then some (a, bal) else best
  | none => best

/-- The first of the largest positive balances that are read. -/
def richest (read : String → Option (BitVec 128)) (holders : List String) : Option (String × BitVec 128) :=
  holders.foldl (improve read) none

/-- The best so far is a holder that was read, and none that was read has more. -/
structure BestOf (read : String → Option (BitVec 128)) (holders : List String) (best : Option (String × BitVec 128)) :
    Prop where
  mem : ∀ p, best = some p → p.1 ∈ holders ∧ read p.1 = some p.2 ∧ 0 < p.2.toNat
  le : ∀ a ∈ holders, ∀ bal, read a = some bal → 0 < bal.toNat → ∃ p, best = some p ∧ bal.toNat ≤ p.2.toNat

variable {read : String → Option (BitVec 128)} {holders : List String} {best : Option (String × BitVec 128)}
  {a : String}

theorem BestOf.keep (h : BestOf read holders best)
    (ha : ∀ bal, read a = some bal → 0 < bal.toNat → ∃ p, best = some p ∧ bal.toNat ≤ p.2.toNat) :
    BestOf read (holders ++ [a]) best where
  mem p hp := ⟨List.mem_append_left _ (h.mem p hp).1, (h.mem p hp).2⟩
  le a' ha' bal hbal hpos := by
    rcases List.mem_append.mp ha' with ha' | ha'
    · exact h.le a' ha' bal hbal hpos
    · obtain rfl := List.mem_singleton.mp ha'
      exact ha bal hbal hpos

theorem BestOf.replace {bal : BitVec 128} (h : BestOf read holders best) (hread : read a = some bal)
    (hpos : 0 < bal.toNat) (hbetter : ∀ p, best = some p → p.2.toNat < bal.toNat) :
    BestOf read (holders ++ [a]) (some (a, bal)) where
  mem p hp := by
    obtain rfl := Option.some.inj hp
    exact ⟨by simp, hread, hpos⟩
  le a' ha' bal' hbal' hpos' := by
    refine ⟨(a, bal), rfl, ?_⟩
    rcases List.mem_append.mp ha' with ha' | ha'
    · obtain ⟨p, hp, hle⟩ := h.le a' ha' bal' hbal' hpos'
      exact hle.trans (hbetter p hp).le
    · obtain rfl := List.mem_singleton.mp ha'
      rw [hread] at hbal'
      obtain rfl := Option.some.inj hbal'
      exact le_rfl

theorem BestOf.improve (h : BestOf read holders best) (a : String) :
    BestOf read (holders ++ [a]) (improve read best a) := by
  unfold Chain.improve
  cases hread : read a with
  | none => exact h.keep fun bal hbal => by simp [hread] at hbal
  | some bal =>
    simp only [gt_iff_lt, BitVec.lt_def]
    split
    · next himproves =>
      refine h.replace hread (by simpa using himproves.1) fun p hp => ?_
      simpa [hp, BitVec.lt_def] using himproves.2
    · next hnot =>
      refine h.keep fun bal' hbal' hpos => ?_
      rw [hread] at hbal'
      obtain rfl := Option.some.inj hbal'
      cases hbest : best with
      | none => simp [hbest, hpos] at hnot
      | some p => exact ⟨p, rfl, by simpa [hbest, hpos, BitVec.lt_def] using hnot⟩

theorem bestOf_richest (read : String → Option (BitVec 128)) (holders : List String) :
    BestOf read holders (richest read holders) := by
  induction holders using List.reverseRecOn with
  | nil => exact ⟨by simp [richest], by simp⟩
  | append_singleton holders a ih =>
    rw [richest, List.foldl_append]
    exact ih.improve a

section Plain

variable {node : Node} {tokenAddress : String} {opts : ProbeOptions} {balance : List UInt8 → ℕ} {head : UInt64}
  {logs : List RpcLog}

variable (crates balance) in
/-- What is read of a holder's balance: one that fits 128 bits. -/
def readBalance (a : String) : Option (BitVec 128) :=
  match addressWord crates.hexDecode a with
  | .ok word => if balance word < 2 ^ 128 then some (.ofNat 128 (balance word)) else none
  | .error _ => none

theorem decodeU128_toNat (v : BitVec 128) : decodeU128 (Abi.word v.toNat) = .ok v := by
  rw [← uintWord_eq, ← List.append_nil (uintWord v), decodeU128_uintWord]

theorem decodeU128_word {n : ℕ} (h : n < 2 ^ 256) : (decodeU128 (Abi.word n)).value =
    if n < 2 ^ 128 then some (.ofNat 128 n) else none := by
  split
  · next hsmall =>
    have hvalue : (BitVec.ofNat 128 n).toNat = n := by
      rw [BitVec.toNat_ofNat]
      exact Nat.mod_eq_of_lt hsmall
    have hread := decodeU128_toNat (.ofNat 128 n)
    rw [hvalue] at hread
    rw [hread]
    rfl
  · next hlarge =>
    have hhigh : ∃ b ∈ (Abi.word n).take 16, b ≠ 0 := by
      by_contra hzero
      push Not at hzero
      have hlow : BigEndian.value ((Abi.word n).drop 16) < 256 ^ 16 := by
        have := BigEndian.value_lt ((Abi.word n).drop 16)
        rwa [List.length_drop, Abi.word_length] at this
      have hvalue : BigEndian.value (Abi.word n) = n := BigEndian.value_bytes_of_lt h
      rw [← List.take_append_drop 16 (Abi.word n), List.eq_replicate_of_mem hzero, BigEndian.value_append,
        ← BigEndian.bytes_zero, BigEndian.value_bytes, Nat.zero_mod, Nat.zero_mul, Nat.zero_add] at hvalue
      omega
    rw [decodeU128_of_length (Abi.word_length n).ge, if_pos hhigh]
    rfl

theorem PlainErc20.delivers_balanceOfRaw (h : PlainErc20 crates node tokenAddress opts balance head logs) (a : String) :
    (((Erc20.mk (toAsciiLowercase tokenAddress)).balanceOfRaw crates a).attempt : Rpc _).Delivers node
      fun read => read.toOption = readBalance crates balance a := by
  refine Dialogue.delivers_attempt (P := (· = readBalance crates balance a)) fun asked => ?_
  rw [Erc20.balanceOfRaw, readBalance]
  cases haddr : addressWord crates.hexDecode a with
  | error e => exact ⟨by simp [Dialogue.run_bind, Outcome.ofExcept], rfl⟩
  | ok word =>
    obtain ⟨raw, hraw, rfl⟩ := addressWord_eq_ok.mp haddr
    obtain ⟨ret, hret, hbytes⟩ := h.balanceOf asked (List.replicate 12 0 ++ raw) (by simp [hraw.length])
    have hcall := run_callInner crates none (toAsciiLowercase tokenAddress)
      (calldata crates "balanceOf(address)" [List.replicate 12 0 ++ raw]) node asked
    rw [hret, Outcome.ok_bind, hbytes] at hcall
    simp only [Dialogue.run_bind, Dialogue.run_done, Outcome.ofExcept, call, hcall]
    exact ⟨decodeU128_ne_panic _, decodeU128_word (h.balance_lt _)⟩

theorem PlainErc20.delivers_bestHolder (h : PlainErc20 crates node tokenAddress opts balance head logs)
    (holders : List String) (best : Option (String × BitVec 128)) :
    (bestHolder crates ⟨toAsciiLowercase tokenAddress⟩ holders best).Delivers node
      (· = holders.foldl (improve (readBalance crates balance)) best) := by
  induction holders generalizing best with
  | nil => exact Dialogue.delivers_pure rfl
  | cons a holders ih =>
    refine (h.delivers_balanceOfRaw a).bind fun read hread => ?_
    rw [List.foldl_cons, Chain.improve, ← hread]
    cases read with
    | ok bal => exact ih _
    | error e => exact ih _

/-! ### The two transfers -/

theorem simResult_true (crates : Crates) : simResult crates (.ok (Abi.word 1)) = .ok .ok := by
  have hread : decodeU128 (Abi.word 1) = .ok 1 := decodeU128_toNat 1
  have hne : Abi.word 1 ≠ [] := List.ne_nil_of_length_pos (by rw [Abi.word_length]; decide)
  simp only [simResult, if_neg hne, hread]
  rfl

theorem simResult_reverted {data : Option String} {s : String} (h : revertSelector crates.hexDecode data = .ok s) :
    simResult crates (.error (.reverted none data)) = .ok (.revertSelector s) := by
  simp only [simResult, h]

/-- A simulated transfer comes to what the balance of the sender is. -/
theorem PlainErc20.delivers_simulateTransfer (h : PlainErc20 crates node tokenAddress opts balance head logs)
    {sender recipient : String} {word word' : List UInt8} (hsender : addressWord crates.hexDecode sender = .ok word)
    (hrecipient : addressWord crates.hexDecode recipient = .ok word') (amount : BitVec 128) :
    (simulateTransfer crates tokenAddress sender recipient amount).Delivers node
      (· = if amount.toNat ≤ balance word then .ok else .revertSelector errInsufficientBalance) := by
  intro asked
  have hlen : word'.length = 32 := by
    obtain ⟨raw, hraw, rfl⟩ := addressWord_eq_ok.mp hrecipient
    simp [hraw.length]
  have htransfer := h.transfer asked sender word word' amount hsender hlen
  rw [simulateTransfer, hrecipient, hsender]
  simp only [Dialogue.run_bind, Dialogue.run_attempt, callFrom, run_callInner]
  split at htransfer
  · next hle =>
    obtain ⟨ret, hret, hbytes⟩ := htransfer
    rw [hret, Outcome.ok_bind, hbytes, if_pos hle]
    exact ⟨_, _, Prod.ext (simResult_true crates) rfl, rfl⟩
  · next hlt =>
    obtain ⟨data, hret, hselector⟩ := htransfer
    rw [hret, Outcome.err_bind, if_neg hlt]
    exact ⟨_, _, Prod.ext (simResult_reverted hselector) rfl, rfl⟩

/-- What a holder has; an address that is none has nothing. -/
def held (crates : Crates) (balance : List UInt8 → ℕ) (a : String) : ℕ :=
  match addressWord crates.hexDecode a with
  | .ok word => balance word
  | .error _ => 0

/-- What is said of a plain token, from the holder that is best or none. -/
def plainVerdict (crates : Crates) (balance : List UInt8 → ℕ) : Option String → Verdict
  | none => .inconclusive "no funded holder in the sampled window"
  | some a =>
    if 1000 ≤ held crates balance a then .permissionless
    else .restricted s!"transfer to a fresh address reverts ({errInsufficientBalance})"

theorem PlainErc20.delivers_testTransfers (h : PlainErc20 crates node tokenAddress opts balance head logs)
    {holder : Option String} (hholder : ∀ a ∈ holder, 0 < held crates balance a) :
    (testTransfers crates tokenAddress opts holder).Delivers node
      fun tested => tested.verdict = plainVerdict crates balance holder := by
  cases holder with
  | none => exact Dialogue.delivers_pure rfl
  | some a =>
    have hpos := hholder a rfl
    unfold held at hpos
    cases haddr : addressWord crates.hexDecode a with
    | error e => simp [haddr] at hpos
    | ok word =>
      obtain ⟨fresh, hfresh, hzero⟩ := h.fresh
      refine (h.delivers_simulateTransfer haddr hfresh 1000).bind ?_
      rintro toFresh rfl
      refine (h.delivers_simulateTransfer hfresh haddr 1).bind ?_
      rintro fromFresh rfl
      refine Dialogue.delivers_pure ?_
      simp only [plainVerdict, held, haddr, hzero]
      show verdictOf (if 1000 ≤ balance word then _ else _) true = _
      split <;> rfl

/-! ### The whole probe -/

theorem PlainErc20.delivers_attempt_call (h : PlainErc20 crates node tokenAddress opts balance head logs)
    (callee data : String) {α : Type} {read : List UInt8 → Outcome ChainError α} (hread : ∀ ret, read ret ≠ .panic) :
    ((do
      let ret ← call crates callee data
      Dialogue.done (read ret) : Rpc α).attempt : Rpc (Except ChainError α)).Delivers node fun _ => True := by
  refine Dialogue.delivers_attempt (P := fun _ => True) fun asked => ⟨?_, trivial⟩
  rw [Dialogue.run_bind, call, run_callInner]
  have hreply := h.replies asked (callRequest none callee data)
  cases hret : node asked (callRequest none callee data) with
  | panic => exact absurd hret hreply
  | err e => simp
  | ok ret =>
    rw [Outcome.ok_bind, bytesOf]
    cases fromHex crates.hexDecode (ret.asStr.getD "0x") with
    | error e => simp [Outcome.ofExcept]
    | ok bytes => simpa [Outcome.ofExcept] using hread bytes

theorem getStorageAt_ensures (address slot : String) :
    (getStorageAt crates address slot).Ensures node fun raw => raw.length = 32 := by
  refine Dialogue.ensures_bind fun ret => Dialogue.ensures_bind fun raw => ?_
  split
  · next h => exact Dialogue.ensures_pure h
  · split
    · next h => exact Dialogue.ensures_pure (by simp; omega)
    · intro asked asked' raw' hrun
      cases congrArg Prod.fst hrun

theorem delivers_nonzeroAddress {word : List UInt8} (h : word.length = 32) :
    (Dialogue.done (nonzeroAddress word) : Rpc (Option String)).Delivers node fun _ => True := by
  rw [nonzeroAddress, slice_of_le (by omega) (by omega), Outcome.ok_bind]
  exact Dialogue.delivers_done trivial

theorem PlainErc20.delivers_detectProxy (h : PlainErc20 crates node tokenAddress opts balance head logs) :
    (detectProxy crates tokenAddress).Delivers node fun _ => True := by
  have hslot (slot : String) := (h.storage slot).of_ensures (getStorageAt_ensures tokenAddress slot)
  refine (hslot slotImpl).bind fun implSlot himpl => (delivers_nonzeroAddress himpl).bind fun implementation _ => ?_
  cases implementation with
  | some a => exact Dialogue.delivers_pure trivial
  | none =>
    refine (hslot slotBeacon).bind fun beaconSlot hbeacon => (delivers_nonzeroAddress hbeacon).bind fun beacon _ => ?_
    cases beacon with
    | none => exact Dialogue.delivers_pure trivial
    | some beacon =>
      exact (h.delivers_attempt_call beacon _ decodeAddress_ne_panic).bind fun _ _ => Dialogue.delivers_pure trivial

/-- The senders that the probe scans. -/
def scanned (logs : List RpcLog) (opts : ProbeOptions) : List String :=
  match observeAll logs ⟨[], [], 0⟩ with
  | .ok traffic => (traffic.senders.filter (· ≠ zeroAddr)).take opts.maxHoldersScanned
  | _ => []

theorem observeAll_eq_ok {logs : List RpcLog}
    (h : ∀ log ∈ logs, log.topicAddress 1 ≠ .panic ∧ log.topicAddress 2 ≠ .panic) (traffic : Traffic) :
    ∃ traffic', observeAll logs traffic = .ok traffic' := by
  induction logs generalizing traffic with
  | nil => exact ⟨traffic, rfl⟩
  | cons log logs ih =>
    obtain ⟨h1, h2⟩ := h log List.mem_cons_self
    have hlog : ∃ traffic', traffic.observe log = .ok traffic' := by
      unfold Traffic.observe
      cases hf : log.topicAddress 1 <;> cases ht : log.topicAddress 2 <;> simp_all
    obtain ⟨traffic', hlog⟩ := hlog
    obtain ⟨traffic'', hlogs⟩ := ih (fun log' hlog' => h log' (List.mem_cons_of_mem _ hlog')) traffic'
    exact ⟨traffic'', by rw [observeAll, hlog, Outcome.ok_bind, hlogs]⟩

theorem held_of_readBalance {a : String} {bal : BitVec 128} (h : readBalance crates balance a = some bal) :
    held crates balance a = bal.toNat := by
  unfold readBalance at h
  unfold held
  split at h
  · next word hword =>
    split at h
    · next hlt =>
      rw [← Option.some.inj h, BitVec.toNat_ofNat]
      exact (Nat.mod_eq_of_lt hlt).symm
    · cases h
  · cases h

theorem exists_readBalance {a : String} (hpos : 0 < held crates balance a) (hlt : held crates balance a < 2 ^ 128) :
    ∃ bal, readBalance crates balance a = some bal := by
  unfold held at hpos hlt
  unfold readBalance
  cases hword : addressWord crates.hexDecode a with
  | error e => simp [hword] at hpos
  | ok word =>
    rw [hword] at hlt
    exact ⟨_, if_pos hlt⟩

theorem richest_eq_some {holders : List String} {p : String × BitVec 128}
    (h : richest (readBalance crates balance) holders = some p) :
    p.1 ∈ holders ∧ 0 < held crates balance p.1 ∧ held crates balance p.1 < 2 ^ 128 ∧
      ∀ a ∈ holders, held crates balance a < 2 ^ 128 → held crates balance a ≤ held crates balance p.1 := by
  have hbest := bestOf_richest (readBalance crates balance) holders
  obtain ⟨hmem, hread, hpos⟩ := hbest.mem p h
  have hheld := held_of_readBalance hread
  refine ⟨hmem, by omega, by have := p.2.isLt; omega, fun a ha hlt => ?_⟩
  rcases Nat.eq_zero_or_pos (held crates balance a) with hzero | hpos'
  · omega
  · obtain ⟨bal, hbal⟩ := exists_readBalance hpos' hlt
    obtain ⟨p', hp', hle⟩ := hbest.le a ha bal hbal (held_of_readBalance hbal ▸ hpos')
    obtain rfl := Option.some.inj (h.symm.trans hp')
    have := held_of_readBalance hbal
    omega

theorem richest_eq_none {holders : List String} (h : richest (readBalance crates balance) holders = none) {a : String}
    (ha : a ∈ holders) : held crates balance a = 0 ∨ 2 ^ 128 ≤ held crates balance a := by
  by_contra hnot
  push Not at hnot
  obtain ⟨bal, hbal⟩ := exists_readBalance (Nat.pos_of_ne_zero hnot.1) hnot.2
  obtain ⟨p, hp, -⟩ := (bestOf_richest (readBalance crates balance) holders).le a ha bal hbal
    (held_of_readBalance hbal ▸ Nat.pos_of_ne_zero hnot.1)
  rw [h] at hp
  cases hp

/-- The probe of a plain token returns, and says what the best of its scanned holders comes to. -/
theorem PlainErc20.delivers_checkTransferOpen (h : PlainErc20 crates node tokenAddress opts balance head logs) :
    (checkTransferOpen crates tokenAddress opts).Delivers node fun report => report.verdict =
      plainVerdict crates balance ((richest (readBalance crates balance) (scanned logs opts)).map Prod.fst) := by
  obtain ⟨word, hword⟩ := h.address
  have hnew : Erc20.new crates tokenAddress = .ok ⟨toAsciiLowercase tokenAddress⟩ := by
    rw [Erc20.new, hword]
    rfl
  obtain ⟨traffic, htraffic⟩ := observeAll_eq_ok h.topics ⟨[], [], 0⟩
  unfold checkTransferOpen
  rw [hnew]
  refine (Dialogue.delivers_done (P := (· = ⟨toAsciiLowercase tokenAddress⟩)) rfl).bind ?_
  rintro token rfl
  refine h.tokenMeta.bind fun tokenMeta _ => ?_
  refine (h.delivers_attempt_call _ _ decodeU128_ne_panic).bind fun supply _ => ?_
  refine h.delivers_detectProxy.bind fun proxy _ => ?_
  have hpaused : (readPaused crates tokenAddress).Delivers node fun _ => True :=
    (h.delivers_attempt_call _ _ decodeU128_ne_panic).bind fun _ _ => Dialogue.delivers_pure trivial
  refine hpaused.bind fun paused _ => ?_
  refine h.height.bind ?_
  rintro head' rfl
  refine h.transfers.bind ?_
  rintro logs' rfl
  rw [htraffic]
  refine (Dialogue.delivers_done (P := (· = traffic)) rfl).bind ?_
  rintro traffic' rfl
  have hholder : (pickHolder crates ⟨toAsciiLowercase tokenAddress⟩ traffic'.senders opts.maxHoldersScanned).Delivers
      node (· = (richest (readBalance crates balance) (scanned logs' opts)).map Prod.fst) := by
    refine (h.delivers_bestHolder _ none).bind ?_
    rintro best rfl
    exact Dialogue.delivers_pure (by rw [scanned, htraffic, richest])
  refine hholder.bind ?_
  rintro holder rfl
  have hpos : ∀ a ∈ (richest (readBalance crates balance) (scanned logs' opts)).map Prod.fst,
      0 < held crates balance a := by
    intro a ha
    obtain ⟨p, hp, rfl⟩ := Option.map_eq_some_iff.mp ha
    exact (richest_eq_some hp).2.1
  exact (h.delivers_testTransfers hpos).bind fun tested htested => Dialogue.delivers_pure htested

theorem plainVerdict_permissionless (holders : List String) :
    plainVerdict crates balance ((richest (readBalance crates balance) holders).map Prod.fst) = .permissionless ↔
      ∃ a ∈ holders, 1000 ≤ held crates balance a ∧ held crates balance a < 2 ^ 128 := by
  cases hrich : richest (readBalance crates balance) holders with
  | none =>
    simp only [plainVerdict, Option.map_none, reduceCtorEq, false_iff]
    rintro ⟨a, ha, hle, hlt⟩
    have := richest_eq_none hrich ha
    omega
  | some p =>
    obtain ⟨hmem, -, hlt, hmax⟩ := richest_eq_some hrich
    simp only [plainVerdict, Option.map_some, ite_eq_left_iff, reduceCtorEq, imp_false, not_not]
    refine ⟨fun hle => ⟨p.1, hmem, hle, hlt⟩, ?_⟩
    rintro ⟨a, ha, hle, halt⟩
    exact hle.trans (hmax a ha halt)

theorem plainVerdict_inconclusive (holders : List String) :
    (∃ why, plainVerdict crates balance ((richest (readBalance crates balance) holders).map Prod.fst) =
        .inconclusive why) ↔
      ∀ a ∈ holders, held crates balance a = 0 ∨ 2 ^ 128 ≤ held crates balance a := by
  cases hrich : richest (readBalance crates balance) holders with
  | none => exact iff_of_true ⟨_, rfl⟩ fun a ha => richest_eq_none hrich ha
  | some p =>
    obtain ⟨hmem, hpos, hlt, -⟩ := richest_eq_some hrich
    refine iff_of_false ?_ fun hall => ?_
    · rintro ⟨why, hwhy⟩
      simp only [plainVerdict, Option.map_some] at hwhy
      split at hwhy <;> cases hwhy
    · have := hall p.1 hmem
      omega

/-- What the probe of a plain token is promised to say: not that it is restricted, and that it is
permissionless if somebody who is scanned has something. -/
def SaysOpen (crates : Crates) (balance : List UInt8 → ℕ) (holders : List String) (report : ProbeReport) : Prop :=
  (report.verdict = .permissionless ∨ ∃ why, report.verdict = .inconclusive why) ∧
    ((∃ a ∈ holders, 0 < held crates balance a) → report.verdict = .permissionless)

/-- **A plain token.** The probe returns, and what it says is what it is promised to exactly if nobody who is
scanned has anything, or somebody has a thousand base units or more, but less than `2^128`. -/
theorem plain_token_verdict_iff (h : PlainErc20 crates node tokenAddress opts balance head logs)
    (asked : List Request) : ∃ report asked',
      (checkTransferOpen crates tokenAddress opts).run node asked = (.ok report, asked') ∧
      (SaysOpen crates balance (scanned logs opts) report ↔
        (∀ a ∈ scanned logs opts, held crates balance a = 0) ∨
          ∃ a ∈ scanned logs opts, 1000 ≤ held crates balance a ∧ held crates balance a < 2 ^ 128) := by
  obtain ⟨report, asked', hrun, hverdict⟩ := h.delivers_checkTransferOpen asked
  refine ⟨report, asked', hrun, ?_⟩
  rw [SaysOpen, hverdict, plainVerdict_permissionless, plainVerdict_inconclusive]
  constructor
  · rintro ⟨henough | hnone, hopen⟩
    · exact .inr henough
    · by_cases hpos : ∃ a ∈ scanned logs opts, 0 < held crates balance a
      · exact .inr (hopen hpos)
      · push Not at hpos
        exact .inl fun a ha => Nat.le_zero.mp (hpos a ha)
  · rintro (hzero | henough)
    · refine ⟨.inr fun a ha => .inl (hzero a ha), ?_⟩
      rintro ⟨a, ha, hpos⟩
      exact absurd (hzero a ha) hpos.ne'
    · exact ⟨.inl henough, fun _ => henough⟩

end Plain

/-! ### A token of one holder -/

/-- What a plain token answers a call: of its decimals, of a balance, of a transfer, and nothing to
any other. -/
def plainReply (balance : List UInt8 → ℕ) (caller : Option String) (sel args : List UInt8) : Outcome ChainError Json :=
  if sel = selector knownCrates.keccak256 "balanceOf(address)" then .ok (.str (toHex (Abi.word (balance args))))
  else if sel = selector knownCrates.keccak256 "transfer(address,uint256)" then
    match caller.map (addressWord Dex.hexDecode) with
    | some (.ok word) =>
      if BigEndian.value (args.drop 32) ≤ balance word then .ok (.str (toHex (Abi.word 1)))
      else .err (.reverted none (some errInsufficientBalance))
    | _ => .err (.rpc (-32602) "invalid from")
  else if sel = selector knownCrates.keccak256 "decimals()" then .ok (.str (toHex (Abi.word 18)))
  else .ok (.str "0x")

/-- A node with a plain token, at block 16. -/
def plainNode (balance : List UInt8 → ℕ) (logs : List RpcLog) : Node := fun _ q =>
  match q.params with
  | .arr [.obj fields, _] =>
    match fromHex Dex.hexDecode (((Json.get fields "data").bind Json.asStr).getD "") with
    | .ok bytes => plainReply balance ((Json.get fields "from").bind Json.asStr) (bytes.take 4) (bytes.drop 4)
    | .error e => .err e
  | .arr [.obj _] => .ok (.arr (logs.map RpcLog.json))
  | .arr [] => .ok (.str "0x10")
  | _ => .ok (.str "0x")

theorem plainNode_call (balance : List UInt8 → ℕ) (logs : List RpcLog) (asked : List Request) (caller : Option String)
    (callee sig : String) (words : List (List UInt8)) :
    plainNode balance logs asked (callRequest caller callee (calldata knownCrates sig words)) =
      plainReply balance caller (selector knownCrates.keccak256 sig) words.flatten := by
  have hlen : (selector knownCrates.keccak256 sig).length = 4 := by simp [selector]
  have hdata : fromHex Dex.hexDecode (calldata knownCrates sig words) =
      .ok (selector knownCrates.keccak256 sig ++ words.flatten) := fromHex_toHex readsHex_hexDecode _
  have hfrom (data : String) : (Json.get ([("data", Json.str data)] ++
      (caller.map fun f => ("from", Json.str f)).toList ++ [("to", .str callee)]) "from").bind Json.asStr = caller := by
    cases caller <;> simp [Json.get, Json.asStr]
  have hget (data : String) : (Json.get ([("data", Json.str data)] ++
      (caller.map fun f => ("from", Json.str f)).toList ++ [("to", .str callee)]) "data").bind Json.asStr =
        some data := by
    simp [Json.get, Json.asStr]
  unfold plainNode callRequest
  simp only [hfrom, hget, Option.getD_some, hdata, List.take_left' hlen, List.drop_left' hlen]

/-- A transfer of nothing to anybody, and the sender is the holder. -/
def holderLog : RpcLog where
  address := "0x5fc5360d0400a0fd4f2af552add042d716f1d168"
  topics := [topicHex knownCrates "Transfer(address,address,uint256)",
    "0x00000000000000000000000000000000000000000000000000000000000000aa",
    "0x00000000000000000000000000000000000000000000000000000000000000bb"]
  data := "0x0000000000000000000000000000000000000000000000000000000000000000"
  blockNumber := 16

/-- One holder has all there is. -/
def holderBalance (n : ℕ) (word : List UInt8) : ℕ := if word = Abi.word 0xaa then n else 0

theorem bytesOf_toHex (bytes : List UInt8) : bytesOf knownCrates (.str (toHex bytes)) = .ok bytes :=
  congrArg Outcome.ofExcept (fromHex_toHex readsHex_hexDecode bytes)

theorem delivers_call0 (balance : List UInt8 → ℕ) (logs : List RpcLog) (token : Erc20) {sig : String}
    {bytes : List UInt8}
    (h : plainReply balance none (selector knownCrates.keccak256 sig) [] = .ok (.str (toHex bytes))) :
    (token.call0 knownCrates sig).Delivers (plainNode balance logs) (· = bytes) := by
  refine Dialogue.delivers_of_fst fun asked => ⟨bytes, ?_, rfl⟩
  rw [Erc20.call0, call, run_callInner, plainNode_call, List.flatten_nil, h, Outcome.ok_bind, bytesOf_toHex]

theorem delivers_tokenMeta (balance : List UInt8 → ℕ) (logs : List RpcLog) (token : Erc20) :
    (token.tokenMeta knownCrates).Delivers (plainNode balance logs) fun _ => True := by
  have hname : plainReply balance none (selector knownCrates.keccak256 "name()") [] = .ok (.str (toHex [])) := by
    rw [plainReply, if_neg (by decide +kernel), if_neg (by decide +kernel), if_neg (by decide +kernel)]
    rfl
  have hsymbol : plainReply balance none (selector knownCrates.keccak256 "symbol()") [] = .ok (.str (toHex [])) := by
    rw [plainReply, if_neg (by decide +kernel), if_neg (by decide +kernel), if_neg (by decide +kernel)]
    rfl
  have hdecimals : plainReply balance none (selector knownCrates.keccak256 "decimals()") [] =
      .ok (.str (toHex (Abi.word 18))) := by
    rw [plainReply, if_neg (by decide +kernel), if_neg (by decide +kernel), if_pos rfl]
  have hempty : (Dialogue.done (decodeString knownCrates.checks []) : Rpc String).Delivers (plainNode balance logs)
      fun _ => True := Dialogue.delivers_done trivial
  refine Dialogue.Delivers.bind (P := fun _ => True) ?_ fun name _ => ?_
  · refine (delivers_call0 balance logs token hname).bind ?_
    rintro ret rfl
    exact hempty
  refine Dialogue.Delivers.bind (P := fun _ => True) ?_ fun symbol _ => ?_
  · refine (delivers_call0 balance logs token hsymbol).bind ?_
    rintro ret rfl
    exact hempty
  refine Dialogue.Delivers.bind (P := fun _ => True) ?_ fun decimals _ => Dialogue.delivers_pure trivial
  refine (delivers_call0 balance logs token hdecimals).bind ?_
  rintro ret rfl
  have hread : decodeU128 (Abi.word 18) = .ok 18 := decodeU128_toNat 18
  rw [hread]
  exact Dialogue.delivers_done trivial

theorem plainReply_ne_panic (balance : List UInt8 → ℕ) (caller : Option String) (sel args : List UInt8) :
    plainReply balance caller sel args ≠ .panic := by
  unfold plainReply
  split_ifs
  · simp
  · split
    · split_ifs <;> simp
    · simp
  · simp
  · simp

theorem isAddress_token : IsAddress Dex.hexDecode "0x5fc5360D0400a0Fd4f2af552ADD042D716F1d168"
    (BigEndian.bytes 20 0x5fc5360D0400a0Fd4f2af552ADD042D716F1d168) :=
  ⟨by decide +kernel, by decide⟩

theorem isAddress_fresh : IsAddress Dex.hexDecode freshAddress
    (BigEndian.bytes 20 0x1111111111111111111111111111111111111112) :=
  ⟨by decide +kernel, by decide⟩

theorem isAddress_holder :
    IsAddress Dex.hexDecode "0x00000000000000000000000000000000000000aa" (BigEndian.bytes 20 0xaa) :=
  ⟨by decide +kernel, by decide⟩

theorem plainErc20_plainNode {n : ℕ} (h : n < 2 ^ 256) :
    PlainErc20 knownCrates (plainNode (holderBalance n) [holderLog])
    "0x5fc5360D0400a0Fd4f2af552ADD042D716F1d168" .default (holderBalance n) 16 [holderLog] where
  replies asked q := by
    unfold plainNode
    split
    · split
      · exact plainReply_ne_panic _ _ _ _
      · simp
    · simp
    · simp
    · simp
  address := ⟨_, addressWord_eq isAddress_token⟩
  tokenMeta := delivers_tokenMeta _ _ _
  storage slot asked := ⟨_, _, rfl, trivial⟩
  height asked := ⟨_, _, rfl, rfl⟩
  transfers := by
    refine Dialogue.delivers_of_fst fun asked => ⟨_, ?_, rfl⟩
    exact congrArg Prod.fst (run_getLogs_of_ok rfl (by decide) rfl)
  topics log hlog := by
    obtain rfl := List.mem_singleton.mp hlog
    constructor <;> decide +kernel
  balance_lt word := by
    unfold holderBalance
    split
    · exact h
    · decide
  balanceOf asked word hlen := by
    refine ⟨_, ?_, bytesOf_toHex _⟩
    rw [plainNode_call, plainReply, if_pos rfl, List.flatten_cons, List.flatten_nil, List.append_nil]
  transfer asked sender word recipient amount hsender hlen := by
    have hne : selector knownCrates.keccak256 "transfer(address,uint256)" ≠
        selector knownCrates.keccak256 "balanceOf(address)" := by
      decide +kernel
    have hamount : BigEndian.value ([recipient, uintWord amount].flatten.drop 32) = amount.toNat := by
      have hvalue : BigEndian.value (Abi.word amount.toNat) = amount.toNat :=
        BigEndian.value_bytes_of_lt (by have := amount.isLt; omega)
      rw [List.flatten_cons, List.drop_left' hlen, List.flatten_cons, List.flatten_nil, List.append_nil, uintWord_eq,
        hvalue]
    have hsender' : addressWord Dex.hexDecode sender = .ok word := hsender
    have hreply : plainReply (holderBalance n) (some sender)
        (selector knownCrates.keccak256 "transfer(address,uint256)") [recipient, uintWord amount].flatten =
        if amount.toNat ≤ holderBalance n word then .ok (.str (toHex (Abi.word 1)))
        else .err (.reverted none (some errInsufficientBalance)) := by
      rw [plainReply, if_neg hne, if_pos rfl, Option.map_some, hsender', hamount]
    rw [plainNode_call, hreply]
    split
    · exact ⟨_, rfl, bytesOf_toHex _⟩
    · exact ⟨_, rfl, by decide +kernel⟩
  fresh := ⟨_, addressWord_eq isAddress_fresh, if_neg (by decide +kernel)⟩

theorem scanned_holderLog : scanned [holderLog] .default = ["0x00000000000000000000000000000000000000aa"] := by
  decide +kernel

theorem held_holder (n : ℕ) : held knownCrates (holderBalance n) "0x00000000000000000000000000000000000000aa" = n := by
  have hword : addressWord knownCrates.hexDecode "0x00000000000000000000000000000000000000aa" = _ :=
    addressWord_eq isAddress_holder
  rw [BigEndian.value_bytes_of_lt (by decide)] at hword
  rw [held, hword]
  exact if_pos rfl

/-- A holder of a thousand. -/
theorem plain_token_verdict_thousand : ∃ report asked',
    (checkTransferOpen knownCrates "0x5fc5360D0400a0Fd4f2af552ADD042D716F1d168" .default).run
      (plainNode (holderBalance 1000) [holderLog]) [] = (.ok report, asked') ∧
    SaysOpen knownCrates (holderBalance 1000) (scanned [holderLog] .default) report := by
  obtain ⟨report, asked', hrun, hiff⟩ := plain_token_verdict_iff (plainErc20_plainNode (by decide : 1000 < 2 ^ 256)) []
  refine ⟨report, asked', hrun, hiff.mpr (.inr ⟨"0x00000000000000000000000000000000000000aa", ?_, ?_⟩)⟩
  · simp [scanned_holderLog]
  · simp [held_holder]

/-- A token whose holder has one base unit is called restricted. -/
theorem small_holder_restricted : ¬ ∀ (crates : Crates) (node : Node) (tokenAddress : String) (opts : ProbeOptions)
    (balance : List UInt8 → ℕ) (head : UInt64) (logs : List RpcLog) (asked : List Request),
    PlainErc20 crates node tokenAddress opts balance head logs →
      ∃ report asked', (checkTransferOpen crates tokenAddress opts).run node asked = (.ok report, asked') ∧
        SaysOpen crates balance (scanned logs opts) report := by
  intro hclaim
  have hplain := plainErc20_plainNode (by decide : 1 < 2 ^ 256)
  obtain ⟨report, asked', hrun, hopen⟩ := hclaim _ _ _ _ _ _ _ [] hplain
  obtain ⟨report', asked'', hrun', hiff⟩ := plain_token_verdict_iff hplain []
  obtain rfl : report = report' := Outcome.ok.inj (congrArg Prod.fst (hrun.symm.trans hrun'))
  have hcond := hiff.mp hopen
  simp [scanned_holderLog, held_holder] at hcond

end Sherwood.Chain
