/-
# The approvals of a swap

The two approvals that a swap needs before it can settle, `crates/dex/src/permit2.rs`: the token's, which names
Permit2, and Permit2's, which names the router. Calldata only, of fixed size.

Over it, what the two contracts read. An approval is built exactly if its addresses are addresses, and it is read as
what it says: the spender, the amount, and for Permit2 the token and the expiration, a `uint48` in a word that a `u64`
is put into, so an expiration from `2^48` on is calldata that no contract reads (`approvals_cover_swap`). Next to the
calldata of the swap, the approvals are of the token and the amount that the swap settles.

Key definitions: `Dex.erc20ApproveCalldata`, `Dex.permit2ApproveCalldata`, `Dex.readErc20Approve`,
`Dex.readPermit2Approve`.
Key theorems: `Dex.readPermit2Approve_eq`, `Dex.approvals_cover_swap`.
-/
import Sherwood.Chain.Hex
import Sherwood.Dex.V4Swap

namespace Sherwood.Dex

open Abi (Val Ty)
open Chain (HexDecode IsAddress addressWord_eq_ok uintWord uintWord_eq)

/-- `PERMIT2_ADDRESS`. -/
def permit2Address : String := "0x000000000022d473030f116ddee9f6b43ac78ba3"

section

variable (hex : HexDecode) (keccak256 : List UInt8 → Vector UInt8 32)

def erc20ApproveCalldata (spender : String) (amount : BitVec 128) : Except DexError (List UInt8) := do
  return selector keccak256 "approve(address,uint256)" ++ (← ExactInputSingleSwap.address hex spender) ++
    uintWord amount

def permit2ApproveCalldata (token spender : String) (amount : BitVec 128) (expirationUnix : UInt64) :
    Except DexError (List UInt8) := do
  let token ← ExactInputSingleSwap.address hex token
  let spender ← ExactInputSingleSwap.address hex spender
  return selector keccak256 "approve(address,address,uint160,uint48)" ++ token ++ spender ++ uintWord amount ++
    uintWord (.ofNat 128 expirationUnix.toNat)

end

/-! ## What the contracts read -/

/-- The arguments of the token's `approve`: a spender and an amount. -/
def erc20ApproveTy : Ty := .tuple [.uint 160, .uint 256]

/-- The spender and the amount of an approval. -/
def readErc20Approve (args : List UInt8) : Option (ℕ × ℕ) :=
  match Abi.decode erc20ApproveTy args with
  | some (.tuple [.uint _ spender, .uint _ amount]) => some (spender, amount)
  | _ => none

/-- An approval of Permit2, read: addresses by their numbers. -/
@[ext] structure Permit2Approval where
  token : ℕ
  spender : ℕ
  amount : ℕ
  expiration : ℕ
  deriving DecidableEq

/-- The arguments of Permit2's `approve`. -/
def permit2ApproveTy : Ty := .tuple [.uint 160, .uint 160, .uint 160, .uint 48]

def readPermit2Approve (args : List UInt8) : Option Permit2Approval :=
  match Abi.decode permit2ApproveTy args with
  | some (.tuple [.uint _ token, .uint _ spender, .uint _ amount, .uint _ expiration]) =>
    some ⟨token, spender, amount, expiration⟩
  | _ => none

/-! ## Round trip -/

section

variable {hex : HexDecode} {keccak256 : List UInt8 → Vector UInt8 32} {addr token spender : String}
  {raw rawToken : List UInt8}

theorem address_eq_ok {w : List UInt8} : ExactInputSingleSwap.address hex addr = .ok w ↔
    ∃ raw, IsAddress hex addr raw ∧ w = Abi.word (BigEndian.value raw) := by
  constructor
  · intro h
    cases hword : Chain.addressWord hex addr with
    | error e =>
      rw [ExactInputSingleSwap.address, hword] at h
      cases h
    | ok w' =>
      obtain ⟨raw, hraw, -⟩ := addressWord_eq_ok.mp hword
      rw [address_eq hraw] at h
      exact ⟨raw, hraw, (Except.ok.inj h).symm⟩
  · rintro ⟨raw, hraw, hw⟩
    rw [hw]
    exact address_eq hraw

theorem erc20ApproveCalldata_eq_ok {amount : BitVec 128} {calldata : List UInt8} :
    erc20ApproveCalldata hex keccak256 spender amount = .ok calldata ↔ ∃ raw, IsAddress hex spender raw ∧
      calldata = selector keccak256 "approve(address,uint256)" ++
        (Abi.word (BigEndian.value raw) ++ Abi.word amount.toNat) := by
  unfold erc20ApproveCalldata
  simp only [Except.bind_eq_ok, address_eq_ok, uintWord_eq, pure, Except.pure, Except.ok.injEq, List.append_assoc]
  constructor
  · rintro ⟨w, ⟨raw, hraw, hw⟩, hcalldata⟩
    exact ⟨raw, hraw, by rw [← hcalldata, hw]⟩
  · rintro ⟨raw, hraw, hcalldata⟩
    exact ⟨_, ⟨raw, hraw, rfl⟩, hcalldata.symm⟩

theorem permit2ApproveCalldata_eq_ok {amount : BitVec 128} {expiration : UInt64} {calldata : List UInt8} :
    permit2ApproveCalldata hex keccak256 token spender amount expiration = .ok calldata ↔
      ∃ rawToken, IsAddress hex token rawToken ∧ ∃ raw, IsAddress hex spender raw ∧
        calldata = selector keccak256 "approve(address,address,uint160,uint48)" ++
          (Abi.word (BigEndian.value rawToken) ++ (Abi.word (BigEndian.value raw) ++
            (Abi.word amount.toNat ++ Abi.word expiration.toNat))) := by
  have hexpiration : uintWord (.ofNat 128 expiration.toNat) = Abi.word expiration.toNat := by
    have := expiration.toNat_lt
    exact wordUint_ofNat (by omega)
  unfold permit2ApproveCalldata
  simp only [Except.bind_eq_ok, address_eq_ok, uintWord_eq amount, hexpiration, pure, Except.pure, Except.ok.injEq,
    List.append_assoc]
  constructor
  · rintro ⟨wToken, ⟨rawToken, htoken, hwToken⟩, w, ⟨raw, hraw, hw⟩, hcalldata⟩
    exact ⟨rawToken, htoken, raw, hraw, by rw [← hcalldata, hwToken, hw]⟩
  · rintro ⟨rawToken, htoken, raw, hraw, hcalldata⟩
    exact ⟨_, ⟨rawToken, htoken, rfl⟩, _, ⟨raw, hraw, rfl⟩, hcalldata.symm⟩

theorem readErc20Approve_eq (h : IsAddress hex spender raw) (amount : BitVec 128) :
    readErc20Approve (Abi.word (BigEndian.value raw) ++ Abi.word amount.toNat) =
      some (BigEndian.value raw, amount.toNat) := by
  have hspender := h.lt
  have hamount := amount.isLt
  have hdecode := Abi.decode_uints [(160, BigEndian.value raw), (256, amount.toNat)] (by
    simp only [List.forall_mem_cons]
    exact ⟨by omega, by omega, by simp⟩)
  rw [if_pos (by simp only [List.forall_mem_cons]; exact ⟨hspender, by omega, by simp⟩)] at hdecode
  simp only [List.map_cons, List.map_nil, List.flatten_cons, List.flatten_nil, List.append_nil] at hdecode
  rw [readErc20Approve, erc20ApproveTy, hdecode]

/-- Permit2 reads the four fields, as long as the expiration is one of its own. -/
theorem readPermit2Approve_eq (htoken : IsAddress hex token rawToken) (h : IsAddress hex spender raw)
    (amount : BitVec 128) (expiration : UInt64) :
    readPermit2Approve (Abi.word (BigEndian.value rawToken) ++ (Abi.word (BigEndian.value raw) ++
      (Abi.word amount.toNat ++ Abi.word expiration.toNat))) =
        if expiration.toNat < 2 ^ 48 then
          some ⟨BigEndian.value rawToken, BigEndian.value raw, amount.toNat, expiration.toNat⟩
        else none := by
  have hlt := htoken.lt
  have hspender := h.lt
  have hamount := amount.isLt
  have hexpiration := expiration.toNat_lt
  have hdecode := Abi.decode_uints [(160, BigEndian.value rawToken), (160, BigEndian.value raw),
      (160, amount.toNat), (48, expiration.toNat)] (by
    simp only [List.forall_mem_cons]
    exact ⟨by omega, by omega, by omega, by omega, by simp⟩)
  simp only [List.map_cons, List.map_nil, List.flatten_cons, List.flatten_nil, List.append_nil,
    List.forall_mem_cons, hlt, hspender, show amount.toNat < 2 ^ 160 by omega, true_and, List.not_mem_nil,
    false_imp_iff, implies_true, and_true] at hdecode
  rw [readPermit2Approve, permit2ApproveTy, hdecode]
  by_cases hrange : expiration.toNat < 2 ^ 48
  · rw [if_pos hrange, if_pos hrange]
  · rw [if_neg hrange, if_neg hrange]

end

/-- **The approvals cover the swap.** Each is built exactly if its addresses are addresses. For a swap that can be
built, those of the token it spends and its amount are read as such: the token's names Permit2, and Permit2's the
router and exactly the token and the amount that the swap settles, never more than a `u128`. Permit2 reads it exactly
if the expiration is a `uint48`. -/
theorem approvals_cover_swap (hex : HexDecode) (keccak256 : List UInt8 → Vector UInt8 32) (token router : String)
    (amount : BitVec 128) (expiration : UInt64) :
    ((∃ calldata, erc20ApproveCalldata hex keccak256 router amount = .ok calldata) ↔
      ∃ raw, IsAddress hex router raw) ∧
    ((∃ calldata, permit2ApproveCalldata hex keccak256 token router amount expiration = .ok calldata) ↔
      (∃ raw, IsAddress hex token raw) ∧ ∃ raw, IsAddress hex router raw) ∧
    ∀ (s : ExactInputSingleSwap) (deadline : UInt64) (c0 c1 hooks permit2 raw : List UInt8),
      s.Valid hex c0 c1 hooks → IsAddress hex permit2Address permit2 → IsAddress hex router raw →
      ∃ (approve permit swap : List UInt8) (call : SwapCall),
        erc20ApproveCalldata hex keccak256 permit2Address s.amountIn = .ok approve ∧
        permit2ApproveCalldata hex keccak256 s.tokenIn router s.amountIn expiration = .ok permit ∧
        s.executeCalldata hex keccak256 deadline = .ok swap ∧
        approve.length = 4 + 64 ∧ permit.length = 4 + 128 ∧
        readExecute (swap.drop 4) = some call ∧
        readErc20Approve (approve.drop 4) = some (BigEndian.value permit2, call.settle.2) ∧
        readPermit2Approve (permit.drop 4) =
          (if expiration.toNat < 2 ^ 48 then
            some ⟨call.settle.1, BigEndian.value raw, call.settle.2, expiration.toNat⟩
          else none) ∧
        call.settle.2 < 2 ^ 128 := by
  refine ⟨?_, ?_, ?_⟩
  · constructor
    · rintro ⟨calldata, h⟩
      obtain ⟨raw, hraw, -⟩ := erc20ApproveCalldata_eq_ok.mp h
      exact ⟨raw, hraw⟩
    · rintro ⟨raw, hraw⟩
      exact ⟨_, erc20ApproveCalldata_eq_ok.mpr ⟨raw, hraw, rfl⟩⟩
  · constructor
    · rintro ⟨calldata, h⟩
      obtain ⟨rawToken, htoken, raw, hraw, -⟩ := permit2ApproveCalldata_eq_ok.mp h
      exact ⟨⟨rawToken, htoken⟩, raw, hraw⟩
    · rintro ⟨⟨rawToken, htoken⟩, raw, hraw⟩
      exact ⟨_, permit2ApproveCalldata_eq_ok.mpr ⟨rawToken, htoken, raw, hraw, rfl⟩⟩
  · intro s deadline c0 c1 hooks permit2 raw hs hpermit2 hrouter
    have hin := tokenIn_isAddress (s := s) hs.currency0 hs.currency1
    have hfour : ∀ signature, (selector keccak256 signature).length = 4 := fun signature => by simp [selector]
    obtain ⟨swap, hswap, -, hread⟩ := readExecute_executeCalldata hs keccak256 deadline
    refine ⟨_, _, swap, callOf s c0 c1 hooks deadline,
      erc20ApproveCalldata_eq_ok.mpr ⟨permit2, hpermit2, rfl⟩,
      permit2ApproveCalldata_eq_ok.mpr ⟨_, hin, raw, hrouter, rfl⟩, hswap, ?_, ?_, hread, ?_, ?_, s.amountIn.isLt⟩
    · simp [hfour]
    · simp [hfour]
    · rw [List.drop_left' (hfour _)]
      exact readErc20Approve_eq hpermit2 s.amountIn
    · rw [List.drop_left' (hfour _)]
      exact readPermit2Approve_eq hin hrouter s.amountIn expiration

/-- USDG for NVDA: Permit2 lets the router spend 200 USDG, as the swap settles. -/
theorem approvals_cover_swap_usdgForNvda :
    ∃ (permit swap : List UInt8) (call : SwapCall),
      permit2ApproveCalldata hexDecode (fun _ => executeHash) usdgForNvda.tokenIn
        "0x1111111111111111111111111111111111111111" 200000000 1800000000 = .ok permit ∧
      usdgForNvda.executeCalldata hexDecode (fun _ => executeHash) 1700000000 = .ok swap ∧
      readExecute (swap.drop 4) = some call ∧
      (readPermit2Approve (permit.drop 4)).map (fun a => (a.token, a.amount)) = some call.settle := by
  have hvalid : usdgForNvda.Valid hexDecode
      [0x5f, 0xc5, 0x36, 0x0d, 0x04, 0x00, 0xa0, 0xfd, 0x4f, 0x2a, 0xf5, 0x52, 0xad, 0xd0, 0x42, 0xd7, 0x16, 0xf1,
        0xd1, 0x68]
      [0xd0, 0x60, 0x1c, 0xe1, 0x57, 0xdb, 0x5b, 0xdc, 0x31, 0x62, 0xbb, 0xac, 0x2a, 0x2c, 0x8a, 0xf5, 0x32, 0x0d,
        0x9e, 0xec]
      (List.replicate 20 0) :=
    ⟨⟨by decide, rfl⟩, ⟨by decide, rfl⟩, ⟨by decide, rfl⟩, by decide, by decide⟩
  obtain ⟨-, permit, swap, call, -, hpermit, hswap, -, -, hcall, -, hread, -⟩ :=
    (approvals_cover_swap hexDecode (fun _ => executeHash) usdgForNvda.tokenIn
      "0x1111111111111111111111111111111111111111" 200000000 1800000000).2.2 usdgForNvda 1700000000 _ _ _
      [0, 0, 0, 0, 0, 0x22, 0xd4, 0x73, 0x03, 0x0f, 0x11, 0x6d, 0xde, 0xe9, 0xf6, 0xb4, 0x3a, 0xc7, 0x8b, 0xa3]
      (List.replicate 20 0x11) hvalid ⟨by decide, rfl⟩ ⟨by decide, rfl⟩
  refine ⟨permit, swap, call, hpermit, hswap, hcall, ?_⟩
  rw [hread, if_pos (by decide)]
  rfl

end Sherwood.Dex
