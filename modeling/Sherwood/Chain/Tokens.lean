/-
# Known tokens

The tokens of Robinhood Chain by their symbols, and the contracts of its Uniswap deployment. A
symbol is known in any case, and what is none is taken for an address.

An address has forty digits and no symbol that many letters, so an address in any spelling is passed through
(`resolve_of_isAddress`).

Key definitions: `eqIgnoreAsciiCase`, `knownTokens`, `resolve`.
Key theorems: `resolve_congr`, `resolve_of_isAddress`.
-/
import Sherwood.Chain.Hex

namespace Sherwood

/-- `str::eq_ignore_ascii_case`. -/
def eqIgnoreAsciiCase (a b : String) : Bool := toAsciiLowercase a = toAsciiLowercase b

structure KnownToken where
  symbol : String
  address : String
  decimals : UInt8

def knownTokens : List KnownToken := [
  ⟨"NVDA", "0xd0601CE157Db5bdC3162BbaC2a2C8aF5320D9EEC", 18⟩,
  ⟨"TSLA", "0x322F0929c4625eD5bAd873c95208D54E1c003b2d", 18⟩,
  ⟨"AAPL", "0xaF3D76f1834A1d425780943C99Ea8A608f8a93f9", 18⟩,
  ⟨"MSFT", "0xe93237C50D904957Cf27E7B1133b510C669c2e74", 18⟩,
  ⟨"AMZN", "0x12f190a9F9d7D37a250758b26824B97CE941bF54", 18⟩,
  ⟨"GOOGL", "0x2e0847E8910a9732eB3fb1bb4b70a580ADAD4FE3", 18⟩,
  ⟨"META", "0xc0D6457C16Cc70d6790Dd43521C899C87ce02f35", 18⟩,
  ⟨"SPY", "0x117cc2133c37B721F49dE2A7a74833232B3B4C0C", 18⟩,
  ⟨"USDG", "0x5fc5360D0400a0Fd4f2af552ADD042D716F1d168", 6⟩,
  ⟨"WETH", "0x0Bd7D308f8E1639FAb988df18A8011f41EAcAD73", 18⟩]

/-- A known symbol, in any case, or an address passed through. -/
def resolve (token : String) : KnownToken :=
  (knownTokens.find? fun t => eqIgnoreAsciiCase t.symbol token).getD ⟨token, token, 18⟩

theorem eqIgnoreAsciiCase_refl (a : String) : eqIgnoreAsciiCase a a = true := decide_eq_true rfl

theorem eqIgnoreAsciiCase_congr {a b c : String} (h : eqIgnoreAsciiCase a b = true) :
    eqIgnoreAsciiCase c a = eqIgnoreAsciiCase c b := by
  unfold eqIgnoreAsciiCase at h ⊢
  rw [of_decide_eq_true h]

theorem resolve_congr {a b : String} (h : eqIgnoreAsciiCase a b = true) :
    eqIgnoreAsciiCase (resolve a).address (resolve b).address = true := by
  have hfind : (fun t : KnownToken => eqIgnoreAsciiCase t.symbol a) = fun t => eqIgnoreAsciiCase t.symbol b :=
    funext fun t => eqIgnoreAsciiCase_congr h
  unfold resolve
  rw [hfind]
  cases knownTokens.find? fun t => eqIgnoreAsciiCase t.symbol b with
  | none => exact h
  | some t => exact eqIgnoreAsciiCase_refl t.address

theorem resolve_of_isAddress {decode : Chain.HexDecode} (hdecode : Chain.ReadsHex decode) {addr : String}
    {raw : List UInt8} (h : Chain.IsAddress decode addr raw) : resolve addr = ⟨addr, addr, 18⟩ := by
  have hlen : 40 ≤ (toAsciiLowercase addr).toList.length := by
    by_cases hpre : Chain.Prefixed addr
    · rw [h.toAsciiLowercase_eq hdecode hpre, Chain.toHex, String.toList_append, List.length_append, Chain.hex_length,
        h.length]
      omega
    · rw [h.toAsciiLowercase_bare hdecode hpre, Chain.hex_length, h.length]
  have hfind : (knownTokens.find? fun t => eqIgnoreAsciiCase t.symbol addr) = none := by
    rw [List.find?_eq_none]
    intro t ht hsymbol
    have hshort : ∀ t ∈ knownTokens, (toAsciiLowercase t.symbol).toList.length < 40 := by decide +kernel
    have := hshort t ht
    rw [of_decide_eq_true hsymbol] at this
    omega
  rw [resolve, hfind]
  rfl

namespace Chain

def poolManager : String := "0x8366a39cc670b4001a1121b8f6a443a643e40951"
def stateView : String := "0xf3334192d15450cdd385c8b70e03f9a6bd9e673b"

end Chain

end Sherwood
