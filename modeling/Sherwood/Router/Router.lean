/-
# The venue router

`crates/router/src/lib.rs`: a pure choice of venue by the notional of an order.
An order goes to the RFQ venue exactly when one is there and the order reaches
its threshold (`choose_rfq_iff`).

Key definitions: `RouterConfig`, `Router.new`, `Router.choose`.
Key theorem: `choose_rfq_iff`.
-/
import Sherwood.Decimal

namespace Sherwood

/-- Where an order would go. -/
inductive RouteVenue where
  | amm
  | rfq
  deriving DecidableEq

/-- `Venue::as_str`, in lower case as the API has it. -/
def RouteVenue.lower : RouteVenue → String
  | .amm => "amm"
  | .rfq => "rfq"

/-- `[router]`. -/
structure RouterConfig where
  rfqMinNotional : Option ℚ
  rfqAvailable : Bool
  deriving DecidableEq

inductive RouterError where
  | nonPositiveThreshold (threshold : ℚ)
  | rfqAvailableWithoutThreshold
  | nonPositiveNotional (notional : ℚ)
  deriving DecidableEq

/-- `RouterError`'s `Display`. -/
def RouterError.text : RouterError → String
  | .nonPositiveThreshold t => s!"rfq_min_notional must be > 0, got {Decimal.display t}"
  | .rfqAvailableWithoutThreshold =>
    "rfq_available is set but rfq_min_notional is not — RFQ could never be selected"
  | .nonPositiveNotional n => s!"order notional must be > 0, got {Decimal.display n}"

structure RouteChoice where
  venue : RouteVenue
  reason : String
  deriving DecidableEq

/-- Why `Router::new` rejects a config. -/
def RouterConfig.error (cfg : RouterConfig) : Option RouterError :=
  match cfg.rfqMinNotional with
  | some t => if t ≤ 0 then some (.nonPositiveThreshold t) else none
  | none => if cfg.rfqAvailable then some .rfqAvailableWithoutThreshold else none

/-- A router, with a config that was accepted. -/
structure Router where
  cfg : RouterConfig
  valid : cfg.error = none

namespace Router

/-- `Router::new`. -/
def new (cfg : RouterConfig) : Except RouterError Router :=
  match h : cfg.error with
  | some e => .error e
  | none => .ok ⟨cfg, h⟩

/-- `Router::choose`. -/
def choose (r : Router) (notional : ℚ) : Except RouterError RouteChoice :=
  if notional ≤ 0 then .error (.nonPositiveNotional notional)
  else
    match r.cfg.rfqMinNotional with
    | none => .ok ⟨.amm, "no RFQ threshold configured — AMM is the only route"⟩
    | some threshold =>
      let n := Decimal.display notional
      let t := Decimal.display threshold
      if ¬ r.cfg.rfqAvailable then
        .ok ⟨.amm, s!"notional {n} would route to RFQ (threshold {t}), " ++
          "but no RFQ venue is configured — falling back to AMM"⟩
      else if notional ≥ threshold then .ok ⟨.rfq, s!"notional {n} >= RFQ threshold {t}"⟩
      else .ok ⟨.amm, s!"notional {n} < RFQ threshold {t}"⟩

/-- An order goes to the RFQ venue exactly when there is one and the order
reaches its threshold. -/
theorem choose_rfq_iff (r : Router) (notional : ℚ) :
    (∃ reason, r.choose notional = .ok ⟨.rfq, reason⟩) ↔
      r.cfg.rfqAvailable = true ∧ ∃ threshold, r.cfg.rfqMinNotional = some threshold ∧ threshold ≤ notional := by
  have hvalid := r.valid
  unfold RouterConfig.error at hvalid
  unfold choose
  cases hmin : r.cfg.rfqMinNotional with
  | none =>
    by_cases hn : notional ≤ 0
    · simp [hn]
    · simp [hn]
  | some threshold =>
    simp only [hmin, ite_eq_right_iff, reduceCtorEq, imp_false, not_le] at hvalid
    by_cases hn : notional ≤ 0
    · have : ¬ threshold ≤ notional := by linarith
      simp [hn, this]
    · by_cases hrfq : r.cfg.rfqAvailable = true
      · by_cases ht : threshold ≤ notional
        · simp [hn, hrfq, ht]
        · simp [hn, hrfq, ht]
      · simp [hn, hrfq]

end Router

end Sherwood
