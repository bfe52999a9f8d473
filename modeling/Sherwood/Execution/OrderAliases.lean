/-
# The aliases of an order's fields

The arguments of an order tool name most fields in several ways, and
`parse_order` reads the first name that is there. What stands under the others
is not looked at, nor is a notional beside a quantity, and a notional that does
not divide by its price is rounded. The venue gets the arguments as they are, so
the gate may check an order that the venue does not read.

The order is what all the names say exactly if they say the same, and the
sizing is exact (`aliases_agree_iff`).

Key definitions: `present`, `OrderParse.Agrees`, `OrderParse.Consistent`.
Key theorems: `optionalDecimal_eq_ok`, `parseOrder_fields`, `aliases_agree_iff`, `aliases_conflict`.
-/
import Sherwood.Execution.OrderParse

namespace Sherwood
namespace OrderParse

def symbolKeys : List String := ["symbol", "ticker"]

def sideKeys : List String := ["side", "action"]

/-- What stands under the names, where it is not `null`. -/
def present (obj : List (String × Json)) (keys : List String) : List Json :=
  keys.filterMap fun key => (Json.get obj key).filter fun v => !v.isNull

/-- The symbol of a text, up to case and whitespace. -/
def symbolText (v : Json) : Option String := v.asStr.map fun s => toAsciiUppercase (trimStr s)

/-- The side of a text. -/
def sideOf (v : Json) : Option Side := v.asStr.bind fun s => (parseSide (toAsciiLowercase (trimStr s))).value

/-- A tolerance, not below zero. -/
def slippageOf (A : Arith) (v : Json) : Option ℚ := (valueToDecimal A v).map fun d => max d 0

/-- All values are read, and as the same. -/
def Same {α : Type} (read : Json → Option α) (vs : List Json) : Prop :=
  ∀ v ∈ vs, ∀ w ∈ vs, ∃ x, read v = some x ∧ read w = some x

instance {α : Type} [DecidableEq α] (read : Json → Option α) (vs : List Json) : Decidable (Same read vs) :=
  decidable_of_iff (∀ v ∈ vs, ∀ w ∈ vs, (read v).isSome ∧ read v = read w) <| forall₄_congr fun v _ w _ => by
    rw [Option.isSome_iff_exists]
    exact ⟨fun ⟨⟨x, hv⟩, hw⟩ => ⟨x, hv, hw ▸ hv⟩, fun ⟨x, hv, hw⟩ => ⟨⟨x, hv⟩, hv.trans hw.symm⟩⟩

/-- All values are read as this one. -/
def AllRead {α : Type} (read : Json → Option α) (vs : List Json) (x : α) : Prop := ∀ v ∈ vs, read v = some x

/-- The order is what every name in the arguments says. -/
structure Agrees (A : Arith) (obj : List (String × Json)) (order : Order) : Prop where
  symbol : AllRead symbolText (present obj symbolKeys) order.asset.symbol
  side : AllRead sideOf (present obj sideKeys) order.side
  limitPrice : ∀ v ∈ present obj limitPriceKeys, ∃ d, valueToDecimal A v = some d ∧ order.limitPrice = some d
  quantity : AllRead (valueToDecimal A) (present obj quantityKeys) order.qty
  slippage : ∀ v ∈ present obj slippageKeys, ∃ d, valueToDecimal A v = some d ∧
    (order.maxSlippage = d ∨ d < 0 ∧ order.maxSlippage = 0)
  notional : ∀ v ∈ present obj notionalKeys, ∀ p, order.limitPrice = some p →
    ∃ n, valueToDecimal A v = some n ∧ n = order.qty * p

/-- A notional at a price: the quantity times the price, or what the price divides
without rounding. -/
def SizedExactly (A : Arith) (quantity : Option ℚ) (n p : ℚ) : Prop :=
  match quantity with
  | some q => n = q * p
  | none => A.fit (n / p) = some (n / p)

/-- The names of each field say the same, and notionals are exact. -/
structure Consistent (A : Arith) (obj : List (String × Json)) : Prop where
  symbol : Same symbolText (present obj symbolKeys)
  side : Same sideOf (present obj sideKeys)
  limitPrice : Same (valueToDecimal A) (present obj limitPriceKeys)
  quantity : Same (valueToDecimal A) (present obj quantityKeys)
  slippage : Same (slippageOf A) (present obj slippageKeys)
  notional : present obj limitPriceKeys ≠ [] → Same (valueToDecimal A) (present obj notionalKeys)
  sized : ∀ quantity n p, optionalDecimal A obj quantityKeys = .ok quantity →
    optionalDecimal A obj notionalKeys = .ok (some n) → optionalDecimal A obj limitPriceKeys = .ok (some p) →
      SizedExactly A quantity n p

/-! ### The first name -/

section

variable {A : Arith} {obj : List (String × Json)} {α : Type} {read : Json → Option α} {vs : List Json} {x : α}

/-- Of values whose first is read as `x`, all are read as the same if all are read as
`x`. -/
theorem same_iff (hfirst : ∀ v, vs.head? = some v → read v = some x) : Same read vs ↔ AllRead read vs x := by
  constructor
  · intro hsame w hw
    cases vs with
    | nil => cases hw
    | cons v vs =>
      obtain ⟨y, hv, hw⟩ := hsame v List.mem_cons_self w hw
      rw [hw, ← hv]
      exact hfirst v List.head?_cons
  · intro hall v hv w hw
    exact ⟨x, hall v hv, hall w hw⟩

theorem present_cons (key : String) (keys : List String) : present obj (key :: keys) =
    ((Json.get obj key).filter fun v => !v.isNull).toList ++ present obj keys := by
  unfold present
  rw [List.filterMap_cons]
  cases (Json.get obj key).filter fun v => !v.isNull <;> rfl

theorem optionalDecimal_eq_ok {keys : List String} {r : Option ℚ} : optionalDecimal A obj keys = .ok r ↔
    match (present obj keys).head? with
    | some v => ∃ d, valueToDecimal A v = some d ∧ r = some d
    | none => r = none := by
  induction keys with
  | nil => simp [optionalDecimal, present, eq_comm]
  | cons key keys ih =>
    rw [present_cons]
    cases hget : Json.get obj key with
    | none => simpa [optionalDecimal, hget] using ih
    | some v =>
      cases hnull : v.isNull with
      | true => simpa [optionalDecimal, hget, hnull, Option.filter] using ih
      | false =>
        simp only [optionalDecimal, hget, hnull, Option.filter, Outcome.bind_eq_ok, Outcome.okOr_eq_ok,
          Outcome.pure_eq_ok, Outcome.ok.injEq, Bool.false_eq_true, if_false, Bool.not_false, if_true,
          Option.toList_some, List.singleton_append, List.head?_cons]
        exact exists_congr fun d => and_congr_right fun _ => eq_comm

/-- The first value under the names is not skipped where it is `null`: it is no string
then. -/
theorem head?_present {key key' : String} {v : Json} (h : (Json.get obj key).or (Json.get obj key') = some v)
    (hnull : v.isNull = false) : (present obj [key, key']).head? = some v := by
  rw [present_cons, present_cons]
  cases hget : Json.get obj key with
  | some w =>
    obtain rfl : w = v := by simpa [hget] using h
    simp [Option.filter, hnull]
  | none =>
    have hget' : Json.get obj key' = some v := by simpa [hget] using h
    simp [hget', Option.filter, hnull]

theorem isNull_of_asStr {v : Json} {s : String} (h : v.asStr = some s) : v.isNull = false := by
  cases v <;> simp_all [Json.asStr, Json.isNull]

end

/-! ### What an order says -/

section

variable {A : Arith} {toolName : String} {obj : List (String × Json)} {slip : ℚ} {now : DateTime} {order : Order}

/-- The parts of an order, each read from the first name of its field. -/
structure Fields (A : Arith) (obj : List (String × Json)) (order : Order) (q n : Option ℚ) : Prop where
  symbol : ∀ v, (present obj symbolKeys).head? = some v → symbolText v = some order.asset.symbol
  side : ∀ v, (present obj sideKeys).head? = some v → sideOf v = some order.side
  limitPrice : optionalDecimal A obj limitPriceKeys = .ok order.limitPrice
  quantity : optionalDecimal A obj quantityKeys = .ok q
  notional : optionalDecimal A obj notionalKeys = .ok n
  qty : orderQty A q n order.limitPrice = .ok order.qty
  slippage : ∀ v, (present obj slippageKeys).head? = some v → slippageOf A v = some order.maxSlippage

theorem parseOrder_fields (h : parseOrder A toolName (.obj obj) slip now = .ok order) :
    ∃ quantity notional, Fields A obj order quantity notional := by
  unfold parseOrder at h
  simp only [Outcome.bind_eq_ok, Outcome.okOr_eq_ok, Outcome.reject_eq_ok, exists_const, not_le,
    Outcome.pure_eq_ok, Outcome.ok.injEq] at h
  obtain ⟨_, hobj, symbol, hsymbol, word, hword, side, hside, limit, hlimit, quantity, hquantity, notional, hnotional,
    qty, hqty, -, slippage, hslippage, rfl⟩ := h
  obtain rfl := Option.some.inj hobj
  refine ⟨quantity, notional, ?_, ?_, hlimit, hquantity, hnotional, hqty, ?_⟩
  · obtain ⟨htext, -⟩ := Option.filter_eq_some_iff.mp hsymbol
    simp only [Option.map_eq_some_iff, Option.bind_eq_some_iff] at htext
    obtain ⟨s, ⟨v, hv, hs⟩, rfl⟩ := htext
    rw [symbolKeys, head?_present hv (isNull_of_asStr hs)]
    intro _ hfirst
    obtain rfl := Option.some.inj hfirst
    simp [symbolText, hs, Asset.ofSymbol]
  · obtain ⟨v, hv, hs⟩ := Option.bind_eq_some_iff.mp hword
    rw [sideKeys, head?_present hv (isNull_of_asStr hs)]
    intro _ hfirst
    obtain rfl := Option.some.inj hfirst
    simp [sideOf, hs, hside]
  · intro v hv
    rw [optionalDecimal_eq_ok, hv] at hslippage
    obtain ⟨d, hd, rfl⟩ := hslippage
    simp [slippageOf, hd]

/-- What stands under names of a decimal is the same exactly if it all is what is read. -/
theorem same_decimal_iff {keys : List String} {r : Option ℚ} (h : optionalDecimal A obj keys = .ok r) :
    Same (valueToDecimal A) (present obj keys) ↔
      ∀ v ∈ present obj keys, ∃ d, valueToDecimal A v = some d ∧ r = some d := by
  have hread := optionalDecimal_eq_ok.mp h
  cases hvs : present obj keys with
  | nil => simp [Same]
  | cons v vs =>
    rw [hvs] at hread
    obtain ⟨d, hd, rfl⟩ := hread
    rw [same_iff (x := d) fun w hw => by rwa [← Option.some.inj hw]]
    simp [AllRead]

theorem Fields.price_iff {q n : Option ℚ} (h : Fields A obj order q n) :
    (∃ p, order.limitPrice = some p) ↔ present obj limitPriceKeys ≠ [] := by
  have hlimit := optionalDecimal_eq_ok.mp h.limitPrice
  cases hprices : present obj limitPriceKeys with
  | nil =>
    rw [hprices] at hlimit
    simp [show order.limitPrice = none from hlimit]
  | cons v vs =>
    rw [hprices] at hlimit
    obtain ⟨d, -, hd⟩ := hlimit
    simp [hd]

theorem sized_iff {q : Option ℚ} {n p : ℚ} (h : orderQty A q (some n) (some p) = .ok order.qty) :
    SizedExactly A q n p ↔ n = order.qty * p := by
  cases q with
  | some q =>
    obtain rfl : q = order.qty := Outcome.ok.inj h
    rfl
  | none =>
    by_cases hp : p > 0
    · have hfit : A.fit (n / p) = some order.qty := by
        simpa [orderQty, hp, Arith.div, hp.ne'] using h
      rw [SizedExactly, hfit, Option.some.injEq, eq_comm, div_eq_iff hp.ne']
    · simp [orderQty, hp] at h

theorem Fields.notional_iff {q n : Option ℚ} (h : Fields A obj order q n) :
    (∀ v ∈ present obj notionalKeys, ∀ p, order.limitPrice = some p →
      ∃ m, valueToDecimal A v = some m ∧ m = order.qty * p) ↔
    (present obj limitPriceKeys ≠ [] → Same (valueToDecimal A) (present obj notionalKeys)) ∧
      ∀ quantity m p, optionalDecimal A obj quantityKeys = .ok quantity →
        optionalDecimal A obj notionalKeys = .ok (some m) → optionalDecimal A obj limitPriceKeys = .ok (some p) →
          SizedExactly A quantity m p := by
  rw [← h.price_iff, same_decimal_iff h.notional]
  have hqty := h.qty
  have hnotional := optionalDecimal_eq_ok.mp h.notional
  simp only [h.quantity, h.notional, h.limitPrice, Outcome.ok.injEq]
  cases hprice : order.limitPrice with
  | none => simp
  | some p =>
    rw [hprice] at hqty
    cases hvs : present obj notionalKeys with
    | nil =>
      rw [hvs] at hnotional
      simp [show n = none from hnotional]
    | cons v vs =>
      rw [hvs] at hnotional
      obtain ⟨m, hm, rfl⟩ := hnotional
      have hsized := sized_iff hqty
      constructor
      · intro hall
        have hexact : m = order.qty * p := by
          obtain ⟨m', hm', hexact⟩ := hall v List.mem_cons_self p rfl
          rwa [Option.some.inj (hm.symm.trans hm')]
        refine ⟨fun _ w hw => ?_, ?_⟩
        · obtain ⟨m', hm', rfl⟩ := hall w hw p rfl
          exact ⟨_, hm', by rw [hexact]⟩
        · rintro _ m' p' rfl hm' hp'
          rw [← Option.some.inj hm', ← Option.some.inj hp']
          exact hsized.mpr hexact
      · rintro ⟨hsame, hexact⟩ w hw p' hp'
        obtain ⟨d, hd, hmd⟩ := hsame ⟨p, rfl⟩ w hw
        rw [← Option.some.inj hmd] at hd
        rw [← Option.some.inj hp']
        exact ⟨m, hd, hsized.mp (hexact q m p rfl rfl rfl)⟩

/-- **The order is what all names say** exactly if they agree with each other. -/
theorem aliases_agree_iff (A : Arith) (toolName : String) (obj : List (String × Json)) (slip : ℚ) (now : DateTime)
    (order : Order) (h : parseOrder A toolName (.obj obj) slip now = .ok order) :
    Agrees A obj order ↔ Consistent A obj := by
  obtain ⟨q, n, hfields⟩ := parseOrder_fields h
  have hslip : 0 ≤ order.maxSlippage := by
    obtain ⟨-, -, -, -, -, hslip⟩ := parseOrder_ok h
    exact hslip
  have hsymbol := same_iff hfields.symbol
  have hside := same_iff hfields.side
  have hprice := same_decimal_iff hfields.limitPrice
  have hquantity : Same (valueToDecimal A) (present obj quantityKeys) ↔
      AllRead (valueToDecimal A) (present obj quantityKeys) order.qty := by
    rw [same_decimal_iff hfields.quantity]
    have hread := optionalDecimal_eq_ok.mp hfields.quantity
    cases hvs : present obj quantityKeys with
    | nil => simp [AllRead]
    | cons v vs =>
      rw [hvs] at hread
      obtain ⟨d, -, rfl⟩ := hread
      obtain rfl : d = order.qty := Outcome.ok.inj hfields.qty
      simp [AllRead]
  have hslippage : Same (slippageOf A) (present obj slippageKeys) ↔ ∀ v ∈ present obj slippageKeys,
      ∃ d, valueToDecimal A v = some d ∧ (order.maxSlippage = d ∨ d < 0 ∧ order.maxSlippage = 0) := by
    rw [same_iff hfields.slippage]
    refine forall₂_congr fun v _ => ?_
    simp only [slippageOf, Option.map_eq_some_iff]
    refine exists_congr fun d => and_congr_right fun _ => ?_
    rcases lt_or_ge d 0 with hneg | hpos
    · rw [max_eq_right hneg.le, eq_comm]
      exact ⟨fun h => .inr ⟨hneg, h⟩, fun h => h.elim (fun h => absurd (h ▸ hslip) (not_le.mpr hneg)) And.right⟩
    · rw [max_eq_left hpos, eq_comm]
      exact ⟨.inl, fun h => h.elim id fun h => absurd hpos (not_le.mpr h.1)⟩
  have hnotional := hfields.notional_iff
  constructor
  · intro hagrees
    obtain ⟨hsame, hsized⟩ := hnotional.mp hagrees.notional
    exact ⟨hsymbol.mpr hagrees.symbol, hside.mpr hagrees.side, hprice.mpr hagrees.limitPrice,
      hquantity.mpr hagrees.quantity, hslippage.mpr hagrees.slippage, hsame, hsized⟩
  · intro hcons
    exact ⟨hsymbol.mp hcons.symbol, hside.mp hcons.side, hprice.mp hcons.limitPrice, hquantity.mp hcons.quantity,
      hslippage.mp hcons.slippage, hnotional.mpr ⟨hcons.notional, hcons.sized⟩⟩

end

/-! ### Two objects -/

/-- Seven names that say the same order of two shares at 50. -/
def agreeingArgs : List (String × Json) :=
  [("symbol", .str "HOOD"), ("ticker", .str " hood"), ("side", .str "buy"), ("qty", .num (.posInt 2)),
    ("shares", .str "2.0"), ("price", .num (.posInt 50)), ("dollars", .str "$100")]

/-- The gate reads one share, and a venue that prefers `qty` reads a hundred. -/
def conflictingArgs : List (String × Json) :=
  [("symbol", .str "HOOD"), ("side", .str "buy"), ("quantity", .num (.posInt 1)), ("qty", .num (.posInt 100))]

theorem aliases_agree_iff_agreeingArgs : ∃ order,
    parseOrder .dec96 "place_order" (.obj agreeingArgs) 0 .epoch = .ok order ∧ order.qty = 2 ∧
      Agrees .dec96 agreeingArgs order := by
  have hread : (parseOrder .dec96 "place_order" (.obj agreeingArgs) 0 .epoch).value.map Order.qty = some 2 := by
    decide +kernel
  obtain ⟨order, horder, hqty⟩ := Option.map_eq_some_iff.mp hread
  have horder := Outcome.value_eq_some.mp horder
  refine ⟨order, horder, hqty, (aliases_agree_iff .dec96 _ _ _ _ order horder).mpr ?_⟩
  have hquantity : optionalDecimal .dec96 agreeingArgs quantityKeys = .ok (some 2) :=
    Outcome.value_eq_some.mp (by decide +kernel)
  have hnotional : optionalDecimal .dec96 agreeingArgs notionalKeys = .ok (some 100) :=
    Outcome.value_eq_some.mp (by decide +kernel)
  have hprice : optionalDecimal .dec96 agreeingArgs limitPriceKeys = .ok (some 50) :=
    Outcome.value_eq_some.mp (by decide +kernel)
  refine ⟨by decide +kernel, by decide +kernel, by decide +kernel, by decide +kernel, by decide +kernel,
    fun _ => by decide +kernel, fun q n p hq hn hp => ?_⟩
  obtain rfl := Outcome.ok.inj (hquantity.symm.trans hq)
  obtain rfl := Option.some.inj (Outcome.ok.inj (hnotional.symm.trans hn))
  obtain rfl := Option.some.inj (Outcome.ok.inj (hprice.symm.trans hp))
  norm_num [SizedExactly]

/-- An order is read from names that conflict. -/
theorem aliases_conflict : ¬ ∀ (toolName : String) (obj : List (String × Json)) (slip : ℚ) (now : DateTime)
    (order : Order), parseOrder .dec96 toolName (.obj obj) slip now = .ok order → Agrees .dec96 obj order := by
  intro hclaim
  have hread : (parseOrder .dec96 "place_order" (.obj conflictingArgs) 0 .epoch).value.map Order.qty = some 1 := by
    decide +kernel
  obtain ⟨order, horder, hqty⟩ := Option.map_eq_some_iff.mp hread
  have hagrees := hclaim "place_order" conflictingArgs 0 .epoch order (Outcome.value_eq_some.mp horder)
  have hhundred : valueToDecimal .dec96 (.num (.posInt 100)) = some 100 := by decide +kernel
  have hsays := hagrees.quantity (.num (.posInt 100)) (List.mem_cons_of_mem _ List.mem_cons_self)
  rw [hhundred, hqty] at hsays
  exact absurd hsays (by decide)

end OrderParse
end Sherwood
