/-
# Reading an order from tool arguments

`parse_order` of `crates/execution/src/order_parse.rs`: the JSON arguments of
an order tool as an `Order`, or an error. A field may come under several
names, of which the first that is present and not `null` is read; a number
may be a string with a `$`, commas and underscores. What it promises of an
order it returns is little: the quantity is positive and the slippage is not
negative (`parseOrder_ok`). The limit price is any number at all.

Key definitions: `OrderParseError`, `optionalDecimal`, `orderQty`,
`parseOrder`.
Key theorems: `parseOrder_ok`, `parseOrder_panic_iff`, `parseOrder_now`.
-/
import Sherwood.Core.Types
import Sherwood.Json

namespace Sherwood

/-- What is wrong with a field. -/
inductive FieldDetail where
  | notPositive (qty : ℚ)
  | notANumber (v : Json)

def FieldDetail.text : FieldDetail → String
  | .notPositive qty => s!"must be positive, got {Decimal.display qty}"
  | .notANumber v => s!"not a number: {v.render}"

/-- Why arguments are not an order. -/
inductive OrderParseError where
  | notAnObject
  | missingField (field : String)
  | badField (field : String) (detail : FieldDetail)
  | unknownSide (side : String)
  | cannotSize

def OrderParseError.text : OrderParseError → String
  | .notAnObject => "arguments are not a JSON object"
  | .missingField field => s!"missing required field `{field}`"
  | .badField field detail => s!"field `{field}` is invalid: {detail.text}"
  | .unknownSide side => s!"side `{side}` is not `buy` or `sell`"
  | .cannotSize => "cannot size the order: give `quantity`, or `notional` together with a price"

/-- A JSON number, or a string like `1.5`, `$50` or `1,000`. -/
def valueToDecimal (A : Arith) : Json → Option ℚ
  | .num n => Decimal.fromStr A n.render.toList
  | .str s =>
    let cleaned := ((trim s.toList).dropWhile (· = '$')).filter fun c => c ≠ ',' ∧ c ≠ '_'
    Decimal.fromStr A (trim cleaned)
  | _ => none

/-- The first of `keys` that is present and not `null`, as a decimal. -/
def optionalDecimal (A : Arith) (obj : List (String × Json)) :
    List String → Outcome OrderParseError (Option ℚ)
  | [] => .ok none
  | key :: keys =>
    match Json.get obj key with
    | some v =>
      if v.isNull then optionalDecimal A obj keys
      else do
        let d ← .okOr (valueToDecimal A v) (.badField key (.notANumber v))
        pure (some d)
    | none => optionalDecimal A obj keys

/-- `next_id`. -/
def nextId (now : DateTime) : OrderId := ⟨s!"hook-{now.nanosOrZero}"⟩

/-- The symbol, under either of its names. -/
def symbolOf (obj : List (String × Json)) : Option String :=
  (((Json.get obj "symbol").or (Json.get obj "ticker")).bind Json.asStr |>.map trimStr).filter (· ≠ "")

/-- The word for the side, under either of its names. -/
def sideWordOf (obj : List (String × Json)) : Option String :=
  ((Json.get obj "side").or (Json.get obj "action")).bind Json.asStr

/-- The side a word means. -/
def parseSide (word : String) : Outcome OrderParseError Side :=
  match word with
  | "buy" | "bought" | "long" => .ok .buy
  | "sell" | "sold" | "short" => .ok .sell
  | other => .err (.unknownSide other)

/-- The quantity: given, or the notional at the price. -/
def orderQty (A : Arith) (quantity notional limitPrice : Option ℚ) : Outcome OrderParseError ℚ :=
  match quantity, notional, limitPrice with
  | some q, _, _ => .ok q
  | none, some n, some p => if p > 0 then A.div n p else .err .cannotSize
  | none, some _, none => .err .cannotSize
  | none, none, _ => .err (.missingField "quantity")

def limitPriceKeys : List String := ["limit_price", "price", "limit"]

def quantityKeys : List String := ["quantity", "qty", "shares", "amount"]

def notionalKeys : List String := ["notional", "notional_value", "dollars"]

def slippageKeys : List String := ["max_slippage", "slippage"]

/-- `parse_order`: the order in `args`, read at `now`. -/
def parseOrder (A : Arith) (toolName : String) (args : Json) (defaultMaxSlippage : ℚ) (now : DateTime) :
    Outcome OrderParseError Order := do
  let obj ← .okOr args.asObject .notAnObject
  let symbol ← .okOr (symbolOf obj) (.missingField "symbol")
  let word ← .okOr (sideWordOf obj) (.missingField "side")
  let side ← parseSide (toAsciiLowercase (trimStr word))
  let limitPrice ← optionalDecimal A obj limitPriceKeys
  let quantity ← optionalDecimal A obj quantityKeys
  let notional ← optionalDecimal A obj notionalKeys
  let qty ← orderQty A quantity notional limitPrice
  .reject (qty ≤ 0) (.badField "quantity" (.notPositive qty))
  let slippage ← optionalDecimal A obj slippageKeys
  pure
    { id := nextId now
      asset := .ofSymbol (toAsciiUppercase symbol)
      side
      qty
      limitPrice
      maxSlippage := max (slippage.getD defaultMaxSlippage) 0
      venue := .robinhoodMcp
      reason := s!"agent tool call: {toolName}" }

/-! ### What the reader promises -/

section

variable {A : Arith} {toolName : String} {args : Json} {slip : ℚ} {now : DateTime} {order : Order}

@[simp] theorem optionalDecimal_ne_panic {obj : List (String × Json)} {keys : List String} :
    optionalDecimal A obj keys ≠ .panic := by
  induction keys with
  | nil => simp [optionalDecimal]
  | cons key keys ih =>
    unfold optionalDecimal
    split
    · split
      · exact ih
      · simp [Outcome.bind_eq_panic]
    · exact ih

@[simp] theorem parseSide_ne_panic {word : String} : parseSide word ≠ .panic := by
  unfold parseSide
  split <;> simp

/-- A notional is sized at a positive price, so the division panics on a
quantity that does not fit only. -/
theorem orderQty_eq_panic_iff {quantity notional limitPrice : Option ℚ} :
    orderQty A quantity notional limitPrice = .panic ↔
      ∃ n p, quantity = none ∧ notional = some n ∧ limitPrice = some p ∧ 0 < p ∧ A.fit (n / p) = none := by
  rcases quantity with _ | q
  · rcases notional with _ | n
    · simp [orderQty]
    · rcases limitPrice with _ | p
      · simp [orderQty]
      · by_cases hp : 0 < p
        · simp [orderQty, hp, Arith.div, hp.ne']
        · simp [orderQty, hp]
  · simp [orderQty]

/-- **What is read.** The fields of the arguments that an order comes from. -/
theorem parseOrder_ok (h : parseOrder A toolName args slip now = .ok order) :
    ∃ obj, args.asObject = some obj ∧ optionalDecimal A obj limitPriceKeys = .ok order.limitPrice ∧
      (∃ quantity notional, optionalDecimal A obj quantityKeys = .ok quantity ∧
        optionalDecimal A obj notionalKeys = .ok notional ∧
        orderQty A quantity notional order.limitPrice = .ok order.qty) ∧
      0 < order.qty ∧ 0 ≤ order.maxSlippage := by
  unfold parseOrder at h
  simp only [Outcome.bind_eq_ok, Outcome.okOr_eq_ok, Outcome.reject_eq_ok, exists_const, not_le,
    Outcome.pure_eq_ok, Outcome.ok.injEq] at h
  obtain ⟨obj, hobj, _, -, _, -, _, -, limit, hlimit, quantity, hquantity, notional, hnotional, qty, hqty,
    hpos, slippage, -, rfl⟩ := h
  exact ⟨obj, hobj, hlimit, ⟨quantity, notional, hquantity, hnotional, hqty⟩, hpos, le_max_right _ _⟩

/-- **Two readings agree.** Reading the same arguments later gives the same
order, or the same error, but for the order's id. -/
theorem parseOrder_now (now' : DateTime) : parseOrder A toolName args slip now' =
    parseOrder A toolName args slip now >>= fun order => .ok { order with id := nextId now' } := by
  unfold parseOrder
  simp only [Outcome.bind_assoc, Outcome.pure_eq_ok, Outcome.ok_bind]

theorem parseOrder_again (now' : DateTime) (h : parseOrder A toolName args slip now = .ok order) :
    parseOrder A toolName args slip now' = .ok { order with id := nextId now' } := by
  have hre : parseOrder A toolName args slip now' =
      parseOrder A toolName args slip now >>= fun order => .ok { order with id := nextId now' } :=
    parseOrder_now now'
  rw [hre, h, Outcome.ok_bind]

/-- Arguments that size an order by a notional, to a quantity that does not
fit. -/
inductive SizeOverflows (A : Arith) (args : Json) : Prop
  | intro {obj : List (String × Json)} {symbol word : String} {side : Side} {n p : ℚ} :
      args.asObject = some obj → symbolOf obj = some symbol → sideWordOf obj = some word →
      parseSide (toAsciiLowercase (trimStr word)) = .ok side →
      optionalDecimal A obj limitPriceKeys = .ok (some p) → optionalDecimal A obj quantityKeys = .ok none →
      optionalDecimal A obj notionalKeys = .ok (some n) → 0 < p → A.fit (n / p) = none →
      SizeOverflows A args

/-- **Panics.** The reader panics when the quantity it computes does not fit. -/
theorem parseOrder_panic_iff : parseOrder A toolName args slip now = .panic ↔ SizeOverflows A args := by
  unfold parseOrder
  simp only [Outcome.bind_eq_panic, Outcome.okOr_ne_panic, Outcome.okOr_eq_ok, parseSide_ne_panic,
    optionalDecimal_ne_panic, Outcome.reject_ne_panic, Outcome.pure_eq_ok, reduceCtorEq, and_false, exists_false,
    false_or, or_false, orderQty_eq_panic_iff]
  constructor
  · rintro ⟨obj, hobj, symbol, hsym, word, hword, side, hside, _, hlimit, _, hqty, _, hnot, n, p, rfl, rfl, rfl,
      hp, hfit⟩
    exact ⟨hobj, hsym, hword, hside, hlimit, hqty, hnot, hp, hfit⟩
  · rintro ⟨hobj, hsym, hword, hside, hlimit, hqty, hnot, hp, hfit⟩
    exact ⟨_, hobj, _, hsym, _, hword, _, hside, _, hlimit, _, hqty, _, hnot, _, _, rfl, rfl, rfl, hp, hfit⟩

end

end Sherwood
