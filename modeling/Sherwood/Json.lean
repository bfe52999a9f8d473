/-
# JSON values, as `serde_json` holds them

Tool calls reach the gate as `serde_json::Value`s: the text has been parsed,
an integer is a `u64` or an `i64`, every other number an `f64`, and an object
a map. Of a number the code uses its `Display` text only, so a float is that
text. The string operations of Rust that the readers use stand here too.

Key definitions: `Json`, `Json.get`, `Json.render`.
Key theorem: `Json.oneLine_render`.
-/
import Mathlib.Data.List.DropRight
import Mathlib.Data.String.Basic
import Sherwood.Lib.Lines

namespace Sherwood

/-! ### Rust's string operations -/

/-- `char::is_whitespace`: Unicode's `White_Space`. -/
def isWhitespace (c : Char) : Bool :=
  let n := c.toNat
  (9 ≤ n && n ≤ 13) || n == 0x20 || n == 0x85 || n == 0xA0 || n == 0x1680 ||
    (0x2000 ≤ n && n ≤ 0x200A) || n == 0x2028 || n == 0x2029 || n == 0x202F || n == 0x205F ||
    n == 0x3000

/-- `str::trim`. -/
def trim (s : List Char) : List Char := (s.dropWhile isWhitespace).rdropWhile isWhitespace

/-- `str::trim`, on a string. -/
def trimStr (s : String) : String := String.ofList (trim s.toList)

/-- `str::to_ascii_uppercase`. -/
def toAsciiUppercase (s : String) : String := String.ofList (s.toList.map Char.toUpper)

/-- `str::to_ascii_lowercase`. -/
def toAsciiLowercase (s : String) : String := String.ofList (s.toList.map Char.toLower)

/-! ### Values -/

/-- What the `Display` text of an `f64` consists of. -/
def isFloatChar (c : Char) : Bool := c.isDigit || c = '-' || c = '.' || c = 'e' || c = '+'

/-- `serde_json::Number`: a `u64`, a negative `i64`, or an `f64`, given by its
`Display` text. -/
inductive Number where
  | posInt (n : UInt64)
  | negInt (n : Int64)
  | float (text : String) (plain : text.toList.all isFloatChar)

/-- `Number`'s `Display`. -/
def Number.render : Number → String
  | .posInt n => toString n.toNat
  | .negInt n => toString n.toInt
  | .float text _ => text

/-- `serde_json::Value`. -/
inductive Json where
  | null
  | bool (b : Bool)
  | num (n : Number)
  | str (s : String)
  | arr (items : List Json)
  | obj (fields : List (String × Json))

namespace Json

/-- `Value::as_object`. -/
def asObject : Json → Option (List (String × Json))
  | .obj fields => some fields
  | _ => none

/-- `Value::as_str`. -/
def asStr : Json → Option String
  | .str s => some s
  | _ => none

/-- `Value::is_null`. -/
def isNull : Json → Bool
  | .null => true
  | _ => false

/-- `Map::get`. -/
def get (fields : List (String × Json)) (key : String) : Option Json :=
  (fields.find? fun f => f.1 = key).map Prod.snd

/-- The two hex digits of a control character. -/
def hex2 (n : ℕ) : List Char := [Nat.digitChar (n / 16), Nat.digitChar (n % 16)]

/-- One character of a JSON string. -/
def escape (c : Char) : List Char :=
  if c = '"' then ['\\', '"']
  else if c = '\\' then ['\\', '\\']
  else if c.toNat = 8 then ['\\', 'b']
  else if c.toNat = 9 then ['\\', 't']
  else if c.toNat = 10 then ['\\', 'n']
  else if c.toNat = 12 then ['\\', 'f']
  else if c.toNat = 13 then ['\\', 'r']
  else if c.toNat < 32 then ['\\', 'u', '0', '0'] ++ hex2 c.toNat
  else [c]

/-- A JSON string literal. -/
def quote (s : String) : String :=
  "\"" ++ String.ofList (s.toList.flatMap escape) ++ "\""

mutual

/-- `Value`'s `Display`: compact JSON. -/
def render : Json → String
  | .null => "null"
  | .bool b => if b then "true" else "false"
  | .num n => n.render
  | .str s => quote s
  | .arr items => "[" ++ ",".intercalate (renderItems items) ++ "]"
  | .obj fields => "\x7b" ++ ",".intercalate (renderFields fields) ++ "\x7d"

def renderItems : List Json → List String
  | [] => []
  | v :: vs => render v :: renderItems vs

def renderFields : List (String × Json) → List String
  | [] => []
  | (k, v) :: fs => (quote k ++ ":" ++ render v) :: renderFields fs

end

/-! ### Compact JSON is one line -/

theorem oneLine_number (n : Number) : OneLine n.render := by
  cases n with
  | posInt n => exact oneLine_toString_nat _
  | negInt n => exact oneLine_toString_int _
  | float text plain =>
    intro h
    have hc := List.all_eq_true.mp plain _ h
    simp [isFloatChar, Char.isDigit] at hc

theorem newline_notMem_escape (c : Char) : '\n' ∉ escape c := by
  have hhex : ∀ n < 32, '\n' ∉ hex2 n := by decide
  unfold escape
  split_ifs with _ _ _ _ hc _ _ hlt
  all_goals try decide
  · rw [List.mem_append]
    rintro (h | h)
    · exact absurd h (by decide)
    · exact hhex _ hlt h
  · rw [List.mem_singleton]
    rintro rfl
    exact hc rfl

theorem oneLine_quote (s : String) : OneLine (quote s) := by
  have h : '\n' ∉ s.toList.flatMap escape := by simp [newline_notMem_escape]
  rw [quote, oneLine_append, oneLine_append]
  exact ⟨⟨by decide, oneLine_ofList.mpr h⟩, by decide⟩

mutual

/-- **Compact.** The text of a value has no newline. -/
theorem oneLine_render : (v : Json) → OneLine v.render
  | .null => by simp only [render]; decide
  | .bool true => by simp only [render]; decide
  | .bool false => by simp only [render]; decide
  | .num n => by simp only [render]; exact oneLine_number n
  | .str s => by simp only [render]; exact oneLine_quote s
  | .arr items => by
    simp only [render, oneLine_append]
    exact ⟨⟨by decide, oneLine_intercalate (by decide) (oneLine_renderItems items)⟩, by decide⟩
  | .obj fields => by
    simp only [render, oneLine_append]
    exact ⟨⟨by decide, oneLine_intercalate (by decide) (oneLine_renderFields fields)⟩, by decide⟩

theorem oneLine_renderItems : (items : List Json) → ∀ p ∈ renderItems items, OneLine p
  | [], p, h => by simp [renderItems] at h
  | v :: vs, p, h => by
    simp only [renderItems, List.mem_cons] at h
    rcases h with rfl | h
    · exact oneLine_render v
    · exact oneLine_renderItems vs p h

theorem oneLine_renderFields : (fields : List (String × Json)) → ∀ p ∈ renderFields fields, OneLine p
  | [], p, h => by simp [renderFields] at h
  | (k, v) :: fs, p, h => by
    simp only [renderFields, List.mem_cons] at h
    rcases h with rfl | h
    · rw [oneLine_append, oneLine_append]
      exact ⟨⟨oneLine_quote k, by decide⟩, oneLine_render v⟩
    · exact oneLine_renderFields fs p h

end

end Json

end Sherwood
