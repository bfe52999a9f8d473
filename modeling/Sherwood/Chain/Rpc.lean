/-
# Requests to a node

The read helpers of `EvmClient`, as programs that ask a node: a call, a storage
slot, the height and the logs of a range. The node may reply anything to each
request, fail, or take the client down with it.

A range of logs that is too wide is asked again in halves; an error of another
kind, or of a range that was halved twelve times, is the caller's.

Key definitions: `Crates`, `Rpc`, `call`, `getStorageAt`, `blockNumber`, `getLogs`.
-/
import Mathlib.Data.List.Infix
import Sherwood.Chain.Decode
import Sherwood.Lib.Dialogue

namespace Sherwood.Chain

/-- `Display` of an error. -/
def ChainError.text : ChainError → String
  | .transport message => s!"rpc transport: {message}"
  | .rpc code message => s!"rpc error {code.toInt}: {message}"
  | .decode message => s!"rpc response: {message}"
  | .reverted reason _ => "call reverted" ++ (reason.map (": " ++ ·)).getD ""
  | .notFound message => message

/-- A log as it is sent. -/
structure RawLog where
  address : String
  topics : List String
  data : String
  blockNumber : String

/-- The code that the client uses and the repository does not hold. -/
structure Crates where
  hexDecode : HexDecode
  keccak256 : List UInt8 → Vector UInt8 32
  /-- `serde_json::from_value` of logs, its error as its text. -/
  rawLogs : Json → Except String (List RawLog)
  /-- `{:?}` of a string. -/
  debug : String → String
  /-- Overflow checks are compiled in. -/
  checks : Bool

structure Request where
  method : String
  params : Json

/-- A program that asks a node. -/
abbrev Rpc (α : Type) := Dialogue Request (Outcome ChainError Json) ChainError α

/-- A node, as its client sees it: what becomes of each request, after those before. -/
abbrev Node := List Request → Request → Outcome ChainError Json

/-- `EvmClient::request`. -/
def request (method : String) (params : Json) : Rpc Json := .ask ⟨method, params⟩ .done

/-- The digits of `u64::from_str_radix(.., 16)`. -/
def hexDigits : List Char → (acc : ℕ) → Except String UInt64
  | [], acc => .ok (.ofNat acc)
  | c :: cs, acc =>
    match Dex.hexDigit? c with
    | none => .error "invalid digit found in string"
    | some d =>
      if acc * 16 + d < 2 ^ 64 then hexDigits cs (acc * 16 + d)
      else .error "number too large to fit in target type"

/-- `u64::from_str_radix(.., 16)`, its error as its text. -/
def fromStrRadix : List Char → Except String UInt64
  | [] => .error "cannot parse integer from empty string"
  | ['+'] => .error "invalid digit found in string"
  | '+' :: cs => hexDigits cs 0
  | cs => hexDigits cs 0

variable (crates : Crates)

def parseQuantityStr (s : String) : Except ChainError UInt64 :=
  (fromStrRadix (strip0x s).toList).mapError fun e => .decode s!"bad hex quantity {crates.debug s}: {e}"

def parseQuantity (v : Json) : Outcome ChainError UInt64 := do
  let s ← .okOr v.asStr (.decode "expected a hex quantity string")
  .ofExcept (parseQuantityStr crates s)

/-- `eth_blockNumber`. -/
def blockNumber : Rpc UInt64 := do
  let ret ← request "eth_blockNumber" (.arr [])
  .done (parseQuantity crates ret)

/-- `from_hex(ret.as_str().unwrap_or("0x"))`. -/
def bytesOf (ret : Json) : Outcome ChainError (List UInt8) :=
  .ofExcept (fromHex crates.hexDecode (ret.asStr.getD "0x"))

/-- `eth_call` at `latest`; a map of `serde_json` keeps its keys sorted. -/
def callInner (caller : Option String) (callee data : String) : Rpc (List UInt8) := do
  let tx := [("data", Json.str data)] ++ (caller.map fun f => ("from", Json.str f)).toList ++ [("to", .str callee)]
  let ret ← request "eth_call" (.arr [.obj tx, .str "latest"])
  .done (bytesOf crates ret)

/-- The request of a call. -/
def callRequest (caller : Option String) (callee data : String) : Request :=
  ⟨"eth_call", .arr [.obj ([("data", Json.str data)] ++ (caller.map fun f => ("from", Json.str f)).toList ++
    [("to", .str callee)]), .str "latest"]⟩

theorem run_callInner (caller : Option String) (callee data : String) (node : Node)
    (asked : List Request) : (callInner crates caller callee data).run node asked =
      (node asked (callRequest caller callee data) >>= bytesOf crates, asked ++ [callRequest caller callee data]) := by
  show (Dialogue.done (node asked (callRequest caller callee data)) >>= _).run node (asked ++ [_]) = _
  cases node asked (callRequest caller callee data) <;> rfl

def call (callee data : String) : Rpc (List UInt8) := callInner crates none callee data

/-- A call as if a holder sent it. -/
def callFrom (caller callee data : String) : Rpc (List UInt8) := callInner crates (some caller) callee data

/-- `eth_getStorageAt` at `latest`, one slot. -/
def getStorageAt (address slot : String) : Rpc (List UInt8) := do
  let ret ← request "eth_getStorageAt" (.arr [.str address, .str slot, .str "latest"])
  let raw ← .done (bytesOf crates ret)
  if raw.length = 32 then return raw
  else if raw.length < 32 then return List.replicate (32 - raw.length) 0 ++ raw
  else .done (.err (.decode s!"storage slot returned {raw.length} bytes"))

/-! ### Logs -/

structure LogFilter where
  address : Option String
  topics : List (Option String)
  fromBlock : UInt64
  toBlock : UInt64

/-- `0x` and the digits. -/
def hexQuantity (n : UInt64) : String := "0x" ++ .ofList (Nat.toDigits 16 n.toNat)

def LogFilter.toParams (filter : LogFilter) : Json :=
  let address := (filter.address.map fun a => ("address", Json.str a)).toList
  let topics := if filter.topics = [] then [] else
    [("topics", Json.arr (filter.topics.map fun t => t.elim .null .str))]
  let blocks :=
    [("fromBlock", Json.str (hexQuantity filter.fromBlock)), ("toBlock", .str (hexQuantity filter.toBlock))]
  .obj (address ++ blocks ++ topics)

def RawLog.intoLog (log : RawLog) : Except ChainError RpcLog := do
  return ⟨log.address, log.topics, log.data, ← parseQuantityStr crates log.blockNumber⟩

/-- `message.to_lowercase().contains(word)`; letters other than ASCII's do not become
one of the words asked for. -/
def mentions (message word : String) : Bool :=
  word.toList <:+: (toAsciiLowercase message).toList

/-- Whether the error looks like one of a range that is too wide. -/
def isRangeTooWide : ChainError → Bool
  | .rpc _ message =>
    mentions message "time" || mentions message "limit" || mentions message "exceed" || mentions message "too many"
  | _ => false

def logsOf (ret : Json) : Except ChainError (List RpcLog) := do
  let raw ← (crates.rawLogs ret).mapError fun e => ChainError.decode s!"eth_getLogs result: {e}"
  raw.mapM (RawLog.intoLog crates)

/-- `get_logs_bisecting`, with so many halvings left. -/
def getLogsBisecting : (splits : ℕ) → LogFilter → Rpc (List RpcLog)
  | splits, filter => do
    match ← (request "eth_getLogs" (.arr [filter.toParams])).attempt with
    | .ok ret => .done (.ofExcept (logsOf crates ret))
    | .error e =>
      match splits with
      | 0 => .done (.err e)
      | splits + 1 =>
        if filter.toBlock > filter.fromBlock ∧ isRangeTooWide e then
          let mid := filter.fromBlock + (filter.toBlock - filter.fromBlock) / 2
          let left ← getLogsBisecting splits { filter with toBlock := mid }
          let right ← getLogsBisecting splits { filter with fromBlock := mid + 1 }
          return left ++ right
        else .done (.err e)

def maxSplitDepth : ℕ := 12

/-- `eth_getLogs`. -/
def getLogs (filter : LogFilter) : Rpc (List RpcLog) := getLogsBisecting crates maxSplitDepth filter

end Sherwood.Chain

namespace Sherwood

/-! ### The crates of a run -/

/-- A log as the derived reader takes it from an object. -/
def rawLogOf (v : Json) : Option Chain.RawLog := do
  let fields ← v.asObject
  let address ← (Json.get fields "address").bind Json.asStr
  let .arr topics ← Json.get fields "topics" | none
  let topics ← topics.mapM Json.asStr
  let data ← (Json.get fields "data").bind Json.asStr
  let blockNumber ← (Json.get fields "blockNumber").bind Json.asStr
  return ⟨address, topics, data, blockNumber⟩

def rawLogsOf : Json → Except String (List Chain.RawLog)
  | .arr items => (items.mapM rawLogOf).elim (.error "not logs") .ok
  | _ => .error "not logs"

/-- The hashes of the signatures the probe uses. -/
def knownHashes : List (String × ℕ) := [
  ("name()", 0x06fdde0383f15d582d1a74511486c9ddf862a882fb7904b3d9fe9b8b8e58a796),
  ("symbol()", 0x95d89b41e2f5f391a79ec54e9d87c79d6e777c63e32c28da95b4e9e4a79250ec),
  ("decimals()", 0x313ce567add4d438edf58b94ff345d7d38c45b17dfc0f947988d7819dca364f9),
  ("totalSupply()", 0x18160ddd7f15c72528c2f94fd8dfe3c8d5aa26e2c50c7d81f4bc7bee8d4b7932),
  ("paused()", 0x5c975abbf8c4d6efa68fc896e233763eb503f2318260b7bf59b19412913788b2),
  ("balanceOf(address)", 0x70a08231b98ef4ca268c9cc3f6b4590e4bfec28280db06bb5d45e689f2a360be),
  ("transfer(address,uint256)", 0xa9059cbb2ab09eb219583f4a59a5d0623ade346d962bcd4e46b11da047c9049b),
  ("Transfer(address,address,uint256)", 0xddf252ad1be2c89b69c2b068fc378daa952ba7f163c4a11628f55a4df523b3ef)]

/-- The crates as far as a run on known signatures sees them. -/
def knownCrates : Chain.Crates where
  hexDecode := Dex.hexDecode
  keccak256 bytes :=
    let hash := (knownHashes.find? fun h => utf8 h.1 = bytes).map Prod.snd
    ⟨⟨BigEndian.bytes 32 (hash.getD 0)⟩, by simp⟩
  rawLogs := rawLogsOf
  debug := Json.quote
  checks := false

end Sherwood
