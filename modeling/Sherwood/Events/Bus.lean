/-
# The event bus

`Event` and the bus of `crates/events/src/lib.rs`. Of an envelope the
subscribers that write anything use the event only. The bus is a broadcast
channel (`Sherwood/Lib/Broadcast.lean`); `run_subscriber` receives from it
until it is closed, and goes on after it has missed something.

Key definitions: `Event`, `Bus`.
-/
import Sherwood.Core.Types
import Sherwood.Lib.Broadcast

namespace Sherwood

/-- Something that happened, worth telling other components about. -/
inductive Event where
  | decided (tick : UInt32) (price : ℚ) (decision : String)
  | orderFilled (fill : Fill)
  | riskRejected (orderId : OrderId) (symbol reason : String)
  | runEnded (label : String) (interrupted : Bool) (cash realizedPnl : ℚ)
  deriving DecidableEq

/-- The fill an event tells of. -/
def Event.fill? : Event → Option Fill
  | .orderFilled fill => some fill
  | _ => none

/-- The bus, as one subscriber sees it. -/
abbrev Bus := Broadcast Event

/-- The capacity the run loop asks for; the channel may keep more. -/
def busCapacity : ℕ := 1000

end Sherwood
