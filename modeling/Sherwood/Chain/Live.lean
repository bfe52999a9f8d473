/-
# Requests and the clock

Some programs look at the clock and sleep between their requests. What the world says to
each of these is a reply and the time it came. A program that only asks a node is one
that does so in the world as it is then (`run_live`). The clock does not go back, and a
sleep is at least as long as it was to be (`World.Clocked`).

Key definitions: `Effect`, `Live`, `World`, `World.node`, `World.Clocked`.
Key theorems: `run_live`, `World.Clocked.le_append`.
-/
import Sherwood.Chain.Http

namespace Sherwood.Chain

/-- What a program does: ask a node, look at the clock, or sleep. -/
inductive Effect where
  | request (q : Request)
  | now
  | sleep (duration : ℕ)
  | sleepUntil (time : ℕ)

/-- A program in time; the reply to anything but a request is not looked at. -/
abbrev Live (ε α : Type) := Dialogue Effect (Outcome ChainError Json × ℕ) ε α

/-- What becomes of each effect after those before, and when. -/
abbrev World := List Effect → Effect → Outcome ChainError Json × ℕ

variable {ε α : Type}

/-- The requests of a program. -/
def live (x : Dialogue Request (Outcome ChainError Json) ε α) : Live ε α :=
  x.through (fun _ q => .ask (.request q) fun r => .done (.ok r.1)) 0

namespace Live

/-- `Instant::now`. -/
def now : Live ε ℕ := .ask .now fun r => .done (.ok r.2)

/-- `tokio::time::sleep`. -/
def sleep (duration : ℕ) : Live ε Unit := .ask (.sleep duration) fun _ => .done (.ok ())

/-- `tokio::time::sleep_until`. -/
def sleepUntil (time : ℕ) : Live ε Unit := .ask (.sleepUntil time) fun _ => .done (.ok ())

end Live

namespace World

variable (world : World)

/-- The node as it is after some effects. -/
def node (done : List Effect) : Node := fun asked q => (world (done ++ asked.map .request) (.request q)).1

/-- When the last reply came. -/
def time (done : List Effect) : ℕ := done.getLast?.elim 0 fun e => (world done.dropLast e).2

/-- The clock does not go back, and who sleeps does not wake up early. -/
structure Clocked : Prop where
  later : ∀ done e, world.time done ≤ (world done e).2
  sleeps : ∀ done duration, world.time done + duration ≤ (world done (.sleep duration)).2
  wakes : ∀ done time, time ≤ (world done (.sleepUntil time)).2

variable {world}

@[simp] theorem time_snoc (done : List Effect) (e : Effect) : world.time (done ++ [e]) = (world done e).2 := by
  simp [time]

theorem Clocked.le_append (h : world.Clocked) (done more : List Effect) : world.time done ≤ world.time (done ++ more) := by
  induction more using List.reverseRecOn with
  | nil => rw [List.append_nil]
  | append_singleton more e ih =>
    rw [← List.append_assoc, time_snoc]
    exact ih.trans (h.later _ e)

/-- A clock on which everything takes one, but for sleeping. -/
def tick (t : ℕ) : Effect → ℕ
  | .sleep duration => t + duration
  | .sleepUntil time => max t time
  | _ => t + 1

/-- A world with that clock. -/
def ticking (reply : List Effect → Effect → Outcome ChainError Json) : World := fun done e =>
  (reply done e, (done ++ [e]).foldl tick 0)

theorem clocked_ticking (reply : List Effect → Effect → Outcome ChainError Json) : (ticking reply).Clocked := by
  have htime (done : List Effect) : (ticking reply).time done = done.foldl tick 0 := by
    induction done using List.reverseRecOn with
    | nil => rfl
    | append_singleton done e _ => exact time_snoc done e
  have hstep (done : List Effect) (e : Effect) : (ticking reply done e).2 = tick ((ticking reply).time done) e := by
    rw [htime]
    exact List.foldl_append
  refine ⟨fun done e => ?_, fun done d => ?_, fun done t => ?_⟩
  · rw [hstep]
    cases e with
    | request q => exact Nat.le_succ _
    | now => exact Nat.le_succ _
    | sleep d => exact Nat.le_add_right _ _
    | sleepUntil t => exact le_max_left _ _
  · rw [hstep]
    exact le_rfl
  · rw [hstep]
    exact le_max_right _ _

end World

variable {world : World} {done : List Effect}

/-- The requests of a program, some being asked. -/
theorem run_through_request (x : Dialogue Request (Outcome ChainError Json) ε α) :
    ∀ (n : ℕ) (asked : List Request),
      (x.through (fun _ q => .ask (.request q) fun r => .done (.ok r.1)) n : Live ε α).run world
          (done ++ asked.map .request) =
        ((x.run (world.node done) asked).1, done ++ (x.run (world.node done) asked).2.map .request) := by
  induction x with
  | done x => exact fun _ _ => rfl
  | ask q k ih =>
    intro n asked
    have hstep := ih (world.node done asked q) (n + 1) (asked ++ [q])
    rw [List.map_append, ← List.append_assoc] at hstep
    exact hstep

/-- **A program that only asks** runs against the node as it is. -/
theorem run_live (x : Dialogue Request (Outcome ChainError Json) ε α) : (live x).run world done =
    ((x.run (world.node done) []).1, done ++ (x.run (world.node done) []).2.map .request) := by
  have h := @run_through_request _ _ world done x 0 []
  rwa [List.map_nil, List.append_nil] at h

theorem run_now : (Live.now : Live ε ℕ).run world done = (.ok (world done .now).2, done ++ [.now]) := rfl

theorem run_sleep (d : ℕ) : (Live.sleep d : Live ε Unit).run world done = (.ok (), done ++ [.sleep d]) := rfl

end Sherwood.Chain
