/-
# A cursor over the end of a log

A reader of a growing log keeps the number of the entry that it has read last,
and each time looks at the last `n` entries only: it gets those of them after its
cursor (`unread`). What it has read in all is a stretch of the log (`Stretch`),
and after another look it is one that ends at the newest entry exactly if no more
than `n` entries have come since (`Stretch.complete_iff`): what was not among the
last `n` then is never read.

Key definitions: `Cursor.window`, `Cursor.unread`, `Cursor.Stretch`.
Key theorems: `Cursor.Stretch.append`, `Cursor.Stretch.complete_iff`, `Cursor.Stretch.look`.
-/
import Mathlib.Data.List.Basic
import Mathlib.Tactic.Common

namespace Cursor

variable {α : Type}

/-- The last `n` entries. -/
def window (n : ℕ) (log : List α) : List α := log.drop (log.length - n)

/-- Of the last `n` entries, those after the first `k` of the log. -/
def unread (n k : ℕ) (log : List α) : List α := log.drop (max k (log.length - n))

/-- What was read are the entries from number `i` up to `k`. -/
structure Stretch (log : List α) (i k : ℕ) (read : List α) : Prop where
  start : i ≤ k
  stop : k ≤ log.length
  read_eq : read = (log.take k).drop i

theorem Stretch.nil (log : List α) {i : ℕ} (h : i ≤ log.length) : Stretch log i i [] :=
  ⟨Nat.le_refl _, h, by simp⟩

theorem Stretch.append {log read : List α} {i k : ℕ} (h : Stretch log i k read) (more : List α) :
    Stretch (log ++ more) i k read := by
  refine ⟨h.start, ?_, ?_⟩
  · have := h.stop
    rw [List.length_append]
    omega
  · rw [List.take_append_of_le_length h.stop]
    exact h.read_eq

/-- With another look, as many entries are read as there are from number `i` on exactly
if no more than `n` were left. -/
theorem Stretch.length_eq_iff {log read : List α} {i k n : ℕ} (h : Stretch log i k read) :
    (read ++ unread n k log).length = (log.drop i).length ↔ log.length ≤ k + n := by
  obtain ⟨hstart, hstop, rfl⟩ := h
  simp only [unread, List.length_append, List.length_drop, List.length_take]
  omega

/-- **No gap.** They are the entries from number `i` on then. -/
theorem Stretch.complete_iff {log read : List α} {i k n : ℕ} (h : Stretch log i k read) :
    read ++ unread n k log = log.drop i ↔ log.length ≤ k + n := by
  refine ⟨fun heq => h.length_eq_iff.mp (congrArg List.length heq), fun hle => ?_⟩
  obtain ⟨hstart, hstop, rfl⟩ := h
  have hsplit : (log.take k).drop i ++ log.drop k = log.drop i := by
    conv_rhs => rw [← List.take_append_drop k log]
    rw [List.drop_append_of_le_length]
    rw [List.length_take, Nat.min_eq_left hstop]
    exact hstart
  rw [unread, Nat.max_eq_left (by omega), hsplit]

theorem Stretch.look {log read : List α} {i k n : ℕ} (h : Stretch log i k read) (hle : log.length ≤ k + n) :
    Stretch log i log.length (read ++ unread n k log) := by
  refine ⟨Nat.le_trans h.start h.stop, Nat.le_refl _, ?_⟩
  rw [h.complete_iff.mpr hle, List.take_length]

end Cursor
