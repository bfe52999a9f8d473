/-
# Interrupted writes

A file is written by operations on its contents: opened and truncated, given bytes, synced. Each may be interrupted,
and then leaves what it has done so far: a truncated file may be empty, a write may have put down any part of
its bytes from the start. `Interrupted` is what may be found in the file afterwards.

A file that is written in place is found as it was, or with a part of the new bytes
(`interrupted_writeInPlace_iff`).

Key definitions: `FileOp`, `FileOp.Leaves`, `Interrupted`, `writeInPlace`.
Key theorem: `interrupted_writeInPlace_iff`.
-/
import Mathlib.Tactic.Common

/-- The bytes of a file, if there is one. -/
abbrev Contents := Option (List UInt8)

inductive FileOp where
  | openTruncate
  | writeAll (bytes : List UInt8)
  | syncAll

/-- What the operation makes of the contents. -/
def FileOp.run (before : Contents) : FileOp → Contents
  | .openTruncate => some []
  | .writeAll bytes => some (before.getD [] ++ bytes)
  | .syncAll => before

/-- What it may leave where it is interrupted. -/
def FileOp.Leaves (before after : Contents) : FileOp → Prop
  | .openTruncate => after = before ∨ after = some []
  | .writeAll bytes => ∃ n ≤ bytes.length, after = some (before.getD [] ++ bytes.take n)
  | .syncAll => after = before

/-- What may be found where the operations are interrupted, before the first or after the last of them or in between. -/
def Interrupted (after : Contents) : List FileOp → Contents → Prop
  | [], before => after = before
  | op :: ops, before => op.Leaves before after ∨ Interrupted after ops (op.run before)

/-- Write a file in place. -/
def writeInPlace (bytes : List UInt8) : List FileOp := [.openTruncate, .writeAll bytes, .syncAll]

/-- A file that is written in place is found as it was, or with what was written so far. -/
theorem interrupted_writeInPlace_iff {bytes : List UInt8} {before after : Contents} :
    Interrupted after (writeInPlace bytes) before ↔
      after = before ∨ ∃ n ≤ bytes.length, after = some (bytes.take n) := by
  simp only [writeInPlace, Interrupted, FileOp.Leaves, FileOp.run, Option.getD_some, List.nil_append]
  constructor
  · rintro ((hbefore | rfl) | hpart | rfl | rfl)
    · exact .inl hbefore
    · exact .inr ⟨0, Nat.zero_le _, rfl⟩
    · exact .inr hpart
    · exact .inr ⟨bytes.length, Nat.le_refl _, by rw [List.take_length]⟩
    · exact .inr ⟨bytes.length, Nat.le_refl _, by rw [List.take_length]⟩
  · rintro (hbefore | hpart)
    · exact .inl (.inl hbefore)
    · exact .inr (.inl hpart)
