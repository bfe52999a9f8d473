/-
# RFC 3339 times

`DateTime::to_rfc3339` of `chrono`, the text under which the store keeps a
time: the date in the Gregorian calendar, the time of the day, and as many of
its decimals as it needs, in groups of three.

Key definitions: `CivilDate.ofDay`, `DateTime.toRfc3339`.
Key theorem: `DateTime.oneLine_toRfc3339`.
-/
import Sherwood.Core.Types
import Sherwood.Lib.Lines

namespace Sherwood

/-- A date in the Gregorian calendar. -/
structure CivilDate where
  year : ℤ
  month : ℤ
  day : ℤ
  deriving DecidableEq

/-- The date of a day, counted from the epoch. Years start in March here, so
that a leap day ends its year, and go round in eras of four hundred. -/
def CivilDate.ofDay (n : ℤ) : CivilDate :=
  let z := n + 719468
  let era := z / 146097
  let dayOfEra := z % 146097
  let yearOfEra := (dayOfEra - dayOfEra / 1460 + dayOfEra / 36524 - dayOfEra / 146096) / 365
  let dayOfYear := dayOfEra - (365 * yearOfEra + yearOfEra / 4 - yearOfEra / 100)
  let march := (5 * dayOfYear + 2) / 153
  let month := if march < 10 then march + 3 else march - 9
  ⟨yearOfEra + era * 400 + (if month ≤ 2 then 1 else 0), month, dayOfYear - (153 * march + 2) / 5 + 1⟩

/-- A number in at least `width` digits. -/
def zeroPadded (width : ℕ) (n : ℤ) : String := .ofList ((toString n.natAbs).toList.leftpad width '0')

/-- The year: four digits, or signed outside of them. -/
def yearText (year : ℤ) : String :=
  (if 0 ≤ year ∧ year ≤ 9999 then "" else if year < 0 then "-" else "+") ++ zeroPadded 4 year

/-- The decimals of a second. -/
def fractionText (nanos : ℤ) : String :=
  if nanos = 0 then ""
  else if nanos % 1000000 = 0 then "." ++ zeroPadded 3 (nanos / 1000000)
  else if nanos % 1000 = 0 then "." ++ zeroPadded 6 (nanos / 1000)
  else "." ++ zeroPadded 9 nanos

namespace DateTime

/-- `DateTime::to_rfc3339`. -/
def toRfc3339 (t : DateTime) : String :=
  let secs := t.nanos / 10 ^ 9
  let date := CivilDate.ofDay (secs / 86400)
  let time := secs % 86400
  yearText date.year ++ "-" ++ zeroPadded 2 date.month ++ "-" ++ zeroPadded 2 date.day ++ "T" ++
    zeroPadded 2 (time / 3600) ++ ":" ++ zeroPadded 2 (time / 60 % 60) ++ ":" ++ zeroPadded 2 (time % 60) ++
    fractionText (t.nanos % 10 ^ 9) ++ "+00:00"

theorem oneLine_zeroPadded (width : ℕ) (n : ℤ) : OneLine (zeroPadded width n) := by
  have h : '\n' ∉ (toString n.natAbs).toList := oneLine_toString_nat n.natAbs
  rw [zeroPadded, oneLine_ofList, List.leftpad, List.mem_append]
  rintro (hpad | hdigit)
  · exact absurd (List.eq_of_mem_replicate hpad) (by decide)
  · exact h hdigit

theorem oneLine_yearText (year : ℤ) : OneLine (yearText year) := by
  rw [yearText, oneLine_append]
  refine ⟨?_, oneLine_zeroPadded _ _⟩
  split_ifs <;> decide

theorem oneLine_fractionText (nanos : ℤ) : OneLine (fractionText nanos) := by
  unfold fractionText
  split_ifs
  · decide
  all_goals
    rw [oneLine_append]
    exact ⟨by decide, oneLine_zeroPadded _ _⟩

theorem oneLine_toRfc3339 (t : DateTime) : OneLine t.toRfc3339 := by
  have hpunct : OneLine "-" ∧ OneLine "T" ∧ OneLine ":" ∧ OneLine "+00:00" := by decide
  simp [toRfc3339, oneLine_zeroPadded, oneLine_yearText, oneLine_fractionText, hpunct]

example : (ofSecs 1709210096 (by decide)).toRfc3339 = "2024-02-29T12:34:56+00:00" := by decide +kernel

end DateTime

end Sherwood
