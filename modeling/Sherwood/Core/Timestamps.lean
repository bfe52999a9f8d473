/-
# Times read from their text

A time that is written as RFC 3339 is read back from its text, as long as its year has four
digits: a text has no place for another year.

Key definitions: `CivilDate.toDay`, `DateTime.year`, `DateTime.parseFromRfc3339`.
Key theorems: `CivilDate.toDay_ofDay`, `DateTime.parseFromRfc3339_toRfc3339`.
-/
import Sherwood.Core.Rfc3339
import Sherwood.Lib.Digits

namespace Sherwood

namespace CivilDate

/-- The day of a date, counted from the epoch, in years that start in March. -/
def toDay (date : CivilDate) : ℤ :=
  let year := if date.month ≤ 2 then date.year - 1 else date.year
  let march := if date.month ≤ 2 then date.month + 9 else date.month - 3
  let yearOfEra := year % 400
  let dayOfYear := (153 * march + 2) / 5 + date.day - 1
  year / 400 * 146097 + (365 * yearOfEra + yearOfEra / 4 - yearOfEra / 100 + dayOfYear) - 719468

/-- The year of a day in its era, and how many days after the start of the year. -/
theorem yearOfEra_bounds {dayOfEra yearOfEra : ℤ} (h : 0 ≤ dayOfEra) (hlt : dayOfEra < 146097)
    (hyear : yearOfEra = (dayOfEra - dayOfEra / 1460 + dayOfEra / 36524 - dayOfEra / 146096) / 365) :
    (0 ≤ yearOfEra ∧ yearOfEra ≤ 399) ∧ 0 ≤ dayOfEra - (365 * yearOfEra + yearOfEra / 4 - yearOfEra / 100) ∧
      dayOfEra - (365 * yearOfEra + yearOfEra / 4 - yearOfEra / 100) ≤ 365 := by
  refine ⟨by omega, ?_⟩
  by_cases hlast : dayOfEra = 146096
  · omega
  · have hera : dayOfEra / 146096 = 0 := by omega
    have hcentury : yearOfEra / 100 = dayOfEra / 36524 := by omega
    omega

/-- A day from its parts: the era, the year in it, and the month and day of a year that starts
in March. -/
theorem ofDay_eq (n : ℤ) : ∃ era yearOfEra march day : ℤ, (0 ≤ yearOfEra ∧ yearOfEra ≤ 399) ∧
    (0 ≤ march ∧ march ≤ 11) ∧ (1 ≤ day ∧ day ≤ 31) ∧
    n + 719468 =
      era * 146097 + (365 * yearOfEra + yearOfEra / 4 - yearOfEra / 100 + ((153 * march + 2) / 5 + day - 1)) ∧
    ofDay n = ⟨yearOfEra + era * 400 + (if march < 10 then 0 else 1),
      if march < 10 then march + 3 else march - 9, day⟩ := by
  obtain ⟨era, hera⟩ : ∃ era, era = (n + 719468) / 146097 := ⟨_, rfl⟩
  obtain ⟨dayOfEra, hdoe⟩ : ∃ dayOfEra, dayOfEra = (n + 719468) % 146097 := ⟨_, rfl⟩
  obtain ⟨yearOfEra, hyoe⟩ : ∃ yearOfEra,
    yearOfEra = (dayOfEra - dayOfEra / 1460 + dayOfEra / 36524 - dayOfEra / 146096) / 365 := ⟨_, rfl⟩
  obtain ⟨hyear, hdoy⟩ := yearOfEra_bounds (by omega) (by omega) hyoe
  obtain ⟨dayOfYear, hday⟩ : ∃ dayOfYear, dayOfYear = dayOfEra - (365 * yearOfEra + yearOfEra / 4 - yearOfEra / 100) :=
    ⟨_, rfl⟩
  obtain ⟨march, hmarch⟩ : ∃ march, march = (5 * dayOfYear + 2) / 153 := ⟨_, rfl⟩
  refine ⟨era, yearOfEra, march, dayOfYear - (153 * march + 2) / 5 + 1, hyear, by omega, by omega, by omega, ?_⟩
  simp only [ofDay, ← hera, ← hdoe, ← hyoe, ← hday, ← hmarch]
  by_cases hlate : march < 10
  · have hmonth : ¬ march + 3 ≤ 2 := by omega
    simp only [if_pos hlate, if_neg hmonth]
  · have hmonth : march - 9 ≤ 2 := by omega
    simp only [if_neg hlate, if_pos hmonth]

/-- **The calendar.** A day is found again from its date. -/
theorem toDay_ofDay (n : ℤ) : (ofDay n).toDay = n := by
  obtain ⟨era, yearOfEra, march, day, hyear, hmarch, -, hn, hdate⟩ := ofDay_eq n
  rw [hdate]
  by_cases hlate : march < 10
  · have hmonth : ¬ march + 3 ≤ 2 := by omega
    simp only [toDay, if_pos hlate, if_neg hmonth]
    omega
  · have hmonth : march - 9 ≤ 2 := by omega
    simp only [toDay, if_neg hlate, if_pos hmonth]
    omega

theorem ofDay_bounds (n : ℤ) :
    (1 ≤ (ofDay n).month ∧ (ofDay n).month ≤ 12) ∧ 1 ≤ (ofDay n).day ∧ (ofDay n).day ≤ 31 := by
  obtain ⟨era, yearOfEra, march, day, -, hmarch, hday, -, hdate⟩ := ofDay_eq n
  rw [hdate]
  refine ⟨?_, hday⟩
  dsimp only
  split_ifs
  · omega
  · omega

end CivilDate

namespace DateTime

/-- The year of a time. -/
def year (t : DateTime) : ℤ := (CivilDate.ofDay (t.nanos / 10 ^ 9 / 86400)).year

/-- One of these characters. -/
def scanChar (allowed : List Char) : List Char → Option (List Char)
  | [] => none
  | c :: cs => if c ∈ allowed then some cs else none

/-- A date, `yyyy-mm-dd`. -/
def scanDate (cs : List Char) : Option (CivilDate × List Char) := do
  let (year, cs) ← Digits.scan 4 cs
  let cs ← scanChar ['-'] cs
  let (month, cs) ← Digits.scan 2 cs
  let cs ← scanChar ['-'] cs
  let (day, cs) ← Digits.scan 2 cs
  some (⟨year, month, day⟩, cs)

/-- The time of the day in seconds, from `hh:mm:ss`. -/
def scanTime (cs : List Char) : Option (ℤ × List Char) := do
  let (hours, cs) ← Digits.scan 2 cs
  let cs ← scanChar [':'] cs
  let (minutes, cs) ← Digits.scan 2 cs
  let cs ← scanChar [':'] cs
  let (secs, cs) ← Digits.scan 2 cs
  if hours < 24 ∧ minutes < 60 ∧ secs < 60 then some (hours * 3600 + minutes * 60 + secs, cs) else none

/-- The nanoseconds in a fraction, if there is one, of which nine digits count. -/
def scanFraction : List Char → Option (ℤ × List Char)
  | '.' :: cs =>
    let (digits, rest) := Digits.digitsThen cs
    let kept := digits.take 9
    if digits = [] then none else some (Nat.ofDigitChars 10 kept 0 * 10 ^ (9 - kept.length), rest)
  | cs => some (0, cs)

/-- The offset in seconds, at the end of a text. -/
def scanOffset : List Char → Option ℤ
  | ['Z'] => some 0
  | sign :: cs => do
    let (hours, cs) ← Digits.scan 2 cs
    let cs ← scanChar [':'] cs
    let (minutes, cs) ← Digits.scan 2 cs
    if cs = [] ∧ hours < 24 ∧ minutes < 60 then
      if sign = '+' then some (hours * 3600 + minutes * 60)
      else if sign = '-' then some (-(hours * 3600 + minutes * 60))
      else none
    else none
  | [] => none

/-- `DateTime::parse_from_rfc3339`, in UTC. A second 60 is not read: these times have no leap
seconds. -/
def parseFromRfc3339 (s : String) : Option DateTime := do
  let (date, cs) ← scanDate s.toList
  let cs ← scanChar ['T', 't', ' '] cs
  let (secs, cs) ← scanTime cs
  let (nanos, cs) ← scanFraction cs
  let offset ← scanOffset cs
  let total := (date.toDay * 86400 + secs - offset) * 10 ^ 9 + nanos
  -- a date that the calendar has
  if h : CivilDate.ofDay date.toDay = date ∧ |total| ≤ 10 ^ 22 then some ⟨total, h.2⟩ else none

theorem zeroPadded_toList (w : ℕ) (n : ℤ) : (zeroPadded w n).toList = Digits.padded w n.natAbs := by
  rw [zeroPadded, String.toList_ofList, Nat.toString_eq_repr, Nat.toList_repr]
  rfl

theorem scan_zeroPadded {w : ℕ} (hw : 0 < w) {n : ℤ} (h : 0 ≤ n) (hlt : n < 10 ^ w) (rest : List Char) :
    ∃ k : ℕ, (k : ℤ) = n ∧ Digits.scan w ((zeroPadded w n).toList ++ rest) = some (k, rest) := by
  refine ⟨n.natAbs, Int.natAbs_of_nonneg h, ?_⟩
  rw [zeroPadded_toList]
  refine Digits.scan_padded hw ?_ rest
  zify
  rwa [abs_of_nonneg h]

theorem scanDate_text {date : CivilDate} (hyear : 0 ≤ date.year ∧ date.year ≤ 9999)
    (hmonth : 1 ≤ date.month ∧ date.month ≤ 12) (hday : 1 ≤ date.day ∧ date.day ≤ 31) (rest : List Char) :
    scanDate ((yearText date.year).toList ++ '-' :: ((zeroPadded 2 date.month).toList ++
      '-' :: ((zeroPadded 2 date.day).toList ++ rest))) = some (date, rest) := by
  have htext : yearText date.year = zeroPadded 4 date.year := by
    rw [yearText, if_pos hyear, String.empty_append]
  obtain ⟨year, hy, hscan⟩ := scan_zeroPadded (w := 4) (by decide) hyear.1 (by omega)
    ('-' :: ((zeroPadded 2 date.month).toList ++ '-' :: ((zeroPadded 2 date.day).toList ++ rest)))
  obtain ⟨month, hm, hscan'⟩ := scan_zeroPadded (w := 2) (n := date.month) (by decide) (by omega) (by omega)
    ('-' :: ((zeroPadded 2 date.day).toList ++ rest))
  obtain ⟨day, hd, hscan''⟩ := scan_zeroPadded (w := 2) (n := date.day) (by decide) (by omega) (by omega) rest
  rw [htext, scanDate, hscan]
  simp only [Option.bind_eq_bind, Option.bind_some, scanChar, List.mem_singleton, if_true, hscan', hscan'', hy, hm, hd]

theorem scanTime_text {time : ℤ} (h : 0 ≤ time) (hlt : time < 86400) (rest : List Char) :
    scanTime ((zeroPadded 2 (time / 3600)).toList ++ ':' :: ((zeroPadded 2 (time / 60 % 60)).toList ++
      ':' :: ((zeroPadded 2 (time % 60)).toList ++ rest))) = some (time, rest) := by
  obtain ⟨hours, hh, hscan⟩ := scan_zeroPadded (w := 2) (n := time / 3600) (by decide) (by omega) (by omega)
    (':' :: ((zeroPadded 2 (time / 60 % 60)).toList ++ ':' :: ((zeroPadded 2 (time % 60)).toList ++ rest)))
  obtain ⟨minutes, hm, hscan'⟩ := scan_zeroPadded (w := 2) (n := time / 60 % 60) (by decide) (by omega) (by omega)
    (':' :: ((zeroPadded 2 (time % 60)).toList ++ rest))
  obtain ⟨secs, hs, hscan''⟩ := scan_zeroPadded (w := 2) (n := time % 60) (by decide) (by omega) (by omega) rest
  have hvalid : hours < 24 ∧ minutes < 60 ∧ secs < 60 := by omega
  have hvalue : (hours : ℤ) * 3600 + minutes * 60 + secs = time := by omega
  rw [scanTime, hscan]
  simp only [Option.bind_eq_bind, Option.bind_some, scanChar, List.mem_singleton, if_true, hscan', hscan'',
    if_pos hvalid, hvalue]

theorem scanFraction_padded {w : ℕ} (hw : 0 < w) (hle : w ≤ 9) {n : ℤ} (h : 0 ≤ n) (hlt : n < 10 ^ w) {c : Char}
    (hc : c.isDigit = false) (rest : List Char) :
    scanFraction ('.' :: ((zeroPadded w n).toList ++ c :: rest)) = some (n * 10 ^ (9 - w), c :: rest) := by
  have hbound : n.natAbs < 10 ^ w := by
    zify
    rwa [abs_of_nonneg h]
  have hlength := Digits.length_padded hw hbound
  have hne : Digits.padded w n.natAbs ≠ [] := by
    rw [← List.length_pos_iff, hlength]
    exact hw
  have hkept : (Digits.padded w n.natAbs).take 9 = Digits.padded w n.natAbs := List.take_of_length_le (by omega)
  rw [zeroPadded_toList, scanFraction, Digits.digitsThen_padded hc]
  simp only [if_neg hne, hkept, hlength, Digits.ofDigitChars_padded, Int.natAbs_of_nonneg h]

theorem scanFraction_text {nanos : ℤ} (h : 0 ≤ nanos) (hlt : nanos < 10 ^ 9) :
    scanFraction ((fractionText nanos).toList ++ "+00:00".toList) = some (nanos, "+00:00".toList) := by
  have hplus : "+00:00".toList = '+' :: "00:00".toList := by decide
  have hpoint (s : String) : ("." ++ s).toList = '.' :: s.toList := String.toList_append
  rw [hplus]
  unfold fractionText
  by_cases hzero : nanos = 0
  · rw [if_pos hzero, hzero]
    rfl
  by_cases hmillis : nanos % 1000000 = 0
  · have hvalue : nanos / 1000000 * 10 ^ (9 - 3) = nanos := by omega
    rw [if_neg hzero, if_pos hmillis, hpoint, List.cons_append, scanFraction_padded (by decide) (by decide) (by omega)
      (by omega) (by decide), hvalue]
  by_cases hmicros : nanos % 1000 = 0
  · have hvalue : nanos / 1000 * 10 ^ (9 - 6) = nanos := by omega
    rw [if_neg hzero, if_neg hmillis, if_pos hmicros, hpoint, List.cons_append, scanFraction_padded (by decide)
      (by decide) (by omega) (by omega) (by decide), hvalue]
  · rw [if_neg hzero, if_neg hmillis, if_neg hmicros, hpoint, List.cons_append, scanFraction_padded (by decide)
      (by decide) h hlt (by decide), Nat.sub_self, pow_zero, mul_one]

theorem mk_of_eq {t : DateTime} {n : ℤ} (h : n = t.nanos) (hrange : |n| ≤ 10 ^ 22) :
    (⟨n, hrange⟩ : DateTime) = t := by
  cases t
  subst h
  rfl

theorem toRfc3339_toList (t : DateTime) {secs : ℤ} {date : CivilDate} (hsecs : secs = t.nanos / 10 ^ 9)
    (hdate : date = CivilDate.ofDay (secs / 86400)) :
    t.toRfc3339.toList = (yearText date.year).toList ++ '-' :: ((zeroPadded 2 date.month).toList ++
      '-' :: ((zeroPadded 2 date.day).toList ++ 'T' :: ((zeroPadded 2 (secs % 86400 / 3600)).toList ++
        ':' :: ((zeroPadded 2 (secs % 86400 / 60 % 60)).toList ++ ':' :: ((zeroPadded 2 (secs % 86400 % 60)).toList ++
          ((fractionText (t.nanos % 10 ^ 9)).toList ++ "+00:00".toList)))))) := by
  have hdash : "-".toList = ['-'] := by decide
  have hcolon : ":".toList = [':'] := by decide
  have hletter : "T".toList = ['T'] := by decide
  simp only [toRfc3339, ← hsecs, ← hdate, String.toList_append, List.append_assoc, hdash, hcolon, hletter,
    List.cons_append, List.nil_append]

/-- A year of more digits, or before the year 0, begins with a sign, and no date is read. -/
theorem scanDate_yearText_of_not {year : ℤ} (h : ¬ (0 ≤ year ∧ year ≤ 9999)) (rest : List Char) :
    scanDate ((yearText year).toList ++ rest) = none := by
  obtain ⟨sign, more, hsign, hhead⟩ : ∃ sign more, (yearText year).toList = sign :: more ∧ sign.isDigit = false := by
    rw [yearText, if_neg h, String.toList_append]
    split_ifs
    · exact ⟨'-', _, rfl, by decide⟩
    · exact ⟨'+', _, rfl, by decide⟩
  rw [hsign, List.cons_append, scanDate, Digits.scan_of_not_isDigit (by decide) hhead]
  rfl

/-- **Times.** A time is read back from its text exactly if its year has four digits. -/
theorem parseFromRfc3339_toRfc3339 (t : DateTime) :
    parseFromRfc3339 t.toRfc3339 = if 0 ≤ t.year ∧ t.year ≤ 9999 then some t else none := by
  obtain ⟨secs, hsecs⟩ : ∃ secs, secs = t.nanos / 10 ^ 9 := ⟨_, rfl⟩
  obtain ⟨date, hdate⟩ : ∃ date, date = CivilDate.ofDay (secs / 86400) := ⟨_, rfl⟩
  have hyear : t.year = date.year := by rw [year, hdate, hsecs]
  rw [parseFromRfc3339, toRfc3339_toList t hsecs hdate, hyear]
  by_cases hdigits : 0 ≤ date.year ∧ date.year ≤ 9999
  · obtain ⟨hmonth, hday⟩ := CivilDate.ofDay_bounds (secs / 86400)
    rw [← hdate] at hmonth hday
    have hoffset : scanOffset "+00:00".toList = some 0 := by decide
    have htoDay : date.toDay = secs / 86400 := by rw [hdate, CivilDate.toDay_ofDay]
    have hvalid : CivilDate.ofDay date.toDay = date := by rw [htoDay, hdate]
    have htotal : (date.toDay * 86400 + secs % 86400 - 0) * 10 ^ 9 + t.nanos % 10 ^ 9 = t.nanos := by omega
    have hrange : |(date.toDay * 86400 + secs % 86400 - 0) * 10 ^ 9 + t.nanos % 10 ^ 9| ≤ 10 ^ 22 := by
      rw [htotal]
      exact t.inRange
    rw [scanDate_text hdigits hmonth hday, if_pos hdigits]
    simp only [Option.bind_eq_bind, Option.bind_some, scanChar, List.mem_cons, true_or, if_true,
      scanTime_text (Int.emod_nonneg secs (by decide)) (Int.emod_lt_of_pos secs (by decide)),
      scanFraction_text (Int.emod_nonneg t.nanos (by decide)) (Int.emod_lt_of_pos t.nanos (by decide)), hoffset]
    rw [dif_pos ⟨hvalid, hrange⟩]
    exact congrArg some (mk_of_eq htotal _)
  · rw [if_neg hdigits, scanDate_yearText_of_not hdigits]
    rfl

end DateTime

end Sherwood
