/-
# Fields joined with a terminator

Fields are written one after another, each followed by a terminator. Where
the fields of one side are free of the terminator, the joined text and the
number of fields determine them, whatever the fields of the other side are
(`terminated_injective`): a terminator inside a field of the other side would
be one too many.

Texts of one line each make such fields, with the newline as terminator. A text of
them that is cut off is read as its whole lines and what there is of the next
(`readLines_torn`).

Key definitions: `terminated`, `OneLine`, `lines`, `readLines`.
Key theorems: `append_cons_injective`, `terminated_injective`, `prefix_terminated`, `lines_injective`,
`readLines_whole`, `readLines_torn`.
-/
import Mathlib.Data.List.Count
import Mathlib.Data.String.Basic
import Mathlib.Tactic.Common

variable {α : Type}

/-- The fields, each followed by `sep`. -/
def terminated (sep : α) (fields : List (List α)) : List α := fields.flatMap fun f => f ++ [sep]

@[simp] theorem terminated_nil (sep : α) : terminated sep [] = [] := rfl

@[simp] theorem terminated_cons (sep : α) (f : List α) (fs : List (List α)) :
    terminated sep (f :: fs) = f ++ sep :: terminated sep fs := by
  simp [terminated]

theorem terminated_append {sep : α} (fields rest : List (List α)) :
    terminated sep (fields ++ rest) = terminated sep fields ++ terminated sep rest :=
  List.flatMap_append

/-- What stands before the first separator is determined. -/
theorem append_cons_injective {sep : α} : ∀ {xs ys r s : List α}, sep ∉ xs → sep ∉ ys →
    xs ++ sep :: r = ys ++ sep :: s → xs = ys ∧ r = s
  | [], [], r, s, _, _, h => ⟨rfl, (List.cons.inj h).2⟩
  | [], y :: ys, r, s, _, hy, h => absurd (List.cons.inj h).1 fun e => hy (e ▸ List.mem_cons_self)
  | x :: xs, [], r, s, hx, _, h => absurd (List.cons.inj h).1 fun e => hx (e ▸ List.mem_cons_self)
  | x :: xs, y :: ys, r, s, hx, hy, h => by
    obtain ⟨rfl, htail⟩ := List.cons.inj h
    obtain ⟨rfl, rfl⟩ := append_cons_injective (fun hm => hx (List.mem_cons_of_mem _ hm))
      (fun hm => hy (List.mem_cons_of_mem _ hm)) htail
    exact ⟨rfl, rfl⟩

/-- **A torn text** is a part of its fields from the start: so many whole ones, and what there is of the
next. -/
theorem prefix_terminated {sep : α} {fields : List (List α)} {text : List α} (h : text <+: terminated sep fields) :
    text = terminated sep fields ∨ ∃ whole field rest part, fields = whole ++ field :: rest ∧ part <+: field ∧
      text = terminated sep whole ++ part := by
  induction fields generalizing text with
  | nil => exact .inl (List.prefix_nil.mp h)
  | cons field fields ih =>
    rw [terminated_cons] at h ⊢
    rcases List.prefix_or_prefix_of_prefix h (List.prefix_append field _) with hpart | ⟨tail, rfl⟩
    · exact .inr ⟨[], field, fields, text, rfl, hpart, rfl⟩
    · rcases List.prefix_cons_iff.mp ((List.prefix_append_right_inj field).mp h) with rfl | ⟨tail, rfl, htail⟩
      · exact .inr ⟨[], field, fields, field, rfl, List.prefix_rfl, List.append_nil field⟩
      · rcases ih htail with rfl | ⟨whole, last, rest, part, rfl, hpart, rfl⟩
        · exact .inl rfl
        · exact .inr ⟨field :: whole, last, rest, part, rfl, hpart, by simp⟩

variable [DecidableEq α]

/-- The terminators of the text are one for each field and those inside the
fields. -/
theorem count_terminated (sep : α) (fs : List (List α)) :
    (terminated sep fs).count sep = fs.length + fs.flatten.count sep := by
  induction fs with
  | nil => rfl
  | cons f fs ih =>
    simp only [terminated_cons, List.count_append, List.count_cons_self, ih, List.length_cons, List.flatten_cons]
    omega

/-- **Unambiguous.** Fields without the terminator are determined by their
text among all lists of as many fields. -/
theorem terminated_injective {sep : α} {fs gs : List (List α)} (hfs : ∀ f ∈ fs, sep ∉ f)
    (hlen : fs.length = gs.length) (h : terminated sep fs = terminated sep gs) : fs = gs := by
  have hgs : ∀ g ∈ gs, sep ∉ g := by
    have hzero : fs.flatten.count sep = 0 := by simpa [List.count_eq_zero] using hfs
    have hcount := congrArg (List.count sep) h
    rw [count_terminated, count_terminated, hzero] at hcount
    have hgs0 : gs.flatten.count sep = 0 := by omega
    simpa [List.count_eq_zero] using hgs0
  clear hlen
  induction fs generalizing gs with
  | nil =>
    cases gs with
    | nil => rfl
    | cons g gs => simp at h
  | cons f fs ih =>
    cases gs with
    | nil => simp at h
    | cons g gs =>
      rw [terminated_cons, terminated_cons] at h
      obtain ⟨rfl, hrest⟩ := append_cons_injective (hfs f List.mem_cons_self) (hgs g List.mem_cons_self) h
      rw [ih (fun f hf => hfs f (List.mem_cons_of_mem _ hf)) hrest
        (fun g hg => hgs g (List.mem_cons_of_mem _ hg))]

/-! ### Lines of text -/

/-- A text on one line. -/
def OneLine (s : String) : Prop := '\n' ∉ s.toList

instance (s : String) : Decidable (OneLine s) := inferInstanceAs (Decidable ('\n' ∉ s.toList))

@[simp] theorem oneLine_append {s t : String} : OneLine (s ++ t) ↔ OneLine s ∧ OneLine t := by
  simp [OneLine, String.toList_append]

@[simp] theorem oneLine_ofList {cs : List Char} : OneLine (String.ofList cs) ↔ '\n' ∉ cs := by
  simp [OneLine]

theorem oneLine_intercalate {sep : String} (hsep : OneLine sep) :
    ∀ {parts : List String}, (∀ p ∈ parts, OneLine p) → OneLine (sep.intercalate parts)
  | [], _ => by simp [OneLine]
  | [p], h => by simpa using h p (by simp)
  | p :: q :: parts, h => by
    rw [String.intercalate_cons_cons, oneLine_append, oneLine_append]
    exact ⟨⟨h p (by simp), hsep⟩, oneLine_intercalate hsep fun r hr => h r (by simp_all)⟩

theorem oneLine_toString_nat (n : ℕ) : OneLine (toString n) := by
  intro h
  have hmem : '\n' ∈ Nat.toDigits 10 n := by simpa using h
  have hdigit := Nat.isDigit_of_mem_toDigits (by omega) (by omega) hmem
  simp [Char.isDigit] at hdigit

theorem oneLine_toString_int (n : ℤ) : OneLine (toString n) := by
  cases n with
  | ofNat n => exact oneLine_toString_nat n
  | negSucc n =>
    have h : toString (Int.negSucc n) = "-" ++ toString (n + 1) := rfl
    rw [h, oneLine_append]
    exact ⟨by decide, oneLine_toString_nat _⟩

/-- The texts, each followed by a newline. -/
def lines (parts : List String) : String := .join (parts.map (· ++ "\n"))

theorem lines_cons (p : String) (ps : List String) : lines (p :: ps) = p ++ "\n" ++ lines ps := by
  rw [lines, lines, List.map_cons, String.join_cons]

theorem toList_lines (parts : List String) : (lines parts).toList = terminated '\n' (parts.map String.toList) := by
  simp [lines, terminated, String.toList_join, List.flatMap_map]

/-- Texts of one line are determined by their lines among all lists of as many
texts. -/
theorem lines_injective {parts parts' : List String} (h1 : ∀ p ∈ parts, OneLine p)
    (hlen : parts.length = parts'.length) (h : lines parts = lines parts') : parts = parts' := by
  have hlist := congrArg String.toList h
  rw [toList_lines, toList_lines] at hlist
  have hmap := terminated_injective (by simpa [OneLine] using h1) (by simpa using hlen) hlist
  exact List.map_injective_iff.mpr (fun _ _ => String.toList_inj.mp) hmap

/-- So are the texts of one line before the last of them, whatever follows. -/
theorem lines_cons_injective {p p' : String} {ps ps' : List String} (h1 : OneLine p) (h1' : OneLine p')
    (h : lines (p :: ps) = lines (p' :: ps')) : p = p' ∧ lines ps = lines ps' := by
  have hlist := congrArg String.toList h
  rw [toList_lines, toList_lines, List.map_cons, List.map_cons, terminated_cons, terminated_cons] at hlist
  obtain ⟨hp, hrest⟩ := append_cons_injective h1 h1' hlist
  rw [← toList_lines, ← toList_lines] at hrest
  exact ⟨String.toList_inj.mp hp, String.toList_inj.mp hrest⟩

/-! ### Reading lines -/

/-- A line that was read backwards, without a carriage return before its newline. -/
def endLine : List Char → List Char
  | '\r' :: acc => acc.reverse
  | acc => acc.reverse

/-- `str::lines`, of a text whose first characters are `acc`, backwards. -/
def readLinesFrom : (acc : List Char) → List Char → List (List Char)
  | acc, [] => if acc = [] then [] else [acc.reverse]
  | acc, c :: cs => if c = '\n' then endLine acc :: readLinesFrom [] cs else readLinesFrom (c :: acc) cs

/-- `str::lines`. -/
def readLines (text : List Char) : List (List Char) := readLinesFrom [] text

/-- A line without a break in it. -/
def Unbroken (line : List Char) : Prop := '\n' ∉ line ∧ '\r' ∉ line

theorem endLine_reverse {line : List Char} (h : '\r' ∉ line) : endLine line.reverse = line := by
  rw [endLine.eq_def]
  split
  · next acc heq =>
    have hmem : '\r' ∈ line.reverse := heq ▸ List.mem_cons_self
    exact absurd (List.mem_reverse.mp hmem) h
  · exact List.reverse_reverse line

theorem readLinesFrom_append {line : List Char} (h : '\n' ∉ line) (acc rest : List Char) :
    readLinesFrom acc (line ++ rest) = readLinesFrom (line.reverse ++ acc) rest := by
  induction line generalizing acc with
  | nil => rfl
  | cons c line ih =>
    have hc : c ≠ '\n' := fun hc => h (hc ▸ List.mem_cons_self)
    rw [List.cons_append, readLinesFrom, if_neg hc, ih fun hmem => h (List.mem_cons_of_mem _ hmem), List.reverse_cons,
      List.append_assoc, List.singleton_append]

theorem readLines_cons {line : List Char} (h : Unbroken line) (rest : List Char) :
    readLines (line ++ '\n' :: rest) = line :: readLines rest := by
  rw [readLines, readLinesFrom_append h.1, List.append_nil, readLinesFrom, if_pos rfl, endLine_reverse h.2]
  rfl

theorem readLines_last {line : List Char} (h : Unbroken line) (hne : line ≠ []) : readLines line = [line] := by
  have hread := readLinesFrom_append h.1 [] []
  rw [List.append_nil, List.append_nil] at hread
  rw [readLines, hread, readLinesFrom, if_neg (by simpa using hne), List.reverse_reverse]

theorem Unbroken.of_part {line part : List Char} (h : Unbroken line) (hpart : part <+: line) : Unbroken part :=
  ⟨fun hmem => h.1 (hpart.subset hmem), fun hmem => h.2 (hpart.subset hmem)⟩

/-- The lines of a text that ends in the middle of one: it is a line too, unless nothing of it is there. -/
theorem readLines_terminated {whole : List (List Char)} (hwhole : ∀ line ∈ whole, Unbroken line) {part : List Char}
    (hpart : Unbroken part) :
    readLines (terminated '\n' whole ++ part) = whole ++ if part = [] then [] else [part] := by
  induction whole with
  | nil =>
    rw [terminated_nil, List.nil_append, List.nil_append]
    split
    · next hnil =>
      rw [hnil]
      rfl
    · next hne => exact readLines_last hpart hne
  | cons line whole ih =>
    rw [terminated_cons, List.append_assoc, List.cons_append, readLines_cons (hwhole line List.mem_cons_self),
      ih fun other hother => hwhole other (List.mem_cons_of_mem _ hother), List.cons_append]

/-- **A whole text** has its lines, also without its last newline. -/
theorem readLines_whole {fields : List (List Char)} (hfields : ∀ line ∈ fields, Unbroken line) {last : List Char}
    (hlast : Unbroken last) (hne : last ≠ []) {n : ℕ} (hn : (terminated '\n' (fields ++ [last])).length ≤ n + 1) :
    readLines ((terminated '\n' (fields ++ [last])).take n) = fields ++ [last] := by
  have hall : ∀ line ∈ fields ++ [last], Unbroken line := by
    intro line hline
    rcases List.mem_append.mp hline with hline | hline
    · exact hfields line hline
    · rwa [List.mem_singleton.mp hline]
  rcases Nat.lt_or_ge n (terminated '\n' (fields ++ [last])).length with hlt | hge
  · have hsplit : terminated '\n' (fields ++ [last]) = (terminated '\n' fields ++ last) ++ ['\n'] := by
      rw [terminated_append, terminated_cons, terminated_nil, List.append_assoc]
    have hlen : (terminated '\n' fields ++ last).length = n := by
      rw [hsplit, List.length_append, List.length_singleton] at hn hlt
      omega
    rw [hsplit, List.take_left' hlen, readLines_terminated hfields hlast, if_neg hne]
  · have hread : readLines (terminated '\n' (fields ++ [last]) ++ []) = _ :=
      readLines_terminated hall ⟨by simp, by simp⟩
    rw [if_pos rfl, List.append_nil, List.append_nil] at hread
    rw [List.take_of_length_le hge, hread]

/-- **A torn text** has its lines up to one of which a part is there, and not all of the last. -/
theorem readLines_torn {fields : List (List Char)} (hfields : ∀ line ∈ fields, Unbroken line) {n : ℕ}
    (hn : n + 1 < (terminated '\n' fields).length) : ∃ whole line rest part, fields = whole ++ line :: rest ∧
      part <+: line ∧ (rest = [] → part ≠ line) ∧
      readLines ((terminated '\n' fields).take n) = whole ++ if part = [] then [] else [part] := by
  have hlen : ((terminated '\n' fields).take n).length = n := by
    rw [List.length_take]
    omega
  rcases prefix_terminated (List.take_prefix n (terminated '\n' fields)) with hall | ⟨whole, line, rest, part, rfl,
    hpart, htext⟩
  · rw [hall] at hlen
    omega
  · refine ⟨whole, line, rest, part, rfl, hpart, ?_, ?_⟩
    · rintro rfl rfl
      rw [htext, List.length_append] at hlen
      rw [terminated_append, terminated_cons, terminated_nil, List.length_append, List.length_append,
        List.length_singleton] at hn
      omega
    · rw [htext]
      exact readLines_terminated (fun other hother => hfields other (List.mem_append_left _ hother))
        ((hfields line (by simp)).of_part hpart)
