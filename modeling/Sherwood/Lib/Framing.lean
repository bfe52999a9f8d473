/-
# Frames out of pieces

A stream of frames, each ended by a separator, comes in pieces of any size. The reader
keeps what is no whole frame yet, and takes from the front whatever is (`frames`).

How the stream is cut makes no difference: pieces give the frames of the whole
(`frames_append`), nothing is lost (`frames_lossless`), and frames with no separator within
come out as they were written (`frames_written`). The same is done to bytes that come in
pieces and are read as characters (`Utf8.decodeFrom`).

Key definitions: `Framing.cut`, `Framing.frames`, `Framing.Clean`, `Utf8.decodeFrom`.
Key theorems: `frames_append`, `frames_lossless`, `frames_written`, `Utf8.decodeFrom_utf8`.
-/
import Mathlib.Data.List.Infix
import Sherwood.Lib.Utf8

namespace Framing

variable {α : Type} [DecidableEq α] (sep : List α)

/-- What is before the first separator, and what is after it. -/
def cut : List α → Option (List α × List α)
  | [] => none
  | c :: cs =>
    if sep <+: c :: cs then some ([], (c :: cs).drop sep.length)
    else (cut cs).map fun parts => (c :: parts.1, parts.2)

/-- As many frames as there are, up to a number, and the rest. -/
def framesUpTo : ℕ → List α → List (List α) × List α
  | 0, buf => ([], buf)
  | n + 1, buf =>
    match cut sep buf with
    | none => ([], buf)
    | some (frame, rest) => (frame :: (framesUpTo n rest).1, (framesUpTo n rest).2)

/-- The frames at the front, and what is no whole frame yet. -/
def frames (buf : List α) : List (List α) × List α := framesUpTo sep buf.length buf

/-- A frame that a reader does not mistake for two. -/
def Clean (frame : List α) : Prop := cut sep (frame ++ sep) = some (frame, [])

variable {sep} {s t frame rest : List α}

theorem eq_of_cut : ∀ {s frame rest : List α}, cut sep s = some (frame, rest) → s = frame ++ sep ++ rest
  | [], _, _, h => by cases h
  | c :: cs, frame, rest, h => by
    rw [cut] at h
    by_cases hsep : sep <+: c :: cs
    · rw [if_pos hsep] at h
      obtain ⟨rfl, rfl⟩ := Prod.mk.inj (Option.some.inj h)
      obtain ⟨more, hmore⟩ := hsep
      rw [← hmore, List.drop_left, List.nil_append]
    · rw [if_neg hsep] at h
      obtain ⟨⟨front, rest⟩, hcut, heq⟩ := Option.map_eq_some_iff.mp h
      obtain ⟨rfl, rfl⟩ := Prod.mk.inj heq
      rw [eq_of_cut hcut]
      rfl

/-- The first separator stays the first one, whatever comes after. -/
theorem cut_append : ∀ {s frame rest : List α}, cut sep s = some (frame, rest) → ∀ t,
    cut sep (s ++ t) = some (frame, rest ++ t)
  | [], _, _, h, _ => by cases h
  | c :: cs, frame, rest, h, t => by
    have hwhole := eq_of_cut h
    rw [cut] at h
    by_cases hsep : sep <+: c :: cs
    · rw [if_pos hsep] at h
      obtain ⟨rfl, rfl⟩ := Prod.mk.inj (Option.some.inj h)
      have hlater : sep <+: c :: (cs ++ t) := hsep.trans (List.prefix_append _ t)
      rw [List.cons_append, cut, if_pos hlater, ← List.cons_append, List.drop_append_of_le_length hsep.length_le]
    · rw [if_neg hsep] at h
      obtain ⟨⟨front, rest⟩, hcut, heq⟩ := Option.map_eq_some_iff.mp h
      obtain ⟨rfl, rfl⟩ := Prod.mk.inj heq
      -- the one found leaves no room for an earlier one that ends later
      have hnone : ¬ sep <+: c :: (cs ++ t) := by
        intro hlater
        have hlen : sep.length ≤ (c :: cs).length := by
          rw [hwhole, List.length_append, List.length_append]
          omega
        exact hsep (List.prefix_of_prefix_length_le hlater (List.prefix_append (c :: cs) t) hlen)
      rw [List.cons_append, cut, if_neg hnone, cut_append hcut t]
      rfl

section

variable (hsep : sep ≠ [])

include hsep

theorem length_of_cut (h : cut sep s = some (frame, rest)) : rest.length < s.length := by
  have hpos := List.length_pos_iff.mpr hsep
  rw [eq_of_cut h, List.length_append, List.length_append]
  omega

theorem framesUpTo_of_le : ∀ {n m : ℕ} {buf : List α}, buf.length ≤ n → buf.length ≤ m →
    framesUpTo sep n buf = framesUpTo sep m buf
  | 0, m, buf, hn, _ => by
    obtain rfl := List.length_eq_zero_iff.mp (Nat.le_zero.mp hn)
    cases m with
    | zero => rfl
    | succ m => rfl
  | n + 1, 0, buf, _, hm => by
    obtain rfl := List.length_eq_zero_iff.mp (Nat.le_zero.mp hm)
    rfl
  | n + 1, m + 1, buf, hn, hm => by
    rw [framesUpTo, framesUpTo]
    cases hcut : cut sep buf with
    | none => rfl
    | some parts =>
      obtain ⟨frame, rest⟩ := parts
      have hlt := length_of_cut hsep hcut
      have hrest : framesUpTo sep n rest = framesUpTo sep m rest := framesUpTo_of_le (by omega) (by omega)
      show (frame :: (framesUpTo sep n rest).1, (framesUpTo sep n rest).2) = _
      rw [hrest]

theorem frames_of_cut (h : cut sep s = some (frame, rest)) :
    frames sep s = (frame :: (frames sep rest).1, (frames sep rest).2) := by
  have hlt := length_of_cut hsep h
  obtain ⟨n, hn⟩ : ∃ n, s.length = n + 1 := ⟨s.length - 1, by omega⟩
  rw [frames, hn, framesUpTo, h]
  show (frame :: (framesUpTo sep n rest).1, (framesUpTo sep n rest).2) = _
  rw [framesUpTo_of_le hsep (n := n) (m := rest.length) (by omega) le_rfl]
  rfl

omit hsep in
theorem frames_of_none (h : cut sep s = none) : frames sep s = ([], s) := by
  unfold frames
  cases hlen : s.length with
  | zero => rfl
  | succ n => rw [framesUpTo, h]

theorem frames_induction {P : List α → Prop} (hnone : ∀ s, cut sep s = none → P s)
    (hcut : ∀ s frame rest, cut sep s = some (frame, rest) → P rest → P s) (s : List α) : P s := by
  induction hlen : s.length using Nat.strongRecOn generalizing s with
  | ind n ih =>
    subst hlen
    cases h : cut sep s with
    | none => exact hnone s h
    | some parts => exact hcut s parts.1 parts.2 h (ih _ (length_of_cut hsep h) _ rfl)

/-- **Pieces.** The frames of a first piece, and then those of what it left and the next one. -/
theorem frames_append (s t : List α) : frames sep (s ++ t) =
    ((frames sep s).1 ++ (frames sep ((frames sep s).2 ++ t)).1, (frames sep ((frames sep s).2 ++ t)).2) := by
  induction s using frames_induction hsep with
  | hnone s h =>
    rw [frames_of_none h]
    rfl
  | hcut s frame rest h ih =>
    rw [frames_of_cut hsep h, frames_of_cut hsep (cut_append h t), ih]
    rfl

/-- Nothing is lost. -/
theorem frames_lossless (s : List α) : (frames sep s).1.flatMap (· ++ sep) ++ (frames sep s).2 = s := by
  induction s using frames_induction hsep with
  | hnone s h =>
    rw [frames_of_none h]
    rfl
  | hcut s frame rest h ih =>
    rw [frames_of_cut hsep h]
    show (frame ++ sep ++ (frames sep rest).1.flatMap (· ++ sep)) ++ (frames sep rest).2 = s
    rw [List.append_assoc, ih]
    exact (eq_of_cut h).symm

/-- What is left has no whole frame. -/
theorem frames_rest (s : List α) : (frames sep (frames sep s).2).1 = [] := by
  have h := congrArg Prod.fst (frames_append hsep s [])
  rw [List.append_nil, List.append_nil] at h
  exact List.append_right_eq_self.mp h.symm

/-- **Round trip.** What is written as frames is read as them. -/
theorem frames_written {written : List (List α)} (h : ∀ frame ∈ written, Clean sep frame) :
    frames sep (written.flatMap (· ++ sep)) = (written, []) := by
  induction written with
  | nil => rfl
  | cons frame written ih =>
    have hcut := cut_append (h frame List.mem_cons_self) (written.flatMap (· ++ sep))
    rw [List.nil_append] at hcut
    rw [List.flatMap_cons, frames_of_cut hsep hcut, ih fun f hf => h f (List.mem_cons_of_mem _ hf)]

/-- Of what was written, a first piece has the first frames, and what is left is written as the
others. -/
theorem frames_of_written {written : List (List α)} (h : ∀ frame ∈ written, Clean sep frame)
    (hpieces : s ++ t = written.flatMap (· ++ sep)) : ∃ later, written = (frames sep s).1 ++ later ∧
      (frames sep s).2 ++ t = later.flatMap (· ++ sep) := by
  have hwhole := frames_written hsep h
  rw [← hpieces, frames_append hsep] at hwhole
  obtain ⟨hfirst, -⟩ := Prod.mk.inj hwhole
  refine ⟨_, hfirst.symm, ?_⟩
  rw [← hfirst, List.flatMap_append] at hpieces
  refine (List.append_right_inj ((frames sep s).1.flatMap (· ++ sep))).mp ?_
  rw [← hpieces, ← List.append_assoc, frames_lossless hsep]

end

/-- Before a separator there is none where its first element is not. -/
theorem cut_of_not_mem {c : α} {more : List α} (hsep : sep = c :: more) {line : List α} (h : c ∉ line) :
    cut sep (line ++ t) = (cut sep t).map fun parts => (line ++ parts.1, parts.2) := by
  induction line with
  | nil =>
    rw [List.nil_append]
    cases cut sep t <;> rfl
  | cons d line ih =>
    have hne : ¬ sep <+: d :: (line ++ t) := by
      rw [hsep, List.cons_prefix_cons]
      exact fun hd => h (hd.1 ▸ List.mem_cons_self)
    rw [List.cons_append, cut, if_neg hne, ih fun hmem => h (List.mem_cons_of_mem _ hmem), Option.map_map]
    rfl

/-- Lines that are not empty are one frame, where a blank line ends it. -/
theorem clean_lines {c : α} : ∀ {lines : List (List α)}, lines ≠ [] → (∀ line ∈ lines, line ≠ [] ∧ c ∉ line) →
    Clean [c, c] ([c].intercalate lines)
  | [], hne, _ => absurd rfl hne
  | [line], _, h => by
    have hend : cut [c, c] [c, c] = some ([], []) := by
      rw [cut, if_pos List.prefix_rfl]
      rfl
    rw [Clean, List.intercalate_singleton, cut_of_not_mem rfl (h line List.mem_cons_self).2, hend, Option.map_some,
      List.append_nil]
  | line :: line' :: lines, _, h => by
    have hrest : Clean [c, c] ([c].intercalate (line' :: lines)) :=
      clean_lines (List.cons_ne_nil _ _) fun l hl => h l (List.mem_cons_of_mem _ hl)
    obtain ⟨hline', hfree'⟩ := h line' (by simp)
    obtain ⟨d, ds, rfl⟩ := List.exists_cons_of_ne_nil hline'
    have hne : ¬ [c, c] <+: c :: ([c].intercalate ((d :: ds) :: lines) ++ [c, c]) := by
      rw [List.intercalate_cons_cons_left, List.cons_append, List.cons_prefix_cons, List.cons_prefix_cons]
      exact fun h => hfree' (h.2.1 ▸ List.mem_cons_self)
    rw [Clean, List.intercalate_cons_cons, List.append_assoc, List.append_assoc,
      cut_of_not_mem rfl (h line List.mem_cons_self).2, List.singleton_append, cut, if_neg hne, hrest,
      Option.map_some, Option.map_some, List.append_assoc]
    rfl

end Framing

namespace Sherwood.Utf8

/-! ### Characters out of pieces -/

/-- The text of some bytes after a character begun, and the character begun at their end. -/
def decodeFrom : Option Begun → List UInt8 → List Char × Option Begun
  | begun, [] => ([], begun)
  | begun, b :: bs =>
    let step := begun.bind (·.next b)
    let read := step.getD (first b)
    let broken := if begun.isSome ∧ step.isNone then [replacement] else []
    match read with
    | .inl c => (broken ++ c :: (decodeFrom none bs).1, (decodeFrom none bs).2)
    | .inr c => (broken ++ (decodeFrom (some c) bs).1, (decodeFrom (some c) bs).2)

theorem decodeFrom_append : ∀ (begun : Option Begun) (bs cs : List UInt8), decodeFrom begun (bs ++ cs) =
    ((decodeFrom begun bs).1 ++ (decodeFrom (decodeFrom begun bs).2 cs).1, (decodeFrom (decodeFrom begun bs).2 cs).2)
  | _, [], _ => rfl
  | begun, b :: bs, cs => by
    rw [List.cons_append, decodeFrom, decodeFrom]
    cases (begun.bind (·.next b)).getD (first b) with
    | inl c => simp only [decodeFrom_append none bs cs, List.append_assoc, List.cons_append]
    | inr c => simp only [decodeFrom_append (some c) bs cs, List.append_assoc]

/-- A character begun that is not ended is one that is replaced. -/
theorem lossyFrom_eq : ∀ (begun : Option Begun) (bs : List UInt8),
    lossyFrom begun bs = (decodeFrom begun bs).1 ++ if (decodeFrom begun bs).2.isSome then [replacement] else []
  | none, [] => rfl
  | some _, [] => rfl
  | begun, b :: bs => by
    rw [lossyFrom, decodeFrom]
    cases (begun.bind (·.next b)).getD (first b) with
    | inl c => simp only [lossyFrom_eq none bs, List.append_assoc, List.cons_append]
    | inr c => simp only [lossyFrom_eq (some c) bs, List.append_assoc]

theorem decodeFrom_utf8EncodeChar (c : Char) : decodeFrom none (String.utf8EncodeChar c) = ([c], none) := by
  have hwhole := lossyFrom_utf8EncodeChar c []
  rw [List.append_nil, lossyFrom_eq] at hwhole
  cases hbegun : (decodeFrom none (String.utf8EncodeChar c)).2 with
  | none =>
    rw [hbegun] at hwhole
    exact Prod.ext ((List.append_nil _).symm.trans hwhole) hbegun
  | some begun =>
    -- it would be read as U+FFFD, which is read whole
    rw [hbegun] at hwhole
    obtain ⟨-, hc⟩ := List.append_inj' (hwhole.trans (List.nil_append [c]).symm) rfl
    obtain rfl : replacement = c := List.singleton_inj.mp hc
    have hread : (decodeFrom none (String.utf8EncodeChar replacement)).2.isNone = true := by decide
    rw [hbegun] at hread
    cases hread

theorem decodeFrom_utf8 (cs : List Char) : decodeFrom none (cs.flatMap String.utf8EncodeChar) = (cs, none) := by
  induction cs with
  | nil => rfl
  | cons c cs ih => rw [List.flatMap_cons, decodeFrom_append, decodeFrom_utf8EncodeChar, ih]; rfl

end Sherwood.Utf8
