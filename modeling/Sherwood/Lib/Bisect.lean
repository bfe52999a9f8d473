/-
# Asking for a range in halves

A server keeps a list in the order of a key and is asked for the entries of a range of
keys. It may refuse a range, and one that it calls too wide is asked for again in halves, until
a range was halved so often, or is a single key.

The ranges that are answered lie end to end: all of the range if the program returns, and
what is before the range that failed if it does not (`run_bisect`). So no entry is lost between
two halves or asked for twice (`slice_append`).

Key definitions: `Tiles`, `slice`, `bisect`, `Halved`, `Visit`, `Walk`.
Key theorems: `Tiles.append`, `Tiles.existsUnique`, `slice_append`, `Halved.bounds`, `run_bisect`.
-/
import Mathlib.Algebra.Ring.Nat
import Mathlib.Data.List.Infix
import Sherwood.Lib.Dialogue

namespace Bisect

/-- The last key of the first half. -/
def mid (lo hi : ℕ) : ℕ := lo + (hi - lo) / 2

theorem le_mid (lo hi : ℕ) : lo ≤ mid lo hi := Nat.le_add_right _ _

theorem mid_lt {lo hi : ℕ} (h : lo < hi) : mid lo hi < hi := by
  unfold mid
  omega

/-! ### Ranges end to end -/

/-- The ranges, first and last key each, begin at `lo` and follow each other up to `stop`. -/
inductive Tiles : ℕ → List (ℕ × ℕ) → ℕ → Prop
  | nil (lo : ℕ) : Tiles lo [] lo
  | cons {lo hi stop : ℕ} {rest : List (ℕ × ℕ)} (hle : lo ≤ hi) (htiles : Tiles (hi + 1) rest stop) :
      Tiles lo ((lo, hi) :: rest) stop

theorem Tiles.single {lo hi : ℕ} (hle : lo ≤ hi) : Tiles lo [(lo, hi)] (hi + 1) := .cons hle (.nil _)

theorem Tiles.append {lo mid stop : ℕ} {left right : List (ℕ × ℕ)} (hleft : Tiles lo left mid)
    (hright : Tiles mid right stop) : Tiles lo (left ++ right) stop := by
  induction hleft with
  | nil => exact hright
  | cons hle _ ih => exact .cons hle (ih hright)

theorem Tiles.le {lo stop : ℕ} {ranges : List (ℕ × ℕ)} (h : Tiles lo ranges stop) : lo ≤ stop := by
  induction h with
  | nil => exact le_rfl
  | cons hle _ ih => omega

theorem Tiles.le_of_mem {lo stop : ℕ} {ranges : List (ℕ × ℕ)} (h : Tiles lo ranges stop) {range : ℕ × ℕ}
    (hmem : range ∈ ranges) : lo ≤ range.1 ∧ range.1 ≤ range.2 ∧ range.2 < stop := by
  induction h with
  | nil => cases hmem
  | cons hle htiles ih =>
    rcases List.mem_cons.mp hmem with rfl | hmem
    · exact ⟨le_rfl, hle, htiles.le⟩
    · have := ih hmem
      omega

/-- **A partition.** Every key is in one of the ranges, and in no other. -/
theorem Tiles.existsUnique {lo stop : ℕ} {ranges : List (ℕ × ℕ)} (h : Tiles lo ranges stop) {key : ℕ}
    (hlo : lo ≤ key) (hstop : key < stop) : ∃! range, range ∈ ranges ∧ range.1 ≤ key ∧ key ≤ range.2 := by
  induction h with
  | nil => omega
  | @cons lo hi stop rest hle htiles ih =>
    rcases Nat.lt_or_ge hi key with hlt | hge
    · obtain ⟨range, ⟨hmem, hrange⟩, hunique⟩ := ih hlt hstop
      refine ⟨range, ⟨List.mem_cons_of_mem _ hmem, hrange⟩, ?_⟩
      rintro other ⟨hother, hkey⟩
      rcases List.mem_cons.mp hother with rfl | hother
      · exact absurd hkey.2 (by omega)
      · exact hunique other ⟨hother, hkey⟩
    · refine ⟨(lo, hi), ⟨List.mem_cons_self, hlo, hge⟩, ?_⟩
      rintro other ⟨hother, hkey⟩
      rcases List.mem_cons.mp hother with rfl | hother
      · rfl
      · have := (htiles.le_of_mem hother).1
        omega

/-! ### The entries of a range -/

variable {α : Type} (key : α → ℕ)

/-- The entries with a key in a range. -/
def slice (entries : List α) (lo hi : ℕ) : List α := entries.filter fun a => lo ≤ key a ∧ key a ≤ hi

variable {key}

/-- **Two halves.** Where the entries are in the order of their keys, those of two ranges next to each
other are those of both. -/
theorem slice_append {entries : List α} (hsorted : entries.Pairwise fun a b => key a ≤ key b) {lo mid hi : ℕ}
    (hlo : lo ≤ mid + 1) (hhi : mid ≤ hi) :
    slice key entries lo mid ++ slice key entries (mid + 1) hi = slice key entries lo hi := by
  unfold slice
  induction entries with
  | nil => rfl
  | cons a entries ih =>
    obtain ⟨hfirst, hsorted⟩ := List.pairwise_cons.mp hsorted
    rcases Nat.lt_or_ge mid (key a) with hright | hleft
    · -- from here on the first half has none
      have hnone : ∀ b ∈ a :: entries, ¬ (lo ≤ key b ∧ key b ≤ mid) := by
        rintro b hb ⟨-, hle⟩
        rcases List.mem_cons.mp hb with rfl | hb
        · omega
        · have := hfirst b hb
          omega
      rw [List.filter_eq_nil_iff.mpr (by simpa using hnone), List.nil_append]
      refine List.filter_congr fun b hb => ?_
      have hmid : mid < key b := by
        rcases List.mem_cons.mp hb with rfl | hb
        · exact hright
        · exact hright.trans_le (hfirst b hb)
      exact decide_eq_decide.mpr ⟨fun h => ⟨by omega, h.2⟩, fun h => ⟨by omega, h.2⟩⟩
    · have hsecond : (a :: entries).filter (fun a => mid + 1 ≤ key a ∧ key a ≤ hi) =
          entries.filter fun a => mid + 1 ≤ key a ∧ key a ≤ hi := List.filter_cons_of_neg (by simp; omega)
      rw [hsecond, List.filter_cons, List.filter_cons, ← ih hsorted]
      by_cases hin : lo ≤ key a
      · rw [if_pos (by simp [hin, hleft]), if_pos (by simp [hin]; omega), List.cons_append]
      · rw [if_neg (by simp [hin]), if_neg (by simp [hin])]

/-! ### The program -/

section Program

variable {Q ρ ε : Type} (question : ℕ → ℕ → Q) (read : ρ → Outcome ε (List α)) (tooWide : ε → Bool)

/-- Ask for the entries of a range, and in halves if it is refused as too wide and may be halved
`splits` times. -/
def bisect : (splits lo hi : ℕ) → Dialogue Q (Outcome ε ρ) ε (List α)
  | splits, lo, hi => do
    match ← (Dialogue.ask (question lo hi) .done).attempt with
    | .ok ret => .done (read ret)
    | .error e =>
      match splits with
      | 0 => .done (.err e)
      | splits + 1 =>
        if lo < hi ∧ tooWide e then
          let left ← bisect splits lo (mid lo hi)
          let right ← bisect splits (mid lo hi + 1) hi
          return left ++ right
        else .done (.err e)

/-- A range that was asked for, how often it may still be halved, and how it was refused. -/
structure Visit (ε : Type) where
  splits : ℕ
  lo : ℕ
  hi : ℕ
  failure : Option ε

/-- The range is refused and not halved. -/
def Visit.Final (v : Visit ε) : Prop :=
  ∃ e, v.failure = some e ∧ (v.splits = 0 ∨ v.lo = v.hi ∨ tooWide e = false)

/-- The ranges that were answered. -/
def leaves (visits : List (Visit ε)) : List (ℕ × ℕ) :=
  visits.filterMap fun v => if v.failure.isNone then some (v.lo, v.hi) else none

theorem leaves_append (left right : List (Visit ε)) : leaves (left ++ right) = leaves left ++ leaves right :=
  List.filterMap_append

/-- A range comes from another by halving it, `splits` at the outer range and `splits'` at the inner one
being left. -/
inductive Halved : (splits lo hi splits' lo' hi' : ℕ) → Prop
  | whole (splits lo hi : ℕ) : Halved splits lo hi splits lo hi
  | left {splits lo hi splits' lo' hi' : ℕ} (hlt : lo < hi) (h : Halved splits lo (mid lo hi) splits' lo' hi') :
      Halved (splits + 1) lo hi splits' lo' hi'
  | right {splits lo hi splits' lo' hi' : ℕ} (hlt : lo < hi) (h : Halved splits (mid lo hi + 1) hi splits' lo' hi') :
      Halved (splits + 1) lo hi splits' lo' hi'

theorem Halved.bounds {splits lo hi splits' lo' hi' : ℕ} (h : Halved splits lo hi splits' lo' hi') (hle : lo ≤ hi) :
    splits' ≤ splits ∧ lo ≤ lo' ∧ lo' ≤ hi' ∧ hi' ≤ hi := by
  induction h with
  | whole => exact ⟨le_rfl, le_rfl, hle, le_rfl⟩
  | @left _ lo hi _ _ _ hlt _ ih =>
    have := ih (le_mid lo hi)
    have := mid_lt hlt
    omega
  | @right _ lo hi _ _ _ hlt _ ih =>
    have := le_mid lo hi
    have := ih (mid_lt hlt)
    omega

/-- The ranges were asked for in this order, after `asked`, and refused so. -/
def Answered (server : List Q → Q → Outcome ε ρ) : (asked : List Q) → List (Visit ε) → Prop
  | _, [] => True
  | asked, v :: visits =>
    (match server asked (question v.lo v.hi) with
      | .ok _ => v.failure = none
      | .err e => v.failure = some e
      | .panic => False) ∧
    Answered server (asked ++ [question v.lo v.hi]) visits

variable {question}

theorem answered_append {server : List Q → Q → Outcome ε ρ} {asked : List Q} {left right : List (Visit ε)} :
    Answered question server asked (left ++ right) ↔
      Answered question server asked left ∧
        Answered question server (asked ++ left.map fun v => question v.lo v.hi) right := by
  induction left generalizing asked with
  | nil => simp [Answered]
  | cons v left ih => simp [Answered, ih, and_assoc]

/-- A server that answers a range with its entries or not at all. -/
def Serves (question : ℕ → ℕ → Q) (read : ρ → Outcome ε (List α)) (key : α → ℕ) (entries : List α)
    (server : List Q → Q → Outcome ε ρ) (first last : ℕ) : Prop :=
  ∀ asked lo hi, first ≤ lo → lo ≤ hi → hi ≤ last →
    (∃ ret, server asked (question lo hi) = .ok ret ∧ read ret = .ok (slice key entries lo hi)) ∨
      ∃ e, server asked (question lo hi) = .err e

/-- The ranges that a run asks for: each a half of a half of the whole, and not too many. -/
structure Walk (question : ℕ → ℕ → Q) (server : List Q → Q → Outcome ε ρ) (splits lo hi : ℕ) (asked : List Q)
    (visits : List (Visit ε)) : Prop where
  answered : Answered question server asked visits
  halved : ∀ v ∈ visits, Halved splits lo hi v.splits v.lo v.hi
  length_lt : visits.length < 2 ^ (splits + 1)

/-- How a run ends: with all entries, the ranges answered covering the whole, or with the error of the
last range, the first that was refused for good, those answered covering what is before it. -/
inductive Ending (key : α → ℕ) (entries : List α) (tooWide : ε → Bool) (lo hi : ℕ) :
    List (Visit ε) → Outcome ε (List α) → Prop
  | complete {visits : List (Visit ε)} (hfinal : ∀ v ∈ visits, ¬ v.Final tooWide)
      (htiles : Tiles lo (leaves visits) (hi + 1)) :
      Ending key entries tooWide lo hi visits (.ok (slice key entries lo hi))
  | failed {before : List (Visit ε)} {v : Visit ε} {e : ε} (hfinal : ∀ w ∈ before, ¬ w.Final tooWide)
      (htiles : Tiles lo (leaves before) v.lo) (hv : v.Final tooWide) (he : v.failure = some e) :
      Ending key entries tooWide lo hi (before ++ [v]) (.err e)

variable {read tooWide} {server : List Q → Q → Outcome ε ρ} {entries : List α} {first last : ℕ}

theorem Ending.of_ok {lo hi : ℕ} {visits : List (Visit ε)} {returned : List α}
    (h : Ending key entries tooWide lo hi visits (.ok returned)) :
    returned = slice key entries lo hi ∧ Tiles lo (leaves visits) (hi + 1) := by
  cases h with
  | complete _ htiles => exact ⟨rfl, htiles⟩

theorem Ending.ok_or_err {lo hi : ℕ} {visits : List (Visit ε)} {o : Outcome ε (List α)}
    (h : Ending key entries tooWide lo hi visits o) : (∃ returned, o = .ok returned) ∨ ∃ e, o = .err e := by
  cases h with
  | complete => exact .inl ⟨_, rfl⟩
  | failed => exact .inr ⟨_, rfl⟩

theorem Ending.of_final {lo hi : ℕ} {visits : List (Visit ε)} {o : Outcome ε (List α)} {v : Visit ε}
    (h : Ending key entries tooWide lo hi visits o) (hv : v ∈ visits) (hfinal : v.Final tooWide) : ∃ e, o = .err e := by
  cases h with
  | complete hnone => exact absurd hfinal (hnone v hv)
  | failed => exact ⟨_, rfl⟩

theorem walk_single {splits lo hi : ℕ} {asked : List Q} {failure : Option ε}
    (h : match server asked (question lo hi) with
      | .ok _ => failure = none
      | .err e => failure = some e
      | .panic => False) : Walk question server splits lo hi asked [⟨splits, lo, hi, failure⟩] where
  answered := ⟨h, trivial⟩
  halved v hv := by
    obtain rfl := List.mem_singleton.mp hv
    exact .whole _ _ _
  length_lt := Nat.one_lt_two_pow (by omega)

theorem Walk.left {splits lo hi : ℕ} {asked : List Q} {visits : List (Visit ε)} {e : ε} (hlt : lo < hi)
    (he : server asked (question lo hi) = .err e)
    (h : Walk question server splits lo (mid lo hi) (asked ++ [question lo hi]) visits) :
    Walk question server (splits + 1) lo hi asked (⟨splits + 1, lo, hi, some e⟩ :: visits) where
  answered := ⟨by rw [he], h.answered⟩
  halved := List.forall_mem_cons.mpr ⟨.whole _ _ _, fun v hv => .left hlt (h.halved v hv)⟩
  length_lt := by
    have := h.length_lt
    rw [List.length_cons, Nat.pow_succ]
    omega

theorem Walk.right {splits lo hi : ℕ} {asked : List Q} {left right : List (Visit ε)} {e : ε} (hlt : lo < hi)
    (he : server asked (question lo hi) = .err e)
    (hleft : Walk question server splits lo (mid lo hi) (asked ++ [question lo hi]) left)
    (hright : Walk question server splits (mid lo hi + 1) hi
      (asked ++ [question lo hi] ++ left.map fun v => question v.lo v.hi) right) :
    Walk question server (splits + 1) lo hi asked (⟨splits + 1, lo, hi, some e⟩ :: (left ++ right)) where
  answered := ⟨by rw [he], answered_append.mpr ⟨hleft.answered, hright.answered⟩⟩
  halved := by
    refine List.forall_mem_cons.mpr ⟨.whole _ _ _, fun v hv => ?_⟩
    rcases List.mem_append.mp hv with hv | hv
    · exact .left hlt (hleft.halved v hv)
    · exact .right hlt (hright.halved v hv)
  length_lt := by
    have := hleft.length_lt
    have := hright.length_lt
    rw [List.length_cons, List.length_append, Nat.pow_succ]
    omega

theorem run_bisect_of_ok {splits lo hi : ℕ} {asked : List Q} {ret : ρ} (h : server asked (question lo hi) = .ok ret) :
    (bisect question read tooWide splits lo hi).run server asked = (read ret, asked ++ [question lo hi]) := by
  unfold bisect
  show ((Dialogue.done (server asked (question lo hi))).attempt >>= _).run server (asked ++ [question lo hi]) = _
  rw [h]
  rfl

/-- A range that is refused for good is asked for once. -/
theorem run_bisect_of_final {splits lo hi : ℕ} {asked : List Q} {e : ε} (h : server asked (question lo hi) = .err e)
    (hfinal : splits = 0 ∨ ¬ (lo < hi ∧ tooWide e)) :
    (bisect question read tooWide splits lo hi).run server asked = (.err e, asked ++ [question lo hi]) := by
  unfold bisect
  show ((Dialogue.done (server asked (question lo hi))).attempt >>= _).run server (asked ++ [question lo hi]) = _
  rw [h]
  cases splits with
  | zero => rfl
  | succ splits =>
    rw [Dialogue.run_bind]
    show (if lo < hi ∧ tooWide e then _ else Dialogue.done (Outcome.err e)).run server _ = _
    rw [if_neg (hfinal.resolve_left (by omega))]
    rfl

theorem run_bisect_of_wide {splits lo hi : ℕ} {asked : List Q} {e : ε} (h : server asked (question lo hi) = .err e)
    (hwide : lo < hi ∧ tooWide e) :
    (bisect question read tooWide (splits + 1) lo hi).run server asked =
      (do
        let left ← bisect question read tooWide splits lo (mid lo hi)
        let right ← bisect question read tooWide splits (mid lo hi + 1) hi
        return left ++ right : Dialogue Q (Outcome ε ρ) ε (List α)).run server (asked ++ [question lo hi]) := by
  rw [bisect]
  show ((Dialogue.done (server asked (question lo hi))).attempt >>= _).run server (asked ++ [question lo hi]) = _
  rw [h, Dialogue.run_bind]
  show (if lo < hi ∧ tooWide e then _ else Dialogue.done (Outcome.err e)).run server _ = _
  rw [if_pos hwide]

theorem exists_answered {splits lo hi : ℕ} {asked : List Q} {ret : ρ} (hle : lo ≤ hi)
    (hret : server asked (question lo hi) = .ok ret) (hread : read ret = .ok (slice key entries lo hi)) :
    ∃ visits o, (bisect question read tooWide splits lo hi).run server asked =
        (o, asked ++ visits.map fun v => question v.lo v.hi) ∧
      Walk question server splits lo hi asked visits ∧ Ending key entries tooWide lo hi visits o := by
  refine ⟨[⟨splits, lo, hi, none⟩], read ret, run_bisect_of_ok hret, walk_single (by rw [hret]), ?_⟩
  rw [hread]
  refine .complete ?_ (.single hle)
  rintro v hv ⟨e, he, -⟩
  obtain rfl := List.mem_singleton.mp hv
  cases he

theorem exists_refused {splits lo hi : ℕ} {asked : List Q} {e : ε} (he : server asked (question lo hi) = .err e)
    (hle : lo ≤ hi) (hfinal : splits = 0 ∨ ¬ (lo < hi ∧ tooWide e)) :
    ∃ visits o, (bisect question read tooWide splits lo hi).run server asked =
        (o, asked ++ visits.map fun v => question v.lo v.hi) ∧
      Walk question server splits lo hi asked visits ∧ Ending key entries tooWide lo hi visits o := by
  refine ⟨[⟨splits, lo, hi, some e⟩], .err e, run_bisect_of_final he hfinal, walk_single (by rw [he]), ?_⟩
  show Ending key entries tooWide lo hi ([] ++ [⟨splits, lo, hi, some e⟩]) (.err e)
  refine .failed (by simp) (.nil lo) ⟨e, rfl, ?_⟩ rfl
  rcases hfinal with hzero | hnot
  · exact .inl hzero
  · rcases eq_or_lt_of_le hle with heq | hlt
    · exact .inr (.inl heq)
    · exact .inr (.inr (by simpa [hlt] using hnot))

/-- **Asking in halves.** A run asks for halves of halves of its range and ends with all entries of the range
or with an error. -/
theorem run_bisect (tooWide : ε → Bool) (hsorted : entries.Pairwise fun a b => key a ≤ key b)
    (hserves : Serves question read key entries server first last) (splits : ℕ) {lo hi : ℕ} (hfirst : first ≤ lo)
    (hle : lo ≤ hi) (hlast : hi ≤ last) (asked : List Q) :
    ∃ visits o, (bisect question read tooWide splits lo hi).run server asked =
        (o, asked ++ visits.map fun v => question v.lo v.hi) ∧
      Walk question server splits lo hi asked visits ∧ Ending key entries tooWide lo hi visits o := by
  induction splits generalizing lo hi asked with
  | zero =>
    rcases hserves asked lo hi hfirst hle hlast with ⟨ret, hret, hread⟩ | ⟨e, he⟩
    · exact exists_answered hle hret hread
    · exact exists_refused he hle (.inl rfl)
  | succ splits ih =>
    rcases hserves asked lo hi hfirst hle hlast with ⟨ret, hret, hread⟩ | ⟨e, he⟩
    · exact exists_answered hle hret hread
    · by_cases hwide : lo < hi ∧ tooWide e
      · have hmid := mid_lt hwide.1
        have hnot : ¬ (⟨splits + 1, lo, hi, some e⟩ : Visit ε).Final tooWide := by
          rintro ⟨e', he', hwhy⟩
          obtain rfl := Option.some.inj he'
          simp [hwide.1.ne, hwide.2] at hwhy
        obtain ⟨left, oleft, hrunl, hwalkl, hendl⟩ := ih hfirst (le_mid lo hi) (by omega) (asked ++ [question lo hi])
        rw [run_bisect_of_wide he hwide, Dialogue.run_bind, hrunl]
        cases hendl with
        | @failed before v e' hfinal htiles hv he' =>
          exact ⟨(⟨splits + 1, lo, hi, some e⟩ :: before) ++ [v], .err e', by simp, hwalkl.left hwide.1 he,
            .failed (List.forall_mem_cons.mpr ⟨hnot, hfinal⟩) htiles hv he'⟩
        | complete hfinall htilesl =>
          obtain ⟨right, oright, hrunr, hwalkr, hendr⟩ :=
            ih (by have := le_mid lo hi; omega) hmid hlast
              (asked ++ [question lo hi] ++ left.map fun v => question v.lo v.hi)
          have hwalk := hwalkl.right hwide.1 he hwalkr
          simp only [Dialogue.run_bind, hrunr]
          cases hendr with
          | @failed before v e' hfinal htiles hv he' =>
            refine ⟨_, .err e', by simp, hwalk, ?_⟩
            rw [← List.append_assoc, ← List.cons_append]
            refine .failed ?_ ?_ hv he'
            · simpa [hnot, or_imp, forall_and] using ⟨hfinall, hfinal⟩
            · exact leaves_append left before ▸ htilesl.append htiles
          | complete hfinalr htilesr =>
            refine ⟨_, .ok (slice key entries lo hi), ?_, hwalk, .complete ?_ ?_⟩
            · simp [slice_append hsorted (by have := le_mid lo hi; omega : lo ≤ mid lo hi + 1) hmid.le]
            · simpa [hnot, or_imp, forall_and] using ⟨hfinall, hfinalr⟩
            · exact leaves_append left right ▸ htilesl.append htilesr
      · exact exists_refused he hle (.inr hwide)

end Program

end Bisect
