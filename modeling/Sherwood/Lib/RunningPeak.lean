/-
# The best pair of a sequence, in one pass

A pass over a sequence keeps its peak, the largest element so far, and compares it with each
element it comes to. Where a larger first element never gains less on what does not exceed it
(`Favours`), the pass finds the largest gain of any two elements in order, of an element with
itself too (`isGreatest_best`).

Key definitions: `RunningPeak.next`, `RunningPeak.best`, `RunningPeak.Favours`, `RunningPeak.Gains`.
Key theorem: `RunningPeak.isGreatest_best`.
-/
import Mathlib.Data.List.Basic
import Mathlib.Order.Bounds.Basic

namespace RunningPeak

variable {α β : Type} {gain : α → α → β} {l : List α} {e : α} {x : β}

/-- What an element gains on itself or a later one. -/
def Gains (gain : α → α → β) (l : List α) (x : β) : Prop :=
  ∃ (i j : ℕ) (hij : i ≤ j) (hj : j < l.length), x = gain l[i] l[j]

/-- One more element gains on itself, and every other on it. -/
theorem gains_concat : Gains gain (l ++ [e]) x ↔ Gains gain l x ∨ ∃ c ∈ l ++ [e], x = gain c e := by
  constructor
  · rintro ⟨i, j, hij, hj, rfl⟩
    rw [List.length_append, List.length_singleton, Nat.lt_succ_iff_lt_or_eq] at hj
    rcases hj with hj | rfl
    · refine .inl ⟨i, j, hij, hj, ?_⟩
      rw [List.getElem_append_left hj, List.getElem_append_left (hij.trans_lt hj)]
    · exact .inr ⟨(l ++ [e])[i], List.getElem_mem _, by simp⟩
  · rintro (⟨i, j, hij, hj, rfl⟩ | ⟨c, hc, rfl⟩)
    · refine ⟨i, j, hij, by simp; omega, ?_⟩
      rw [List.getElem_append_left hj, List.getElem_append_left (hij.trans_lt hj)]
    · obtain ⟨i, hi, rfl⟩ := List.getElem_of_mem hc
      have hlast : i ≤ l.length := by simpa [Nat.lt_succ_iff] using hi
      exact ⟨i, l.length, hlast, by simp, by simp⟩

variable [LinearOrder α] [LinearOrder β]

/-- One element: the peak, and the best of its gains. -/
def next (gain : α → α → β) (acc : α × β) (e : α) : α × β := (max acc.1 e, max acc.2 (gain (max acc.1 e) e))

/-- The pass, which starts from the first element. -/
def best (gain : α → α → β) (b : β) : List α → β
  | [] => b
  | a :: l => ((a :: l).foldl (next gain) (a, b)).2

/-- Of two elements the larger gains no less on one that does not exceed it. -/
def Favours (gain : α → α → β) (S : Set α) : Prop :=
  ∀ c ∈ S, ∀ p ∈ S, ∀ e ∈ S, c ≤ p → e ≤ p → gain c e ≤ gain p e

/-- What holds of the pass: its peak is the largest element, and its best the largest gain. -/
structure Tracks (gain : α → α → β) (b : β) (l : List α) (acc : α × β) : Prop where
  peak : IsGreatest {a | a ∈ l} acc.1
  best : IsGreatest {x | x = b ∨ Gains gain l x} acc.2

variable {b : β} {acc : α × β}

theorem Tracks.next {S : Set α} (hgain : Favours gain S) (hl : ∀ c ∈ l ++ [e], c ∈ S) (h : Tracks gain b l acc) :
    Tracks gain b (l ++ [e]) (next gain acc e) := by
  have hpeak : IsGreatest {a | a ∈ l ++ [e]} (max acc.1 e) := by
    have hset : {a | a ∈ l ++ [e]} = {a | a ∈ l} ∪ {e} := by
      ext a
      simp [or_comm]
    rw [hset]
    exact h.peak.union isGreatest_singleton
  refine ⟨hpeak, ?_⟩
  -- the new gains are those on the last element, and its peak gains most on it
  have hlast : IsGreatest {x | ∃ c ∈ l ++ [e], x = gain c e} (gain (max acc.1 e) e) := by
    refine ⟨⟨_, hpeak.1, rfl⟩, ?_⟩
    rintro _ ⟨c, hc, rfl⟩
    exact hgain c (hl c hc) _ (hl _ hpeak.1) e (hl e (by simp)) (hpeak.2 hc) (le_max_right _ _)
  have hset : {x | x = b ∨ Gains gain (l ++ [e]) x} =
      {x | x = b ∨ Gains gain l x} ∪ {x | ∃ c ∈ l ++ [e], x = gain c e} := by
    ext x
    simp only [Set.mem_ofPred_eq, Set.mem_union, gains_concat, or_assoc]
  rw [hset]
  exact h.best.union hlast

theorem tracks_foldl {S : Set α} (hgain : Favours gain S) {rest : List α} (hl : ∀ c ∈ l ++ rest, c ∈ S)
    (h : Tracks gain b l acc) : Tracks gain b (l ++ rest) (rest.foldl (RunningPeak.next gain) acc) := by
  induction rest generalizing l acc with
  | nil => simpa using h
  | cons e rest ih =>
    rw [List.append_cons] at hl ⊢
    exact ih hl (h.next hgain fun c hc => hl c (List.mem_append_left _ hc))

/-- **The best pair.** The pass finds the largest of `b` and the gains of all pairs. -/
theorem isGreatest_best {S : Set α} (hgain : Favours gain S) (hl : ∀ c ∈ l, c ∈ S) (b : β) :
    IsGreatest {x | x = b ∨ Gains gain l x} (best gain b l) := by
  cases l with
  | nil => simp [best, Gains]
  | cons a l =>
    -- the first element is compared with itself
    have hfirst : Tracks gain b [a] (RunningPeak.next gain (a, b) a) := by
      have hset : {x | x = b ∨ Gains gain [a] x} = {b} ∪ {gain a a} := by
        ext x
        rw [← List.nil_append [a], Set.mem_ofPred_eq, gains_concat]
        simp [Gains, or_comm]
      refine ⟨by simp [RunningPeak.next], ?_⟩
      rw [hset, RunningPeak.next, max_self]
      exact isGreatest_singleton.union isGreatest_singleton
    exact (tracks_foldl hgain (l := [a]) hl hfirst).best

end RunningPeak
