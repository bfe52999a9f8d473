/-
# Keeping the last of a kind

A list of which the first elements of a kind are dropped, so that only so many
of them are left. All others stay (`mem_dropFirst_of_not`), and one of the kind
stays exactly if enough of the kind stand before it (`mem_dropFirst_iff`).

Dropping by index, from the list of the indices of the kind, is the same
(`filter_zipIdx`).

Key definitions: `dropFirst`.
Key theorems: `countP_dropFirst`, `mem_dropFirst_of_not`, `mem_dropFirst_iff`, `filter_zipIdx`.
-/
import Mathlib.Data.List.Basic
import Mathlib.Tactic.Common

namespace Sherwood
namespace Retention

variable {α : Type*} (p : α → Bool)

/-- The list without the first `n` elements that `p` holds of. -/
def dropFirst : ℕ → List α → List α
  | 0, l => l
  | _ + 1, [] => []
  | n + 1, x :: xs => if p x then dropFirst n xs else x :: dropFirst (n + 1) xs

@[simp] theorem dropFirst_zero (l : List α) : dropFirst p 0 l = l := by cases l <;> rfl

@[simp] theorem dropFirst_nil (n : ℕ) : dropFirst p n [] = [] := by cases n <;> rfl

theorem dropFirst_cons_of_not {x : α} (hx : p x = false) (n : ℕ) (xs : List α) :
    dropFirst p n (x :: xs) = x :: dropFirst p n xs := by
  cases n with
  | zero => simp
  | succ n => simp [dropFirst, hx]

theorem countP_dropFirst (n : ℕ) (l : List α) : (dropFirst p n l).countP p = l.countP p - n := by
  induction l generalizing n with
  | nil => simp
  | cons x xs ih =>
    cases hx : p x with
    | true =>
      cases n with
      | zero => simp
      | succ n => rw [dropFirst, if_pos hx, ih, List.countP_cons_of_pos hx, Nat.add_sub_add_right]
    | false =>
      have hneg : ¬ p x = true := by simp [hx]
      rw [dropFirst_cons_of_not p hx, List.countP_cons_of_neg hneg, List.countP_cons_of_neg hneg, ih]

theorem mem_dropFirst_of_not {x : α} (hx : p x = false) (n : ℕ) {l : List α} (h : x ∈ l) : x ∈ dropFirst p n l := by
  induction l generalizing n with
  | nil => cases h
  | cons y ys ih =>
    cases n with
    | zero => simpa using h
    | succ n =>
      rw [dropFirst]
      split
      · next hy =>
        have hne : x ≠ y := by
          rintro rfl
          rw [hx] at hy
          cases hy
        exact ih n ((List.mem_cons.mp h).resolve_left hne)
      · rcases List.mem_cons.mp h with rfl | h
        · exact List.mem_cons_self
        · exact List.mem_cons_of_mem _ (ih _ h)

theorem mem_of_mem_dropFirst {x : α} {n : ℕ} {l : List α} (h : x ∈ dropFirst p n l) : x ∈ l := by
  induction l generalizing n with
  | nil => simp at h
  | cons y ys ih =>
    cases n with
    | zero => simpa using h
    | succ n =>
      rw [dropFirst] at h
      split at h
      · exact List.mem_cons_of_mem _ (ih h)
      · rcases List.mem_cons.mp h with rfl | h
        · exact List.mem_cons_self
        · exact List.mem_cons_of_mem _ (ih h)

/-- One of the kind stays if the dropped ones all stand before it. -/
theorem mem_dropFirst_iff {x : α} (hx : p x) {n : ℕ} {pre post : List α} (hpre : x ∉ pre) (hpost : x ∉ post) :
    x ∈ dropFirst p n (pre ++ x :: post) ↔ n ≤ pre.countP p := by
  induction pre generalizing n with
  | nil =>
    cases n with
    | zero => simp
    | succ n =>
      have hgone : x ∉ dropFirst p n post := fun h => hpost (mem_of_mem_dropFirst p h)
      simp [dropFirst, hx, hgone]
  | cons y pre ih =>
    rw [List.mem_cons, not_or] at hpre
    obtain ⟨hne, hpre⟩ := hpre
    cases n with
    | zero => simp
    | succ n =>
      rw [List.cons_append, dropFirst]
      split
      · next hy => rw [ih hpre, List.countP_cons_of_pos hy, Nat.add_le_add_iff_right]
      · next hy => rw [List.mem_cons, or_iff_right hne, ih hpre, List.countP_cons_of_neg hy]

theorem filter_zipIdx (n k : ℕ) (l : List α) :
    ((l.zipIdx k).filter fun e => decide (e.2 ∉ (((l.zipIdx k).filter fun e => p e.1).map Prod.snd).take n)).map
      Prod.fst = dropFirst p n l := by
  have hindex : ∀ {e : α × ℕ} {m : ℕ} {xs : List α}, e ∈ xs.zipIdx m → m ≤ e.2 :=
    fun he => List.le_snd_of_mem_zipIdx he
  induction l generalizing n k with
  | nil => simp
  | cons x xs ih =>
    have hlater : ∀ m, k ∉ (((xs.zipIdx (k + 1)).filter fun e => p e.1).map Prod.snd).take m := by
      intro m hk
      obtain ⟨e, he, hke⟩ := List.mem_map.mp (List.mem_of_mem_take hk)
      have := hindex (List.mem_filter.mp he).1
      omega
    rw [List.zipIdx_cons]
    cases hx : p x with
    | true =>
      rw [List.filter_cons_of_pos (p := fun e : α × ℕ => p e.1) hx, List.map_cons]
      cases n with
      | zero => simp
      | succ n =>
        rw [dropFirst, if_pos hx, ← ih n (k + 1), List.take_succ_cons, List.filter_cons_of_neg (by simp)]
        refine congrArg _ (List.filter_congr fun e he => ?_)
        have hne : e.2 ≠ k := by
          have := hindex he
          omega
        simp [hne]
    | false =>
      rw [List.filter_cons_of_neg (p := fun e : α × ℕ => p e.1) (by simp [hx]), dropFirst_cons_of_not p hx,
        List.filter_cons_of_pos (by simpa using hlater n), List.map_cons, ih n (k + 1)]

end Retention
end Sherwood
