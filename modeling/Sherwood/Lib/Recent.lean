/-
# The newest of what came

A list that is kept in the order of its keys takes in batches: of each the entries whose
key it has not, and of all then the last few (`mergeLast`).

A batch that is in order itself comes out whole, behind the entries that are older than all
of it (`mergeLast_eq`); where it is new altogether, behind all there were
(`mergeLast_of_newer`).

Key definitions: `mergeLast`.
Key theorems: `mergeLast_eq`, `mergeLast_of_newer`.
-/
import Mathlib.Data.List.Sort
import Sherwood.Lib.Cursor

namespace Recent

open Cursor (window)
open scoped List

variable {α : Type} (key : α → ℤ) (n : ℕ)

/-- Take in a batch, and keep the last `n`. -/
def mergeLast (prev batch : List α) : List α :=
  let merged := prev ++ batch.filter fun x => key x ∉ prev.map key
  window n (merged.insertionSort fun x y => key x ≤ key y)

variable {key n} {prev batch : List α}

/-- Two entries of one key of a list in order are one. -/
theorem eq_of_key {xs : List α} (h : xs.Pairwise fun x y => key x < key y) {x y : α} (hx : x ∈ xs) (hy : y ∈ xs)
    (heq : key x = key y) : x = y := by
  have hnodup : (xs.map key).Nodup := (List.pairwise_map.mpr h).imp ne_of_lt
  exact List.inj_on_of_nodup_map hnodup hx hy heq

theorem nodup_of_ordered {xs : List α} (h : xs.Pairwise fun x y => key x < key y) : xs.Nodup := by
  refine h.imp ?_
  rintro x _ hlt rfl
  exact lt_irrefl _ hlt

/-- **A batch.** Where entries of one key are one, and what is not in the batch is older than
all of it, the batch comes behind what is not in it. -/
theorem mergeLast_eq (hprev : prev.Pairwise fun x y => key x < key y) (hbatch : batch.Pairwise fun x y => key x < key y)
    (hsame : ∀ x ∈ prev, ∀ y ∈ batch, key x = key y → x = y)
    (holder : ∀ x ∈ prev, key x ∉ batch.map key → ∀ y ∈ batch, key x < key y) :
    mergeLast key n prev batch = window n ((prev.filter fun x => key x ∉ batch.map key) ++ batch) := by
  set older := prev.filter fun x => key x ∉ batch.map key with holder_eq
  have hmem {x : α} (hx : x ∈ older) : x ∈ prev ∧ key x ∉ batch.map key := by simpa [holder_eq] using hx
  have hsorted : (older ++ batch).Pairwise fun x y => key x < key y :=
    List.pairwise_append.mpr ⟨hprev.sublist List.filter_sublist, hbatch,
      fun x hx y hy => holder x (hmem hx).1 (hmem hx).2 y hy⟩
  -- what is in both is counted once
  have hboth : (prev.filter fun x => key x ∈ batch.map key).Perm (batch.filter fun y => key y ∈ prev.map key) := by
    refine (List.perm_ext_iff_of_nodup ((nodup_of_ordered hprev).filter _) ((nodup_of_ordered hbatch).filter _)).mpr
      fun x => ?_
    simp only [List.mem_filter, List.mem_map, decide_eq_true_eq]
    constructor
    · rintro ⟨hx, y, hy, heq⟩
      obtain rfl := hsame x hx y hy heq.symm
      exact ⟨hy, x, hx, rfl⟩
    · rintro ⟨hy, y, hx, heq⟩
      obtain rfl := hsame y hx x hy heq
      exact ⟨hx, y, hy, rfl⟩
  have hperm : (prev ++ batch.filter fun x => key x ∉ prev.map key).Perm (older ++ batch) := by
    have hprev_split : (older ++ prev.filter fun x => key x ∈ batch.map key).Perm prev := by
      have h := List.filter_append_perm (fun x => decide (key x ∈ batch.map key)) prev
      exact List.perm_append_comm.trans (by simpa only [decide_not, holder_eq] using h)
    have hbatch_split : ((batch.filter fun y => key y ∈ prev.map key) ++
        batch.filter fun y => key y ∉ prev.map key).Perm batch := by
      simpa only [decide_not] using List.filter_append_perm (fun y => decide (key y ∈ prev.map key)) batch
    calc prev ++ batch.filter (fun y => key y ∉ prev.map key)
        _ ~ older ++ (prev.filter fun x => key x ∈ batch.map key) ++ batch.filter (fun y => key y ∉ prev.map key) :=
          hprev_split.symm.append_right _
        _ ~ older ++ ((batch.filter fun y => key y ∈ prev.map key) ++ batch.filter fun y => key y ∉ prev.map key) := by
          rw [List.append_assoc]
          exact (hboth.append_right _).append_left _
        _ ~ older ++ batch := hbatch_split.append_left _
  have heq : (prev ++ batch.filter fun x => key x ∉ prev.map key).insertionSort (fun x y => key x ≤ key y) =
      older ++ batch := by
    refine List.Perm.eq_of_pairwise (fun x y hx hy hle hge => ?_) (List.pairwise_insertionSort _ _)
      (hsorted.imp le_of_lt) ((List.perm_insertionSort _ _).trans hperm)
    have hx' := hperm.mem_iff.mp ((List.perm_insertionSort _ _).mem_iff.mp hx)
    exact eq_of_key hsorted hx' hy (le_antisymm hle hge)
  rw [mergeLast, heq]

theorem mergeLast_of_newer (hprev : prev.Pairwise fun x y => key x < key y)
    (hbatch : batch.Pairwise fun x y => key x < key y) (h : ∀ x ∈ prev, ∀ y ∈ batch, key x < key y) :
    mergeLast key n prev batch = window n (prev ++ batch) := by
  have hkeep : (prev.filter fun x => key x ∉ batch.map key) = prev := by
    refine List.filter_eq_self.mpr fun x hx => decide_eq_true fun hmem => ?_
    obtain ⟨y, hy, heq⟩ := List.mem_map.mp hmem
    exact (h x hx y hy).ne heq.symm
  have hdisjoint : ∀ x ∈ prev, ∀ y ∈ batch, key x = key y → x = y := fun x hx y hy heq => absurd heq (h x hx y hy).ne
  rw [mergeLast_eq hprev hbatch hdisjoint fun x hx _ y hy => h x hx y hy, hkeep]

theorem window_append (xs ys : List α) : window n (window n xs ++ ys) = window n (xs ++ ys) := by
  have hdrop : window n xs ++ ys = (xs ++ ys).drop (xs.length - n) :=
    (List.drop_append_of_le_length (Nat.sub_le _ _)).symm
  rw [hdrop, window, window, List.drop_drop, List.length_drop, List.length_append]
  congr 1
  omega

end Recent
