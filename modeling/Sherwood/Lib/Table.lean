/-
# Finite tables

A hash map is a finite table: at most one value a key, in some iteration
order. `Table` is Mathlib's association list with distinct keys; a loop over
the map adds up one term an entry, `Table.total`, and since the keys are
distinct that is a sum over any finite set that holds them
(`Table.total_eq_sum`), so the order of the iteration does not matter
(`Table.total_congr`) and an update of one key changes one term
(`Table.total_insert`). What a loop can see of the order is any order:
`Table.Reorder`.

Key definitions: `Table`, `Table.pairs`, `Table.total`, `Table.Reorder`.
Key theorems: `Table.total_eq_sum`, `Table.total_congr`, `Table.total_insert`.
-/
import Mathlib.Data.List.AList
import Mathlib.Algebra.BigOperators.Group.Finset.Basic
import Mathlib.Algebra.BigOperators.Group.List.Basic
import Mathlib.Tactic.Abel

/-- A finite map from `κ` to `ν`, with the order it is iterated in. -/
abbrev Table (κ ν : Type) := AList fun _ : κ => ν

namespace Table

variable {κ ν M : Type}

/-- The entries, in iteration order. -/
def pairs (t : Table κ ν) : List (κ × ν) := t.entries.map fun e => (e.1, e.2)

/-- The sum of one term an entry. -/
def total [AddCommMonoid M] (t : Table κ ν) (f : κ → ν → M) : M :=
  (t.pairs.map fun e => f e.1 e.2).sum

variable [DecidableEq κ]

/-- The sum over the entries is the sum over any finite set of keys that
holds those of the table. -/
theorem total_eq_sum [AddCommMonoid M] (t : Table κ ν) (f : κ → ν → M) {S : Finset κ}
    (hS : ∀ k ∈ t, k ∈ S) : t.total f = ∑ k ∈ S, (t.lookup k).elim 0 (f k) := by
  have hsub : t.keys.toFinset ⊆ S := fun k hk => hS k (by simpa [AList.mem_keys] using hk)
  have hzero : ∀ k ∈ S, k ∉ t.keys.toFinset → (t.lookup k).elim 0 (f k) = 0 := by
    intro k _ hk
    have : t.lookup k = none := AList.lookup_eq_none.mpr (by simpa [AList.mem_keys] using hk)
    rw [this]
    rfl
  rw [← Finset.sum_subset hsub hzero, List.sum_toFinset _ t.keys_nodup]
  simp only [total, pairs, AList.keys, List.keys, List.map_map, Function.comp_def]
  congr 1
  refine List.map_congr_left fun e he => ?_
  have : t.lookup e.1 = some e.2 := AList.mem_lookup_iff.mpr he
  rw [this]
  rfl

/-- A sum over the entries depends on what is looked up, and not on the order. -/
theorem total_congr [AddCommMonoid M] {t t' : Table κ ν} (h : ∀ k, t.lookup k = t'.lookup k)
    (f : κ → ν → M) : t.total f = t'.total f := by
  have hmem : ∀ k ∈ t', k ∈ t := fun k hk => by
    rw [← AList.lookup_isSome] at hk ⊢
    rw [h k]
    exact hk
  rw [total_eq_sum t f (S := t.keys.toFinset) (by simp [AList.mem_keys]),
    total_eq_sum t' f (S := t.keys.toFinset) fun k hk => by simpa [AList.mem_keys] using hmem k hk]
  exact Finset.sum_congr rfl fun k _ => by rw [h k]

theorem lookup_insert_congr {t t' : Table κ ν} (h : ∀ k, t.lookup k = t'.lookup k) (k : κ) (v : ν) (j : κ) :
    (t.insert k v).lookup j = (t'.insert k v).lookup j := by
  by_cases hj : j = k
  · rw [hj, AList.lookup_insert, AList.lookup_insert]
  · rw [AList.lookup_insert_ne hj, AList.lookup_insert_ne hj, h j]

theorem lookup_erase_congr {t t' : Table κ ν} (h : ∀ k, t.lookup k = t'.lookup k) (k j : κ) :
    (t.erase k).lookup j = (t'.erase k).lookup j := by
  by_cases hj : j = k
  · rw [hj, AList.lookup_erase, AList.lookup_erase]
  · rw [AList.lookup_erase_ne hj, AList.lookup_erase_ne hj, h j]

/-- A table that goes on from another, with entries of its own first, still does. -/
theorem lookup_insert_or {s t c : Table κ ν} (h : ∀ k, t.lookup k = (s.lookup k).or (c.lookup k)) (k : κ) (v : ν)
    (j : κ) : (t.insert k v).lookup j = ((s.insert k v).lookup j).or (c.lookup j) := by
  by_cases hj : j = k
  · rw [hj, AList.lookup_insert, AList.lookup_insert, Option.some_or]
  · rw [AList.lookup_insert_ne hj, AList.lookup_insert_ne hj, h j]

theorem total_insert [AddCommGroup M] (t : Table κ ν) (k : κ) (v : ν) (f : κ → ν → M) :
    total (t.insert k v) f = t.total f - (t.lookup k).elim 0 (f k) + f k v := by
  set S : Finset κ := insert k t.keys.toFinset
  have hk : k ∈ S := Finset.mem_insert_self k _
  have hsub : ∀ j ∈ t, j ∈ S := fun j hj => Finset.mem_insert_of_mem (by simpa [AList.mem_keys] using hj)
  have hmem : ∀ j ∈ t.insert k v, j ∈ S := by
    intro j hj
    rcases (AList.mem_insert t).mp hj with rfl | hj
    · exact hk
    · exact hsub j hj
  have hrest : ∀ j ∈ S.erase k, ((t.insert k v).lookup j).elim 0 (f j) = (t.lookup j).elim 0 (f j) := by
    intro j hj
    rw [AList.lookup_insert_ne (Finset.ne_of_mem_erase hj)]
  rw [total_eq_sum _ f hmem, total_eq_sum t f hsub, ← Finset.add_sum_erase S _ hk, ← Finset.add_sum_erase S _ hk,
    Finset.sum_congr rfl hrest, AList.lookup_insert]
  simp only [Option.elim_some]
  abel

/-- Some order to iterate in: what is looked up stays. -/
structure Reorder (κ ν : Type) [DecidableEq κ] where
  apply : Table κ ν → Table κ ν
  lookup_apply : ∀ t k, (apply t).lookup k = t.lookup k

attribute [simp] Reorder.lookup_apply

/-- The order as it is. -/
def Reorder.same : Reorder κ ν := ⟨id, fun _ _ => rfl⟩

end Table
