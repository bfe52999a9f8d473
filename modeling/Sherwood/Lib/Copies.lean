/-
# Copies over a map

Files, or any other named contents, are a map from places to what is there. A
list of copies is made one after another; a copy may fail, and then leaves
anything in its place. When none fails, the map is the old one with each target
overwritten by the last copy made to it.

Key definitions: `putAll`, `copyAll`.
Key theorems: `copyAll_ok`, `putAll_of_not_mem`, `putAll_of_unique`, `putAll_snoc_self`.
-/
import Mathlib.Logic.Function.Basic

namespace Sherwood
namespace Copies

section

variable {κ ν : Type*} [DecidableEq κ]

/-- Each target gets its content, in the order of the list. -/
def putAll (files : κ → Option ν) (copies : List (κ × ν)) : κ → Option ν :=
  copies.foldl (fun files copy => Function.update files copy.1 (some copy.2)) files

/-- The copies up to the first that fails: `left k` is what a copy to `k` that
fails leaves there. -/
def copyAll (left : κ → Option (Option ν)) : List (κ × ν) → (κ → Option ν) → Except κ Unit × (κ → Option ν)
  | [], files => (.ok (), files)
  | copy :: copies, files =>
    match left copy.1 with
    | some rest => (.error copy.1, Function.update files copy.1 rest)
    | none => copyAll left copies (Function.update files copy.1 (some copy.2))

variable {files files' : κ → Option ν}

theorem putAll_append (copies copies' : List (κ × ν)) :
    putAll files (copies ++ copies') = putAll (putAll files copies) copies' := List.foldl_append

theorem copyAll_ok (left : κ → Option (Option ν)) {copies : List (κ × ν)}
    (h : copyAll left copies files = (.ok (), files')) : files' = putAll files copies := by
  induction copies generalizing files with
  | nil => exact (Prod.mk.inj h).2.symm
  | cons copy copies ih =>
    rw [copyAll] at h
    split at h
    · exact absurd (Prod.mk.inj h).1 (by simp)
    · exact ih h

theorem putAll_of_not_mem {copies : List (κ × ν)} {k : κ} (h : ∀ v, (k, v) ∉ copies) :
    putAll files copies k = files k := by
  induction copies generalizing files with
  | nil => rfl
  | cons copy copies ih =>
    obtain ⟨k', v⟩ := copy
    have hne : k ≠ k' := by
      rintro rfl
      exact h v List.mem_cons_self
    calc putAll files ((k', v) :: copies) k
      _ = putAll (Function.update files k' (some v)) copies k := rfl
      _ = Function.update files k' (some v) k := ih fun v hv => h v (List.mem_cons_of_mem _ hv)
      _ = files k := Function.update_of_ne hne _ _

theorem putAll_snoc_self (copies : List (κ × ν)) (k : κ) (v : ν) : putAll files (copies ++ [(k, v)]) k = some v := by
  rw [putAll_append]
  exact Function.update_self ..

/-- A target to which only one content is copied has it. -/
theorem putAll_of_unique {copies : List (κ × ν)} {k : κ} {v : ν} (hmem : (k, v) ∈ copies)
    (hunique : ∀ v', (k, v') ∈ copies → v' = v) : putAll files copies k = some v := by
  induction copies generalizing files with
  | nil => cases hmem
  | cons copy copies ih =>
    have htail : ∀ v', (k, v') ∈ copies → v' = v := fun v' hv' => hunique v' (List.mem_cons_of_mem _ hv')
    by_cases hlater : (k, v) ∈ copies
    · exact ih hlater htail
    · obtain rfl : copy = (k, v) := ((List.mem_cons.mp hmem).resolve_right hlater).symm
      have hrest : ∀ v', (k, v') ∉ copies := fun v' hv' => hlater (htail v' hv' ▸ hv')
      calc putAll files ((k, v) :: copies) k
        _ = putAll (Function.update files k (some v)) copies k := rfl
        _ = Function.update files k (some v) k := putAll_of_not_mem hrest
        _ = some v := Function.update_self ..

theorem putAll_eq_none {copies : List (κ × ν)} {k : κ} :
    putAll files copies k = none ↔ files k = none ∧ ∀ v, (k, v) ∉ copies := by
  induction copies generalizing files with
  | nil => simp [putAll]
  | cons copy copies ih =>
    obtain ⟨k', v⟩ := copy
    have hcons : putAll files ((k', v) :: copies) k = putAll (Function.update files k' (some v)) copies k := rfl
    rw [hcons, ih]
    by_cases hk : k = k'
    · subst hk
      simp only [Function.update_self, reduceCtorEq, false_and, false_iff, not_and]
      exact fun _ hnone => hnone v List.mem_cons_self
    · simp [hk]

end

end Copies
end Sherwood
