/-
# Hash chains

Entries are numbered and hashed one after another: each carries its number,
the digest of the entry before, and its own digest, which is the hash of all
that it says, its number and the digest before included. `Linked` says that a
list of entries continues a chain.

Where the hash does not collide on what the entries of two chains say, equal
last digests mean that the chains cannot be told apart, entry by entry
(`Linked.commits`), and an entry of one with the digest of an entry of the
other stands at the same place after the same entries (`Linked.agree`).

Key definitions: `HashChain`, `HashChain.Linked`, `HashChain.Alike`.
Key theorems: `linked_snoc`, `Linked.congr`, `Linked.commits`, `Linked.agree`.
-/
import Mathlib.Data.List.Basic
import Mathlib.Data.List.Forall2
import Mathlib.Data.List.Induction
import Mathlib.Data.Set.Function
import Mathlib.Tactic.Common

/-- How the entries of a chain are read: their number, the digest before, their
own digest, and what is hashed of them. -/
structure HashChain (ρ δ π : Type) where
  index : ρ → ℤ
  prev : ρ → δ
  digest : ρ → δ
  pre : ρ → π
  hash : π → δ
  genesis : δ

namespace HashChain

variable {ρ δ π : Type} (C : HashChain ρ δ π)

/-- The digest after the entries. -/
def last (xs : List ρ) : δ := (xs.getLast?.map C.digest).getD C.genesis

@[simp] theorem last_nil : C.last [] = C.genesis := rfl

@[simp] theorem last_snoc (xs : List ρ) (x : ρ) : C.last (xs ++ [x]) = C.digest x := by simp [last]

/-- One entry follows `n` entries with the digest `d`. -/
structure Follows (n : ℕ) (d : δ) (x : ρ) : Prop where
  index : C.index x = n + 1
  prev : C.prev x = d
  digest : C.digest x = C.hash (C.pre x)

/-- The entries are a chain: each follows those before it. -/
def Linked (xs : List ρ) : Prop := ∀ ys x zs, xs = ys ++ x :: zs → C.Follows ys.length (C.last ys) x

variable {C}

theorem linked_nil : C.Linked [] := by
  intro ys x zs h
  simp at h

theorem linked_snoc {xs : List ρ} {x : ρ} :
    C.Linked (xs ++ [x]) ↔ C.Linked xs ∧ C.Follows xs.length (C.last xs) x := by
  constructor
  · intro h
    refine ⟨fun ys y zs he => h ys y (zs ++ [x]) (by simp [he]), h xs x [] rfl⟩
  · rintro ⟨h, hx⟩ ys y zs he
    rcases List.eq_nil_or_concat' zs with rfl | ⟨zs, z, rfl⟩
    · obtain ⟨rfl, hy⟩ := List.append_inj' he rfl
      obtain rfl := List.singleton_inj.mp hy
      exact hx
    · rw [← List.cons_append, ← List.append_assoc] at he
      exact h ys y zs (List.append_inj' he rfl).1

theorem Linked.prefix {xs ys : List ρ} (h : C.Linked (xs ++ ys)) : C.Linked xs :=
  fun us x vs he => h us x (vs ++ ys) (by simp [he])

theorem Linked.last_eq {xs : List ρ} (h : C.Linked xs) :
    C.last xs = C.genesis ∨ ∃ p, C.last xs = C.hash p := by
  rcases List.eq_nil_or_concat' xs with rfl | ⟨xs, x, rfl⟩
  · exact .inl rfl
  · rw [last_snoc]
    exact .inr ⟨_, (linked_snoc.mp h).2.digest⟩

/-- What the entries say tells their number and the digest before them apart:
the encoding of `pre` is unambiguous there. -/
def Tells (C : HashChain ρ δ π) (xs ys : List ρ) : Prop :=
  ∀ x ∈ xs, ∀ y ∈ ys, C.pre x = C.pre y → C.index x = C.index y ∧ C.prev x = C.prev y

/-- The hash does not collide on what the entries say. -/
def NoCollision (C : HashChain ρ δ π) (xs ys : List ρ) : Prop :=
  Set.InjOn C.hash {p | ∃ x ∈ xs ++ ys, p = C.pre x}

theorem NoCollision.eq {xs ys : List ρ} (hinj : C.NoCollision xs ys) {x y : ρ} (hx : x ∈ xs) (hy : y ∈ ys)
    (h : C.hash (C.pre x) = C.hash (C.pre y)) : C.pre x = C.pre y :=
  hinj ⟨x, List.mem_append_left _ hx, rfl⟩ ⟨y, List.mem_append_right _ hy, rfl⟩ h

theorem Tells.mono {xs xs' ys ys' : List ρ} (h : C.Tells xs ys) (hxs : xs' ⊆ xs) (hys : ys' ⊆ ys) :
    C.Tells xs' ys' :=
  fun x hx y hy => h x (hxs hx) y (hys hy)

theorem NoCollision.mono {xs xs' ys ys' : List ρ} (h : C.NoCollision xs ys) (hxs : xs' ⊆ xs)
    (hys : ys' ⊆ ys) : C.NoCollision xs' ys' := by
  refine Set.InjOn.mono ?_ h
  rintro p ⟨x, hx, he⟩
  rw [List.mem_append] at hx
  exact ⟨x, List.mem_append.mpr (hx.imp (hxs ·) (hys ·)), he⟩

/-! ### Chains that cannot be told apart -/

/-- Two entries of one number, one digest before and one digest, that say the
same. -/
structure Alike (C : HashChain ρ δ π) (x y : ρ) : Prop where
  index : C.index x = C.index y
  prev : C.prev x = C.prev y
  digest : C.digest x = C.digest y
  pre : C.pre x = C.pre y

theorem last_congr {xs ys : List ρ} (h : List.Forall₂ C.Alike xs ys) : C.last xs = C.last ys := by
  rcases List.eq_nil_or_concat' ys with rfl | ⟨ys, y, rfl⟩
  · rw [List.forall₂_nil_right_iff.mp h]
  · have hxs := List.take_append_drop ys.length xs
    obtain ⟨x, r, hxy, hr, hdrop⟩ := List.forall₂_cons_right_iff.mp (List.forall₂_drop_append _ _ _ h)
    rw [List.forall₂_nil_right_iff.mp hr] at hdrop
    rw [← hxs, hdrop, last_snoc, last_snoc, hxy.digest]

theorem Linked.congr {xs ys : List ρ} (h : List.Forall₂ C.Alike xs ys) (hx : C.Linked xs) : C.Linked ys := by
  rintro us y vs rfl
  have htake := List.forall₂_take_append _ _ _ h
  obtain ⟨x, r, hxy, -, hdrop⟩ := List.forall₂_cons_right_iff.mp (List.forall₂_drop_append _ _ _ h)
  have hf := hx _ x r (by rw [← hdrop, List.take_append_drop])
  rw [htake.length_eq, last_congr htake] at hf
  exact ⟨by rw [← hxy.index, hf.index], by rw [← hxy.prev, hf.prev], by rw [← hxy.digest, hf.digest, hxy.pre]⟩

/-- Two chains of one length with the same last digest cannot be told apart. -/
theorem Linked.alike {xs : List ρ} : ∀ {ys : List ρ}, C.Linked xs → C.Linked ys → C.Tells xs ys →
    C.NoCollision xs ys → xs.length = ys.length → C.last xs = C.last ys → List.Forall₂ C.Alike xs ys := by
  induction xs using List.reverseRecOn with
  | nil =>
    intro ys _ _ _ _ hlen _
    rw [List.eq_nil_of_length_eq_zero hlen.symm]
    exact .nil
  | append_singleton xs x ih =>
    intro ys hx hy htell hinj hlen hlast
    rcases List.eq_nil_or_concat' ys with rfl | ⟨ys, y, rfl⟩
    · simp at hlen
    obtain ⟨hxs, hfx⟩ := linked_snoc.mp hx
    obtain ⟨hys, hfy⟩ := linked_snoc.mp hy
    have hmx : x ∈ xs ++ [x] := by simp
    have hmy : y ∈ ys ++ [y] := by simp
    rw [last_snoc, last_snoc] at hlast
    have hpre := hinj.eq hmx hmy (by rw [← hfx.digest, ← hfy.digest, hlast])
    obtain ⟨hindex, hprev⟩ := htell x hmx y hmy hpre
    have hsx : xs ⊆ xs ++ [x] := List.subset_append_left xs [x]
    have hsy : ys ⊆ ys ++ [y] := List.subset_append_left ys [y]
    have hrest := ih hxs hys (htell.mono hsx hsy) (hinj.mono hsx hsy) (by simpa using hlen)
      (by rw [← hfx.prev, ← hfy.prev, hprev])
    exact List.rel_append hrest (.cons ⟨hindex, hprev, hlast, hpre⟩ .nil)

/-- **The last digest commits to the chain.** Two chains with the same last
digest cannot be told apart; in particular they are of one length. -/
theorem Linked.commits {xs ys : List ρ} {x y : ρ} (hx : C.Linked (xs ++ [x])) (hy : C.Linked (ys ++ [y]))
    (htell : C.Tells (xs ++ [x]) (ys ++ [y])) (hinj : C.NoCollision (xs ++ [x]) (ys ++ [y]))
    (hlast : C.digest x = C.digest y) : List.Forall₂ C.Alike (xs ++ [x]) (ys ++ [y]) := by
  obtain ⟨-, hfx⟩ := linked_snoc.mp hx
  obtain ⟨-, hfy⟩ := linked_snoc.mp hy
  have hmx : x ∈ xs ++ [x] := by simp
  have hmy : y ∈ ys ++ [y] := by simp
  have hpre := hinj.eq hmx hmy (by rw [← hfx.digest, ← hfy.digest, hlast])
  have hindex := (htell x hmx y hmy hpre).1
  rw [hfx.index, hfy.index] at hindex
  exact hx.alike hy htell hinj (by simp; omega) (by simpa using hlast)

/-- Entries of two chains with the same digest stand at the same place, after
entries that cannot be told apart. -/
theorem Linked.agree {xs xs' ys ys' : List ρ} {x y : ρ} (hx : C.Linked (xs ++ x :: xs'))
    (hy : C.Linked (ys ++ y :: ys')) (htell : C.Tells (xs ++ x :: xs') (ys ++ y :: ys'))
    (hinj : C.NoCollision (xs ++ x :: xs') (ys ++ y :: ys')) (hd : C.digest x = C.digest y) :
    List.Forall₂ C.Alike (xs ++ [x]) (ys ++ [y]) := by
  rw [List.append_cons] at hx
  rw [List.append_cons xs, List.append_cons ys] at htell hinj
  rw [List.append_cons] at hy
  have hsx : xs ++ [x] ⊆ xs ++ [x] ++ xs' := List.subset_append_left _ _
  have hsy : ys ++ [y] ⊆ ys ++ [y] ++ ys' := List.subset_append_left _ _
  exact hx.prefix.commits hy.prefix (htell.mono hsx hsy) (hinj.mono hsx hsy) hd

end HashChain
