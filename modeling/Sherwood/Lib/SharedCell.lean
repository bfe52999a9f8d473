/-
# A value that clients read, change and write back

Any number of clients share a value and a log. A client reads the value,
changes its copy and writes the copy back, and puts changes in the log, in any
order with the others. Nothing stops it from writing back a copy of a value
that another has written over meanwhile, and then the other's changes are lost.

If no write changes the value while another client has a copy, the value is
the first one with the changes of every write (`inv_act`); and if every client
has logged what it wrote, with the changes in the log, in some order
(`Inv.settled`).

Key definitions: `SharedCell`, `CellStep`, `SharedCell.act`, `SharedCell.Inv`.
Key theorems: `inv_act`, `inv_acts`, `Inv.settled`.
-/
import Mathlib.Data.List.Perm.Basic
import Mathlib.Data.List.Count
import Mathlib.Logic.Function.Basic
import Mathlib.Tactic.Common

/-- A client: its copy with what it has changed in it, and what it has logged and
written so far. -/
structure Client (σ δ : Type) where
  held : Option (σ × List δ)
  logged : List δ
  saved : List δ

/-- What a client does. -/
inductive CellStep (δ : Type) where
  | read
  | change (ds : List δ)
  | log (d : δ)
  | write

structure SharedCell (ι σ δ : Type) where
  value : σ
  log : List (ι × δ)
  client : ι → Client σ δ

namespace SharedCell

variable {ι σ δ : Type} [DecidableEq ι] {apply : σ → δ → σ}

/-- The cell with what one client has now. -/
def withClient (s : SharedCell ι σ δ) (i : ι) (c : Client σ δ) : SharedCell ι σ δ :=
  { s with client := Function.update s.client i c }

/-- A client does something. -/
def act (apply : σ → δ → σ) (i : ι) (s : SharedCell ι σ δ) (step : CellStep δ) : SharedCell ι σ δ :=
  let c := s.client i
  match step with
  | .read => s.withClient i { c with held := some (s.value, []) }
  | .change ds => s.withClient i { c with held := c.held.map fun copy => (copy.1, copy.2 ++ ds) }
  | .log d => { s.withClient i { c with logged := c.logged ++ [d] } with log := s.log ++ [(i, d)] }
  | .write =>
    match c.held with
    | none => s
    | some (v, ds) => { s.withClient i { c with held := none, saved := c.saved ++ ds } with value := ds.foldl apply v }

/-- It does some things one after another. -/
def acts (apply : σ → δ → σ) (i : ι) (s : SharedCell ι σ δ) (steps : List (CellStep δ)) : SharedCell ι σ δ :=
  steps.foldl (act apply i) s

/-- The changes of one client in a list of all of them. -/
def changesOf (i : ι) (l : List (ι × δ)) : List δ := (l.filter fun e => e.1 = i).map Prod.snd

/-- **The invariant.** Every copy is the value with the client's changes; the
value is the first one with every client's changes. -/
structure Inv (apply : σ → δ → σ) (first : σ) (s : SharedCell ι σ δ) : Prop where
  current : ∀ i v ds, (s.client i).held = some (v, ds) → v = s.value
  logged : ∀ i, changesOf i s.log = (s.client i).logged
  booked : ∃ booked : List (ι × δ), s.value = (booked.map Prod.snd).foldl apply first ∧
    ∀ i, changesOf i booked = (s.client i).saved

/-- The client writes alone: no other has a copy that its write makes stale. -/
def Alone (apply : σ → δ → σ) (i : ι) (s : SharedCell ι σ δ) : Prop :=
  (s.act apply i .write).value ≠ s.value → ∀ j, j ≠ i → (s.client j).held = none

theorem changesOf_append (i : ι) (l l' : List (ι × δ)) : changesOf i (l ++ l') = changesOf i l ++ changesOf i l' := by
  simp [changesOf]

theorem changesOf_own (i : ι) (ds : List δ) : changesOf i (ds.map fun d => (i, d)) = ds := by
  simp [changesOf, List.filter_map, Function.comp_def]

theorem changesOf_other {i j : ι} (h : j ≠ i) (ds : List δ) : changesOf j (ds.map fun d => (i, d)) = [] := by
  simp [changesOf, List.filter_map, Function.comp_def, Ne.symm h]

/-- Nobody has done anything. -/
def fresh (first : σ) : SharedCell ι σ δ := ⟨first, [], fun _ => ⟨none, [], []⟩⟩

theorem inv_fresh (first : σ) : (fresh first : SharedCell ι σ δ).Inv apply first :=
  ⟨fun _ _ _ h => (by cases h), fun _ => rfl, [], rfl, fun _ => rfl⟩

/-- What one client comes to have keeps the invariant if it fits the value and the
log, which are the same for the others. -/
theorem Inv.withClient {first value : σ} {s : SharedCell ι σ δ} {i : ι} {c : Client σ δ} {log : List (ι × δ)}
    (hi : s.Inv apply first) (more : List (ι × δ)) (hcurrent : ∀ v ds, c.held = some (v, ds) → v = value)
    (hothers : ∀ j, j ≠ i → ∀ v ds, (s.client j).held = some (v, ds) → v = value)
    (hlogged : changesOf i log = c.logged) (hlog : ∀ j, j ≠ i → changesOf j log = changesOf j s.log)
    (hvalue : value = (more.map Prod.snd).foldl apply s.value)
    (hsaved : (s.client i).saved ++ changesOf i more = c.saved) (hmore : ∀ j, j ≠ i → changesOf j more = []) :
    Inv apply first { s.withClient i c with value := value, log := log } := by
  obtain ⟨-, hlog', booked, hbooked, hsaved'⟩ := hi
  have hself : (s.withClient i c).client i = c := Function.update_self ..
  have hother : ∀ j, j ≠ i → (s.withClient i c).client j = s.client j := fun j hj => Function.update_of_ne hj ..
  refine ⟨fun j v ds h => ?_, fun j => ?_, booked ++ more, ?_, fun j => ?_⟩
  · by_cases hj : j = i
    · subst hj
      exact hcurrent v ds (hself ▸ h)
    · exact hothers j hj v ds (hother j hj ▸ h)
  · by_cases hj : j = i
    · subst hj
      exact hlogged.trans (congrArg _ hself.symm)
    · calc changesOf j log = changesOf j s.log := hlog j hj
        _ = (s.client j).logged := hlog' j
        _ = ((s.withClient i c).client j).logged := by rw [hother j hj]
  · rw [List.map_append, List.foldl_append, ← hbooked]
    exact hvalue
  · rw [changesOf_append, hsaved' j]
    by_cases hj : j = i
    · subst hj
      exact hsaved.trans (congrArg _ hself.symm)
    · rw [hmore j hj, List.append_nil]
      exact congrArg _ (hother j hj).symm

/-- **One step.** What a client does keeps the invariant, if it writes alone. -/
theorem inv_act {first : σ} {s : SharedCell ι σ δ} {i : ι} {step : CellStep δ} (hi : s.Inv apply first)
    (halone : step = .write → s.Alone apply i) : (s.act apply i step).Inv apply first := by
  cases step with
  | read =>
    refine hi.withClient [] (fun v ds h => ?_) (fun j _ => hi.current j) (hi.logged i) (fun _ _ => rfl) rfl
      (List.append_nil _) fun _ _ => rfl
    injection h with h
    injection h with h
    exact h.symm
  | change ds' =>
    refine hi.withClient [] (fun v ds h => ?_) (fun j _ => hi.current j) (hi.logged i) (fun _ _ => rfl) rfl
      (List.append_nil _) fun _ _ => rfl
    obtain ⟨copy, hheld, heq⟩ := Option.map_eq_some_iff.mp h
    injection heq with hv
    subst hv
    exact hi.current i copy.1 copy.2 hheld
  | log d =>
    refine hi.withClient [] (fun v ds h => hi.current i v ds h) (fun j _ => hi.current j) ?_ (fun j hj => ?_)
      rfl (List.append_nil _) fun _ _ => rfl
    · rw [changesOf_append, hi.logged i]
      exact congrArg _ (changesOf_own i [d])
    · rw [changesOf_append]
      calc changesOf j s.log ++ changesOf j [(i, d)] = changesOf j s.log ++ [] := by
            rw [← changesOf_other hj [d], List.map_singleton]
        _ = changesOf j s.log := List.append_nil _
  | write =>
    cases hheld : (s.client i).held with
    | none =>
      simp only [act, hheld]
      exact hi
    | some copy =>
      obtain ⟨v, ds⟩ := copy
      obtain rfl := hi.current i v ds hheld
      have hothers := halone rfl
      simp only [Alone, act, hheld] at hothers ⊢
      refine hi.withClient (ds.map fun d => (i, d)) (fun v ds h => by cases h) (fun j hj v ds' h => ?_)
        (hi.logged i) (fun _ _ => rfl) ?_ (by rw [changesOf_own]) fun j hj => changesOf_other hj ds
      · -- another has a copy, so the value is as it was
        have hsame : ds.foldl apply s.value = s.value := by
          by_contra hne
          rw [hothers hne j hj] at h
          cases h
        rw [hsame]
        exact hi.current j v ds' h
      · rw [List.map_map]
        simp [Function.comp_def]

/-- Every write among the steps is made alone. -/
def AloneIn (apply : σ → δ → σ) (i : ι) : SharedCell ι σ δ → List (CellStep δ) → Prop
  | _, [] => True
  | s, step :: steps => (step = .write → s.Alone apply i) ∧ AloneIn apply i (s.act apply i step) steps

theorem inv_acts {first : σ} {i : ι} : ∀ {steps : List (CellStep δ)} {s : SharedCell ι σ δ}, s.Inv apply first →
    AloneIn apply i s steps → (s.acts apply i steps).Inv apply first
  | [], _, hi, _ => hi
  | step :: steps, s, hi, ⟨halone, hrest⟩ => by
    show (acts apply i (s.act apply i step) steps).Inv apply first
    exact inv_acts (inv_act hi halone) hrest

theorem perm_of_changesOf {l l' : List (ι × δ)} (h : ∀ i, changesOf i l = changesOf i l') : l.Perm l' := by
  classical
  have hcount : ∀ (i : ι) (d : δ) (m : List (ι × δ)), m.count (i, d) = (changesOf i m).count d := by
    intro i d m
    induction m with
    | nil => rfl
    | cons e m ih =>
      obtain ⟨j, d'⟩ := e
      by_cases hj : j = i
      · subst hj
        have hcons : changesOf j ((j, d') :: m) = d' :: changesOf j m := by simp [changesOf]
        rw [hcons, List.count_cons, List.count_cons, ih]
        by_cases hd : d' = d <;> simp [hd]
      · have hcons : changesOf i ((j, d') :: m) = changesOf i m := by simp [changesOf, hj]
        rw [hcons, List.count_cons_of_ne (by simp [hj]), ih]
  rw [List.perm_iff_count]
  rintro ⟨i, d⟩
  rw [hcount, hcount, h i]

/-- **No update is lost.** When every client has written what it logged, the
value is the first one with the logged changes, in some order. -/
theorem Inv.settled {first : σ} {s : SharedCell ι σ δ} (hi : s.Inv apply first)
    (hsettled : ∀ i, (s.client i).logged = (s.client i).saved) :
    ∃ changes : List δ, changes.Perm (s.log.map Prod.snd) ∧ s.value = changes.foldl apply first := by
  obtain ⟨booked, hvalue, hbooked⟩ := hi.booked
  refine ⟨booked.map Prod.snd, ?_, hvalue⟩
  refine (perm_of_changesOf fun i => ?_).map Prod.snd
  rw [hbooked i, ← hsettled i, hi.logged i]

end SharedCell
