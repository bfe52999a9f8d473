/-
# Labelled systems and their runs

A system takes one action at a time: from a state an action is either not
possible or leads to a state and leaves one observation. A run is any
sequence of actions; what can be said of it is said of its observations
(`Run`), and an invariant that relates the observations so far to the state
is proved one step at a time (`Run.rec`). `exec` runs a list of actions.

Where each step of one system is matched by a step of another, so is each list
of actions (`exec_of_simulation`); where both take the same steps anyway, they
stay related as far as each step keeps them so (`exec_related`), and no further
(`exec_related_iff`). What a view of the state does not show may as well not have been
done (`exec_project`).

Key definitions: `Lts`, `Lts.Run`, `Lts.exec`.
Key theorems: `Lts.Run.of_exec`, `Lts.Run.inv`, `Lts.Run.forall_iff`, `Lts.Run.split`,
`Lts.exec_append_eq_some`, `Lts.exec_related`, `Lts.exec_related_iff`, `Lts.exec_of_simulation`,
`Lts.exec_project`.
-/
import Mathlib.Data.List.Forall2
import Mathlib.Tactic.Common

/-- A system with states `σ`, actions `α` and observations `ω`. -/
structure Lts (σ α ω : Type) where
  step : σ → α → Option (σ × ω)

namespace Lts

variable {σ α ω : Type}

/-- `L.Run s₀ os s`: some actions lead from `s₀` to `s` and leave `os`. -/
inductive Run (L : Lts σ α ω) (s₀ : σ) : List ω → σ → Prop
  | nil : Run L s₀ [] s₀
  | snoc {os : List ω} {s : σ} {a : α} {s' : σ} {o : ω} :
      Run L s₀ os s → L.step s a = some (s', o) → Run L s₀ (os ++ [o]) s'

/-- Take the actions `as` in order. -/
def exec (L : Lts σ α ω) : σ → List α → Option (σ × List ω)
  | s, [] => some (s, [])
  | s, a :: as => (L.step s a).bind fun r => (L.exec r.1 as).map fun q => (q.1, r.2 :: q.2)

variable {L : Lts σ α ω}

theorem Run.trans {s₀ s : σ} {os : List ω} (h : L.Run s₀ os s) :
    ∀ {os' : List ω} {s' : σ}, L.Run s os' s' → L.Run s₀ (os ++ os') s'
  | _, _, .nil => by simpa using h
  | _, _, .snoc h' hs => by
    rw [← List.append_assoc]
    exact .snoc (h.trans h') hs

theorem Run.of_exec : ∀ {as : List α} {s s' : σ} {os : List ω},
    L.exec s as = some (s', os) → L.Run s os s'
  | [], s, s', os, h => by
    simp only [exec, Option.some.injEq, Prod.mk.injEq] at h
    obtain ⟨rfl, rfl⟩ := h
    exact .nil
  | a :: as, s, s', os, h => by
    simp only [exec, Option.bind_eq_some_iff, Option.map_eq_some_iff, Prod.mk.injEq] at h
    obtain ⟨⟨s₁, o⟩, hstep, ⟨q, os'⟩, hexec, rfl, rfl⟩ := h
    have h1 : L.Run s [o] s₁ := .snoc .nil hstep
    exact h1.trans (Run.of_exec hexec)

/-- An invariant of the observations and the state holds of every run when it
holds at its start and every step keeps it. -/
theorem Run.inv {s₀ : σ} {P : List ω → σ → Prop} (h0 : P [] s₀)
    (hstep : ∀ os s a s' o, L.Run s₀ os s → P os s → L.step s a = some (s', o) → P (os ++ [o]) s') :
    ∀ {os : List ω} {s : σ}, L.Run s₀ os s → P os s := by
  intro os s h
  induction h with
  | nil => exact h0
  | snoc hr hs ih => exact hstep _ _ _ _ _ hr ih hs

theorem Run.split {s₀ s : σ} {os : List ω} (h : L.Run s₀ os s) : ∀ {pre post : List ω} {o : ω},
    os = pre ++ o :: post → ∃ s₁ a s₂, L.Run s₀ pre s₁ ∧ L.step s₁ a = some (s₂, o) := by
  induction h with
  | nil =>
    intro pre post o hos
    simp at hos
  | snoc hr hs ih =>
    intro pre post o hos
    rcases List.eq_nil_or_concat post with rfl | ⟨post, o', rfl⟩
    · obtain ⟨rfl, ho⟩ := List.append_inj' hos rfl
      obtain rfl := List.singleton_inj.mp ho
      exact ⟨_, _, _, hr, hs⟩
    · rw [List.concat_eq_append, ← List.cons_append, ← List.append_assoc] at hos
      exact ih (List.append_inj' hos rfl).1

/-- An invariant that a step keeps exactly if what it leaves is `G`, and with it what is
said of the observation: it is said of all observations of a run exactly if all are
`G`. -/
theorem Run.forall_iff {s₀ : σ} {I : List ω → σ → Prop} {P : List ω → ω → Prop} {G : ω → Prop} (h0 : I [] s₀)
    (hstep : ∀ os s a s' o, I os s → L.step s a = some (s', o) → (P os o ↔ G o) ∧ (G o → I (os ++ [o]) s'))
    {os : List ω} {s : σ} (h : L.Run s₀ os s) :
    (∀ pre o post, os = pre ++ o :: post → P pre o) ↔ ∀ o ∈ os, G o := by
  have hboth : ((∀ pre o post, os = pre ++ o :: post → P pre o) ↔ ∀ o ∈ os, G o) ∧ ((∀ o ∈ os, G o) → I os s) := by
    induction h with
    | nil => exact ⟨by simp, fun _ => h0⟩
    | @snoc os s a s' o _ hs ih =>
      obtain ⟨hiff, hinv⟩ := ih
      have hsplit : (∀ pre q post, os ++ [o] = pre ++ q :: post → P pre q) ↔
          (∀ pre q post, os = pre ++ q :: post → P pre q) ∧ P os o := by
        constructor
        · intro hall
          exact ⟨fun pre q post heq => hall pre q (post ++ [o]) (by simp [heq]), hall os o [] rfl⟩
        · rintro ⟨hbefore, hlast⟩ pre q post heq
          rcases List.eq_nil_or_concat post with rfl | ⟨post, q', rfl⟩
          · obtain ⟨rfl, hq⟩ := List.append_inj' heq rfl
            obtain rfl := List.singleton_inj.mp hq
            exact hlast
          · rw [List.concat_eq_append, ← List.cons_append, ← List.append_assoc] at heq
            exact hbefore pre q post (List.append_inj' heq rfl).1
      have hmem : (∀ q ∈ os ++ [o], G q) ↔ (∀ q ∈ os, G q) ∧ G o := by
        rw [List.forall_mem_append, List.forall_mem_singleton]
      rw [hsplit, hmem]
      refine ⟨?_, fun hG => (hstep os s a s' o (hinv hG.1) hs).2 hG.2⟩
      rw [hiff]
      exact and_congr_right fun hG => (hstep os s a s' o (hinv hG) hs).1
  exact hboth.1

/-- Actions in two parts lead through the state between them. -/
theorem exec_append_eq_some {bs : List α} : ∀ {as : List α} {s u : σ} {qs : List ω},
    L.exec s (as ++ bs) = some (u, qs) ↔
      ∃ t os os', L.exec s as = some (t, os) ∧ L.exec t bs = some (u, os') ∧ qs = os ++ os'
  | [], s, u, qs => by
    constructor
    · intro h
      exact ⟨s, [], qs, rfl, h, rfl⟩
    · rintro ⟨t, os, os', h, h', rfl⟩
      obtain ⟨rfl, rfl⟩ := Prod.mk.inj (Option.some.inj h)
      exact h'
  | a :: as, s, u, qs => by
    simp only [List.cons_append, exec, Option.bind_eq_some_iff, Option.map_eq_some_iff, Prod.mk.injEq, Prod.exists]
    constructor
    · rintro ⟨s₁, o, hstep, u, qs, hexec, rfl, rfl⟩
      obtain ⟨t, os, os', h, h', rfl⟩ := exec_append_eq_some.mp hexec
      exact ⟨t, o :: os, os', ⟨s₁, o, hstep, t, os, h, rfl, rfl⟩, h', rfl⟩
    · rintro ⟨t, os, os', ⟨s₁, o, hstep, t, os, h, rfl, rfl⟩, h', rfl⟩
      exact ⟨s₁, o, hstep, u, os ++ os', exec_append_eq_some.mpr ⟨t, os, os', h, h', rfl⟩, rfl, rfl⟩

theorem exec_of_total (htotal : ∀ s a, (L.step s a).isSome) : ∀ (as : List α) (s : σ),
    ∃ s' os, L.exec s as = some (s', os)
  | [], s => ⟨s, [], rfl⟩
  | a :: as, s => by
    obtain ⟨⟨s₁, o⟩, hstep⟩ := Option.isSome_iff_exists.mp (htotal s a)
    obtain ⟨s', os, hexec⟩ := exec_of_total htotal as s₁
    refine ⟨s', o :: os, ?_⟩
    simp only [exec, hstep, hexec, Option.bind_some, Option.map_some]

theorem exec_snoc {as : List α} {a : α} {s t u : σ} {os : List ω} {o : ω} (h : L.exec s as = some (t, os))
    (hstep : L.step t a = some (u, o)) : L.exec s (as ++ [a]) = some (u, os ++ [o]) := by
  refine exec_append_eq_some.mpr ⟨t, os, [o], h, ?_, rfl⟩
  simp only [exec, hstep, Option.bind_some, Option.map_some]

/-- Two executions of the same actions stay related, and leave related
observations, as long as what the one leaves is `G`. -/
theorem exec_related {τ χ : Type} {M : Lts τ α χ} {R : σ → τ → Prop} {G : ω → Prop} {Q : ω → χ → Prop}
    (hstep : ∀ s t a s' o t' q, R s t → L.step s a = some (s', o) → M.step t a = some (t', q) → G o →
      R s' t' ∧ Q o q) : ∀ {as : List α} {s s' : σ} {t t' : τ} {os : List ω} {qs : List χ}, R s t →
      L.exec s as = some (s', os) → M.exec t as = some (t', qs) → (∀ o ∈ os, G o) → R s' t' ∧ List.Forall₂ Q os qs
  | [], s, s', t, t', os, qs, hR, hs, ht, _ => by
    obtain ⟨rfl, rfl⟩ := Prod.mk.inj (Option.some.inj hs)
    obtain ⟨rfl, rfl⟩ := Prod.mk.inj (Option.some.inj ht)
    exact ⟨hR, .nil⟩
  | a :: as, s, s', t, t', os, qs, hR, hs, ht, hG => by
    simp only [exec, Option.bind_eq_some_iff, Option.map_eq_some_iff, Prod.mk.injEq, Prod.exists] at hs ht
    obtain ⟨s₁, o, hs₁, s', os, hs, rfl, rfl⟩ := hs
    obtain ⟨t₁, q, ht₁, t', qs, ht, rfl, rfl⟩ := ht
    obtain ⟨hR₁, hQ⟩ := hstep s t a s₁ o t₁ q hR hs₁ ht₁ (hG o List.mem_cons_self)
    obtain ⟨hR', hQs⟩ := exec_related hstep hR₁ hs ht fun o ho => hG o (List.mem_cons_of_mem _ ho)
    exact ⟨hR', .cons hQ hQs⟩

/-- Where an observation is related as it should be exactly if it is `G`, and only a
step that leaves such a one keeps two systems related, the observations of two
executions are related exactly if all are `G`. -/
theorem exec_related_iff {τ χ : Type} {M : Lts τ α χ} {R : σ → τ → Prop} {G : ω → Prop} {Q : ω → χ → Prop}
    (hstep : ∀ s t a s' o t' q, R s t → L.step s a = some (s', o) → M.step t a = some (t', q) →
      (Q o q ↔ G o) ∧ (Q o q → R s' t')) : ∀ {as : List α} {s s' : σ} {t t' : τ} {os : List ω} {qs : List χ}, R s t →
      L.exec s as = some (s', os) → M.exec t as = some (t', qs) → (List.Forall₂ Q os qs ↔ ∀ o ∈ os, G o)
  | [], s, s', t, t', os, qs, hR, hs, ht => by
    obtain ⟨rfl, rfl⟩ := Prod.mk.inj (Option.some.inj hs)
    obtain ⟨rfl, rfl⟩ := Prod.mk.inj (Option.some.inj ht)
    simp
  | a :: as, s, s', t, t', os, qs, hR, hs, ht => by
    simp only [exec, Option.bind_eq_some_iff, Option.map_eq_some_iff, Prod.mk.injEq, Prod.exists] at hs ht
    obtain ⟨s₁, o, hs₁, s', os, hs, rfl, rfl⟩ := hs
    obtain ⟨t₁, q, ht₁, t', qs, ht, rfl, rfl⟩ := ht
    obtain ⟨hiff, hkeep⟩ := hstep s t a s₁ o t₁ q hR hs₁ ht₁
    rw [List.forall₂_cons, List.forall_mem_cons, ← hiff]
    exact and_congr_right fun hQ => exec_related_iff hstep (hkeep hQ) hs ht

/-- Systems that match step by step, on actions related by `P`, match on lists of
them, and what they leave is related as the steps leave it. -/
theorem exec_of_simulation {τ β χ : Type} {M : Lts τ β χ} {R : σ → τ → Prop} {P : α → β → Prop} {Q : ω → χ → Prop}
    (hstep : ∀ s t a b, R s t → P a b →
      ∃ s' t' o q, L.step s a = some (s', o) ∧ M.step t b = some (t', q) ∧ R s' t' ∧ Q o q)
    {as : List α} {bs : List β} (h : List.Forall₂ P as bs) : ∀ {s : σ} {t : τ}, R s t →
      ∃ s' t' os qs, L.exec s as = some (s', os) ∧ M.exec t bs = some (t', qs) ∧ R s' t' ∧ List.Forall₂ Q os qs := by
  induction h with
  | nil => exact fun {s t} hR => ⟨s, t, [], [], rfl, rfl, hR, .nil⟩
  | @cons a b as bs hab _ ih =>
    intro s t hR
    obtain ⟨s₁, t₁, o, q, hL, hM, hR, hQ⟩ := hstep s t a b hR hab
    obtain ⟨s', t', os, qs, hL', hM', hR', hQs⟩ := ih hR
    refine ⟨s', t', o :: os, q :: qs, ?_, ?_, hR', .cons hQ hQs⟩
    · simp only [exec, hL, hL', Option.bind_some, Option.map_some]
    · simp only [exec, hM, hM', Option.bind_some, Option.map_some]

theorem exec_of_sim {τ β : Type} {M : Lts τ β ω} {f : α → β} {R : σ → τ → Prop}
    (hstep : ∀ s t a, R s t → ∃ s' t' o, L.step s a = some (s', o) ∧ M.step t (f a) = some (t', o) ∧ R s' t')
    (as : List α) {s : σ} {t : τ} (h : R s t) :
    ∃ s' t' os, L.exec s as = some (s', os) ∧ M.exec t (as.map f) = some (t', os) ∧ R s' t' := by
  have hactions : List.Forall₂ (fun a b => b = f a) as (as.map f) := by
    rw [List.forall₂_map_right_iff]
    exact List.forall₂_same.mpr fun _ _ => rfl
  obtain ⟨s', t', os, qs, hL, hM, hR, hQ⟩ := exec_of_simulation (Q := (· = ·)) (fun s t a b hR hb => by
    obtain ⟨s', t', o, hL, hM, hR'⟩ := hstep s t a hR
    exact ⟨s', t', o, o, hL, hb ▸ hM, hR', rfl⟩) hactions h
  obtain rfl : os = qs := List.forall₂_eq_eq_eq ▸ hQ
  exact ⟨s', t', os, hL, hM, hR⟩

/-- A view of a system as another: the actions that show are steps of the other, and what
does not show changes nothing of the view. -/
theorem exec_project {τ β χ : Type} {M : Lts τ β χ} {f : σ → τ} {act : α → Option β} {obs : ω → Option χ}
    (hshown : ∀ s a s' o b, L.step s a = some (s', o) → act a = some b →
      ∃ q, obs o = some q ∧ M.step (f s) b = some (f s', q))
    (hhidden : ∀ s a s' o, L.step s a = some (s', o) → act a = none → obs o = none ∧ f s' = f s) :
    ∀ {as : List α} {s s' : σ} {os : List ω}, L.exec s as = some (s', os) →
      M.exec (f s) (as.filterMap act) = some (f s', os.filterMap obs)
  | [], s, s', os, h => by
    obtain ⟨rfl, rfl⟩ := Prod.mk.inj (Option.some.inj h)
    rfl
  | a :: as, s, s', os, h => by
    simp only [exec, Option.bind_eq_some_iff, Option.map_eq_some_iff, Prod.mk.injEq, Prod.exists] at h
    obtain ⟨s₁, o, hstep, s', os, hexec, rfl, rfl⟩ := h
    have ih := exec_project hshown hhidden hexec
    cases hact : act a with
    | none =>
      obtain ⟨hobs, hview⟩ := hhidden s a s₁ o hstep hact
      rw [List.filterMap_cons_none hact, List.filterMap_cons_none hobs, ← hview]
      exact ih
    | some b =>
      obtain ⟨q, hobs, hM⟩ := hshown s a s₁ o b hstep hact
      rw [List.filterMap_cons_some hact, List.filterMap_cons_some hobs]
      simp only [exec, hM, ih, Option.bind_some, Option.map_some]

end Lts
