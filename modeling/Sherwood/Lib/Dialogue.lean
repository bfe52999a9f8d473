/-
# Programs that ask

A program talks to a server it does not trust: it asks, goes on from the reply,
and ends with a value, an error or a panic. The server is any function of what
it was asked before, so a statement about every server is one about every
sequence of replies. `run` is the ending and what was asked up to it.

An error ends the program unless it is caught (`attempt`). A run of a sequence is
a run of its parts, one where the other ended (`run_bind_eq_ok`); a loop that
returns ran every turn (`turn_of_forM`), and one that comes to a turn that does not
return does not (`forM_ne_ok`).

Key definitions: `Dialogue`, `Dialogue.run`, `Dialogue.attempt`, `Dialogue.Ensures`, `Dialogue.Delivers`.
Key theorems: `run_bind_eq_ok`, `prefix_run`, `turn_of_forM`, `forM_ne_ok`, `Ensures.bind`, `Delivers.bind`.
-/
import Sherwood.Lib.Outcome

/-- A program that asks `Q`s, is told `R`s, and ends. -/
inductive Dialogue (Q R ε α : Type) where
  | done (x : Outcome ε α)
  | ask (q : Q) (k : R → Dialogue Q R ε α)

namespace Dialogue

variable {Q R ε δ α β : Type}

/-- Run `x`, then `f` on what it returned. -/
def bind (x : Dialogue Q R ε α) (f : α → Dialogue Q R ε β) : Dialogue Q R ε β :=
  match x with
  | done (.ok a) => f a
  | done (.err e) => done (.err e)
  | done .panic => done .panic
  | ask q k => ask q fun r => (k r).bind f

instance : Monad (Dialogue Q R ε) where
  pure a := done (.ok a)
  bind := bind

/-- Another error for the error. -/
def mapErr (f : ε → δ) : Dialogue Q R ε α → Dialogue Q R δ α
  | done x => done (x.mapErr f)
  | ask q k => ask q fun r => (k r).mapErr f

/-- The ending as a value, so that the program goes on after an error. -/
def attempt : Dialogue Q R ε α → Dialogue Q R δ (Except ε α)
  | done (.ok a) => done (.ok (.ok a))
  | done (.err e) => done (.ok (.error e))
  | done .panic => done .panic
  | ask q k => ask q fun r => (k r).attempt

/-- The ending against a server, and what it was asked, after `asked`. -/
def run (server : List Q → Q → R) : Dialogue Q R ε α → (asked : List Q) → Outcome ε α × List Q
  | done x, asked => (x, asked)
  | ask q k, asked => (k (server asked q)).run server (asked ++ [q])

section Run

variable {server : List Q → Q → R} {asked asked' : List Q}

@[simp] theorem run_done (x : Outcome ε α) : (done x : Dialogue Q R ε α).run server asked = (x, asked) := rfl

@[simp] theorem run_pure (a : α) : (pure a : Dialogue Q R ε α).run server asked = (.ok a, asked) := rfl

theorem exists_run_of_fst {x : Dialogue Q R ε α} {o : Outcome ε α} (h : (x.run server asked).1 = o) :
    ∃ asked', x.run server asked = (o, asked') :=
  ⟨_, Prod.ext h rfl⟩

theorem run_bind (x : Dialogue Q R ε α) (f : α → Dialogue Q R ε β) : (x >>= f).run server asked =
    match x.run server asked with
    | (.ok a, asked') => (f a).run server asked'
    | (.err e, asked') => (.err e, asked')
    | (.panic, asked') => (.panic, asked') := by
  show (x.bind f).run server asked = _
  induction x generalizing asked with
  | done x => cases x <;> rfl
  | ask q k ih => exact ih _

/-- A sequence returns when its first part does and then the second. -/
theorem run_bind_eq_ok {x : Dialogue Q R ε α} {f : α → Dialogue Q R ε β} {b : β} :
    (x >>= f).run server asked = (.ok b, asked') ↔
      ∃ a mid, x.run server asked = (.ok a, mid) ∧ (f a).run server mid = (.ok b, asked') := by
  rw [run_bind]
  rcases x.run server asked with ⟨_ | _ | _, mid⟩ <;> simp

theorem run_bind_done_eq_ok {x : Dialogue Q R ε α} {f : α → Outcome ε β} {b : β} :
    (x >>= fun a => done (f a)).run server asked = (.ok b, asked') ↔
      ∃ a, x.run server asked = (.ok a, asked') ∧ f a = .ok b := by
  rw [run_bind_eq_ok]
  simp only [run_done, Prod.mk.injEq]
  constructor
  · rintro ⟨a, mid, hx, hf, rfl⟩
    exact ⟨a, hx, hf⟩
  · rintro ⟨a, hx, hf⟩
    exact ⟨a, asked', hx, hf, rfl⟩

/-- A postcondition of what is done with a value is one of the value. -/
theorem meets_run_bind_done {o : Outcome ε α} {f : α → Dialogue Q R ε β} {P : β → Prop} :
    ((done o >>= f).run server asked).1.Meets P ↔ o.Meets fun a => ((f a).run server asked).1.Meets P := by
  rw [run_bind, run_done]
  cases o <;> rfl

theorem run_mapErr (f : ε → δ) (x : Dialogue Q R ε α) : (x.mapErr f).run server asked =
    ((x.run server asked).1.mapErr f, (x.run server asked).2) := by
  induction x generalizing asked with
  | done x => rfl
  | ask q k ih => exact ih _

theorem run_mapErr_eq_ok {f : ε → δ} {x : Dialogue Q R ε α} {a : α} :
    (x.mapErr f).run server asked = (.ok a, asked') ↔ x.run server asked = (.ok a, asked') := by
  rw [run_mapErr, Prod.mk.injEq, Outcome.mapErr_eq_ok, Prod.ext_iff]

theorem prefix_run (x : Dialogue Q R ε α) : asked <+: (x.run server asked).2 := by
  induction x generalizing asked with
  | done x => exact List.prefix_rfl
  | ask q k ih => exact (List.prefix_append asked [q]).trans (ih (server asked q))

theorem prefix_of_run {x : Dialogue Q R ε α} {o : Outcome ε α} (h : x.run server asked = (o, asked')) :
    asked <+: asked' := by
  have hprefix : asked <+: (x.run server asked).2 := prefix_run x
  rwa [h] at hprefix

/-- **Every turn.** A loop that returns ran each of its turns, and each returned. -/
theorem turn_of_forM {f : α → Dialogue Q R ε PUnit} {l : List α}
    (h : (l.forM f).run server asked = (.ok ⟨⟩, asked')) {a : α} (ha : a ∈ l) :
    ∃ start stop, asked <+: start ∧ stop <+: asked' ∧ (f a).run server start = (.ok ⟨⟩, stop) := by
  induction l generalizing asked with
  | nil => simp at ha
  | cons b l ih =>
    obtain ⟨⟨⟩, mid, hb, hrest⟩ := run_bind_eq_ok.mp h
    rcases List.mem_cons.mp ha with rfl | ha
    · exact ⟨asked, mid, List.prefix_rfl, prefix_of_run hrest, hb⟩
    · obtain ⟨start, stop, hstart, hstop, hturn⟩ := ih hrest ha
      exact ⟨start, stop, (prefix_of_run hb).trans hstart, hstop, hturn⟩

/-- **No turn is skipped.** A loop that comes to a turn that does not return does not
return either. -/
theorem forM_ne_ok {f : α → Dialogue Q R ε PUnit} {before : List α} {a : α} {after : List α}
    (h : (before.forM f).run server asked = (.ok ⟨⟩, asked')) (ha : ((f a).run server asked').1 ≠ .ok ⟨⟩) :
    (((before ++ a :: after).forM f).run server asked).1 ≠ .ok ⟨⟩ := by
  induction before generalizing asked with
  | nil =>
    obtain rfl : asked = asked' := congrArg Prod.snd h
    show ((f a >>= fun _ => after.forM f).run server asked).1 ≠ _
    intro hok
    obtain ⟨⟨⟩, mid, hturn, -⟩ := run_bind_eq_ok.mp (Prod.ext hok rfl)
    exact ha (congrArg Prod.fst hturn)
  | cons b before ih =>
    obtain ⟨⟨⟩, mid, hb, hrest⟩ := run_bind_eq_ok.mp h
    show ((f b >>= fun _ => (before ++ a :: after).forM f).run server asked).1 ≠ _
    rw [run_bind, hb]
    exact ih hrest

end Run

/-! ### What every return meets -/

/-- Whatever the program returns meets `P`. -/
def Ensures (server : List Q → Q → R) (P : α → Prop) (x : Dialogue Q R ε α) : Prop :=
  ∀ asked asked' a, x.run server asked = (.ok a, asked') → P a

variable {server : List Q → Q → R} {P : α → Prop} {P' : β → Prop}

theorem ensures_pure {a : α} (h : P a) : (pure a : Dialogue Q R ε α).Ensures server P := by
  intro asked asked' b hrun
  obtain rfl : a = b := Outcome.ok.inj (congrArg Prod.fst hrun)
  exact h

theorem ensures_done {o : Outcome ε α} (h : ∀ a, o = .ok a → P a) : (done o : Dialogue Q R ε α).Ensures server P :=
  fun _ _ a hrun => h a (congrArg Prod.fst hrun)

/-- A sequence ensures what its second part does of what the first ensures. -/
theorem Ensures.bind {x : Dialogue Q R ε α} {f : α → Dialogue Q R ε β} (hx : x.Ensures server P)
    (hf : ∀ a, P a → (f a).Ensures server P') : (x >>= f).Ensures server P' := by
  intro asked asked' b hrun
  obtain ⟨a, mid, hfirst, hrest⟩ := run_bind_eq_ok.mp hrun
  exact hf a (hx _ _ _ hfirst) _ _ _ hrest

theorem ensures_bind {x : Dialogue Q R ε α} {f : α → Dialogue Q R ε β} (hf : ∀ a, (f a).Ensures server P') :
    (x >>= f).Ensures server P' :=
  Ensures.bind (P := fun _ => True) (fun _ _ _ _ => trivial) fun a _ => hf a

/-! ### What is returned whatever was asked before -/

/-- The program returns, and what it returns meets `P`. -/
def Delivers (server : List Q → Q → R) (P : α → Prop) (x : Dialogue Q R ε α) : Prop :=
  ∀ asked, ∃ a asked', x.run server asked = (.ok a, asked') ∧ P a

theorem delivers_of_fst {x : Dialogue Q R ε α} (h : ∀ asked, ∃ a, (x.run server asked).1 = .ok a ∧ P a) :
    x.Delivers server P := by
  intro asked
  obtain ⟨a, hx, ha⟩ := h asked
  exact ⟨a, _, Prod.ext hx rfl, ha⟩

theorem delivers_pure {a : α} (h : P a) : (pure a : Dialogue Q R ε α).Delivers server P :=
  fun asked => ⟨a, asked, rfl, h⟩

theorem delivers_done {a : α} (h : P a) : (done (.ok a) : Dialogue Q R ε α).Delivers server P := delivers_pure h

/-- A sequence delivers what its second part does of what the first delivers. -/
theorem Delivers.bind {x : Dialogue Q R ε α} {f : α → Dialogue Q R ε β} (hx : x.Delivers server P)
    (hf : ∀ a, P a → (f a).Delivers server P') : (x >>= f).Delivers server P' := by
  intro asked
  obtain ⟨a, mid, hfirst, ha⟩ := hx asked
  obtain ⟨b, asked', hrest, hb⟩ := hf a ha mid
  exact ⟨b, asked', run_bind_eq_ok.mpr ⟨a, mid, hfirst, hrest⟩, hb⟩

theorem Delivers.of_ensures {x : Dialogue Q R ε α} {P'' : α → Prop} (hx : x.Delivers server P)
    (h : x.Ensures server P'') : x.Delivers server P'' := by
  intro asked
  obtain ⟨a, asked', hrun, -⟩ := hx asked
  exact ⟨a, asked', hrun, h asked asked' a hrun⟩

theorem run_attempt (x : Dialogue Q R ε α) (asked : List Q) :
    (x.attempt : Dialogue Q R δ (Except ε α)).run server asked = (match (x.run server asked).1 with
      | .ok a => .ok (.ok a)
      | .err e => .ok (.error e)
      | .panic => .panic, (x.run server asked).2) := by
  induction x generalizing asked with
  | done x => cases x <;> rfl
  | ask q k ih => exact ih _ _

theorem delivers_attempt {x : Dialogue Q R ε α} {P : Option α → Prop}
    (h : ∀ asked, (x.run server asked).1 ≠ .panic ∧ P (x.run server asked).1.value) :
    (x.attempt : Dialogue Q R δ (Except ε α)).Delivers server fun r => P r.toOption := by
  intro asked
  rw [run_attempt]
  obtain ⟨hne, hP⟩ := h asked
  cases hx : (x.run server asked).1 with
  | ok a =>
    rw [hx] at hP
    exact ⟨_, _, rfl, hP⟩
  | err e =>
    rw [hx] at hP
    exact ⟨_, _, rfl, hP⟩
  | panic => exact absurd hx hne

end Dialogue
