/-
# What a program asks, and through whom

Two things are said of a program whatever it is told: which questions it asks at all
(`Asks`), and how many at most (`AsksAtMost`). Both go through sequences, loops and
caught errors part by part.

A program may not reach its server itself but through a client, which turns each
question into a conversation of its own (`through`). To the program that is some
server: what it ends with and what it asks are as if it had asked that one, and the
client's conversations, one for each question in their order, are all that was said
(`exists_server`).

Key definitions: `Dialogue.Asks`, `Dialogue.AsksAtMost`, `Dialogue.through`, `Dialogue.Relayed`.
Key theorems: `Asks.bind`, `Asks.run`, `AsksAtMost.bind`, `AsksAtMost.run`, `exists_server`.
-/
import Sherwood.Lib.Dialogue

namespace Dialogue

variable {Q R ε δ α β : Type}

/-- Whatever is replied, all questions are `P`. -/
def Asks (P : Q → Prop) : Dialogue Q R ε α → Prop
  | done _ => True
  | ask q k => P q ∧ ∀ r, (k r).Asks P

/-- Whatever is replied, there are at most so many questions. -/
def AsksAtMost : Dialogue Q R ε α → ℕ → Prop
  | done _, _ => True
  | ask _ k, n => ∃ m, n = m + 1 ∧ ∀ r, (k r).AsksAtMost m

/-- The ending as a value, a panic included. -/
def outcome : Dialogue Q R ε α → Dialogue Q R δ (Outcome ε α)
  | done x => done (.ok x)
  | ask q k => ask q fun r => (k r).outcome

section

variable {P : Q → Prop} {n m : ℕ} {server : List Q → Q → R} {asked : List Q}

@[simp] theorem asks_done (x : Outcome ε α) : (done x : Dialogue Q R ε α).Asks P := trivial

@[simp] theorem asks_pure (a : α) : (pure a : Dialogue Q R ε α).Asks P := trivial

theorem Asks.mono {P' : Q → Prop} {x : Dialogue Q R ε α} (hx : x.Asks P) (h : ∀ q, P q → P' q) : x.Asks P' := by
  induction x with
  | done x => exact trivial
  | ask q k ih => exact ⟨h q hx.1, fun r => ih r (hx.2 r)⟩

theorem Asks.bind {x : Dialogue Q R ε α} {f : α → Dialogue Q R ε β} (hx : x.Asks P) (hf : ∀ a, (f a).Asks P) :
    (x >>= f).Asks P := by
  show (x.bind f).Asks P
  induction x with
  | done x =>
    cases x with
    | ok a => exact hf a
    | err e => exact trivial
    | panic => exact trivial
  | ask q k ih => exact ⟨hx.1, fun r => ih r (hx.2 r)⟩

theorem Asks.mapErr {x : Dialogue Q R ε α} (hx : x.Asks P) (f : ε → δ) : (x.mapErr f).Asks P := by
  induction x with
  | done x => exact trivial
  | ask q k ih => exact ⟨hx.1, fun r => ih r (hx.2 r)⟩

theorem Asks.attempt {x : Dialogue Q R ε α} (hx : x.Asks P) :
    (x.attempt : Dialogue Q R δ (Except ε α)).Asks P := by
  induction x with
  | done x => cases x <;> exact trivial
  | ask q k ih => exact ⟨hx.1, fun r => ih r (hx.2 r)⟩

theorem Asks.outcome {x : Dialogue Q R ε α} (hx : x.Asks P) : (x.outcome : Dialogue Q R δ (Outcome ε α)).Asks P := by
  induction x with
  | done x => exact trivial
  | ask q k ih => exact ⟨hx.1, fun r => ih r (hx.2 r)⟩

theorem Asks.forM {f : α → Dialogue Q R ε PUnit} (hf : ∀ a, (f a).Asks P) : (l : List α) → (l.forM f).Asks P
  | [] => trivial
  | a :: l => Asks.bind (hf a) fun _ => Asks.forM hf l

theorem Asks.run {x : Dialogue Q R ε α} (hx : x.Asks P) :
    ∃ more, (x.run server asked).2 = asked ++ more ∧ ∀ q ∈ more, P q := by
  induction x generalizing asked with
  | done x => exact ⟨[], (List.append_nil asked).symm, by simp⟩
  | ask q k ih =>
    obtain ⟨more, hrun, hmore⟩ := @ih (server asked q) (asked ++ [q]) (hx.2 _)
    refine ⟨q :: more, ?_, List.forall_mem_cons.mpr ⟨hx.1, hmore⟩⟩
    rw [List.append_assoc] at hrun
    exact hrun

theorem Asks.of_mem_run {x : Dialogue Q R ε α} (hx : x.Asks P) {q : Q} (hq : q ∈ (x.run server []).2) : P q := by
  obtain ⟨more, hrun, hmore⟩ : ∃ more, (x.run server []).2 = [] ++ more ∧ ∀ q ∈ more, P q := hx.run
  rw [hrun, List.nil_append] at hq
  exact hmore q hq

@[simp] theorem asksAtMost_done (x : Outcome ε α) (n : ℕ) : (done x : Dialogue Q R ε α).AsksAtMost n := trivial

@[simp] theorem asksAtMost_pure (a : α) (n : ℕ) : (pure a : Dialogue Q R ε α).AsksAtMost n := trivial

theorem AsksAtMost.mono {x : Dialogue Q R ε α} (hx : x.AsksAtMost n) (hle : n ≤ m) : x.AsksAtMost m := by
  induction x generalizing n m with
  | done x => exact trivial
  | ask q k ih =>
    obtain ⟨n', rfl, hk⟩ := hx
    obtain ⟨m', rfl⟩ := Nat.exists_eq_add_of_le' (Nat.le_of_add_left_le hle)
    exact ⟨m', rfl, fun r => ih r (hk r) (Nat.le_of_add_le_add_right hle)⟩

/-- The questions of a sequence are those of its parts. -/
theorem AsksAtMost.bind {x : Dialogue Q R ε α} {f : α → Dialogue Q R ε β} (hx : x.AsksAtMost n)
    (hf : ∀ a, (f a).AsksAtMost m) : (x >>= f).AsksAtMost (n + m) := by
  show (x.bind f).AsksAtMost (n + m)
  induction x generalizing n with
  | done x =>
    cases x with
    | ok a => exact (hf a).mono (Nat.le_add_left _ _)
    | err e => exact trivial
    | panic => exact trivial
  | ask q k ih =>
    obtain ⟨n', rfl, hk⟩ := hx
    exact ⟨n' + m, by omega, fun r => ih r (hk r)⟩

theorem AsksAtMost.attempt {x : Dialogue Q R ε α} (hx : x.AsksAtMost n) :
    (x.attempt : Dialogue Q R δ (Except ε α)).AsksAtMost n := by
  induction x generalizing n with
  | done x => cases x <;> exact trivial
  | ask q k ih =>
    obtain ⟨n', rfl, hk⟩ := hx
    exact ⟨n', rfl, fun r => ih r (hk r)⟩

theorem AsksAtMost.run {x : Dialogue Q R ε α} (hx : x.AsksAtMost n) :
    (x.run server asked).2.length ≤ asked.length + n := by
  induction x generalizing n asked with
  | done x => exact Nat.le_add_right _ _
  | ask q k ih =>
    obtain ⟨n', rfl, hk⟩ := hx
    have hrest := @ih (server asked q) _ (asked ++ [q]) (hk _)
    rw [List.length_append, List.length_singleton] at hrest
    show ((k (server asked q)).run server (asked ++ [q])).2.length ≤ _
    omega

theorem run_outcome (x : Dialogue Q R ε α) (asked : List Q) :
    (x.outcome : Dialogue Q R δ (Outcome ε α)).run server asked =
      (.ok (x.run server asked).1, (x.run server asked).2) := by
  induction x generalizing asked with
  | done x => rfl
  | ask q k ih => exact ih _ _

end

/-! ### Through a client -/

variable {W S : Type}

/-- Every question goes through a client, which counts them. -/
def through (client : ℕ → Q → Dialogue W S ε R) : Dialogue Q R ε α → (count : ℕ) → Dialogue W S ε α
  | done x, _ => done x
  | ask q k, n => client n q >>= fun r => (k r).through client (n + 1)

/-- A client asks what it does for the questions of the program. -/
theorem Asks.through {client : ℕ → Q → Dialogue W S ε R} {P : Q → Prop} {P' : W → Prop}
    (hclient : ∀ n q, P q → (client n q).Asks P') {x : Dialogue Q R ε α} (hx : x.Asks P) :
    ∀ n, (x.through client n).Asks P' := by
  induction x with
  | done x => exact fun _ => trivial
  | ask q k ih => exact fun n => Asks.bind (hclient n q hx.1) fun r => ih r (hx.2 r) (n + 1)

/-- What is said to the server, for the questions of a program: one conversation after the
other, each of which ends with the answer. -/
inductive Relayed (client : ℕ → Q → Dialogue W S ε R) (server : List W → W → S) (answers : List Q → Q → R) :
    ℕ → List Q → List W → List Q → List W → Prop
  | nil {n : ℕ} {asked : List Q} {said : List W} : Relayed client server answers n asked said asked said
  | cons {n : ℕ} {q : Q} {asked asked' : List Q} {said mid said' : List W}
      (htold : (client n q).run server said = (.ok (answers asked q), mid))
      (hrest : Relayed client server answers (n + 1) (asked ++ [q]) mid asked' said') :
      Relayed client server answers n asked said asked' said'

variable {client : ℕ → Q → Dialogue W S ε R} {server : List W → W → S}

/-- The answers of a run, in their order, make any server that gives them in this order
another for the program. -/
theorem exists_answers (hclient : ∀ n q said, ∃ r said', (client n q).run server said = (.ok r, said'))
    (x : Dialogue Q R ε α) : ∀ (n : ℕ) (asked : List Q) (said : List W), ∃ rs : List R,
      ∀ answers : List Q → Q → R, (∀ i r, rs[i]? = some r → ∀ qs q, qs.length = asked.length + i → answers qs q = r) →
        ((x.through client n).run server said).1 = (x.run answers asked).1 ∧
          Relayed client server answers n asked said (x.run answers asked).2 ((x.through client n).run server said).2 := by
  induction x with
  | done x => exact fun n asked said => ⟨[], fun answers _ => ⟨rfl, .nil⟩⟩
  | ask q k ih =>
    intro n asked said
    obtain ⟨r, mid, htold⟩ := hclient n q said
    obtain ⟨rs, hrs⟩ := ih r (n + 1) (asked ++ [q]) mid
    refine ⟨r :: rs, fun answers hanswers => ?_⟩
    have hfirst : answers asked q = r := hanswers 0 r rfl asked q rfl
    have hrest := hrs answers fun i r' hi qs q' hlen => by
      rw [List.length_append, List.length_singleton] at hlen
      exact hanswers (i + 1) r' (by rwa [List.getElem?_cons_succ]) qs q' (by omega)
    have hthrough : ((ask q k).through client n).run server said = ((k r).through client (n + 1)).run server mid := by
      show (client n q >>= fun r => (k r).through client (n + 1)).run server said = _
      rw [run_bind, htold]
    have hrun : (ask q k).run answers asked = (k r).run answers (asked ++ [q]) := by
      rw [← hfirst]
      rfl
    rw [hthrough, hrun]
    exact ⟨hrest.1, .cons (hfirst.symm ▸ htold) hrest.2⟩

/-- **Another server.** A program that asks through a client, one that always has an
answer, asks some server. -/
theorem exists_server [Nonempty R] (hclient : ∀ n q said, ∃ r said', (client n q).run server said = (.ok r, said'))
    (x : Dialogue Q R ε α) : ∃ answers : List Q → Q → R,
      ((x.through client 0).run server []).1 = (x.run answers []).1 ∧
        Relayed client server answers 0 [] [] (x.run answers []).2 ((x.through client 0).run server []).2 := by
  obtain ⟨rs, hrs⟩ := exists_answers hclient x 0 [] []
  refine ⟨fun qs _ => rs.getD qs.length (Classical.arbitrary R), hrs _ fun i r hi qs q hlen => ?_⟩
  rw [List.length_nil, Nat.zero_add] at hlen
  rw [hlen, List.getD_eq_getElem?_getD, hi]
  rfl

end Dialogue
