/-
# A bounded broadcast channel

What one receiver sees of a channel that keeps the last `cap` values: values
are sent without waiting, a receiver takes them in order, and one that has
fallen behind by more than `cap` is told how many it missed and goes on with
the oldest that is left. Once the senders are gone and everything is taken,
receiving says so.

A receiver that never has `cap` values left to take when another is sent
misses none (`InReach.send`, `recv_cases`). Any other still accounts for every
value: what it is given and what it is told it missed make up, in order, what
was sent (`Tiled`, `tiled_recv`).

Key definitions: `Broadcast`, `Broadcast.recv`, `Broadcast.InReach`, `Broadcast.Tiled`.
Key theorems: `Broadcast.InReach.send`, `Broadcast.recv_cases`, `Broadcast.taken_lagged`, `Broadcast.tiled_recv`,
`Broadcast.Tiled.sublist`, `Broadcast.Tiled.count`.
-/
import Mathlib.Algebra.Ring.Nat
import Mathlib.Data.List.Basic
import Mathlib.Tactic.Common

/-- A channel, as one receiver sees it: all that was sent since it subscribed,
how much of it is behind it, and whether the senders are gone. -/
structure Broadcast (α : Type) where
  sent : List α
  next : ℕ
  closed : Bool

namespace Broadcast

variable {α : Type}

/-- A new receiver. -/
def subscribe : Broadcast α := ⟨[], 0, false⟩

def send (b : Broadcast α) (a : α) : Broadcast α := { b with sent := b.sent ++ [a] }

/-- The last sender is dropped. -/
def close (b : Broadcast α) : Broadcast α := { b with closed := true }

/-- How many values are left to take. -/
def unread (b : Broadcast α) : ℕ := b.sent.length - b.next

/-- What receiving gives. -/
inductive Received (α : Type) where
  | value (a : α)
  | lagged (missed : ℕ)
  | closed

/-- Receive, at a channel that keeps `cap` values; `none` is to wait. -/
def recv (cap : ℕ) (b : Broadcast α) : Option (Received α × Broadcast α) :=
  if b.next + cap < b.sent.length then
    some (.lagged (b.sent.length - cap - b.next), { b with next := b.sent.length - cap })
  else
    match b.sent[b.next]? with
    | some a => some (.value a, { b with next := b.next + 1 })
    | none => if b.closed then some (.closed, b) else none

/-- What was taken so far, had nothing been missed. -/
def taken (b : Broadcast α) : List α := b.sent.take b.next

/-- What a receiver that has fallen behind is not given. -/
def passed (cap : ℕ) (b : Broadcast α) : List α := (b.sent.drop b.next).take (b.sent.length - cap - b.next)

/-- The receiver is not behind by more than the channel keeps. -/
structure InReach (cap : ℕ) (b : Broadcast α) : Prop where
  next_le : b.next ≤ b.sent.length
  kept : b.sent.length ≤ b.next + cap

variable {cap : ℕ} {b : Broadcast α}

theorem inReach_subscribe : (subscribe : Broadcast α).InReach cap := ⟨Nat.le_refl _, Nat.zero_le _⟩

/-- With room for it, a value that is sent leaves the receiver in reach. -/
theorem InReach.send (h : b.InReach cap) (hroom : b.unread < cap) (a : α) : (b.send a).InReach cap := by
  have h1 := h.next_le
  have h2 : b.sent.length - b.next < cap := hroom
  constructor <;> simp [Broadcast.send] <;> omega

theorem InReach.taken_send (h : b.InReach cap) (a : α) : (b.send a).taken = b.taken := by
  rw [taken, taken, Broadcast.send]
  exact List.take_append_of_le_length h.next_le

theorem taken_next {a : α} (h : b.sent[b.next]? = some a) :
    ({ b with next := b.next + 1 } : Broadcast α).taken = b.taken ++ [a] := by
  rw [taken, taken, List.take_add_one, h]
  rfl

/-- **In reach, nothing is missed.** Receiving takes the next value, or nothing
is left and the channel is closed. -/
theorem recv_cases (h : b.InReach cap) {r : Received α} {b' : Broadcast α} (hr : b.recv cap = some (r, b')) :
    (∃ a, r = .value a ∧ b' = { b with next := b.next + 1 } ∧ b'.taken = b.taken ++ [a] ∧ b'.InReach cap) ∨
      (r = .closed ∧ b' = b ∧ b.closed ∧ b.taken = b.sent) := by
  have h1 := h.next_le
  have h2 := h.kept
  rw [recv, if_neg (by omega)] at hr
  cases hget : b.sent[b.next]? with
  | some a =>
    simp only [hget, Option.some.injEq, Prod.mk.injEq] at hr
    obtain ⟨rfl, rfl⟩ := hr
    have hlt : b.next < b.sent.length := (List.getElem?_eq_some_iff.mp hget).1
    exact .inl ⟨a, rfl, rfl, taken_next hget, ⟨hlt, by simp only; omega⟩⟩
  | none =>
    have hge : b.sent.length ≤ b.next := List.getElem?_eq_none_iff.mp hget
    simp only [hget, Option.ite_none_right_eq_some, Option.some.injEq, Prod.mk.injEq] at hr
    obtain ⟨hclosed, rfl, rfl⟩ := hr
    exact .inr ⟨rfl, rfl, hclosed, List.take_of_length_le hge⟩

/-! ### What a receiver accounts for -/

namespace Received

def value? : Received α → Option α
  | .value a => some a
  | _ => none

/-- How many values it was told it missed. -/
def missed : Received α → ℕ
  | .lagged n => n
  | _ => 0

end Received

/-- What was received covers what was sent, one value or one gap after the other. -/
inductive Tiled : List α → List (Received α) → Prop
  | nil : Tiled [] []
  | value {seen : List α} {rs : List (Received α)} (h : Tiled seen rs) (a : α) :
      Tiled (seen ++ [a]) (rs ++ [.value a])
  | lagged {seen : List α} {rs : List (Received α)} (h : Tiled seen rs) (gap : List α) :
      Tiled (seen ++ gap) (rs ++ [.lagged gap.length])
  | closed {seen : List α} {rs : List (Received α)} (h : Tiled seen rs) : Tiled seen (rs ++ [.closed])

variable {seen : List α} {rs : List (Received α)}

/-- The values are of those sent, in their order, and none comes twice. -/
theorem Tiled.sublist (h : Tiled seen rs) : (rs.filterMap Received.value?).Sublist seen := by
  induction h with
  | nil => exact List.Sublist.refl _
  | value _ a ih =>
    rw [List.filterMap_append]
    exact ih.append (List.Sublist.refl [a])
  | lagged _ gap ih =>
    rw [List.filterMap_append]
    exact ih.append (List.nil_sublist gap)
  | closed _ ih =>
    rw [List.filterMap_append]
    exact (List.append_nil _).symm ▸ ih

/-- The values and the gaps are as many as were sent. -/
theorem Tiled.count (h : Tiled seen rs) :
    (rs.filterMap Received.value?).length + (rs.map Received.missed).sum = seen.length := by
  induction h with
  | nil => rfl
  | value _ a ih =>
    simp only [List.filterMap_append, List.map_append, List.length_append, List.sum_append, ← ih]
    simp only [List.filterMap_cons, List.filterMap_nil, Received.value?, Received.missed, List.map_cons, List.map_nil,
      List.sum_cons, List.sum_nil, List.length_cons, List.length_nil]
    omega
  | lagged _ gap ih =>
    simp only [List.filterMap_append, List.map_append, List.length_append, List.sum_append, ← ih]
    simp only [List.filterMap_cons, List.filterMap_nil, Received.value?, Received.missed, List.map_cons, List.map_nil,
      List.sum_cons, List.sum_nil, List.length_nil]
    omega
  | closed _ ih =>
    simp only [List.filterMap_append, List.map_append, List.length_append, List.sum_append, ← ih]
    simp only [List.filterMap_cons, List.filterMap_nil, Received.value?, Received.missed, List.map_cons, List.map_nil,
      List.sum_cons, List.sum_nil, List.length_nil]
    omega

theorem taken_value {a : α} {b' : Broadcast α} (hr : b.recv cap = some (.value a, b')) : b'.taken = b.taken ++ [a] := by
  unfold recv at hr
  split at hr
  · cases hr
  · split at hr
    · next a' hget =>
      obtain ⟨hvalue, rfl⟩ := Prod.mk.inj (Option.some.inj hr)
      obtain rfl : a' = a := Received.value.inj hvalue
      exact taken_next hget
    · split at hr <;> cases hr

theorem taken_lagged {n : ℕ} {b' : Broadcast α} (hr : b.recv cap = some (.lagged n, b')) :
    b'.taken = b.taken ++ b.passed cap ∧ (b.passed cap).length = n ∧ b'.sent = b.sent ∧ b'.closed = b.closed ∧
      b'.unread = cap ∧ b.unread = cap + n ∧ 0 < n := by
  unfold recv at hr
  by_cases hlag : b.next + cap < b.sent.length
  · rw [if_pos hlag] at hr
    obtain ⟨hn, rfl⟩ := Prod.mk.inj (Option.some.inj hr)
    obtain rfl : b.sent.length - cap - b.next = n := Received.lagged.inj hn
    refine ⟨?_, ?_, rfl, rfl, ?_, ?_, by omega⟩
    · unfold taken passed
      rw [← List.take_add]
      congr 1
      simp only
      omega
    · unfold passed
      rw [List.length_take, List.length_drop]
      omega
    · show b.sent.length - (b.sent.length - cap) = cap
      omega
    · show b.sent.length - b.next = cap + (b.sent.length - cap - b.next)
      omega
  · rw [if_neg hlag] at hr
    split at hr
    · cases hr
    · split at hr <;> cases hr

/-- **Receiving.** A receiver that has accounted for what is behind it goes on to; it is
told that the channel is closed only with nothing left. What it misses is the oldest:
the last `cap` values are kept for it. -/
theorem tiled_recv (hnext : b.next ≤ b.sent.length) (ht : Tiled b.taken rs) {r : Received α} {b' : Broadcast α}
    (hr : b.recv cap = some (r, b')) :
    b'.sent = b.sent ∧ b'.closed = b.closed ∧ b'.next ≤ b'.sent.length ∧ Tiled b'.taken (rs ++ [r]) ∧
      (match r with
        | .value _ => b'.unread + 1 = b.unread
        | .lagged n => b'.unread = cap ∧ b.unread = cap + n ∧ 0 < n
        | .closed => b' = b ∧ b.closed ∧ b.unread = 0) := by
  by_cases hlag : b.next + cap < b.sent.length
  · obtain ⟨rfl, rfl⟩ : .lagged (b.sent.length - cap - b.next) = r ∧ { b with next := b.sent.length - cap } = b' := by
      rw [recv, if_pos hlag] at hr
      exact Prod.mk.inj (Option.some.inj hr)
    obtain ⟨htaken, hlen, -, -, hunread⟩ := taken_lagged hr
    refine ⟨rfl, rfl, Nat.sub_le _ _, ?_, hunread⟩
    rw [htaken, ← hlen]
    exact ht.lagged _
  · rw [recv, if_neg hlag] at hr
    cases hget : b.sent[b.next]? with
    | some a =>
      simp only [hget, Option.some.injEq, Prod.mk.injEq] at hr
      obtain ⟨rfl, rfl⟩ := hr
      have hlt : b.next < b.sent.length := (List.getElem?_eq_some_iff.mp hget).1
      refine ⟨rfl, rfl, hlt, ?_, ?_⟩
      · rw [taken_next hget]
        exact ht.value a
      · show b.sent.length - (b.next + 1) + 1 = b.sent.length - b.next
        omega
    | none =>
      simp only [hget, Option.ite_none_right_eq_some, Option.some.injEq, Prod.mk.injEq] at hr
      obtain ⟨hclosed, rfl, rfl⟩ := hr
      have hge : b.sent.length ≤ b.next := List.getElem?_eq_none_iff.mp hget
      exact ⟨rfl, rfl, hnext, ht.closed, rfl, hclosed, Nat.sub_eq_zero_of_le hge⟩

/-- A receiver waits only for values that were not sent yet. -/
theorem recv_eq_none (hr : b.recv cap = none) : b.unread = 0 ∧ b.closed = false := by
  unfold recv at hr
  by_cases hlag : b.next + cap < b.sent.length
  · rw [if_pos hlag] at hr
    cases hr
  · rw [if_neg hlag] at hr
    cases hget : b.sent[b.next]? with
    | some a => simp [hget] at hr
    | none =>
      have hge : b.sent.length ≤ b.next := List.getElem?_eq_none_iff.mp hget
      refine ⟨Nat.sub_eq_zero_of_le hge, ?_⟩
      simpa [hget] using hr

end Broadcast
