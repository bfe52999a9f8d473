/-
# Windows that the calls open

A counter admits `m` calls in a window of length `w`. There is no grid of windows: a window opens at the
first call at which the last one is over. So windows are at least `w` apart, what is admitted in one lies within `w`
of its start (`Cut`), and an interval of length `w` meets no three of them (`count_interval_le`).

Key definitions: `FixedWindow.check`, `FixedWindow.starts`, `FixedWindow.Cut`, `FixedWindow.Tracks`.
Key theorems: `FixedWindow.count_interval_le`, `FixedWindow.count_window_le`, `FixedWindow.run_tracks`.
-/
import Mathlib.Algebra.Order.Group.Defs
import Mathlib.Data.List.Infix
import Mathlib.Tactic.Common
import Sherwood.Lib.Lts

/-- The start of the window that is open, and how many calls it has admitted. -/
structure FixedWindow (T : Type) where
  start : T
  count : ℕ

namespace FixedWindow

/-- A call: when, whether it opened a window, and whether it was admitted. -/
structure Call (T : Type) where
  now : T
  opened : Bool
  ok : Bool

variable {T : Type}

/-- The times of the calls that were admitted. -/
def admitted (os : List (Call T)) : List T := (os.filter (·.ok)).map (·.now)

/-- The starts of the windows: of the first one, and the calls that opened one. -/
def starts (t₀ : T) (os : List (Call T)) : List T := t₀ :: (os.filter (·.opened)).map (·.now)

theorem admitted_concat (os : List (Call T)) (o : Call T) :
    admitted (os ++ [o]) = admitted os ++ if o.ok then [o.now] else [] := by
  cases h : o.ok <;> simp [admitted, h]

theorem starts_concat (t₀ : T) (os : List (Call T)) (o : Call T) :
    starts t₀ (os ++ [o]) = starts t₀ os ++ if o.opened then [o.now] else [] := by
  cases h : o.opened <;> simp [starts, h]

/-- A window: its start and what it admitted. -/
structure Window (T : Type) where
  start : T
  times : List T

/-- All that was admitted. -/
def times (ws : List (Window T)) : List T := ws.flatMap (·.times)

theorem times_append (ws ws' : List (Window T)) : times (ws ++ ws') = times ws ++ times ws' := List.flatMap_append

theorem times_cons (c : Window T) (ws : List (Window T)) : times (c :: ws) = c.times ++ times ws := List.flatMap_cons

variable [LinearOrder T] [AddCommMonoid T]

def new (t₀ : T) : FixedWindow T := ⟨t₀, 0⟩

/-- A window is over at a time. -/
def Over (w : T) (c : FixedWindow T) (now : T) : Prop := c.start + w ≤ now

instance (w : T) (c : FixedWindow T) (now : T) : Decidable (c.Over w now) := inferInstanceAs (Decidable (_ ≤ _))

/-- A call opens a window if the last one is over, and is admitted if there is room in it. -/
def check (m : ℕ) (w : T) (c : FixedWindow T) (now : T) : FixedWindow T × Call T :=
  let c' := if c.Over w now then new now else c
  if c'.count < m then (⟨c'.start, c'.count + 1⟩, ⟨now, c.Over w now, true⟩)
  else (c', ⟨now, c.Over w now, false⟩)

def system (m : ℕ) (w : T) : Lts (FixedWindow T) T (Call T) where
  step c now := some (c.check m w now)

/-! ### Windows apart -/

/-- Windows that are at least `w` apart, with what they admitted within `w` of their starts. -/
structure Cut (w : T) (ws : List (Window T)) : Prop where
  within : ∀ c ∈ ws, ∀ t ∈ c.times, c.start ≤ t ∧ t < c.start + w
  apart : ws.Pairwise fun c c' => c.start + w ≤ c'.start

variable {w : T} {m : ℕ} {ws : List (Window T)} {c : Window T} {a b : T}

theorem Cut.tail (h : Cut w (c :: ws)) : Cut w ws :=
  ⟨fun c' hc' => h.within c' (List.mem_cons_of_mem _ hc'), (List.pairwise_cons.mp h.apart).2⟩

theorem cut_append {before after : List (Window T)} : Cut w (before ++ after) ↔
    Cut w before ∧ Cut w after ∧ ∀ c ∈ before, ∀ c' ∈ after, c.start + w ≤ c'.start := by
  constructor
  · rintro ⟨hwithin, hapart⟩
    obtain ⟨hbefore, hafter, hcross⟩ := List.pairwise_append.mp hapart
    exact ⟨⟨fun c hc => hwithin c (List.mem_append_left _ hc), hbefore⟩,
      ⟨fun c hc => hwithin c (List.mem_append_right _ hc), hafter⟩, hcross⟩
  · rintro ⟨hbefore, hafter, hcross⟩
    refine ⟨fun c hc => ?_, List.pairwise_append.mpr ⟨hbefore.apart, hafter.apart, hcross⟩⟩
    rcases List.mem_append.mp hc with hc | hc
    · exact hbefore.within c hc
    · exact hafter.within c hc

theorem cut_singleton : Cut w [c] ↔ ∀ t ∈ c.times, c.start ≤ t ∧ t < c.start + w :=
  ⟨fun h => h.within c List.mem_cons_self, fun h => ⟨by simpa using h, List.pairwise_singleton _ _⟩⟩

/-- Windows that start too late admit nothing in the interval. -/
theorem count_eq_zero_of_late (h : Cut w ws) (hlate : ∀ c ∈ ws, b ≤ c.start) :
    (times ws).countP (fun t => a ≤ t ∧ t < b) = 0 := by
  rw [List.countP_eq_zero]
  intro t ht
  obtain ⟨c, hc, ht⟩ := List.mem_flatMap.mp ht
  have hstart := (h.within c hc t ht).1
  simp [((hlate c hc).trans hstart)]

/-- **From a start to the next.** Times that are not before a window, nor in the later ones, are its own. -/
theorem count_window_le {before after : List (Window T)} (h : Cut w (before ++ c :: after))
    (hm : c.times.length ≤ m) {P : T → Bool} (hfrom : ∀ t, P t = true → c.start ≤ t)
    (hto : ∀ c' ∈ after, ∀ t, P t = true → t < c'.start) : (times (before ++ c :: after)).countP P ≤ m := by
  obtain ⟨-, hafter, hcross⟩ := List.pairwise_append.mp h.apart
  have hbefore : (times before).countP P = 0 := by
    rw [List.countP_eq_zero]
    intro t ht hP
    obtain ⟨c', hc', ht⟩ := List.mem_flatMap.mp ht
    have hlt := (h.within c' (List.mem_append_left _ hc') t ht).2
    exact absurd (hlt.trans_le (hcross c' hc' c List.mem_cons_self)) (not_lt.mpr (hfrom t hP))
  have hlater : (times after).countP P = 0 := by
    rw [List.countP_eq_zero]
    intro t ht hP
    obtain ⟨c', hc', ht⟩ := List.mem_flatMap.mp ht
    have hle := (h.within c' (List.mem_append_right _ (List.mem_cons_of_mem c hc')) t ht).1
    exact absurd (hto c' hc' t hP) (not_lt.mpr hle)
  rw [times_append, times_cons, List.countP_append, List.countP_append, hbefore, hlater]
  have := List.countP_le_length (p := P) (l := c.times)
  omega

/-! ### Runs -/

/-- The calls of a run as windows, of which the last one is open. -/
structure Tracks (m : ℕ) (w t₀ : T) (os : List (Call T)) (c : FixedWindow T) (ws : List (Window T))
    (last : Window T) : Prop where
  starts : (ws ++ [last]).map (·.start) = starts t₀ os
  admitted : times (ws ++ [last]) = admitted os
  cut : Cut w (ws ++ [last])
  room : ∀ c' ∈ ws ++ [last], c'.times.length ≤ m
  start : c.start = last.start
  count : c.count = last.times.length

variable {t₀ : T} {os : List (Call T)} {s : FixedWindow T}

theorem tracks_new : Tracks m w t₀ [] (new t₀) [] ⟨t₀, []⟩ where
  starts := rfl
  admitted := rfl
  cut := cut_singleton.mpr (by simp)
  room := by simp
  start := rfl
  count := rfl

theorem Tracks.start_le {ws : List (Window T)} {last : Window T} (h : Tracks m w t₀ os s ws last) {now : T}
    (hnow : ∀ t ∈ t₀ :: os.map (·.now), t ≤ now) : last.start ≤ now := by
  have hmem : last.start ∈ FixedWindow.starts t₀ os := by
    rw [← h.starts]
    simp
  refine hnow _ ?_
  rcases List.mem_cons.mp hmem with heq | hmem
  · exact heq ▸ List.mem_cons_self
  · obtain ⟨o, ho, heq⟩ := List.mem_map.mp hmem
    exact List.mem_cons_of_mem _ (List.mem_map.mpr ⟨o, (List.mem_filter.mp ho).1, heq⟩)

theorem Tracks.admit {ws : List (Window T)} {last : Window T} (h : Tracks m w t₀ os s ws last) {now : T}
    (hnow : ∀ t ∈ t₀ :: os.map (·.now), t ≤ now) (hopen : ¬ s.Over w now) (hroom : s.count < m) :
    Tracks m w t₀ (os ++ [⟨now, false, true⟩]) ⟨s.start, s.count + 1⟩ ws ⟨last.start, last.times ++ [now]⟩ := by
  have hlt : now < last.start + w := h.start ▸ not_le.mp hopen
  obtain ⟨hws, hlast, hcross⟩ := cut_append.mp h.cut
  refine ⟨?_, ?_, ?_, ?_, h.start, ?_⟩
  · rw [starts_concat, ← h.starts]
    simp
  · rw [admitted_concat, ← h.admitted]
    simp [times]
  · refine cut_append.mpr ⟨hws, cut_singleton.mpr fun t ht => ?_, fun c hc c' hc' => ?_⟩
    · rcases List.mem_append.mp ht with ht | ht
      · exact cut_singleton.mp hlast t ht
      · rw [List.mem_singleton.mp ht]
        exact ⟨h.start_le hnow, hlt⟩
    · rw [List.mem_singleton.mp hc']
      exact hcross c hc last List.mem_cons_self
  · intro c hc
    rcases List.mem_append.mp hc with hc | hc
    · exact h.room c (List.mem_append_left _ hc)
    · rw [List.mem_singleton.mp hc, List.length_append, List.length_singleton, ← h.count]
      exact hroom
  · rw [List.length_append, List.length_singleton, ← h.count]

theorem Tracks.refuse {ws : List (Window T)} {last : Window T} (h : Tracks m w t₀ os s ws last) (now : T) :
    Tracks m w t₀ (os ++ [⟨now, false, false⟩]) s ws last := by
  refine ⟨?_, ?_, h.cut, h.room, h.start, h.count⟩
  · rw [starts_concat, h.starts]
    simp
  · rw [admitted_concat, h.admitted]
    simp

/-- The open window has all there is since its start. -/
theorem Tracks.since_last {ws : List (Window T)} {last : Window T} (h : Tracks m w t₀ os s ws last)
    (ha : (FixedWindow.starts t₀ os).getLast? = some a) : (FixedWindow.admitted os).countP (fun t => a ≤ t) ≤ m := by
  rw [← h.starts, List.map_append, List.map_singleton, List.getLast?_concat, Option.some.injEq] at ha
  rw [← h.admitted]
  refine count_window_le h.cut (h.room last (by simp)) (fun t ht => ?_) (by simp)
  rw [ha]
  exact of_decide_eq_true ht

/-- What a call is. -/
theorem check_cases (hm : 0 < m) (s : FixedWindow T) (now : T) :
    (s.Over w now ∧ s.check m w now = (⟨now, 1⟩, ⟨now, true, true⟩)) ∨
      (¬ s.Over w now ∧ s.count < m ∧ s.check m w now = (⟨s.start, s.count + 1⟩, ⟨now, false, true⟩)) ∨
      (¬ s.Over w now ∧ m ≤ s.count ∧ s.check m w now = (s, ⟨now, false, false⟩)) := by
  unfold check
  by_cases hover : s.Over w now
  · simp [hover, new, hm]
  · by_cases hroom : s.count < m
    · simp [hover, hroom]
    · simp [hover, hroom, not_lt.mp hroom]

/-! ### How many -/

variable [IsOrderedCancelAddMonoid T]

/-- A call that opens a window is the first that it admits. -/
theorem Tracks.opened (hm : 0 < m) (hw : 0 < w) {ws : List (Window T)} {last : Window T}
    (h : Tracks m w t₀ os s ws last) {now : T} (hover : s.Over w now) :
    Tracks m w t₀ (os ++ [⟨now, true, true⟩]) ⟨now, 1⟩ (ws ++ [last]) ⟨now, [now]⟩ := by
  refine ⟨?_, ?_, ?_, ?_, rfl, rfl⟩
  · rw [List.map_append, h.starts, starts_concat]
    rfl
  · rw [times_append, h.admitted, admitted_concat]
    rfl
  · refine cut_append.mpr ⟨h.cut, cut_singleton.mpr (by simp [hw]), ?_⟩
    have hlast : last.start + w ≤ now := h.start ▸ hover
    intro c hc c' hc'
    obtain rfl := List.mem_singleton.mp hc'
    rcases List.mem_append.mp hc with hc | hc
    · have hle := (cut_append.mp h.cut).2.2 c hc last List.mem_cons_self
      exact hle.trans ((le_add_of_nonneg_right hw.le).trans hlast)
    · rwa [List.mem_singleton.mp hc]
  · intro c hc
    rcases List.mem_append.mp hc with hc | hc
    · exact h.room c hc
    · rw [List.mem_singleton.mp hc]
      exact hm

/-- **The windows of a run.** -/
theorem run_tracks (hm : 0 < m) (hw : 0 < w) (h : (system m w).Run (new t₀) os s)
    (hsorted : (t₀ :: os.map (·.now)).Pairwise (· ≤ ·)) : ∃ ws last, Tracks m w t₀ os s ws last := by
  induction h with
  | nil => exact ⟨[], _, tracks_new⟩
  | @snoc os s now s' o hrun hstep ih =>
    have hcall : s.check m w now = (s', o) := Option.some.inj hstep
    rw [List.map_append, ← List.cons_append, List.pairwise_append] at hsorted
    obtain ⟨hbefore, -, hnow⟩ := hsorted
    obtain ⟨ws, last, htracks⟩ := ih hbefore
    rcases s.check_cases hm now with ⟨hover, hcheck⟩ | ⟨hopen, hroom, hcheck⟩ | ⟨hopen, hfull, hcheck⟩
    · obtain ⟨rfl, rfl⟩ := Prod.mk.inj (hcheck.symm.trans hcall)
      exact ⟨_, _, htracks.opened hm hw hover⟩
    · obtain ⟨rfl, rfl⟩ := Prod.mk.inj (hcheck.symm.trans hcall)
      exact ⟨_, _, htracks.admit (fun t ht => hnow t ht now (by simp)) hopen hroom⟩
    · obtain ⟨rfl, rfl⟩ := Prod.mk.inj (hcheck.symm.trans hcall)
      exact ⟨_, _, htracks.refuse now⟩

/-- Of windows that start no earlier than the interval, only the first admits anything in it. -/
theorem count_le_of_start (h : Cut w ws) (hm : ∀ c ∈ ws, c.times.length ≤ m) (hstart : ∀ c ∈ ws, a ≤ c.start) :
    (times ws).countP (fun t => a ≤ t ∧ t < a + w) ≤ m := by
  cases ws with
  | nil => simp [times]
  | cons c ws =>
    have hlate : (times ws).countP (fun t => a ≤ t ∧ t < a + w) = 0 := by
      refine count_eq_zero_of_late h.tail fun c' hc' => ?_
      exact (add_le_add_left (hstart c List.mem_cons_self) w).trans ((List.pairwise_cons.mp h.apart).1 c' hc')
    rw [times_cons, List.countP_append, hlate, Nat.add_zero]
    exact List.countP_le_length.trans (hm c List.mem_cons_self)

/-- **Any interval.** One of length `w` meets no three windows. -/
theorem count_interval_le (h : Cut w ws) (hm : ∀ c ∈ ws, c.times.length ≤ m) (a : T) :
    (times ws).countP (fun t => a ≤ t ∧ t < a + w) ≤ 2 * m := by
  induction ws with
  | nil => simp [times]
  | cons c ws ih =>
    have hrest := fun c' hc' => hm c' (List.mem_cons_of_mem c hc')
    have hfirst : c.times.countP (fun t => a ≤ t ∧ t < a + w) ≤ m :=
      List.countP_le_length.trans (hm c List.mem_cons_self)
    rw [times_cons, List.countP_append]
    by_cases hnext : ∀ c' ∈ ws, a ≤ c'.start
    · have := count_le_of_start h.tail hrest hnext
      omega
    · -- a window that starts before the interval leaves nothing of the earlier ones in it
      push Not at hnext
      obtain ⟨c', hc', hbefore⟩ := hnext
      have hnone : c.times.countP (fun t => a ≤ t ∧ t < a + w) = 0 := by
        rw [List.countP_eq_zero]
        intro t ht
        have hlt := (h.within c List.mem_cons_self t ht).2
        have hle := (List.pairwise_cons.mp h.apart).1 c' hc'
        simp [(hlt.trans_le hle).trans hbefore]
      have := ih h.tail hrest
      omega

/-- What is admitted in windows: in each, in any interval of the length of one, and before a call that
is refused. -/
structure Bounded (m : ℕ) (w t₀ : T) (os : List (Call T)) : Prop where
  between : ∀ a b, [a, b] <:+: FixedWindow.starts t₀ os → (FixedWindow.admitted os).countP (fun t => a ≤ t ∧ t < b) ≤ m
  last : ∀ a, (FixedWindow.starts t₀ os).getLast? = some a → (FixedWindow.admitted os).countP (fun t => a ≤ t) ≤ m
  interval : ∀ a, (FixedWindow.admitted os).countP (fun t => a ≤ t ∧ t < a + w) ≤ 2 * m
  refused : ∀ pre o post, os = pre ++ o :: post → o.ok = false →
    m ≤ (FixedWindow.admitted pre).countP fun t => t ≤ o.now ∧ o.now < t + w

theorem exists_of_infix_map {α β : Type} {f : α → β} {l : List α} {a b : β} (h : [a, b] <:+: l.map f) :
    ∃ before c c' after, l = before ++ c :: c' :: after ∧ f c = a ∧ f c' = b := by
  obtain ⟨pre, post, hsplit⟩ := h
  rw [List.append_assoc, List.cons_append, List.cons_append, List.nil_append] at hsplit
  obtain ⟨before, rest, rfl, -, hrest⟩ := List.map_eq_append_iff.mp hsplit.symm
  obtain ⟨c, rest, rfl, hc, hrest⟩ := List.map_eq_cons_iff.mp hrest
  obtain ⟨c', after, rfl, hc', -⟩ := List.map_eq_cons_iff.mp hrest
  exact ⟨before, c, c', after, rfl, hc, hc'⟩

theorem Tracks.between {ws : List (Window T)} {last : Window T} (h : Tracks m w t₀ os s ws last) (hw : 0 < w)
    (hab : [a, b] <:+: FixedWindow.starts t₀ os) : (FixedWindow.admitted os).countP (fun t => a ≤ t ∧ t < b) ≤ m := by
  rw [← h.starts] at hab
  obtain ⟨before, c, c', after, hws, rfl, rfl⟩ := exists_of_infix_map hab
  have hcut := h.cut
  have hroom := h.room
  rw [hws] at hcut hroom
  rw [← h.admitted, hws]
  refine count_window_le hcut (hroom c (by simp)) (fun t ht => (of_decide_eq_true ht).1) fun c'' hc'' t ht => ?_
  have hlt : t < c'.start := (of_decide_eq_true ht).2
  rcases List.mem_cons.mp hc'' with rfl | hafter
  · exact hlt
  · have happart := (cut_append.mp hcut).2.1.tail.apart
    exact hlt.trans_le ((le_add_of_nonneg_right hw.le).trans ((List.pairwise_cons.mp happart).1 c'' hafter))

theorem Tracks.full {ws : List (Window T)} {last : Window T} (h : Tracks m w t₀ os s ws last) {now : T}
    (hnow : ∀ t ∈ os.map (·.now), t ≤ now) (hopen : ¬ s.Over w now) (hfull : m ≤ s.count) :
    m ≤ (FixedWindow.admitted os).countP fun t => t ≤ now ∧ now < t + w := by
  have hlast : ∀ t ∈ last.times, decide (t ≤ now ∧ now < t + w) = true := by
    intro t ht
    have hadmitted : t ∈ FixedWindow.admitted os := by
      rw [← h.admitted, times_append]
      exact List.mem_append_right _ (by simpa [times] using ht)
    obtain ⟨o, ho, heq⟩ := List.mem_map.mp hadmitted
    have hstart := (h.cut.within last (by simp) t ht).1
    have hlt : now < last.start + w := h.start ▸ not_le.mp hopen
    exact decide_eq_true
      ⟨hnow t (List.mem_map.mpr ⟨o, (List.mem_filter.mp ho).1, heq⟩), hlt.trans_le (add_le_add_left hstart w)⟩
  have hcount := List.countP_eq_length.mpr hlast
  rw [← h.admitted, times_append, List.countP_append, times_cons, List.countP_append, hcount, ← h.count]
  omega

/-- **Windows bound the calls.** -/
theorem run_bounded (hm : 0 < m) (hw : 0 < w) (h : (system m w).Run (new t₀) os s)
    (hsorted : (t₀ :: os.map (·.now)).Pairwise (· ≤ ·)) : Bounded m w t₀ os := by
  obtain ⟨ws, last, htracks⟩ := run_tracks hm hw h hsorted
  refine ⟨fun a b => htracks.between hw, fun a => htracks.since_last, fun a => ?_, fun pre o post hos hno => ?_⟩
  · rw [← htracks.admitted]
    exact count_interval_le htracks.cut htracks.room a
  · obtain ⟨s₁, now, s₂, hpre, hstep⟩ := h.split hos
    have hcall : s₁.check m w now = (s₂, o) := Option.some.inj hstep
    rw [hos, List.map_append, ← List.cons_append, List.pairwise_append] at hsorted
    obtain ⟨hbefore, -, hnow⟩ := hsorted
    obtain ⟨ws₁, last₁, htracks₁⟩ := run_tracks hm hw hpre hbefore
    rcases s₁.check_cases hm now with ⟨hover, hcheck⟩ | ⟨hopen, hroom, hcheck⟩ | ⟨hopen, hfull, hcheck⟩
    · obtain ⟨rfl, rfl⟩ := Prod.mk.inj (hcheck.symm.trans hcall)
      cases hno
    · obtain ⟨rfl, rfl⟩ := Prod.mk.inj (hcheck.symm.trans hcall)
      cases hno
    · obtain ⟨rfl, rfl⟩ := Prod.mk.inj (hcheck.symm.trans hcall)
      exact htracks₁.full (fun t ht => hnow t (List.mem_cons_of_mem _ ht) now (by simp)) hopen hfull

end FixedWindow
