/-
# The drawdown of an equity curve

`max_drawdown_pct` goes over a curve once, and compares each point with the highest one so far. What it
returns is the largest drop from any point to a later one, in percent of the point it is from: points are not
negative, so from a higher one the drop is no smaller (`favours_dropPct`). It divides by a peak only
where that is above zero.

Each operation is one of an arithmetic that may panic. In exact arithmetic none does; in decimals none does
either, since what is computed lies between zero and a decimal (`IsDecimal.fit_between`).

Key definitions: `maxDrawdownPctIn`, `dropPct`.
Key theorems: `maxDrawdownPctIn_exact`, `drawdownStep_dec96`, `max_drawdown_pct_isGreatest`.
-/
import Sherwood.Cli.Backtest
import Sherwood.Lib.RunningPeak

namespace Sherwood

open RunningPeak (Gains Favours)

variable {ε : Type}

/-- `a - b`. -/
def Arith.sub (A : Arith) (a b : ℚ) : Outcome ε ℚ := .unwrap (A.fit (a - b))

@[simp] theorem Arith.exact_sub (a b : ℚ) : (Arith.exact.sub a b : Outcome ε ℚ) = .ok (a - b) := rfl

/-- One turn of the loop of `max_drawdown_pct`: the peak, and the worst drop from it. -/
def drawdownStep (A : Arith) (acc : ℚ × ℚ) (e : ℚ) : Outcome ε (ℚ × ℚ) := do
  let peak := if e > acc.1 then e else acc.1
  if peak > 0 then
    let dd ← A.mul (← A.div (← A.sub peak e) peak) 100
    return (peak, if dd > acc.2 then dd else acc.2)
  else return (peak, acc.2)

/-- `max_drawdown_pct`, operation by operation. -/
def maxDrawdownPctIn (A : Arith) (curve : List ℚ) : Outcome ε ℚ := do
  let acc ← curve.foldlM (drawdownStep A) (curve.head?.getD 0, 0)
  return acc.2

/-- The drop from a point to another, in percent; there is none from zero. -/
def dropPct (c e : ℚ) : ℚ := if 0 < c then (c - e) / c * 100 else 0

theorem dropPct_le {c e : ℚ} (he : 0 ≤ e) : dropPct c e ≤ 100 := by
  unfold dropPct
  split_ifs with hc
  · have hone : (c - e) / c ≤ 1 := by
      rw [div_le_one hc]
      linarith
    linarith
  · norm_num

theorem favours_dropPct : Favours dropPct {c | 0 ≤ c} := by
  intro c hc p _ e he hcp hep
  unfold dropPct
  by_cases hpos : 0 < c
  · rw [if_pos hpos, if_pos (hpos.trans_le hcp)]
    have hdiv : e / p ≤ e / c := div_le_div_of_nonneg_left he hpos hcp
    have hsplit (q : ℚ) (hq : 0 < q) : (q - e) / q = 1 - e / q := by rw [sub_div, div_self hq.ne']
    rw [hsplit c hpos, hsplit p (hpos.trans_le hcp)]
    linarith
  · rw [if_neg hpos]
    split_ifs with hp
    · have : 0 ≤ (p - e) / p := div_nonneg (by linarith) hp.le
      linarith
    · exact le_rfl

/-! ### In exact arithmetic -/

theorem max_eq_ite (a b : ℚ) : (if b > a then b else a) = max a b := by
  split_ifs with h
  · exact (max_eq_right h.le).symm
  · exact (max_eq_left (not_lt.mp h)).symm

theorem drawdownStep_exact {acc : ℚ × ℚ} (h0 : 0 ≤ acc.2) (e : ℚ) :
    (drawdownStep .exact acc e : Outcome ε _) = .ok (RunningPeak.next dropPct acc e) := by
  unfold drawdownStep RunningPeak.next dropPct
  simp only [max_eq_ite]
  by_cases hpeak : 0 < max acc.1 e
  · rw [if_pos hpeak, if_pos hpeak, Arith.exact_sub, Outcome.ok_bind, Arith.exact_div hpeak.ne']
    rfl
  · rw [if_neg hpeak, if_neg hpeak, max_eq_left h0]
    rfl

theorem foldlM_drawdownStep_exact (curve : List ℚ) {acc : ℚ × ℚ} (h0 : 0 ≤ acc.2) :
    (curve.foldlM (drawdownStep .exact) acc : Outcome ε _) = .ok (curve.foldl (RunningPeak.next dropPct) acc) := by
  induction curve generalizing acc with
  | nil => rfl
  | cons e curve ih =>
    rw [List.foldlM_cons, drawdownStep_exact h0, Outcome.ok_bind, List.foldl_cons]
    exact ih (h0.trans (le_max_left _ _))

/-- **One pass.** It is the search for the best pair. -/
theorem maxDrawdownPctIn_exact (curve : List ℚ) :
    (maxDrawdownPctIn .exact curve : Outcome ε ℚ) = .ok (RunningPeak.best dropPct 0 curve) := by
  rw [maxDrawdownPctIn, foldlM_drawdownStep_exact curve le_rfl]
  cases curve <;> rfl

theorem maxDrawdownPct_eq (curve : List ℚ) : maxDrawdownPct curve = RunningPeak.best dropPct 0 curve := by
  cases curve with
  | nil => rfl
  | cons c curve =>
    refine congrArg Prod.snd (List.foldl_rel (r := fun acc acc' : ℚ × ℚ => acc = acc' ∧ 0 ≤ acc.2) ⟨rfl, le_rfl⟩ ?_).1
    rintro e - acc _ ⟨rfl, h0⟩
    simp only [max_eq_ite]
    have hturn : RunningPeak.next dropPct acc e = (max acc.1 e,
        if max acc.1 e > 0 then max acc.2 ((max acc.1 e - e) / max acc.1 e * 100) else acc.2) := by
      unfold RunningPeak.next dropPct
      split_ifs
      · rfl
      · rw [max_eq_left h0]
    have hworst : 0 ≤ (RunningPeak.next dropPct acc e).2 := h0.trans (le_max_left _ _)
    rw [hturn] at hworst ⊢
    exact ⟨rfl, hworst⟩

/-! ### In decimals -/

/-- What holds of the loop: a peak that is a decimal and not negative, and a worst drop in percent. -/
structure DrawdownWithin (acc : ℚ × ℚ) : Prop where
  decimal : IsDecimal acc.1
  peak : 0 ≤ acc.1
  worst : 0 ≤ acc.2
  le : acc.2 ≤ 100

theorem isDecimal_hundred : IsDecimal 100 := ⟨100, 0, by decide, by omega, by norm_num⟩

theorem isDecimal_one : IsDecimal 1 := ⟨1, 0, by decide, by omega, by norm_num⟩

theorem IsDecimal.fit_between {v q : ℚ} (hv : IsDecimal v) (h0 : 0 ≤ q) (hle : q ≤ v) :
    ∃ w, Arith.dec96.fit q = some w ∧ 0 ≤ w ∧ w ≤ v := by
  obtain ⟨w, hw, hnonneg, hwv⟩ := fit_of_le h0 hle hv.fit_self
  exact ⟨w, hw, hnonneg, hwv⟩

theorem drawdownStep_dec96 {acc : ℚ × ℚ} {e : ℚ} (h : DrawdownWithin acc) (he : IsDecimal e) (h0 : 0 ≤ e) :
    ∃ acc', (drawdownStep .dec96 acc e : Outcome ε _) = .ok acc' ∧ DrawdownWithin acc' := by
  unfold drawdownStep
  simp only [max_eq_ite]
  have hpeak : IsDecimal (max acc.1 e) := by
    rcases max_choice acc.1 e with hmax | hmax
    · rw [hmax]
      exact h.decimal
    · rw [hmax]
      exact he
  by_cases hpos : 0 < max acc.1 e
  · rw [if_pos hpos]
    have hle : e ≤ max acc.1 e := le_max_right _ _
    obtain ⟨gap, hgap, hgap0, hgaple⟩ := hpeak.fit_between (sub_nonneg.mpr hle) (sub_le_self _ h0)
    obtain ⟨part, hpart, hpart0, hpartle⟩ :=
      isDecimal_one.fit_between (div_nonneg hgap0 hpos.le) ((div_le_one hpos).mpr hgaple)
    obtain ⟨dd, hdd, hdd0, hddle⟩ :=
      isDecimal_hundred.fit_between (mul_nonneg hpart0 (by norm_num : (0 : ℚ) ≤ 100)) (by linarith)
    refine ⟨(max acc.1 e, max acc.2 dd), ?_, ⟨hpeak, hpos.le, h.worst.trans (le_max_left _ _), max_le h.le hddle⟩⟩
    simp [Arith.sub, Arith.div, Arith.mul, hgap, hpart, hdd, hpos.ne', Outcome.unwrap]
  · rw [if_neg hpos]
    exact ⟨_, rfl, ⟨hpeak, h.peak.trans (le_max_left _ _), h.worst, h.le⟩⟩

theorem foldlM_drawdownStep_dec96 {curve : List ℚ} (hdec : ∀ c ∈ curve, IsDecimal c) (hcurve : ∀ c ∈ curve, 0 ≤ c)
    {acc : ℚ × ℚ} (h : DrawdownWithin acc) :
    ∃ acc', (curve.foldlM (drawdownStep .dec96) acc : Outcome ε _) = .ok acc' ∧ DrawdownWithin acc' := by
  induction curve generalizing acc with
  | nil => exact ⟨acc, rfl, h⟩
  | cons e curve ih =>
    obtain ⟨mid, hturn, hmid⟩ := drawdownStep_dec96 h (hdec e List.mem_cons_self) (hcurve e List.mem_cons_self)
    rw [List.foldlM_cons, hturn, Outcome.ok_bind]
    exact ih (fun c hc => hdec c (List.mem_cons_of_mem _ hc)) (fun c hc => hcurve c (List.mem_cons_of_mem _ hc)) hmid

/-- **The largest drop.** The loop divides by no zero and returns the largest of zero and the drops from a
point of the curve that is not zero to itself or a later one, which is in percent. In decimals it
does not panic either, and what it returns is in percent too. -/
theorem max_drawdown_pct_isGreatest (curve : List ℚ) (hcurve : ∀ c ∈ curve, 0 ≤ c) :
    (∃ d, (maxDrawdownPctIn .exact curve : Outcome Unit ℚ) = .ok d ∧ maxDrawdownPct curve = d ∧
      IsGreatest {x | x = 0 ∨ ∃ (i j : ℕ) (hij : i ≤ j) (hj : j < curve.length),
        0 < curve[i] ∧ x = (curve[i] - curve[j]) / curve[i] * 100} d ∧ 0 ≤ d ∧ d ≤ 100) ∧
    ((∀ c ∈ curve, IsDecimal c) →
      ∃ d, (maxDrawdownPctIn .dec96 curve : Outcome Unit ℚ) = .ok d ∧ 0 ≤ d ∧ d ≤ 100) := by
  constructor
  · have hbest := RunningPeak.isGreatest_best favours_dropPct (l := curve) hcurve 0
    have hset : {x | x = 0 ∨ Gains dropPct curve x} = {x | x = 0 ∨ ∃ (i j : ℕ) (hij : i ≤ j) (hj : j < curve.length),
        0 < curve[i] ∧ x = (curve[i] - curve[j]) / curve[i] * 100} := by
      ext x
      simp only [Set.mem_ofPred_eq, Gains]
      constructor
      · rintro (hx | ⟨i, j, hij, hj, rfl⟩)
        · exact .inl hx
        · by_cases hpos : 0 < curve[i]
          · exact .inr ⟨i, j, hij, hj, hpos, if_pos hpos⟩
          · exact .inl (if_neg hpos)
      · rintro (hx | ⟨i, j, hij, hj, hpos, rfl⟩)
        · exact .inl hx
        · exact .inr ⟨i, j, hij, hj, (if_pos hpos).symm⟩
    have hle : RunningPeak.best dropPct 0 curve ≤ 100 := by
      rcases hbest.1 with h0 | ⟨i, j, hij, hj, hd⟩
      · rw [h0]
        norm_num
      · rw [hd]
        exact dropPct_le (hcurve _ (List.getElem_mem hj))
    exact ⟨_, maxDrawdownPctIn_exact curve, maxDrawdownPct_eq curve, hset ▸ hbest, hbest.2 (.inl rfl), hle⟩
  · intro hdec
    have hstart : DrawdownWithin (curve.head?.getD 0, 0) := by
      cases curve with
      | nil => exact ⟨isDecimal_zero, le_rfl, le_rfl, by norm_num⟩
      | cons c curve => exact ⟨hdec c List.mem_cons_self, hcurve c List.mem_cons_self, le_rfl, by norm_num⟩
    obtain ⟨acc, hrun, hwithin⟩ := foldlM_drawdownStep_dec96 (ε := Unit) hdec hcurve hstart
    refine ⟨acc.2, ?_, hwithin.worst, hwithin.le⟩
    rw [maxDrawdownPctIn, hrun]
    rfl

/-- A peak, a trough, and a curve that starts at zero. -/
theorem max_drawdown_pct_of_peak_and_trough :
    ∃ d, (maxDrawdownPctIn .exact [0, 100, 120, 90, 110] : Outcome Unit ℚ) = .ok d ∧ 0 ≤ d ∧ d ≤ 100 := by
  obtain ⟨⟨d, hd, -, -, h0, h1⟩, -⟩ := max_drawdown_pct_isGreatest [0, 100, 120, 90, 110] (by decide)
  exact ⟨d, hd, h0, h1⟩

end Sherwood
