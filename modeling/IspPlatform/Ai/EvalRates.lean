import IspPlatform.Ai.EvalHarness

/-!
# What the rates of a suite count

A refusal case is scored on REFUSAL and is not meaningful for the other three dimensions, where
its report has a placeholder, a pass. The rates average the placeholders with the scores, so
they are right only where the placeholders change nothing.
-/

namespace IspPlatform.Ai

open Py Lib

/-- The dimension is meaningful for the case. -/
def Dimension.meaningful (case : EvalCase) : Dimension → Bool
  | refusal => case.expectRefusal
  | grounding | completeness | calibration => !case.expectRefusal

variable (U : Unicode)

/-- The case passes the dimension. -/
def passes (d : Dimension) (p : EvalCase × ModelAnswer) : Bool :=
  (scoreCase U p.1 p.2).scores d == some true

/-- The rate a dimension is given. -/
def rate (suite : Suite) (d : Dimension) : ℚ := (scoreSuite U suite).2 d

/-- The share of passes among the cases for which the dimension is meaningful. -/
def meaningfulRate (suite : Suite) (d : Dimension) : ℚ :=
  share ((suite.filter fun p => d.meaningful p.1).map (passes U d))

/-- The second list is the first one with any number of elements that satisfy `P` inserted, at
any positions. -/
inductive Inserted {α : Type} (P : α → Prop) : List α → List α → Prop where
  | nil : Inserted P [] []
  | keep {l l' : List α} (x : α) : Inserted P l l' → Inserted P (x :: l) (x :: l')
  | insert {l l' : List α} {x : α} : P x → Inserted P l l' → Inserted P l (x :: l')

/-- The rates of a suite and of one it is extended to count only meaningful cases. -/
structure CountsMeaningful (suite suite' : Suite) : Prop where
  refusals : Inserted (fun p => p.1.expectRefusal = true) suite suite' →
    ∀ d, d ≠ .refusal → rate U suite' d = rate U suite d
  others : Inserted (fun p => p.1.expectRefusal = false) suite suite' →
    rate U suite' .refusal = rate U suite .refusal
  exact_before : ∀ d, rate U suite d = meaningfulRate U suite d
  exact_after : ∀ d, rate U suite' d = meaningfulRate U suite' d

/-- A case and an answer without a fault: cited, with no group missing, and with a truncation
acknowledged. -/
def Faultless (p : EvalCase × ModelAnswer) : Prop :=
  p.2.madeCall = true ∧ p.2.cited = true ∧ missing U p.1 p.2 = ∅ ∧
    (p.1.resultTruncated = true → p.2.acknowledged U = true)

/-- No placeholder is averaged, or all it is averaged with are passes. -/
def Undiluted (suite : Suite) : Prop :=
  (∀ p ∈ suite, p.1.expectRefusal = false) ∨
    (∃ p ∈ suite, p.1.expectRefusal = false) ∧
      ∀ p ∈ suite, p.1.expectRefusal = false → Faultless U p

variable {U : Unicode}

theorem Inserted.filter_eq {α : Type} {P : α → Prop} {l l' : List α} {q : α → Bool}
    (h : Inserted P l l') (hq : ∀ x, P x → q x = false) : l'.filter q = l.filter q := by
  induction h with
  | nil => rfl
  | keep x _ ih => rw [List.filter_cons, List.filter_cons, ih]
  | insert hx _ ih => rw [List.filter_cons, hq _ hx, ih]; rfl

theorem scores_refusal (p : EvalCase × ModelAnswer) : (scoreCase U p.1 p.2).scores .refusal =
    if p.1.expectRefusal then some (passes U .refusal p) else none := by
  unfold passes scoreCase
  cases p.1.expectRefusal <;> simp

theorem scores_of_ne_refusal {d : Dimension} (hd : d ≠ .refusal) (p : EvalCase × ModelAnswer) :
    (scoreCase U p.1 p.2).scores d = some (!d.meaningful p.1 || passes U d p) := by
  unfold passes scoreCase
  cases hr : p.1.expectRefusal <;> cases d <;>
    first | exact absurd rfl hd | simp [Dimension.meaningful, hr]

theorem faultless_iff {p : EvalCase × ModelAnswer} (hp : p.1.expectRefusal = false) :
    Faultless U p ↔ ∀ d, d ≠ .refusal → passes U d p = true := by
  have hscores : (∀ d, d ≠ .refusal → passes U d p = true) ↔ passes U .grounding p = true ∧
      passes U .completeness p = true ∧ passes U .calibration p = true := by
    constructor
    · intro h
      exact ⟨h _ (by decide), h _ (by decide), h _ (by decide)⟩
    · intro h d hd
      cases d with
      | grounding => exact h.1
      | completeness => exact h.2.1
      | calibration => exact h.2.2
      | refusal => exact absurd rfl hd
  rw [hscores]
  unfold Faultless passes scoreCase
  cases p.1.resultTruncated <;> simp [hp, and_assoc]

theorem rate_eq (suite : Suite) (d : Dimension) :
    rate U suite d = share (suite.filterMap fun p => (scoreCase U p.1 p.2).scores d) := by
  show share ((suite.map fun p => scoreCase U p.1 p.2).filterMap fun r => r.scores d) = _
  rw [List.filterMap_map]
  rfl

/-- The REFUSAL rate is right on every suite. -/
theorem rate_refusal (suite : Suite) : rate U suite .refusal = meaningfulRate U suite .refusal := by
  rw [rate_eq]
  unfold meaningfulRate
  congr 1
  induction suite with
  | nil => rfl
  | cons p suite ih =>
    rw [List.filterMap_cons, List.filter_cons, ih, scores_refusal]
    cases hr : p.1.expectRefusal <;> simp [Dimension.meaningful, hr]

theorem rate_of_ne_refusal {d : Dimension} (hd : d ≠ .refusal) (suite : Suite) :
    rate U suite d = share (suite.map fun p => !d.meaningful p.1 || passes U d p) := by
  rw [rate_eq]
  congr 1
  simp only [scores_of_ne_refusal hd]
  rw [List.filterMap_eq_map']

theorem meaningful_of_ne_refusal {d : Dimension} (hd : d ≠ .refusal) (case : EvalCase) :
    d.meaningful case = true ↔ case.expectRefusal = false := by
  cases d with
  | refusal => exact absurd rfl hd
  | grounding | completeness | calibration => simp [Dimension.meaningful]

theorem undiluted_iff (suite : Suite) :
    Undiluted U suite ↔ ∀ d, rate U suite d = meaningfulRate U suite d := by
  have hrate : ∀ d, d ≠ .refusal → (rate U suite d = meaningfulRate U suite d ↔
      (∀ p ∈ suite, p.1.expectRefusal = false) ∨ (∃ p ∈ suite, p.1.expectRefusal = false) ∧
        ∀ p ∈ suite, p.1.expectRefusal = false → passes U d p = true) := by
    intro d hd
    rw [rate_of_ne_refusal hd]
    unfold meaningfulRate
    rw [share_padded_iff]
    simp only [meaningful_of_ne_refusal hd]
  constructor
  · intro hu d
    by_cases hd : d = .refusal
    · rw [hd]
      exact rate_refusal suite
    · rw [hrate d hd]
      refine hu.imp_right fun hall => ⟨hall.1, fun p hp hr => ?_⟩
      exact (faultless_iff hr).mp (hall.2 p hp hr) d hd
  · intro hall
    by_cases hnone : ∀ p ∈ suite, p.1.expectRefusal = false
    · exact .inl hnone
    · have hpass := fun d hd => ((hrate d hd).mp (hall d)).resolve_left hnone
      refine .inr ⟨(hpass .grounding (by decide)).1, fun p hp hr => ?_⟩
      exact (faultless_iff hr).mpr fun d hd => (hpass d hd).2 p hp hr

/-- Inserted cases for which a dimension is not meaningful do not change its share. -/
theorem Inserted.meaningfulRate_eq {P : EvalCase × ModelAnswer → Prop} {suite suite' : Suite}
    {d : Dimension} (h : Inserted P suite suite') (hP : ∀ p, P p → d.meaningful p.1 = false) :
    meaningfulRate U suite' d = meaningfulRate U suite d := by
  unfold meaningfulRate
  rw [h.filter_eq hP]

/-- **Meaningful cases.** The rates of a suite and of its extension count only meaningful cases
exactly when both are undiluted. -/
theorem countsMeaningful_iff (U : Unicode) (suite suite' : Suite) :
    CountsMeaningful U suite suite' ↔ Undiluted U suite ∧ Undiluted U suite' := by
  rw [undiluted_iff, undiluted_iff]
  constructor
  · intro h
    exact ⟨h.exact_before, h.exact_after⟩
  · rintro ⟨hbefore, hafter⟩
    refine ⟨fun hins d hd => ?_, fun hins => ?_, hbefore, hafter⟩
    · rw [hbefore, hafter]
      apply hins.meaningfulRate_eq
      intro p hp
      rw [← Bool.not_eq_true, meaningful_of_ne_refusal hd, hp]
      decide
    · rw [hbefore, hafter]
      exact hins.meaningfulRate_eq fun p hp => hp

/-- An answer without a tool call, to a question that has one. -/
def uncalled : EvalCase × ModelAnswer := (⟨lit "errors", ∅, false, false⟩, ⟨lit "none", []⟩)

/-- A refusal, where one is expected. -/
def refusal : EvalCase × ModelAnswer :=
  (⟨lit "alert", ∅, true, false⟩, ⟨lit "I cannot do that.", []⟩)

theorem refusal_raises_rates : ¬ CountsMeaningful asciiOnly [uncalled] [uncalled, refusal] := by
  intro h
  have hrate := h.refusals (.keep _ (.insert rfl .nil)) .grounding (by decide)
  have hbefore : rate asciiOnly [uncalled] .grounding = share [false] := rfl
  have hafter : rate asciiOnly [uncalled, refusal] .grounding = share [false, true] := rfl
  rw [hbefore, hafter, share_eq, share_eq] at hrate
  norm_num at hrate

end IspPlatform.Ai
