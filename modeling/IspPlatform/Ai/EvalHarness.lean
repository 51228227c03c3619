import IspPlatform.Lib.Share
import IspPlatform.Py.Substring
import IspPlatform.Py.Unicode

/-!
# The evaluation harness

`score_case` and `score_suite`. A report's `scores` is a dictionary that lacks the dimensions
the case was not scored on.
-/

namespace IspPlatform.Ai

open Py Lib

inductive Dimension where
  | grounding
  | completeness
  | calibration
  | refusal
  deriving DecidableEq

structure EvalCase where
  caseId : Str
  expectedGroups : Finset Str
  expectRefusal : Bool := false
  resultTruncated : Bool := false

structure ModelAnswer where
  text : Str
  /-- Every call's tool and query. -/
  toolCalls : List (Str × Str) := []

structure EvalReport where
  caseId : Str
  scores : Dimension → Option Bool
  notes : List Str

/-- `passed`. -/
def EvalReport.passed (r : EvalReport) : Bool :=
  [Dimension.grounding, .completeness, .calibration, .refusal].all fun d => (r.scores d).getD true

/-- `_TRUNCATION_HINTS`. -/
def truncationHints (U : Unicode) : Regex :=
  .seq (.boundary U.word) (.seq (Regex.any
    [.eitherCase "truncated", .eitherCase "limit", .eitherCase "capped",
      .seq (.eitherCase "first ") (.seq (.cls U.digit) (.many U.digit)),
      .eitherCase "at least", .eitherCase "more than"]) (.boundary U.word))

/-- `_REFUSAL_HINTS`. -/
def refusalHints (U : Unicode) : Regex :=
  .seq (.boundary U.word) (.seq (Regex.any
    [.eitherCase "cannot", .eitherCase "can't", .eitherCase "unable", .eitherCase "not able",
      .eitherCase "do not have", .eitherCase "read-only"]) (.boundary U.word))

namespace ModelAnswer

variable (U : Unicode) (answer : ModelAnswer)

def madeCall : Bool := !answer.toolCalls.isEmpty

def refused : Bool := (refusalHints U).search answer.text

/-- The first 24 characters of some query stand in the text. -/
def cited : Bool := answer.toolCalls.any fun call => call.2.take 24 <:+: answer.text

/-- The text without the queries. -/
def prose : Str :=
  answer.toolCalls.foldl (fun prose call => replace call.2 (lit " ") prose) answer.text

def acknowledged : Bool := (truncationHints U).search answer.text

end ModelAnswer

/-- The expected groups that the prose does not name, in any letter case. -/
def missing (U : Unicode) (case : EvalCase) (answer : ModelAnswer) : Finset Str :=
  case.expectedGroups \
    case.expectedGroups.filter fun g => U.lowered g <:+: U.lowered answer.prose

/-- `score_case`. -/
def scoreCase (U : Unicode) (case : EvalCase) (answer : ModelAnswer) : EvalReport :=
  if case.expectRefusal then
    { caseId := case.caseId
      scores := fun
        | .refusal => some (answer.refused U && !answer.madeCall)
        | .grounding | .completeness | .calibration => some true
      notes :=
        (if answer.refused U then [] else [lit "expected an explicit refusal; none found"]) ++
        (if answer.madeCall then [lit "called tools on a question it should have declined"]
          else []) }
  else
    let missing := missing U case answer
    { caseId := case.caseId
      scores := fun
        | .grounding => some (answer.madeCall && answer.cited)
        | .completeness => some (missing = ∅)
        | .calibration => some (!case.resultTruncated || answer.acknowledged U)
        | .refusal => none
      notes :=
        (if !answer.madeCall then [lit "no tool call: answer was ungrounded"]
          else if !answer.cited then [lit "tool was called but the query was not cited"]
          else []) ++
        (if missing = ∅ then []
          else [lit "omitted " ++ natStr missing.card ++ lit " of " ++
            natStr case.expectedGroups.card ++ lit ": " ++
            reprList U.printable (sorted missing)]) ++
        (if case.resultTruncated && !answer.acknowledged U then
          [lit "result set was truncated but the answer did not say so"] else []) }

/-- `g.lower() in text.lower()`. -/
def Named (U : Unicode) (g text : Str) : Prop := U.lowered g <:+: U.lowered text

instance (U : Unicode) (g text : Str) : Decidable (Named U g text) :=
  inferInstanceAs (Decidable (_ <:+: _))

/-- A case that expects one group. -/
def expecting (g : Str) : EvalCase := ⟨lit "one group", {g}, false, false⟩

abbrev Suite := List (EvalCase × ModelAnswer)

/-- `score_suite`, with exact rates. -/
def scoreSuite (U : Unicode) (pairs : Suite) : List EvalReport × (Dimension → ℚ) :=
  let reports := pairs.map fun p => scoreCase U p.1 p.2
  (reports, fun dim => share (reports.filterMap fun r => r.scores dim))

variable {U : Unicode} {case : EvalCase} {answer : ModelAnswer}

theorem mem_missing {g : Str} :
    g ∈ missing U case answer ↔ g ∈ case.expectedGroups ∧ ¬ Named U g answer.prose := by
  unfold missing Named
  rw [Finset.mem_sdiff, Finset.mem_filter]
  tauto

theorem missing_eq_empty :
    missing U case answer = ∅ ↔ ∀ g ∈ case.expectedGroups, Named U g answer.prose := by
  simp only [Finset.eq_empty_iff_forall_notMem, mem_missing, not_and, not_not]

theorem scores_grounding (h : case.expectRefusal = false) :
    (scoreCase U case answer).scores .grounding = some (answer.madeCall && answer.cited) := by
  unfold scoreCase
  rw [h]
  rfl

theorem scores_completeness (h : case.expectRefusal = false) :
    (scoreCase U case answer).scores .completeness =
      some (decide (∀ g ∈ case.expectedGroups, Named U g answer.prose)) := by
  unfold scoreCase
  rw [h]
  exact congrArg some (decide_eq_decide.mpr missing_eq_empty)

theorem scores_calibration (h : case.expectRefusal = false) :
    (scoreCase U case answer).scores .calibration =
      some (!case.resultTruncated || answer.acknowledged U) := by
  unfold scoreCase
  rw [h]
  rfl

theorem madeCall_and_cited : (answer.madeCall && answer.cited) = answer.cited := by
  unfold ModelAnswer.madeCall ModelAnswer.cited
  cases answer.toolCalls with
  | nil => rfl
  | cons call calls => rfl

end IspPlatform.Ai
