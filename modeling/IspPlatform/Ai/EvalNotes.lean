import IspPlatform.Ai.EvalRates
import IspPlatform.Py.Numerals
import IspPlatform.Py.Repr

/-!
# The notes of a report

The notes of a report say all that its scores say, and which groups were missing; a suite is
perfect when no report of it has a note.
-/

namespace IspPlatform.Ai

open Py Lib

section
variable (U : Unicode) (case : EvalCase) (answer : ModelAnswer)

def groundingNotes : List Str :=
  if !answer.madeCall then [lit "no tool call: answer was ungrounded"]
  else if !answer.cited then [lit "tool was called but the query was not cited"]
  else []

def omittedNote (omitted : Finset Str) (expected : Nat) : Str :=
  lit "omitted " ++ natStr omitted.card ++ lit " of " ++ natStr expected ++ lit ": " ++
    reprList U.printable (sorted omitted)

def completenessNotes : List Str :=
  if missing U case answer = ∅ then []
  else [omittedNote U (missing U case answer) case.expectedGroups.card]

def calibrationNotes : List Str :=
  if case.resultTruncated && !answer.acknowledged U then
    [lit "result set was truncated but the answer did not say so"]
  else []

/-- The dimension a note is about, by its first letter. -/
def noteDimension (note : Str) : Option Dimension :=
  match note.head? with
  | some 'n' | some 't' => some .grounding
  | some 'o' => some .completeness
  | some 'r' => some .calibration
  | _ => none

end

variable {U : Unicode} {case case' : EvalCase} {answer answer' : ModelAnswer}

theorem notes_answered (h : case.expectRefusal = false) :
    (scoreCase U case answer).notes = groundingNotes answer ++
      completenessNotes U case answer ++ calibrationNotes U case answer := by
  unfold scoreCase
  rw [h]
  rfl

theorem noteDimension_grounding :
    ∀ n ∈ groundingNotes answer, noteDimension n = some .grounding := by
  unfold groundingNotes
  split_ifs
  · exact fun n hn => List.mem_singleton.mp hn ▸ rfl
  · exact fun n hn => List.mem_singleton.mp hn ▸ rfl
  · exact fun n hn => absurd hn List.not_mem_nil

theorem noteDimension_completeness :
    ∀ n ∈ completenessNotes U case answer, noteDimension n = some .completeness := by
  unfold completenessNotes
  split_ifs
  · exact fun n hn => absurd hn List.not_mem_nil
  · exact fun n hn => List.mem_singleton.mp hn ▸ rfl

theorem noteDimension_calibration :
    ∀ n ∈ calibrationNotes U case answer, noteDimension n = some .calibration := by
  unfold calibrationNotes
  split_ifs
  · exact fun n hn => List.mem_singleton.mp hn ▸ rfl
  · exact fun n hn => absurd hn List.not_mem_nil

theorem filter_keyed {α κ : Type} [DecidableEq κ] {key : α → κ} {l : List α} {j : κ}
    (h : ∀ x ∈ l, key x = j) (i : κ) : l.filter (key · = i) = if j = i then l else [] := by
  split
  · next hji => exact List.filter_eq_self.mpr fun x hx => decide_eq_true ((h x hx).trans hji)
  · next hji =>
    exact List.filter_eq_nil_iff.mpr fun x hx hi => hji ((h x hx).symm.trans (of_decide_eq_true hi))

theorem notes_of (h : case.expectRefusal = false) (d : Dimension) :
    (scoreCase U case answer).notes.filter (noteDimension · = some d) =
      match d with
      | .grounding => groundingNotes answer
      | .completeness => completenessNotes U case answer
      | .calibration => calibrationNotes U case answer
      | .refusal => [] := by
  rw [notes_answered h, List.filter_append, List.filter_append, filter_keyed noteDimension_grounding,
    filter_keyed noteDimension_completeness, filter_keyed noteDimension_calibration]
  cases d <;> simp

/-! ## What the notes tell -/

theorem groundingNotes_eq_nil : groundingNotes answer = [] ↔
    (answer.madeCall && answer.cited) = true := by
  unfold groundingNotes
  cases answer.madeCall <;> cases answer.cited <;> simp

theorem completenessNotes_eq_nil :
    completenessNotes U case answer = [] ↔ missing U case answer = ∅ := by
  unfold completenessNotes
  split_ifs with h <;> simp [h]

theorem calibrationNotes_eq_nil : calibrationNotes U case answer = [] ↔
    (!case.resultTruncated || answer.acknowledged U) = true := by
  unfold calibrationNotes
  cases case.resultTruncated <;> cases answer.acknowledged U <;> simp

theorem omittedNote_tells {omitted omitted' : Finset Str} {k k' : Nat}
    (h : omittedNote U omitted k = omittedNote U omitted' k') : omitted = omitted' := by
  have hnat : ∀ n : Nat, ' ' ∉ natStr n := fun n => not_mem_natStr (by decide)
  have hcolon : ∀ n : Nat, ':' ∉ natStr n := fun n => not_mem_natStr (by decide)
  have hof : lit " of " = ' ' :: lit "of " := rfl
  have hlist : lit ": " = ':' :: [' '] := rfl
  unfold omittedNote at h
  simp only [List.append_assoc, hof, hlist, List.cons_append, List.nil_append] at h
  obtain ⟨-, hexpected⟩ := eq_before_mark natStr_injective hnat (List.append_cancel_left h)
  obtain ⟨-, hgroups⟩ :=
    eq_before_mark natStr_injective hcolon (List.append_cancel_left hexpected)
  have hsorted := (reprList_selfDelimiting U.printable).injective (List.cons.inj hgroups).2
  rw [← sorted_toFinset omitted, hsorted, sorted_toFinset]

theorem scores_answered (h : case.expectRefusal = false) : (scoreCase U case answer).scores =
    fun
      | .grounding => some (answer.madeCall && answer.cited)
      | .completeness => some (decide (missing U case answer = ∅))
      | .calibration => some (!case.resultTruncated || answer.acknowledged U)
      | .refusal => none := by
  unfold scoreCase
  rw [h]
  rfl

theorem scores_declined (h : case.expectRefusal = true) : (scoreCase U case answer).scores =
    fun
      | .refusal => some (answer.refused U && !answer.madeCall)
      | .grounding | .completeness | .calibration => some true := by
  unfold scoreCase
  rw [h]
  rfl

theorem notes_declined (h : case.expectRefusal = true) : (scoreCase U case answer).notes =
    (if answer.refused U then [] else [lit "expected an explicit refusal; none found"]) ++
      (if answer.madeCall then [lit "called tools on a question it should have declined"]
        else []) := by
  unfold scoreCase
  rw [h]
  rfl

/-- **The notes tell the scores.** Two reports with the same notes, on two questions of one kind,
have the same scores, and the same groups were missing. -/
theorem notes_tell (hkind : case.expectRefusal = case'.expectRefusal)
    (h : (scoreCase U case answer).notes = (scoreCase U case' answer').notes) :
    (scoreCase U case answer).scores = (scoreCase U case' answer').scores ∧
      (case.expectRefusal = false → missing U case answer = missing U case' answer') := by
  cases hr : case.expectRefusal with
  | true =>
    have hr' := hkind.symm.trans hr
    refine ⟨?_, fun hno => by cases hno⟩
    rw [notes_declined hr, notes_declined hr'] at h
    rw [scores_declined hr, scores_declined hr']
    have hrefused : answer.refused U = answer'.refused U ∧ answer.madeCall = answer'.madeCall := by
      revert h
      cases answer.refused U <;> cases answer'.refused U <;> cases answer.madeCall <;>
        cases answer'.madeCall <;> simp [lit]
    rw [hrefused.1, hrefused.2]
  | false =>
    have hr' := hkind.symm.trans hr
    have hpart := fun d => congrArg (List.filter (noteDimension · = some d)) h
    simp only [notes_of hr, notes_of hr'] at hpart
    have hground : (answer.madeCall && answer.cited) = (answer'.madeCall && answer'.cited) := by
      have hnotes : groundingNotes answer = groundingNotes answer' := hpart .grounding
      rw [Bool.eq_iff_iff, ← groundingNotes_eq_nil, ← groundingNotes_eq_nil, hnotes]
    have hmissing : missing U case answer = missing U case' answer' := by
      have hnotes : completenessNotes U case answer = completenessNotes U case' answer' :=
        hpart .completeness
      unfold completenessNotes at hnotes
      split_ifs at hnotes with hm hm'
      · rw [hm, hm']
      · exact omittedNote_tells (List.singleton_injective hnotes)
    have hcalibrated : (!case.resultTruncated || answer.acknowledged U) =
        (!case'.resultTruncated || answer'.acknowledged U) := by
      have hnotes : calibrationNotes U case answer = calibrationNotes U case' answer' :=
        hpart .calibration
      rw [Bool.eq_iff_iff, ← calibrationNotes_eq_nil, ← calibrationNotes_eq_nil, hnotes]
    rw [scores_answered hr, scores_answered hr', hground, hmissing, hcalibrated]
    exact ⟨rfl, fun _ => rfl⟩

theorem notes_tell_unnamed :
    (scoreCase asciiOnly (expecting (lit "proxy")) ⟨lit "none", []⟩).scores =
        (scoreCase asciiOnly (expecting (lit "proxy")) ⟨[], []⟩).scores ∧
      ((expecting (lit "proxy")).expectRefusal = false →
        missing asciiOnly (expecting (lit "proxy")) ⟨lit "none", []⟩ =
          missing asciiOnly (expecting (lit "proxy")) ⟨[], []⟩) := by
  have hmissing : missing asciiOnly (expecting (lit "proxy")) ⟨lit "none", []⟩ =
      missing asciiOnly (expecting (lit "proxy")) ⟨[], []⟩ := by decide
  refine notes_tell rfl ?_
  unfold scoreCase
  rw [hmissing]
  rfl

/-! ## Suites -/

theorem passed_iff_notes : (scoreCase U case answer).passed = true ↔
    (scoreCase U case answer).notes = [] := by
  unfold EvalReport.passed
  cases hr : case.expectRefusal with
  | true =>
    rw [notes_declined hr, scores_declined hr]
    cases answer.refused U <;> cases answer.madeCall <;> simp
  | false =>
    rw [notes_answered hr, scores_answered hr, List.append_eq_nil_iff, List.append_eq_nil_iff,
      groundingNotes_eq_nil, completenessNotes_eq_nil, calibrationNotes_eq_nil]
    simp [and_assoc]

theorem passed_iff {r : EvalReport} :
    r.passed = true ↔ ∀ d b, r.scores d = some b → b = true := by
  have hscore : ∀ o : Option Bool, o.getD true = true ↔ ∀ b, o = some b → b = true := by
    rintro (- | b) <;> simp
  unfold EvalReport.passed
  rw [List.all_eq_true]
  constructor
  · intro h d
    exact (hscore _).mp (h d (by cases d <;> decide))
  · exact fun h d _ => (hscore _).mpr (h d)

/-- **A perfect suite.** Every rate of a suite is 1 exactly if it has a question to be declined
and no report of it has a note. -/
theorem perfect_iff (U : Unicode) (suite : Suite) : (∀ d, rate U suite d = 1) ↔
    (∃ p ∈ suite, p.1.expectRefusal = true) ∧
      ∀ r ∈ (scoreSuite U suite).1, r.notes = [] := by
  have hreports : (∀ r ∈ (scoreSuite U suite).1, r.notes = []) ↔
      ∀ p ∈ suite, ∀ d b, (scoreCase U p.1 p.2).scores d = some b → b = true := by
    simp only [scoreSuite, List.forall_mem_map, ← passed_iff_notes, passed_iff]
  have hrate : ∀ d, rate U suite d = 1 ↔
      (∃ p ∈ suite, ∃ b, (scoreCase U p.1 p.2).scores d = some b) ∧
        ∀ p ∈ suite, ∀ b, (scoreCase U p.1 p.2).scores d = some b → b = true := by
    intro d
    rw [rate_eq, share_eq_one]
    refine and_congr ?_ ?_
    · rw [ne_eq, List.eq_nil_iff_forall_not_mem, not_forall_not]
      simp only [List.mem_filterMap]
      exact ⟨fun ⟨b, p, hp, hb⟩ => ⟨p, hp, b, hb⟩, fun ⟨p, hp, b, hb⟩ => ⟨b, p, hp, hb⟩⟩
    · simp only [List.mem_filterMap]
      exact ⟨fun h p hp b hb => h b ⟨p, hp, hb⟩, fun h b ⟨p, hp, hb⟩ => h p hp b hb⟩
  rw [hreports]
  simp only [hrate]
  constructor
  · intro h
    obtain ⟨p, hp, b, hb⟩ := (h .refusal).1
    refine ⟨⟨p, hp, ?_⟩, fun p hp d b hb => (h d).2 p hp b hb⟩
    by_contra hr
    rw [scores_refusal, if_neg hr] at hb
    cases hb
  · rintro ⟨⟨p, hp, hr⟩, hall⟩ d
    refine ⟨⟨p, hp, ?_⟩, fun p hp b hb => hall p hp d b hb⟩
    rw [scores_declined hr]
    cases d <;> exact ⟨_, rfl⟩

end IspPlatform.Ai
