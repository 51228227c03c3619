import IspPlatform.Ai.Citations

/-!
# What a list of tool calls does to a score

GROUNDING reads the calls as a set; COMPLETENESS takes them out of the text one after the other,
so their order counts, and an empty query puts blanks around every character.
-/

namespace IspPlatform.Ai

open Py

variable (U : Unicode)

theorem madeCall_iff {answer : ModelAnswer} : answer.madeCall = true ↔ answer.toolCalls ≠ [] := by
  unfold ModelAnswer.madeCall
  simp

theorem cited_iff {answer : ModelAnswer} :
    answer.cited = true ↔ ∃ call ∈ answer.toolCalls, call.2.take 24 <:+: answer.text := by
  unfold ModelAnswer.cited
  simp

theorem grounded_iff {case : EvalCase} {answer : ModelAnswer} (hr : case.expectRefusal = false) :
    (scoreCase U case answer).scores .grounding = some true ↔
      ∃ call ∈ answer.toolCalls, call.2.take 24 <:+: answer.text := by
  rw [scores_grounding hr, madeCall_and_cited, Option.some.injEq, cited_iff]

/-! ## The order of the calls -/

section Order

variable (case : EvalCase) (text : Str) (calls calls' : List (Str × Str))

/-- The two lists of calls get the same scores and verdict. -/
def SameScores : Prop :=
  (scoreCase U case ⟨text, calls⟩).scores = (scoreCase U case ⟨text, calls'⟩).scores ∧
    (scoreCase U case ⟨text, calls⟩).passed = (scoreCase U case ⟨text, calls'⟩).passed

/-- The order of the calls does not matter. -/
inductive Unordered : Prop where
  | refusal : case.expectRefusal = true → Unordered
  | same : calls.map (·.2) = calls'.map (·.2) → Unordered
  | omitted {g : Str} : g ∈ case.expectedGroups → Absent U g text → Unordered
  | reported : (∀ g ∈ case.expectedGroups, Reported U g ⟨text, calls⟩) → Unordered
  | clear : Clear (calls.map (·.2)) text → Unordered

variable {U case text calls calls'}

theorem madeCall_perm (h : calls.Perm calls') :
    (ModelAnswer.mk text calls).madeCall = (ModelAnswer.mk text calls').madeCall := by
  rw [Bool.eq_iff_iff, madeCall_iff, madeCall_iff]
  show calls ≠ [] ↔ calls' ≠ []
  rw [← List.length_pos_iff, ← List.length_pos_iff, h.length_eq]

theorem cited_perm (h : calls.Perm calls') :
    (ModelAnswer.mk text calls).cited = (ModelAnswer.mk text calls').cited := by
  rw [Bool.eq_iff_iff, cited_iff, cited_iff]
  constructor
  · rintro ⟨call, hcall, hin⟩
    exact ⟨call, h.mem_iff.mp hcall, hin⟩
  · rintro ⟨call, hcall, hin⟩
    exact ⟨call, h.mem_iff.mpr hcall, hin⟩

/-- Only completeness can tell two orders of the same calls apart. -/
theorem sameScores_of_missing (h : calls.Perm calls')
    (hm : case.expectRefusal = false →
      (missing U case ⟨text, calls⟩ = ∅ ↔ missing U case ⟨text, calls'⟩ = ∅)) :
    SameScores U case text calls calls' := by
  have hrefused : (ModelAnswer.mk text calls).refused U = (ModelAnswer.mk text calls').refused U :=
    rfl
  have hacknowledged : (ModelAnswer.mk text calls).acknowledged U =
      (ModelAnswer.mk text calls').acknowledged U := rfl
  have hscores : (scoreCase U case ⟨text, calls⟩).scores =
      (scoreCase U case ⟨text, calls'⟩).scores := by
    unfold scoreCase
    cases hr : case.expectRefusal with
    | true => simp only [if_pos, madeCall_perm h, hrefused]
    | false =>
      simp only [Bool.false_eq_true, if_false, madeCall_perm h, cited_perm h, hm hr, hacknowledged]
  refine ⟨hscores, ?_⟩
  unfold EvalReport.passed
  rw [hscores]

theorem missing_ne_empty {g : Str} {answer : ModelAnswer} (hg : g ∈ case.expectedGroups)
    (h : Absent U g answer.text) : missing U case answer ≠ ∅ :=
  Finset.ne_empty_of_mem (mem_missing.mpr ⟨hg, h.prose⟩)

theorem Reported.perm {g : Str} (h : calls.Perm calls') (hr : Reported U g ⟨text, calls⟩) :
    Reported U g ⟨text, calls'⟩ := by
  obtain ⟨a, m, b, htext, hocc, hapart⟩ := hr.apart
  exact ⟨hr.sigma, hr.group, a, m, b, htext, hocc,
    hapart.subset fun w hw => (h.map _).mem_iff.mpr hw⟩

/-- **Order of calls.** -/
theorem sameScores_of_unordered (h : calls.Perm calls')
    (hfree : Unordered U case text calls calls') : SameScores U case text calls calls' := by
  apply sameScores_of_missing h
  intro hr
  cases hfree with
  | refusal hr' =>
    rw [hr] at hr'
    cases hr'
  | same hqueries =>
    have hprose : (ModelAnswer.mk text calls).prose = (ModelAnswer.mk text calls').prose := by
      rw [prose_eq, prose_eq]
      exact congrArg (blankOut · text) hqueries
    rw [missing_eq_empty, missing_eq_empty, hprose]
  | omitted hg habsent =>
    exact iff_of_false (missing_ne_empty hg habsent) (missing_ne_empty hg habsent)
  | reported hall =>
    rw [missing_eq_empty, missing_eq_empty]
    exact iff_of_true (fun g hg => (hall g hg).prose) fun g hg => ((hall g hg).perm h).prose
  | clear hclear =>
    have hprose : (ModelAnswer.mk text calls).prose = (ModelAnswer.mk text calls').prose := by
      rw [prose_eq, prose_eq]
      exact blankOut_perm hclear (h.map _)
    rw [missing_eq_empty, missing_eq_empty, hprose]

theorem sameScores_of_unordered_up :
    SameScores asciiOnly (expecting (lit "proxy")) (lit "up and \x7bjob=\"db\"\x7d, proxy fails")
      [(lit "query_metrics", lit "up"), (lit "query_logs", lit "\x7bjob=\"db\"\x7d")]
      [(lit "query_logs", lit "\x7bjob=\"db\"\x7d"), (lit "query_metrics", lit "up")] :=
  sameScores_of_unordered (List.Perm.swap ..)
    (.clear (clear_of_disjoint (by decide) (by decide) (by simp [lit]) _))

/-- The short query of the two hides the long one when it comes first. -/
theorem order_changes_score :
    [(lit "query_logs", lit "up"), (lit "query_logs", lit "up\x7bjob=\"proxy\"\x7d")].Perm
        [(lit "query_logs", lit "up\x7bjob=\"proxy\"\x7d"), (lit "query_logs", lit "up")] ∧
      ¬ SameScores asciiOnly (expecting (lit "proxy")) (lit "up\x7bjob=\"proxy\"\x7d")
        [(lit "query_logs", lit "up"), (lit "query_logs", lit "up\x7bjob=\"proxy\"\x7d")]
        [(lit "query_logs", lit "up\x7bjob=\"proxy\"\x7d"), (lit "query_logs", lit "up")] := by
  refine ⟨List.Perm.swap .., fun hsame => ?_⟩
  have hscores := congrFun hsame.1 .completeness
  revert hscores
  decide

end Order

/-! ## A call with an empty query -/

section Empty

variable (case : EvalCase) (text : Str) (before after : List (Str × Str)) (tool : Str)

/-- A call with an empty query, put in between, earns no grounding and costs no completeness. -/
def Neutral : Prop :=
  ¬ ((scoreCase U case ⟨text, before ++ after⟩).scores .grounding = some false ∧
      (scoreCase U case ⟨text, before ++ (tool, []) :: after⟩).scores .grounding = some true) ∧
    ¬ ((scoreCase U case ⟨text, before ++ after⟩).scores .completeness = some true ∧
      (scoreCase U case ⟨text, before ++ (tool, []) :: after⟩).scores .completeness = some false)

/-- The answer omits a group: it is absent from the text, or stands in queries alone. -/
def Omits (g : Str) (answer : ModelAnswer) : Prop :=
  Absent U g answer.text ∨ Tidy U g answer ∧ answer.OnlyQuoted U g

/-- The group is one letter, so blanks do not take it apart. -/
def OneLetter (g text : Str) : Prop := NoSigma U g text ∧ ∃ c, U.lowered g = [c]

/-- Two characters that are not blanks stand side by side in the query. -/
def Solid (query : Str) : Prop := ∃ c d, c ≠ ' ' ∧ d ≠ ' ' ∧ [c, d] <:+: query

/-- The front of a query stands in the text. -/
def Cites : Prop := ∃ call ∈ before ++ after, call.2.take 24 <:+: text

/-- The blanks cost nothing: no group is expected, the answer omits one anyway, or the blanks part
none and no later query stands between them. -/
def Spared : Prop :=
  case.expectedGroups = ∅ ∨
    (∃ g ∈ case.expectedGroups, Omits U g ⟨text, before ++ after⟩) ∨
    (∀ g ∈ case.expectedGroups, OneLetter U g text) ∧ ∀ call ∈ after, Solid call.2

/-- Nothing in the answer makes up for the blanks. -/
structure Plain : Prop where
  tidy : ∀ g ∈ case.expectedGroups, Tidy U g ⟨text, before ++ after⟩
  blank : ∀ g ∈ case.expectedGroups, ' ' ∉ U.lowered g
  /-- No character's lower case is several characters. -/
  single : ∀ c ∈ text, c ≠ 'Σ' → (U.lowerChar c).length = 1
  solid : ∀ call ∈ after, Solid call.2

variable {U case text before after tool}

theorem grounded_with_empty (hr : case.expectRefusal = false) :
    (scoreCase U case ⟨text, before ++ (tool, []) :: after⟩).scores .grounding = some true := by
  rw [grounded_iff U hr]
  exact ⟨(tool, []), by simp, List.nil_infix⟩

theorem Omits.unnamed {g : Str} {answer : ModelAnswer} (h : Omits U g answer) :
    ¬ Named U g answer.prose := by
  rcases h with habsent | ⟨htidy, hquoted⟩
  · exact habsent.prose
  · rw [named_prose_iff htidy]
    exact not_not.mpr hquoted

theorem blankOut_spaced {words : List Str} (h : ∀ w ∈ words, Solid w) (s : Str) :
    blankOut words (replace [] [' '] s) = replace [] [' '] s := by
  induction words with
  | nil => rfl
  | cons w words ih =>
    obtain ⟨c, d, hc, hd, hin⟩ := h w List.mem_cons_self
    have hout : ¬ w <:+: replace [] [' '] s := fun hw => not_pair_spaced hc hd s (hin.trans hw)
    have hne : w ≠ [] := by
      rintro rfl
      exact absurd (List.infix_nil.mp hin) (List.cons_ne_nil _ _)
    show blankOut words (replace w [' '] (replace [] [' '] s)) = _
    rw [replace_absent hne hout]
    exact ih fun w' hw' => h w' (List.mem_cons_of_mem _ hw')

theorem mem_lowerFrom {c : Char} {before s : Str} (h : 'Σ' ∉ s ∨ c ≠ 'σ' ∧ c ≠ 'ς') :
    c ∈ U.lowerFrom before s ↔ ∃ x ∈ s, x ≠ 'Σ' ∧ c ∈ U.lowerChar x := by
  induction s generalizing before with
  | nil => simp [Unicode.lowerFrom]
  | cons d s ih =>
    rw [Unicode.lowerFrom, List.mem_append, ih (h.imp_left List.not_mem_of_not_mem_cons),
      List.exists_mem_cons_iff]
    refine or_congr_left ?_
    by_cases hd : d = 'Σ'
    · obtain ⟨hmedial, hfinal⟩ := h.resolve_left fun hno => hno (hd ▸ List.mem_cons_self)
      rw [if_pos hd]
      refine iff_of_false (fun hc => ?_) fun h => h.1 hd
      split at hc
      · exact hfinal (List.mem_singleton.mp hc)
      · exact hmedial (List.mem_singleton.mp hc)
    · rw [if_neg hd]
      exact (and_iff_right hd).symm

theorem blankOut_empty {words words' : List Str} (h : ∀ w ∈ words', Solid w) (s : Str) :
    blankOut (words ++ [] :: words') s = replace [] [' '] (blankOut words s) := by
  unfold blankOut
  rw [List.foldl_append]
  exact blankOut_spaced h _

theorem OneLetter.named_iff {g : Str} (h : OneLetter U g text) :
    ∃ c, ∀ words, Named U g (blankOut words text) ↔
      ∃ x ∈ blankOut words text, x ≠ 'Σ' ∧ c ∈ U.lowerChar x := by
  obtain ⟨hsigma, c, hg⟩ := h
  refine ⟨c, fun words => ?_⟩
  unfold Named
  rw [hg, List.singleton_infix_iff]
  apply mem_lowerFrom
  unfold NoSigma at hsigma
  rw [hg, List.mem_singleton, List.mem_singleton] at hsigma
  exact hsigma.imp (fun hno hin => hno (mem_of_mem_blankOut (by decide) hin))
    fun hc => ⟨Ne.symm hc.1, Ne.symm hc.2⟩

theorem OneLetter.survives {g : Str} (h : OneLetter U g text) {words words' : List Str}
    (hsolid : ∀ w ∈ words', Solid w) (hnamed : Named U g (blankOut (words ++ words') text)) :
    Named U g (blankOut (words ++ [] :: words') text) := by
  obtain ⟨c, hletter⟩ := h.named_iff
  obtain ⟨x, hx, hsigma, hc⟩ := (hletter _).mp hnamed
  refine (hletter _).mpr ⟨x, ?_, hsigma, hc⟩
  rw [blankOut_empty hsolid]
  by_cases hblank : x = ' '
  · rw [hblank]
    exact List.mem_cons_self
  · have hin : x ∈ blankOut words text := by
      unfold blankOut at hx
      rw [List.foldl_append] at hx
      exact mem_of_mem_blankOut hblank hx
    exact List.mem_append_right _ (List.mem_flatMap.mpr ⟨x, hin, List.mem_cons_self⟩)

/-- Between blanks around every character, only one letter can be read. -/
theorem Plain.oneLetter (h : Plain U case text before after) {g : Str}
    (hg : g ∈ case.expectedGroups) {words : List Str}
    (hnamed : Named U g (replace [] [' '] (blankOut words text))) : OneLetter U g text := by
  have htidy := h.tidy g hg
  refine ⟨htidy.sigma, ?_⟩
  obtain ⟨u, m, v, hspaced, hocc⟩ := Ai.named_iff.mp hnamed
  have hblank := hocc.no_blank (h.blank g hg)
  cases m with
  | nil => exact absurd rfl (hocc.ne_nil htidy.group)
  | cons x m =>
    have hx : x ≠ ' ' := (List.ne_of_not_mem_cons hblank).symm
    cases m with
    | cons y m =>
      have hy : y ≠ ' ' := (List.ne_of_not_mem_cons (List.not_mem_of_not_mem_cons hblank)).symm
      have hpair : [x, y] <:+: replace [] [' '] (blankOut words text) :=
        ⟨u, m ++ v, by simp [hspaced]⟩
      exact absurd hpair (not_pair_spaced hx hy _)
    | nil =>
      have hin : x ∈ text := by
        refine mem_of_mem_blankOut hx (?_ : x ∈ blankOut (words ++ [] :: []) text)
        rw [blankOut_empty (by simp), hspaced]
        simp
      have hone : (U.lowerWithin v u.reverse [x]).length = 1 := by
        unfold Unicode.lowerWithin
        by_cases hsigma : x = 'Σ'
        · rw [if_pos hsigma]
          rfl
        · rw [if_neg hsigma]
          simpa [Unicode.lowerWithin] using h.single x hin hsigma
      have hle := hocc.holds.length_le
      have hpos := List.length_pos_iff.mpr htidy.group
      exact List.length_eq_one_iff.mp (by omega)

theorem neutral_iff_named (hr : case.expectRefusal = false) :
    Neutral U case text before after tool ↔ Cites text before after ∧
      ((∀ g ∈ case.expectedGroups, Named U g (ModelAnswer.mk text (before ++ after)).prose) →
        ∀ g ∈ case.expectedGroups,
          Named U g (ModelAnswer.mk text (before ++ (tool, []) :: after)).prose) := by
  have hgrounding : (scoreCase U case ⟨text, before ++ after⟩).scores .grounding = some false ↔
      ¬ Cites text before after := by
    have hgrounded := @grounded_iff U case ⟨text, before ++ after⟩ hr
    unfold Cites
    rw [← hgrounded, scores_grounding hr]
    simp
  unfold Neutral
  rw [hgrounding, scores_completeness hr, scores_completeness hr]
  simp only [grounded_with_empty hr, and_true, not_not, not_and, Option.some.injEq,
    decide_eq_true_eq, decide_eq_false_iff_not]

theorem prose_empty : (ModelAnswer.mk text (before ++ (tool, []) :: after)).prose =
    blankOut (before.map (·.2) ++ [] :: after.map (·.2)) text := by
  rw [prose_eq]
  simp [ModelAnswer.queries]

/-- **Empty queries.** They are neutral in no answer that does not cite a query, and in one that
does if their blanks cost nothing; in a plain answer, only then. -/
theorem neutral_of_spared (hr : case.expectRefusal = false) :
    (Neutral U case text before after tool → Cites text before after) ∧
      (Cites text before after → Spared U case text before after →
        Neutral U case text before after tool) ∧
      (Plain U case text before after → Neutral U case text before after tool →
        Spared U case text before after) := by
  rw [neutral_iff_named hr]
  refine ⟨And.left, fun hcites hspared => ⟨hcites, fun hnamed g hg => ?_⟩, ?_⟩
  · rcases hspared with hnone | ⟨g', hg', homits⟩ | ⟨hletters, hsolid⟩
    · rw [hnone] at hg
      cases hg
    · exact absurd (hnamed g' hg') homits.unnamed
    · have hold := hnamed g hg
      rw [prose_eq, ModelAnswer.queries, List.map_append] at hold
      rw [prose_empty]
      refine (hletters g hg).survives (fun w hw => ?_) hold
      obtain ⟨call, hcall, rfl⟩ := List.mem_map.mp hw
      exact hsolid call hcall
  · rintro hplain ⟨-, hkeeps⟩
    by_cases homits : ∃ g ∈ case.expectedGroups, Omits U g ⟨text, before ++ after⟩
    · exact .inr (.inl homits)
    refine .inr (.inr ⟨fun g hg => ?_, hplain.solid⟩)
    push Not at homits
    have hnamed := hkeeps (fun g' hg' => (named_prose_iff (hplain.tidy g' hg')).mpr
      fun hquoted => homits g' hg' (.inr ⟨hplain.tidy g' hg', hquoted⟩)) g hg
    have hsolid : ∀ w ∈ after.map (·.2), Solid w := by
      intro w hw
      obtain ⟨call, hcall, rfl⟩ := List.mem_map.mp hw
      exact hplain.solid call hcall
    rw [prose_empty, blankOut_empty hsolid] at hnamed
    exact hplain.oneLetter hg hnamed

theorem neutral_of_spared_quiet :
    Neutral asciiOnly (expecting (lit "proxy")) (lit "\x7bjob=\"db\"\x7d is quiet")
      [(lit "query_logs", lit "\x7bjob=\"db\"\x7d")] [] (lit "query_logs") :=
  (neutral_of_spared rfl).2.1 ⟨_, List.mem_cons_self, by decide⟩
    (.inr (.inl ⟨_, Finset.mem_singleton_self _, .inl ⟨.inl (by decide), by decide, by decide⟩⟩))

/-- A model's only call, with empty arguments, grounds the answer and costs it the group. -/
theorem empty_query_counts :
    (scoreCase asciiOnly (expecting (lit "proxy")) ⟨lit "proxy", []⟩).scores .grounding =
        some false ∧
      (scoreCase asciiOnly (expecting (lit "proxy"))
        ⟨lit "proxy", [(lit "query_logs", [])]⟩).scores .grounding = some true ∧
      (scoreCase asciiOnly (expecting (lit "proxy")) ⟨lit "proxy", []⟩).scores .completeness =
        some true ∧
      (scoreCase asciiOnly (expecting (lit "proxy"))
        ⟨lit "proxy", [(lit "query_logs", [])]⟩).scores .completeness = some false := by
  decide

end Empty

end IspPlatform.Ai
