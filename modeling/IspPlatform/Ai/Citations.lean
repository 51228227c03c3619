import IspPlatform.Py.Cuts
import IspPlatform.Ai.EvalHarness

/-!
# What a citation earns

CALIBRATION looks for a hint in the whole text, the cited queries included; COMPLETENESS takes
the queries out of the text first, but only where they stand in full, and one after the other.
-/

namespace IspPlatform.Ai

open Py

/-! ## Calibration -/

section Calibration

variable (U : Unicode) (answer : ModelAnswer)

/-- A truncation hint stands in the text at `m`. -/
def Hint (before m after : Str) : Prop :=
  answer.text = before ++ m ++ after ∧ (truncationHints U).Matches before.reverse m after

/-- Every hint lies inside a verbatim occurrence of a run query. -/
def HintsCited : Prop :=
  ∀ before m after, Hint U answer before m after →
    ∃ call ∈ answer.toolCalls, Within call.2 before m after

variable {U answer}

theorem acknowledged_iff : answer.acknowledged U = true ↔ ∃ before m after,
    Hint U answer before m after := Regex.search_iff

/-- **Calibration.** An answer whose hints all stand in cited queries is uncalibrated exactly
when no verbatim query in it holds a hint. -/
theorem uncalibrated_iff {case : EvalCase} (hr : case.expectRefusal = false)
    (ht : case.resultTruncated = true) (hcited : HintsCited U answer) :
    (scoreCase U case answer).scores .calibration = some false ↔
      ∀ call ∈ answer.toolCalls, ∀ before m after, Within call.2 before m after →
        ¬ Hint U answer before m after := by
  rw [scores_calibration hr, ht, Bool.not_true, Bool.false_or, Option.some.injEq,
    ← Bool.not_eq_true, acknowledged_iff]
  constructor
  · intro hnone call _ before m after _ hint
    exact hnone ⟨before, m, after, hint⟩
  · rintro hnone ⟨before, m, after, hint⟩
    obtain ⟨call, hcall, hwithin⟩ := hcited before m after hint
    exact hnone call hcall before m after hwithin hint

/-- An answer that is its one query. -/
def quoting (query : Str) : ModelAnswer := ⟨query, [(lit "query_logs", query)]⟩

theorem hintsCited_quoting (query : Str) : HintsCited U (quoting query) := by
  intro before m after hint
  refine ⟨_, List.mem_cons_self, ?_⟩
  show Within query before m after
  rw [show query = before ++ m ++ after from hint.1]
  exact within_self

/-- A case whose result was truncated. -/
def truncatedCase : EvalCase := ⟨lit "truncated", {lit "proxy"}, false, true⟩

theorem uncalibrated_iff_proxy :
    (scoreCase asciiOnly truncatedCase (quoting (lit "\x7bjob=\"proxy\"\x7d"))).scores .calibration =
        some false ↔
      ∀ call ∈ (quoting (lit "\x7bjob=\"proxy\"\x7d")).toolCalls, ∀ before m after,
        Within call.2 before m after →
          ¬ Hint asciiOnly (quoting (lit "\x7bjob=\"proxy\"\x7d")) before m after :=
  uncalibrated_iff rfl rfl (hintsCited_quoting _)

/-- The `limit` of a cited query passes for an acknowledgement. -/
theorem limit_calibrates :
    HintsCited asciiOnly (quoting (lit "\x7bjob=\"proxy\"\x7d | limit 10")) ∧
      (scoreCase asciiOnly truncatedCase
        (quoting (lit "\x7bjob=\"proxy\"\x7d | limit 10"))).scores .calibration = some true :=
  ⟨hintsCited_quoting _, rfl⟩

end Calibration

/-! ## Completeness -/

section Completeness

variable (U : Unicode)

/-- Between `before` and `after`, the group stands in `m`, in any letter case. -/
def Holds (g before m after : Str) : Prop :=
  U.lowered g <:+: U.lowerWithin after before.reverse m

/-- An occurrence of the group: it stands in `m`, and in no part of it. -/
structure Occurs (g before m after : Str) : Prop where
  holds : Holds U g before m after
  least : ∀ x m' y, m = x ++ m' ++ y → Holds U g (before ++ x) m' (y ++ after) →
    x = [] ∧ y = []

namespace ModelAnswer

variable (answer : ModelAnswer)

/-- `m` lies inside a cited query: a run query, or 24 characters or more from its front. -/
def CitedAt (before m after : Str) : Prop :=
  ∃ call ∈ answer.toolCalls, ∃ p, p <+: call.2 ∧ (24 ≤ p.length ∨ p = call.2) ∧
    Within p before m after

/-- Every occurrence of the group in the text lies inside a cited query. -/
def OnlyCited (g : Str) : Prop :=
  ∀ before m after, answer.text = before ++ m ++ after → Occurs U g before m after →
    answer.CitedAt before m after

def queries : List Str := answer.toolCalls.map (·.2)

/-- `m` lies inside a run query that stands in the text in full. -/
def QuotedAt (before m after : Str) : Prop := ∃ w ∈ answer.queries, Within w before m after

/-- Every occurrence of the group in the text lies inside a query in full. -/
def OnlyQuoted (g : Str) : Prop :=
  ∀ before m after, answer.text = before ++ m ++ after → Occurs U g before m after →
    answer.QuotedAt before m after

end ModelAnswer

/-- The lower case of a capital sigma depends on what stands around it; the text has none, or the
group no sigma. -/
def NoSigma (g text : Str) : Prop := 'Σ' ∉ text ∨ 'σ' ∉ U.lowered g ∧ 'ς' ∉ U.lowered g

/-- The queries get into the way neither of one another in the text nor of the group. -/
structure Tidy (g : Str) (answer : ModelAnswer) : Prop where
  sigma : NoSigma U g answer.text
  group : U.lowered g ≠ []
  clear : Clear answer.queries answer.text
  single : Single answer.queries answer.text
  /-- No blank in the place of a query completes the group. -/
  whole : ∀ w ∈ answer.queries, ∀ x y before after, Occurs U g before (x ++ ' ' :: y) after →
    ¬ Completes answer.text w x y
  /-- An occurrence of the group that a query meets lies inside a query. -/
  covered : ∀ before m after, answer.text = before ++ m ++ after → Occurs U g before m after →
    ∀ w ∈ answer.queries, Meets w before m after → answer.QuotedAt before m after

/-- The text does not name the group, nor does it after blanks were put in. -/
structure Absent (g text : Str) : Prop where
  sigma : NoSigma U g text
  blank : ' ' ∉ U.lowered g
  unnamed : ¬ Named U g text

/-- The text names the group where no query comes near. -/
structure Reported (g : Str) (answer : ModelAnswer) : Prop where
  sigma : NoSigma U g answer.text
  group : U.lowered g ≠ []
  apart : ∃ before m after, answer.text = before ++ m ++ after ∧ Occurs U g before m after ∧
    Untouched answer.queries before m after

variable {U} {g : Str}

theorem exists_occurs {before m after : Str} (h : Holds U g before m after) :
    ∃ x m' y, m = x ++ m' ++ y ∧ Occurs U g (before ++ x) m' (y ++ after) := by
  induction hn : m.length using Nat.strong_induction_on generalizing before m after with
  | _ n ih =>
    by_cases hleast : ∀ x m' y, m = x ++ m' ++ y → Holds U g (before ++ x) m' (y ++ after) →
        x = [] ∧ y = []
    · exact ⟨[], m, [], by simp, by simpa using ⟨h, hleast⟩⟩
    · push Not at hleast
      obtain ⟨x, m', y, rfl, hpart, hne⟩ := hleast
      have hshorter : m'.length < n := by
        have hxy : x ≠ [] ∨ y ≠ [] := by tauto
        rw [← List.length_pos_iff, ← List.length_pos_iff] at hxy
        simp only [List.length_append] at hn
        omega
      obtain ⟨x', m'', y', rfl, hocc⟩ := ih _ hshorter hpart rfl
      exact ⟨x ++ x', m'', y' ++ y, by simp, by simpa using hocc⟩

theorem named_iff {text : Str} :
    Named U g text ↔ ∃ before m after, text = before ++ m ++ after ∧ Occurs U g before m after := by
  constructor
  · intro h
    have hall : Holds U g [] text [] := by
      unfold Holds
      rw [List.reverse_nil, ← U.lowerFrom_eq_within]
      exact h
    obtain ⟨x, m, y, rfl, hocc⟩ := exists_occurs hall
    exact ⟨x, m, y, rfl, by simpa using hocc⟩
  · rintro ⟨before, m, after, rfl, hocc⟩
    have hin := hocc.holds
    unfold Named Unicode.lowered
    unfold Holds at hin
    rw [List.append_assoc, U.lowerFrom_append, U.lowerFrom_append, List.append_nil]
    exact hin.trans ⟨_, _, List.append_assoc ..⟩

theorem Occurs.ne_nil {before m after : Str} (h : Occurs U g before m after)
    (hg : U.lowered g ≠ []) : m ≠ [] := by
  rintro rfl
  exact hg (List.infix_nil.mp h.holds)

/-- Without a sigma, an occurrence does not depend on what stands around it. -/
theorem Occurs.moved {before m after : Str} (h : Occurs U g before m after) (hm : 'Σ' ∉ m)
    (before' after' : Str) : Occurs U g before' m after' := by
  have hholds : ∀ {m' : Str} (_ : 'Σ' ∉ m') {a b a' b' : Str}, Holds U g a m' b →
      Holds U g a' m' b' := by
    intro m' hm' a b a' b' hin
    unfold Holds at hin ⊢
    rwa [U.lowerWithin_eq_flatMap hm'] at hin ⊢
  refine ⟨hholds hm h.holds, fun x m' y hxy hpart => h.least x m' y hxy (hholds ?_ hpart)⟩
  intro hin
  exact hm (by simp [hxy, hin])

/-- An occurrence has no character in it whose lower case the group lacks. -/
theorem Occurs.not_mem {before m after : Str} (h : Occurs U g before m after) {c : Char}
    (hc : ∀ before after, ∃ d, U.lowerWithin after before [c] = [d] ∧ d ∉ U.lowered g) :
    c ∉ m := by
  intro hin
  obtain ⟨x, y, rfl⟩ := List.append_of_mem hin
  obtain ⟨d, hd, hdg⟩ := hc (x.reverse ++ before.reverse) (y ++ after)
  have hlower : U.lowerWithin after before.reverse (x ++ c :: y) =
      U.lowerWithin (c :: y ++ after) before.reverse x ++
        d :: U.lowerWithin after (c :: (x.reverse ++ before.reverse)) y := by
    rw [U.lowerWithin_append, ← List.singleton_append, U.lowerWithin_append, hd]
    rfl
  have hholds := h.holds
  unfold Holds at hholds
  rw [hlower] at hholds
  rcases infix_append_cons hdg hholds with hx | hy
  · obtain ⟨-, hnil⟩ := h.least [] x (c :: y) rfl (by simpa [Holds] using hx)
    cases hnil
  · obtain ⟨hnil, -⟩ := h.least (x ++ [c]) y [] (by simp) (by simpa [Holds] using hy)
    simp at hnil

theorem Occurs.no_blank {before m after : Str} (h : Occurs U g before m after)
    (hg : ' ' ∉ U.lowered g) : ' ' ∉ m := h.not_mem fun _ _ => ⟨' ', rfl, hg⟩

theorem Occurs.no_sigma {before m after text : Str} (h : Occurs U g before m after)
    (hsigma : NoSigma U g text) (hm : m <:+: text) : 'Σ' ∉ m := by
  rcases hsigma with htext | ⟨hmedial, hfinal⟩
  · exact fun hin => htext (hm.mem hin)
  · refine h.not_mem fun a b => ?_
    unfold Unicode.lowerWithin
    rw [if_pos rfl]
    split
    · exact ⟨'ς', rfl, hfinal⟩
    · exact ⟨'σ', rfl, hmedial⟩

theorem prose_eq (answer : ModelAnswer) : answer.prose = blankOut answer.queries answer.text := by
  unfold ModelAnswer.prose blankOut ModelAnswer.queries
  rw [List.foldl_map]

theorem Absent.prose {answer : ModelAnswer} (h : Absent U g answer.text) :
    ¬ Named U g answer.prose := by
  rw [prose_eq, named_iff]
  rintro ⟨u, m, v, hprose, hocc⟩
  have hm : m <:+: blankOut answer.queries answer.text := ⟨u, v, hprose.symm⟩
  obtain ⟨a, b, htext⟩ := infix_of_infix_blankOut (hocc.no_blank h.blank) hm
  have hsigma : 'Σ' ∉ m := hocc.no_sigma h.sigma ⟨a, b, htext⟩
  exact h.unnamed (named_iff.mpr ⟨a, m, b, htext.symm, hocc.moved hsigma a b⟩)

theorem Reported.prose {answer : ModelAnswer} (h : Reported U g answer) :
    Named U g answer.prose := by
  obtain ⟨a, m, b, htext, hocc, hapart⟩ := h.apart
  have hsigma : 'Σ' ∉ m := hocc.no_sigma h.sigma ⟨a, b, htext.symm⟩
  obtain ⟨u, v, hprose⟩ := blankOut_untouched (hocc.ne_nil h.group) hapart
  rw [prose_eq, htext, hprose]
  exact named_iff.mpr ⟨u, m, v, rfl, hocc.moved hsigma u v⟩

/-- **The prose.** In a tidy answer it names the groups that stand outside of the queries. -/
theorem named_prose_iff {answer : ModelAnswer} (h : Tidy U g answer) :
    Named U g answer.prose ↔ ¬ answer.OnlyQuoted U g := by
  have hsigma : ∀ {a m b u v : Str}, answer.text = a ++ m ++ b → Occurs U g u m v → 'Σ' ∉ m :=
    fun htext hocc => hocc.no_sigma h.sigma ⟨_, _, htext.symm⟩
  have hcut := cut_blankOut h.clear
  rw [prose_eq, named_iff]
  constructor
  · rintro ⟨u, m, v, hprose, hocc⟩ hquoted
    rcases hcut.stands h.clear h.single (hocc.ne_nil h.group) hprose with
      ⟨a, b, htext, hno⟩ | ⟨w, hw, x, y, rfl, hcompletes⟩
    · obtain ⟨w, hw, hin⟩ := hquoted a m b htext (hocc.moved (hsigma htext hocc) a b)
      exact hno w hw hin
    · exact h.whole w hw x y u v hocc hcompletes
  · intro hunquoted
    unfold ModelAnswer.OnlyQuoted at hunquoted
    push Not at hunquoted
    obtain ⟨a, m, b, htext, hocc, hout⟩ := hunquoted
    obtain ⟨u, v, hprose⟩ := hcut.keeps h.clear (hocc.ne_nil h.group) htext
      fun w hw hmeets => hout (h.covered a m b htext hocc w hw hmeets)
    exact ⟨u, m, v, hprose, hocc.moved (hsigma htext hocc) u v⟩

theorem missed_iff_unnamed {case : EvalCase} {answer : ModelAnswer}
    (hr : case.expectRefusal = false) (hg : g ∈ case.expectedGroups) :
    (g ∈ missing U case answer ∧ (scoreCase U case answer).scores .completeness = some false) ↔
      ¬ Named U g answer.prose := by
  rw [mem_missing, scores_completeness hr, Option.some.injEq, decide_eq_false_iff_not]
  constructor
  · exact fun h => h.1.2
  · exact fun hno => ⟨⟨hg, hno⟩, fun hall => hno (hall g hg)⟩

/-- **Completeness.** In a tidy answer a group is missed exactly when it stands in queries in full
and nowhere else. -/
theorem missed_iff {case : EvalCase} {answer : ModelAnswer} (hr : case.expectRefusal = false)
    (hg : g ∈ case.expectedGroups) (htidy : Tidy U g answer) :
    (g ∈ missing U case answer ∧ (scoreCase U case answer).scores .completeness = some false) ↔
      answer.OnlyQuoted U g := by
  rw [missed_iff_unnamed hr hg, named_prose_iff htidy, not_not]

theorem tidy_quoting {query : Str} (hne : query ≠ []) (hsigma : 'Σ' ∉ query) (hblank : ' ' ∉ query)
    (hg : U.lowered g ≠ []) (hgb : ' ' ∉ U.lowered g) : Tidy U g (quoting query) where
  sigma := .inl hsigma
  group := hg
  clear := by
    refine ⟨?_, ?_, ?_⟩
    · intro w hw
      rwa [List.mem_singleton.mp hw]
    · intro p hp q hq hpq
      exact absurd ((List.mem_singleton.mp hp).trans (List.mem_singleton.mp hq).symm) hpq
    · intro p _ x y hxy
      have hquery : x ++ ' ' :: y = query := List.mem_singleton.mp hxy
      exact absurd (hquery ▸ by simp) hblank
  single := by
    rintro w hw x hx ⟨y, b, hxy, -, hin, hbegin⟩
    obtain rfl : w = query := List.mem_singleton.mp hw
    have hxpos := List.length_pos_iff.mpr hx
    have hlen := hin.length_le
    have hlen' := hbegin.length_le
    have hw' := congrArg List.length hxy
    have htext : (quoting w).text = w := rfl
    simp only [htext, List.length_append] at hlen hlen' hw'
    omega
  whole w _ x y before after hocc := by
    have hno := hocc.no_blank hgb
    simp at hno
  covered before m after htext _ _ _ _ := by
    refine ⟨query, List.mem_singleton_self _, ?_⟩
    rw [show query = before ++ m ++ after from htext]
    exact within_self

theorem missed_iff_proxy :
    (lit "proxy" ∈ missing asciiOnly (expecting (lit "proxy"))
        (quoting (lit "\x7bjob=~\"proxy|system\"\x7d")) ∧
      (scoreCase asciiOnly (expecting (lit "proxy"))
        (quoting (lit "\x7bjob=~\"proxy|system\"\x7d"))).scores .completeness = some false) ↔
      (quoting (lit "\x7bjob=~\"proxy|system\"\x7d")).OnlyQuoted asciiOnly (lit "proxy") :=
  missed_iff rfl (Finset.mem_singleton_self _)
    (tidy_quoting (by decide) (by decide) (by decide) (by decide) (by decide))

/-- An answer that is the front of its one query. -/
def fronting (n : Nat) (query : Str) : ModelAnswer := ⟨query.take n, [(lit "query_logs", query)]⟩

theorem onlyCited_fronting {n : Nat} {query : Str} (h : 24 ≤ (query.take n).length ∨
    query.take n = query) : (fronting n query).OnlyCited U g := by
  intro before m after htext _
  refine ⟨_, List.mem_cons_self, query.take n, List.take_prefix n query, h, ?_⟩
  rw [show query.take n = before ++ m ++ after from htext]
  exact within_self

/-- The front of a query, enough for a citation, still names the group. -/
theorem front_completes :
    (fronting 24 (lit "\x7bjob=~\"proxy|system\"\x7d |~ \"error\"")).OnlyCited asciiOnly
        (lit "proxy") ∧
      (scoreCase asciiOnly (expecting (lit "proxy"))
        (fronting 24 (lit "\x7bjob=~\"proxy|system\"\x7d |~ \"error\""))).scores .grounding =
          some true ∧
      (scoreCase asciiOnly (expecting (lit "proxy"))
        (fronting 24 (lit "\x7bjob=~\"proxy|system\"\x7d |~ \"error\""))).scores .completeness =
          some true :=
  ⟨onlyCited_fronting (by decide), by decide, by decide⟩

end Completeness

end IspPlatform.Ai
