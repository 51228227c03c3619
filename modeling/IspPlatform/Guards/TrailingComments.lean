import IspPlatform.Guards.ConventionGuards

/-!
# Trailing comments

What a comment at the end of a line does to the findings of a file. A line's own findings stay,
since the patterns find in a longer line what they found in it; a `pass` under an `except` is no
longer seen.
-/

namespace IspPlatform.Guards

open Py

/-- The line with a trailing comment, before its line feed. -/
def withComment (text raw : Str) : Str :=
  lineOf raw ++ lit "  #" ++ text ++ raw.rtakeWhile (· = '\n')

/-- No triple quote stands in the text. -/
def Unquoted (s : Str) : Prop := ∀ q : Quote, ¬ q.mark <:+: s

/-- Line `n` is the `pass` that the `except` in the line above it is reported for. -/
def Swallows (U : Unicode) (lines : List Str) (n : Nat) : Prop :=
  ∃ m above raw, n = m + 1 ∧ lines[m]? = some above ∧ lines[n]? = some raw ∧
    Exposed (lineOf above) ∧ Rule.swallowedExcept.matches U (lineOf above) = true ∧
    strip raw = lit "pass"

/-! ## The commented line -/

theorem quotes_eq_zero {s : Str} : quotes s = 0 ↔ Unquoted s := by
  have hcount := fun q : Quote => @count_eq_zero q.mark s q.mark_ne_nil
  unfold quotes
  rw [Nat.add_eq_zero_iff, hcount, hcount]
  constructor
  · rintro ⟨hdouble, hsingle⟩ (_ | _)
    · exact hdouble
    · exact hsingle
  · exact fun h => ⟨h .double, h .single⟩

theorem lineOf_withComment_eq (text raw : Str) : lineOf (withComment text raw) =
    lineOf raw ++ (lit "  #" ++ text.rdropWhile (· = '\n')) := by
  have hfeeds : (text ++ raw.rtakeWhile (· = '\n')).rdropWhile (· = '\n') =
      text.rdropWhile (· = '\n') := by
    have hfeed : ∀ c ∈ (raw.rtakeWhile (· = '\n')).reverse, decide (c = '\n') = true := by
      intro c hc
      rw [List.mem_reverse] at hc
      exact List.mem_rtakeWhile_imp (p := fun x => decide (x = '\n')) hc
    unfold List.rdropWhile
    rw [List.reverse_append, List.dropWhile_append_of_pos hfeed]
  have hsplit : withComment text raw =
      (lineOf raw ++ lit "  ") ++ '#' :: (text ++ raw.rtakeWhile (· = '\n')) := by
    simp [withComment, lit]
  unfold lineOf at hsplit ⊢
  rw [hsplit, rdropWhile_behind (by decide), hfeeds]
  simp [lit]

theorem lineOf_withComment (text raw : Str) :
    ∃ e, e <+: text ∧ lineOf (withComment text raw) = lineOf raw ++ (lit "  #" ++ e) :=
  ⟨_, List.rdropWhile_prefix _ _, lineOf_withComment_eq text raw⟩

theorem not_infix_comment {w line e : Str} (hspace : ' ' ∉ w) (hhash : '#' ∉ w) (hne : w ≠ [])
    (hline : ¬ w <:+: line) (he : ¬ w <:+: e) : ¬ w <:+: line ++ (lit "  #" ++ e) := by
  intro hin
  have hin' : w <:+: line ++ ' ' :: ([] ++ ' ' :: ([] ++ '#' :: e)) := hin
  rcases infix_append_cons hspace hin' with h | h
  · exact hline h
  rcases infix_append_cons hspace h with h | h
  · exact hne (List.infix_nil.mp h)
  rcases infix_append_cons hhash h with h | h
  · exact hne (List.infix_nil.mp h)
  · exact he h

theorem unquoted_comment {line e : Str} (hline : Unquoted line) (he : Unquoted e) :
    Unquoted (line ++ (lit "  #" ++ e)) := by
  intro q
  have hspace : ' ' ∉ q.mark := by cases q <;> decide
  have hhash : '#' ∉ q.mark := by cases q <;> decide
  exact not_infix_comment hspace hhash q.mark_ne_nil (hline q) (he q)

theorem exposed_comment {line e : Str} (hx : Exposed line) (hblank : ¬ line.all isSpace = true)
    (hallow : ¬ allow <:+: e) (he : Unquoted e) : Exposed (line ++ (lit "  #" ++ e)) := by
  obtain ⟨hq, hc, ha⟩ := hx
  refine ⟨quotes_eq_zero.mpr (unquoted_comment (quotes_eq_zero.mp hq) he), ?_, ?_⟩
  · have hdrop : line.dropWhile isSpace ≠ [] := by
      intro hnil
      exact hblank (List.all_eq_true.mpr (List.dropWhile_eq_nil_iff.mp hnil))
    obtain ⟨c, cs, hcs⟩ := List.exists_cons_of_ne_nil hdrop
    unfold isComment at hc ⊢
    rw [List.dropWhile_append, hcs]
    rwa [hcs] at hc
  · exact not_infix_comment (by decide) (by decide) (by decide) ha hallow

theorem matches_comment {U : Unicode} {r : Rule} {line : Str} (h : r.matches U line = true)
    (e : Str) : r.matches U (line ++ e) = true := by
  cases r with
  | naiveDatetime => exact Regex.search_append rfl h e
  | moneyFloat =>
    rcases Bool.or_eq_true_iff.mp h with h | h
    · exact Bool.or_eq_true_iff.mpr (.inl (Regex.search_append rfl h e))
    · exact Bool.or_eq_true_iff.mpr (.inr (Regex.search_append rfl h e))
  | swallowedExcept => exact Regex.search_append rfl h e

/-! ## The findings -/

section Findings

variable {U : Unicode} {path : Str} {lines : List Str} {n : Nat} {raw text : Str}

/-- The comment removes no finding. -/
def KeepsFindings (U : Unicode) (path : Str) (lines : List Str) (n : Nat) (commented : Str) :
    Prop :=
  ∀ f ∈ checkFile U path lines, f ∈ checkFile U path (lines.set n commented)

theorem mem_checkFile_unquoted (h : ∀ raw ∈ lines, Unquoted (lineOf raw)) {f : Finding} :
    f ∈ checkFile U path lines ↔ ∃ n raw, lines[n]? = some raw ∧ Exposed (lineOf raw) ∧
      f ∈ report U path (n + 1) (lineOf raw) lines[n + 1]? := by
  have heven : ∀ n, quotesIn (lines.take n) % 2 = 0 := by
    intro n
    have hzero : quotesIn (lines.take n) = 0 := by
      unfold quotesIn
      rw [List.sum_eq_zero_iff_forall_eq_nat]
      intro k hk
      obtain ⟨raw, hraw, rfl⟩ := List.mem_map.mp hk
      exact quotes_eq_zero.mpr (h raw (List.mem_of_mem_take hraw))
    rw [hzero]
  rw [mem_checkFile]
  simp only [heven, true_and]

theorem report_comment {i : Nat} {line : Str} {next : Option Str} {f : Finding}
    (h : f ∈ report U path i line next) (e : Str) : f ∈ report U path i (line ++ e) next := by
  unfold report at h ⊢
  simp only [List.mem_append, List.mem_ite_nil_right] at h ⊢
  rcases h with (⟨hm, hf⟩ | ⟨hm, hf⟩) | ⟨hm, hf⟩
  · exact .inl (.inl ⟨matches_comment hm e, hf⟩)
  · exact .inl (.inr ⟨matches_comment hm e, hf⟩)
  · exact .inr ⟨matches_comment hm e, hf⟩

/-- The line after a line only matters as the `pass` of an `except`. -/
theorem report_next {i : Nat} {line raw : Str} {f : Finding} (next : Option Str)
    (h : f ∈ report U path i line (some raw))
    (hpass : ¬ (Rule.swallowedExcept.matches U line = true ∧ strip raw = lit "pass")) :
    f ∈ report U path i line next := by
  unfold report at h ⊢
  simp only [List.mem_append, List.mem_ite_nil_right] at h ⊢
  rcases h with h | ⟨hm, hp, -⟩
  · exact .inl h
  · exact absurd ⟨hm, hp⟩ hpass

theorem pass_of_report {i : Nat} {line raw : Str} {f : Finding}
    (h : f ∈ report U path i line (some raw)) (hf : f.rule = .swallowedExcept) :
    strip raw = lit "pass" := by
  unfold report at h
  simp only [List.mem_append, List.mem_ite_nil_right, List.mem_singleton] at h
  obtain (⟨-, rfl⟩ | ⟨-, rfl⟩) | ⟨-, hpass, -⟩ := h
  · cases hf
  · cases hf
  · exact hpass

theorem strip_withComment (text raw : Str) : strip (withComment text raw) ≠ lit "pass" := by
  have hin : '#' ∈ withComment text raw := by
    unfold withComment
    simp [lit]
  intro hpass
  have hstripped := mem_strip hin rfl
  rw [hpass] at hstripped
  revert hstripped
  decide

/-- **Trailing comments.** In a file without triple quotes, a comment that brings in no waiver
and no triple quote removes no finding exactly when its line is not the `pass` of a reported
`except`. -/
theorem keepsFindings_iff (hlines : ∀ raw ∈ lines, Unquoted raw) (hn : lines[n]? = some raw)
    (hblank : ¬ (lineOf raw).all isSpace = true) (hallow : ¬ allow <:+: text)
    (htext : Unquoted text) :
    KeepsFindings U path lines n (withComment text raw) ↔ ¬ Swallows U lines n := by
  obtain ⟨e, he, hline⟩ := lineOf_withComment text raw
  have hquotes : Unquoted e := fun q hin => htext q (hin.trans he.isInfix)
  have hwaiver : ¬ allow <:+: e := fun hin => hallow (hin.trans he.isInfix)
  have hset : ∀ m, (lines.set n (withComment text raw))[m]? =
      if n = m then some (withComment text raw) else lines[m]? := by
    intro m
    have hlen : n < lines.length := (List.getElem?_eq_some_iff.mp hn).1
    rw [List.getElem?_set]
    by_cases hnm : n = m
    · rw [if_pos hnm, if_pos hnm, if_pos hlen]
    · rw [if_neg hnm, if_neg hnm]
  have hbefore : ∀ raw ∈ lines, Unquoted (lineOf raw) := fun raw hraw q hin =>
    hlines raw hraw q (hin.trans (List.rdropWhile_prefix _ _).isInfix)
  have hafter : ∀ raw' ∈ lines.set n (withComment text raw), Unquoted (lineOf raw') := by
    intro raw' hraw'
    rcases List.mem_or_eq_of_mem_set hraw' with hold | rfl
    · exact hbefore raw' hold
    · rw [hline]
      exact unquoted_comment (hbefore raw (List.mem_of_getElem? hn)) hquotes
  constructor
  · rintro hkeeps ⟨m, above, raw', rfl, habove, hraw', hx, hm, hpass⟩
    have hfound : ⟨path, m + 1, .swallowedExcept, lit "except ...: pass"⟩ ∈
        checkFile U path lines := by
      refine (mem_checkFile_unquoted hbefore).mpr ⟨m, above, habove, hx, ?_⟩
      unfold report
      simp [hm, hraw', hpass]
    obtain ⟨m', above', -, -, hreport⟩ := (mem_checkFile_unquoted hafter).mp (hkeeps _ hfound)
    have hsame : m + 1 = m' + 1 := lineNo_report hreport
    rw [← hsame, hset, if_pos rfl] at hreport
    exact strip_withComment text raw (pass_of_report hreport rfl)
  · intro hno f hf
    obtain ⟨m, above, hm, hx, hreport⟩ := (mem_checkFile_unquoted hbefore).mp hf
    refine (mem_checkFile_unquoted hafter).mpr ?_
    by_cases hnm : n = m
    · -- a finding of the commented line
      subst hnm
      obtain rfl : raw = above := Option.some.inj (hn.symm.trans hm)
      refine ⟨n, _, (hset n).trans (if_pos rfl), ?_, ?_⟩
      · rw [hline]
        exact exposed_comment hx hblank hwaiver hquotes
      · rw [hline, hset, if_neg (by omega)]
        exact report_comment hreport _
    · refine ⟨m, above, by rw [hset, if_neg hnm, hm], hx, ?_⟩
      rw [hset]
      by_cases hnext : n = m + 1
      · -- a finding of the line above it
        subst hnext
        rw [if_pos rfl]
        rw [hn] at hreport
        exact report_next _ hreport fun h => hno ⟨m, above, raw, rfl, hm, hn, hx, h.1, h.2⟩
      · rw [if_neg hnext]
        exact hreport

/-- An `except` above a `pass`. -/
def swallowing : List Str := [lit "except Exception:\n", lit "    pass\n"]

theorem unquoted_swallowing : ∀ raw ∈ swallowing, Unquoted raw := by
  have hquotes : ∀ raw ∈ swallowing, quotes raw = 0 := by decide
  exact fun raw hraw => quotes_eq_zero.mp (hquotes raw hraw)

theorem keepsFindings_iff_above :
    KeepsFindings asciiOnly (lit "billing.py") swallowing 0
        (withComment (lit " best effort") (lit "except Exception:\n")) ↔
      ¬ Swallows asciiOnly swallowing 0 :=
  keepsFindings_iff unquoted_swallowing rfl (by decide) (by decide)
    (quotes_eq_zero.mp (by decide))

/-- A remark on the `pass` hides the swallowed exception. -/
theorem remark_hides : ¬ KeepsFindings asciiOnly (lit "billing.py") swallowing 1
    (withComment (lit " best effort") (lit "    pass\n")) := by
  intro hkeeps
  have hgone := hkeeps ⟨lit "billing.py", 1, .swallowedExcept, lit "except ...: pass"⟩ (by decide)
  revert hgone
  decide

end Findings

end IspPlatform.Guards
