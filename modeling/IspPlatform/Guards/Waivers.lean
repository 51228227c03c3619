import IspPlatform.Guards.TrailingComments
import IspPlatform.Py.Lists

/-!
# Waivers

A trailing comment with the waiver word takes its line out of the scan. The line keeps its triple
quotes, so what is hidden and what is not stays the same elsewhere; only an `except` above it
loses its `pass`.
-/

namespace IspPlatform.Guards

open Py

theorem lineOf_comment {text : Str} (htext : '\n' ∉ text) (raw : Str) :
    lineOf (withComment text raw) = lineOf raw ++ (lit "  #" ++ text) := by
  have hkeep : text.rdropWhile (· = '\n') = text := by
    rw [List.rdropWhile_eq_self_iff]
    intro hne
    simpa using fun heq : text.getLast hne = '\n' => htext (heq ▸ List.getLast_mem hne)
  rw [lineOf_withComment_eq, hkeep]

theorem quotes_comment {line text : Str} (htext : Unquoted text) :
    quotes (line ++ (lit "  #" ++ text)) = quotes line := by
  have hcount : ∀ q : Quote, count q.mark (line ++ (lit "  #" ++ text)) = count q.mark line := by
    intro q
    have hspace : ' ' ∉ q.mark := by cases q <;> decide
    have hhash : '#' ∉ q.mark := by cases q <;> decide
    have hnone : count q.mark text = 0 := (count_eq_zero q.mark_ne_nil).mpr (htext q)
    have hempty : count q.mark [] = 0 := by cases q <;> decide
    have hsplit : line ++ (lit "  #" ++ text) = line ++ ' ' :: ([] ++ ' ' :: ([] ++ '#' :: text)) :=
      rfl
    rw [hsplit, count_append_cons hspace q.mark_ne_nil, count_append_cons hspace q.mark_ne_nil,
      count_append_cons hhash q.mark_ne_nil, hempty, hnone]
    omega
  unfold quotes
  rw [hcount, hcount]

section
variable {U : Unicode} {path : Str} {lines : List Str} {n : Nat} {raw text : Str}

theorem quotesIn_set (hn : lines[n]? = some raw) {raw' : Str}
    (h : quotes (lineOf raw') = quotes (lineOf raw)) (m : Nat) :
    quotesIn ((lines.set n raw').take m) = quotesIn (lines.take m) := by
  unfold quotesIn
  rw [List.map_take, List.map_take, map_set_of_eq hn h]

theorem report_other {i : Nat} {line : Str} {next next' : Option Str} {f : Finding}
    (h : f ∈ report U path i line next) (hf : f.rule ≠ .swallowedExcept) :
    f ∈ report U path i line next' := by
  unfold report at h ⊢
  simp only [List.mem_append, List.mem_ite_nil_right, List.mem_singleton] at h ⊢
  rcases h with h | ⟨-, -, rfl⟩
  · exact .inl h
  · exact absurd rfl hf

/-- **Waivers.** A comment with the waiver word removes the findings of its line, and the one of
an `except` above it, and nothing else; it adds none. -/
theorem waiver_exact (hn : lines[n]? = some raw) (hallow : allow <:+: text) (htext : Unquoted text)
    (hfeed : '\n' ∉ text) (f : Finding) :
    f ∈ checkFile U path (lines.set n (withComment text raw)) ↔ f ∈ checkFile U path lines ∧
      f.lineNo ≠ n + 1 ∧ ¬ (f.lineNo = n ∧ f.rule = .swallowedExcept) := by
  have hline := lineOf_comment hfeed raw
  have habove : ∀ m, quotesIn ((lines.set n (withComment text raw)).take m) =
      quotesIn (lines.take m) := quotesIn_set hn (hline ▸ quotes_comment htext)
  have hwaived : ¬ Exposed (lineOf (withComment text raw)) := by
    rintro ⟨-, -, hno⟩
    refine hno (hallow.trans ?_)
    rw [hline, ← List.append_assoc]
    exact (List.suffix_append _ _).isInfix
  have hset : ∀ m, (lines.set n (withComment text raw))[m]? =
      if n = m then some (withComment text raw) else lines[m]? := by
    intro m
    rw [List.getElem?_set, if_pos (List.getElem?_eq_some_iff.mp hn).1]
  rw [mem_checkFile, mem_checkFile]
  simp only [habove]
  constructor
  · rintro ⟨m, line, hm, hq, hx, hf⟩
    have hno := lineNo_report hf
    have hother : n ≠ m := by
      rintro rfl
      rw [hset, if_pos rfl] at hm
      exact hwaived (Option.some.inj hm ▸ hx)
    rw [hset, if_neg hother] at hm
    by_cases hnext : n = m + 1
    · -- the line above: its `pass` is gone
      rw [hset, if_pos hnext] at hf
      have hrule : f.rule ≠ .swallowedExcept := fun hr =>
        strip_withComment text raw (pass_of_report hf hr)
      exact ⟨⟨m, line, hm, hq, hx, report_other hf hrule⟩, by omega, fun h => hrule h.2⟩
    · rw [hset, if_neg hnext] at hf
      exact ⟨⟨m, line, hm, hq, hx, hf⟩, by omega, fun h => hnext (by omega)⟩
  · rintro ⟨⟨m, line, hm, hq, hx, hf⟩, hself, habove⟩
    have hno := lineNo_report hf
    refine ⟨m, line, by rw [hset, if_neg (by omega), hm], hq, hx, ?_⟩
    rw [hset]
    by_cases hnext : n = m + 1
    · rw [if_pos hnext]
      exact report_other hf fun hr => habove ⟨by omega, hr⟩
    · rwa [if_neg hnext]

/-- A waiver on the `pass` waives the `except`. -/
theorem waiver_exact_pass : ⟨lit "billing.py", 1, .swallowedExcept, lit "except ...: pass"⟩ ∉
    checkFile asciiOnly (lit "billing.py")
      (swallowing.set 1 (withComment (lit " guard-ok") (lit "    pass\n"))) := by
  intro h
  have hkept := (waiver_exact rfl (by decide) (quotes_eq_zero.mp (by decide)) (by decide) _).mp h
  exact hkept.2.2 ⟨rfl, rfl⟩

end

end IspPlatform.Guards
