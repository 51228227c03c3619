import Mathlib.Data.List.Infix
import IspPlatform.Py.Text

/-!
# Occurrences of a substring

`sub in s` is `sub <:+: s`. `count` and `replace` go through `s` from the left and take every
occurrence that does not overlap the last one taken.
-/

namespace IspPlatform.Py

/-- The occurrences of a non-empty `sub`, past the next `skip` characters. -/
def countFrom (sub : Str) : Nat → Str → Nat
  | _, [] => 0
  | skip + 1, _ :: cs => countFrom sub skip cs
  | 0, c :: cs =>
    if sub <+: c :: cs then countFrom sub (sub.length - 1) cs + 1 else countFrom sub 0 cs

/-- `s.count(sub)`. -/
def count (sub s : Str) : Nat := if sub = [] then s.length + 1 else countFrom sub 0 s

/-- A non-empty `old` replaced by `new`, past the next `skip` characters, which are dropped. -/
def replaceFrom (old new : Str) : Nat → Str → Str
  | _, [] => []
  | skip + 1, _ :: cs => replaceFrom old new skip cs
  | 0, c :: cs =>
    if old <+: c :: cs then new ++ replaceFrom old new (old.length - 1) cs
    else c :: replaceFrom old new 0 cs

/-- `s.replace(old, new)`; an empty `old` occurs around every character. -/
def replace (old new s : Str) : Str :=
  if old = [] then new ++ s.flatMap (fun c => c :: new) else replaceFrom old new 0 s

theorem countFrom_eq_zero {sub s : Str} (h : sub ≠ []) : countFrom sub 0 s = 0 ↔ ¬ sub <:+: s := by
  induction s with
  | nil =>
    rw [List.infix_nil]
    exact iff_of_true rfl h
  | cons c cs ih =>
    unfold countFrom
    rw [List.infix_cons_iff]
    by_cases hp : sub <+: c :: cs
    · simp [hp]
    · rw [if_neg hp, ih]
      tauto

theorem count_eq_zero {sub s : Str} (h : sub ≠ []) : count sub s = 0 ↔ ¬ sub <:+: s := by
  unfold count
  rw [if_neg h]
  exact countFrom_eq_zero h

theorem prefix_append_cons {c : Char} {x a b : Str} (hc : c ∉ x) :
    x <+: a ++ c :: b ↔ x <+: a := by
  refine ⟨fun h => ?_, fun h => h.trans (List.prefix_append _ _)⟩
  obtain ⟨t, h⟩ := h
  rcases List.append_eq_append_iff.mp h with ⟨k, rfl, -⟩ | ⟨k, rfl, hk⟩
  · exact List.prefix_append _ _
  · cases k with
    | nil => rw [List.append_nil]
    | cons d k =>
      obtain ⟨rfl, -⟩ := List.cons.inj hk
      exact absurd (List.mem_append_right _ List.mem_cons_self) hc

theorem countFrom_cons {c : Char} {sub cs : Str} : countFrom sub 0 (c :: cs) =
    if sub <+: c :: cs then countFrom sub (sub.length - 1) cs + 1 else countFrom sub 0 cs := rfl

theorem countFrom_append_cons {c : Char} {sub a b : Str} (hc : c ∉ sub) (hne : sub ≠ []) {k : Nat}
    (hk : k ≤ a.length) :
    countFrom sub k (a ++ c :: b) = countFrom sub k a + countFrom sub 0 b := by
  induction a generalizing k with
  | nil =>
    obtain rfl : k = 0 := Nat.le_zero.mp hk
    have hnot : ¬ sub <+: c :: b := by
      intro h
      exact hne (List.prefix_nil.mp ((prefix_append_cons (a := []) hc).mp h))
    rw [List.nil_append, countFrom_cons, if_neg hnot]
    exact (Nat.zero_add _).symm
  | cons x a ih =>
    cases k with
    | succ k => exact ih (Nat.le_of_succ_le_succ hk)
    | zero =>
      rw [List.cons_append, countFrom_cons, countFrom_cons, ← List.cons_append]
      by_cases h : sub <+: x :: a
      · have hlen : sub.length - 1 ≤ a.length := by
          have := h.length_le
          rw [List.length_cons] at this
          omega
        rw [if_pos ((prefix_append_cons hc).mpr h), if_pos h, ih hlen]
        omega
      · rw [if_neg fun h' => h ((prefix_append_cons hc).mp h'), if_neg h, ih (Nat.zero_le _)]

theorem count_append_cons {c : Char} {sub a b : Str} (hc : c ∉ sub) (hne : sub ≠ []) :
    count sub (a ++ c :: b) = count sub a + count sub b := by
  unfold count
  rw [if_neg hne, if_neg hne, if_neg hne]
  exact countFrom_append_cons hc hne (Nat.zero_le _)

/-! ## Around a character -/

/-- What has no `c` in it stands on one side of the `c`. -/
theorem infix_append_cons {c : Char} {x a b : Str} (hc : c ∉ x) (h : x <:+: a ++ c :: b) :
    x <:+: a ∨ x <:+: b := by
  obtain ⟨s, t, h⟩ := h
  rcases List.append_eq_append_iff.mp h with ⟨k, rfl, hk⟩ | ⟨k, hk, hb⟩
  · exact .inl ⟨s, k, rfl⟩
  · cases k with
    | nil => exact .inl ⟨s, [], by rw [List.append_nil, hk, List.append_nil]⟩
    | cons d k =>
      obtain ⟨rfl, rfl⟩ := List.cons.inj hb
      rcases List.append_eq_append_iff.mp hk with ⟨l, -, hl⟩ | ⟨l, rfl, hl⟩
      · exact absurd (hl ▸ List.mem_append_right _ List.mem_cons_self) hc
      · cases l with
        | nil =>
          obtain rfl : c :: k = x := hl
          exact absurd List.mem_cons_self hc
        | cons e l =>
          obtain ⟨-, rfl⟩ := List.cons.inj hl
          exact .inr ⟨l, t, rfl⟩

/-! ## Replacements -/

theorem replaceFrom_skip {old new : Str} (a b : Str) :
    replaceFrom old new a.length (a ++ b) = replaceFrom old new 0 b := by
  induction a with
  | nil => rfl
  | cons c a ih => exact ih

theorem replaceFrom_old {old new : Str} (hold : old ≠ []) (s : Str) :
    replaceFrom old new 0 (old ++ s) = new ++ replaceFrom old new 0 s := by
  obtain ⟨c, cs, rfl⟩ := List.exists_cons_of_ne_nil hold
  have hfront : c :: cs <+: c :: (cs ++ s) := List.prefix_append (c :: cs) s
  rw [List.cons_append, replaceFrom, if_pos hfront]
  exact congrArg _ (replaceFrom_skip cs s)

theorem replaceFrom_other {old new : Str} {c : Char} {cs : Str} (h : ¬ old <+: c :: cs) :
    replaceFrom old new 0 (c :: cs) = c :: replaceFrom old new 0 cs := if_neg h

theorem replace_absent {old new s : Str} (hold : old ≠ []) (h : ¬ old <:+: s) :
    replace old new s = s := by
  unfold replace
  rw [if_neg hold]
  induction s with
  | nil => rfl
  | cons c s ih =>
    rw [List.infix_cons_iff, not_or] at h
    rw [replaceFrom_other h.1, ih h.2]

/-- A word without blanks that stands at the front after blanks were put in stood there before. -/
theorem prefix_of_prefix_replaceFrom {q w s : Str} (hw : ' ' ∉ w)
    (h : w <+: replaceFrom q [' '] 0 s) : w <+: s := by
  induction w generalizing s with
  | nil => exact List.nil_prefix
  | cons c w ih =>
    cases s with
    | nil => exact h
    | cons d s =>
      by_cases hq : q <+: d :: s
      · rw [replaceFrom, if_pos hq] at h
        obtain ⟨rfl, -⟩ := List.cons_prefix_cons.mp h
        exact absurd List.mem_cons_self hw
      · rw [replaceFrom_other hq] at h
        obtain ⟨rfl, hrest⟩ := List.cons_prefix_cons.mp h
        exact List.cons_prefix_cons.mpr ⟨rfl, ih (List.not_mem_of_not_mem_cons hw) hrest⟩

theorem infix_behind_blank {w s : Str} (hw : ' ' ∉ w) (h : w <:+: ' ' :: s) : w <:+: s := by
  rcases infix_append_cons (a := []) hw h with hnil | hs
  · rw [List.infix_nil.mp hnil]
    exact List.nil_infix
  · exact hs

theorem infix_of_infix_replaceFrom {q w s : Str} (hw : ' ' ∉ w) (skip : Nat)
    (h : w <:+: replaceFrom q [' '] skip s) : w <:+: s := by
  induction s generalizing skip with
  | nil => cases skip <;> exact h
  | cons c s ih =>
    cases skip with
    | succ skip => exact List.infix_cons (ih skip h)
    | zero =>
      by_cases hq : q <+: c :: s
      · rw [replaceFrom, if_pos hq] at h
        exact List.infix_cons (ih _ (infix_behind_blank hw h))
      · rw [List.infix_cons_iff]
        rw [replaceFrom_other hq, List.infix_cons_iff] at h
        rcases h with hfront | hrest
        · rw [← replaceFrom_other hq] at hfront
          exact .inl (prefix_of_prefix_replaceFrom hw hfront)
        · exact .inr (ih 0 hrest)

theorem replace_nil_cons (c : Char) (s : Str) :
    replace [] [' '] (c :: s) = ' ' :: c :: replace [] [' '] s := rfl

/-- **No new words.** A word without blanks that stands in a text after blanks were put in stood
there before. -/
theorem infix_of_infix_replace {q w s : Str} (hw : ' ' ∉ w) (h : w <:+: replace q [' '] s) :
    w <:+: s := by
  by_cases hq : q = []
  · subst hq
    induction s with
    | nil => exact infix_behind_blank hw h
    | cons c s ih =>
      rw [replace_nil_cons] at h
      rw [List.infix_cons_iff]
      rcases List.infix_cons_iff.mp (infix_behind_blank hw h) with hfront | hrest
      · left
        cases w with
        | nil => exact List.nil_prefix
        | cons d w =>
          obtain ⟨rfl, hafter⟩ := List.cons_prefix_cons.mp hfront
          have hnil : w <+: [] :=
            (prefix_append_cons (a := []) (List.not_mem_of_not_mem_cons hw)).mp hafter
          rw [List.prefix_nil.mp hnil]
          exact List.cons_prefix_cons.mpr ⟨rfl, List.nil_prefix⟩
      · exact .inr (ih hrest)
  · unfold replace at h
    rw [if_neg hq] at h
    exact infix_of_infix_replaceFrom hw 0 h

/-- With blanks around every character, no two characters stand side by side. -/
theorem not_pair_spaced {c d : Char} (hc : c ≠ ' ') (hd : d ≠ ' ') (s : Str) :
    ¬ [c, d] <:+: replace [] [' '] s := by
  have hpair : ' ' ∉ [c, d] := by simp [hc.symm, hd.symm]
  induction s with
  | nil =>
    intro h
    exact absurd (List.infix_nil.mp (infix_behind_blank hpair h)) (List.cons_ne_nil _ _)
  | cons x s ih =>
    intro h
    rw [replace_nil_cons] at h
    rcases List.infix_cons_iff.mp (infix_behind_blank hpair h) with hfront | hrest
    · exact hd (List.cons_prefix_cons.mp (List.cons_prefix_cons.mp hfront).2).1
    · exact ih hrest

/-- What has neither a comma nor a blank in it stands in one of the joined texts. -/
theorem infix_join_iff {x : Str} (hx : x ≠ []) (hcomma : ',' ∉ x) (hblank : ' ' ∉ x)
    {texts : List Str} : x <:+: (lit ", ").intercalate texts ↔ ∃ y ∈ texts, x <:+: y := by
  induction texts with
  | nil =>
    rw [List.intercalate_nil, List.infix_nil]
    exact iff_of_false hx (by simp)
  | cons y texts ih =>
    cases texts with
    | nil => simp
    | cons z texts =>
      have hsplit : (lit ", ").intercalate (y :: z :: texts) =
          y ++ ',' :: ' ' :: (lit ", ").intercalate (z :: texts) := by
        rw [List.intercalate_cons_cons, List.append_assoc]
        rfl
      rw [List.exists_mem_cons_iff, ← ih, hsplit]
      constructor
      · intro h
        rcases infix_append_cons hcomma h with hy | hrest
        · exact .inl hy
        · rcases infix_append_cons hblank (a := []) hrest with hnil | hrest
          · exact absurd (List.infix_nil.mp hnil) hx
          · exact .inr hrest
      · rintro (hy | hrest)
        · exact List.infix_append_of_infix_left hy
        · exact hrest.trans ⟨y ++ lit ", ", [], by simp [lit]⟩

end IspPlatform.Py
