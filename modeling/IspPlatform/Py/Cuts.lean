import IspPlatform.Py.Substring

/-!
# Several words replaced by blanks

`blankOut` replaces one word after the other, so the order counts and a blank may complete the
next word. `Cut` takes all words out in one pass. In a text where the words keep clear of one
another (`Clear`) the two agree, and what stands in the cut text stood in the text, outside of
every word, or has a blank in it that was put in. In any text, what no part of a word touches
(`Untouched`) stays.
-/

namespace IspPlatform.Py

/-- Every word in turn replaced by a blank. -/
def blankOut (words : List Str) (s : Str) : Str :=
  words.foldl (fun s w => replace w (lit " ") s) s

/-- All words replaced by blanks in one pass from the left. -/
inductive Cut (words : List Str) : Str → Str → Prop where
  | nil : Cut words [] []
  | word {w s t : Str} : w ∈ words → Cut words s t → Cut words (w ++ s) (' ' :: t)
  | kept {c : Char} {s t : Str} : (∀ w ∈ words, ¬ w <+: c :: s) → Cut words s t →
      Cut words (c :: s) (c :: t)

/-- In an occurrence of `p` in `s`, behind its front `x`, an occurrence of `q` begins. -/
def BeginsIn (s p x q : Str) : Prop := ∃ y b, p = x ++ y ∧ y ≠ [] ∧ p ++ b <:+ s ∧ q <+: y ++ b

/-- With a blank for the word `p` somewhere in `s`, `x` and what follows up to the next blank
stand around it. -/
def Completes (s p x y : Str) : Prop := x ++ (p ++ y.takeWhile (· ≠ ' ')) <:+: s

/-- The words keep clear of one another in `s`. -/
structure Clear (words : List Str) (s : Str) : Prop where
  nonempty : ∀ w ∈ words, w ≠ []
  apart : ∀ p ∈ words, ∀ q ∈ words, p ≠ q → ∀ x, ¬ BeginsIn s p x q
  /-- No blank in the place of a word completes a word. -/
  whole : ∀ p ∈ words, ∀ x y, x ++ ' ' :: y ∈ words → ¬ Completes s p x y

variable {words words' : List Str} {s t : Str}

theorem Clear.sublist (h : Clear words s) (hsub : ∀ w ∈ words', w ∈ words) :
    Clear words' s where
  nonempty w hw := h.nonempty w (hsub w hw)
  apart p hp q hq := h.apart p (hsub p hp) q (hsub q hq)
  whole p hp x y hxy := h.whole p (hsub p hp) x y (hsub _ hxy)

theorem Clear.suffix (h : Clear words s) (hts : t <:+ s) : Clear words t where
  nonempty := h.nonempty
  apart := by
    rintro p hp q hq hne x ⟨y, b, hxy, hy, hin, hbegin⟩
    exact h.apart p hp q hq hne x ⟨y, b, hxy, hy, hin.trans hts, hbegin⟩
  whole p hp x y hxy hin := h.whole p hp x y hxy (hin.trans hts.isInfix)

/-- Words without blanks that have no letter in common keep clear of one another. -/
theorem clear_of_disjoint (hne : ∀ w ∈ words, w ≠ [])
    (hblank : ∀ w ∈ words, ' ' ∉ w)
    (hdis : ∀ p ∈ words, ∀ q ∈ words, p ≠ q → ∀ c ∈ p, c ∉ q) (s : Str) : Clear words s := by
  refine ⟨hne, ?_, ?_⟩
  · rintro p hp q hq hpq x ⟨y, b, hxy, hy, -, hbegin⟩
    obtain ⟨c, y, rfl⟩ := List.exists_cons_of_ne_nil hy
    obtain ⟨d, q, rfl⟩ := List.exists_cons_of_ne_nil (hne q hq)
    obtain ⟨rfl, -⟩ := List.cons_prefix_cons.mp hbegin
    exact hdis p hp _ hq hpq d (by simp [hxy]) List.mem_cons_self
  · intro p _ x y hxy
    exact absurd (by simp) (hblank _ hxy)

theorem Clear.front {p q : Str} (h : Clear words s) (hp : p ∈ words) (hq : q ∈ words)
    (hps : p <+: s) (hqs : q <+: s) : p = q := by
  by_contra hne
  obtain ⟨b, rfl⟩ := hps
  exact h.apart p hp q hq hne [] ⟨p, b, rfl, h.nonempty p hp, List.suffix_rfl, hqs⟩

namespace Cut

theorem cases_front (h : Cut words s t) :
    (s = [] ∧ t = []) ∨
    (∃ w ∈ words, ∃ s' t', s = w ++ s' ∧ t = ' ' :: t' ∧ Cut words s' t') ∨
    ∃ c s' t', s = c :: s' ∧ t = c :: t' ∧ (∀ w ∈ words, ¬ w <+: s) ∧ Cut words s' t' := by
  cases h with
  | nil => exact .inl ⟨rfl, rfl⟩
  | @word w s t hw h => exact .inr (.inl ⟨w, hw, s, t, rfl, rfl, h⟩)
  | @kept c s t hno h => exact .inr (.inr ⟨c, s, t, rfl, rfl, hno, h⟩)

theorem refl (s : Str) : Cut [] s s := by
  induction s with
  | nil => exact .nil
  | cons c s ih => exact .kept (by simp) ih

theorem unique (hclear : Clear words s) (hsame : ∀ w, w ∈ words ↔ w ∈ words') {t' : Str}
    (h : Cut words s t) (h' : Cut words' s t') : t = t' := by
  induction h generalizing t' with
  | nil =>
    rcases h'.cases_front with ⟨-, rfl⟩ | ⟨w, hw, s', t'', hs, -⟩ | ⟨c, s', t'', hs, -⟩
    · rfl
    · exact absurd (List.append_eq_nil_iff.mp hs.symm).1 (hclear.nonempty w ((hsame w).mpr hw))
    · cases hs
  | @word w s t hw _ ih =>
    rcases h'.cases_front with ⟨hs, -⟩ | ⟨w', hw', s', t'', hs, rfl, h''⟩ |
      ⟨c, s', t'', -, -, hno, -⟩
    · exact absurd (List.append_eq_nil_iff.mp hs).1 (hclear.nonempty w hw)
    · obtain rfl : w = w' := hclear.front hw ((hsame w').mpr hw') (List.prefix_append _ _)
        (hs ▸ List.prefix_append _ _)
      obtain rfl := List.append_cancel_left hs
      rw [ih (hclear.suffix (List.suffix_append _ _)) h'']
    · exact absurd (List.prefix_append w s) (hno w ((hsame w).mp hw))
  | @kept c s t hno _ ih =>
    rcases h'.cases_front with ⟨hs, -⟩ | ⟨w', hw', s', t'', hs, -⟩ |
      ⟨c', s', t'', hs, rfl, -, h''⟩
    · cases hs
    · exact absurd (hs ▸ List.prefix_append _ _) (hno w' ((hsame w').mpr hw'))
    · obtain ⟨rfl, rfl⟩ := List.cons.inj hs
      rw [ih (hclear.suffix (List.suffix_cons _ _)) h'']

/-- What begins the cut text begins the text, where no word does, or a blank completes it. -/
theorem front (h : Cut words s t) {m : Str} (hm : m <+: t) :
    (m <+: s ∧ (m ≠ [] → ∀ w ∈ words, ¬ w <+: s)) ∨
      ∃ w ∈ words, ∃ x y, m = x ++ ' ' :: y ∧ x ++ (w ++ y.takeWhile (· ≠ ' ')) <+: s := by
  induction h generalizing m with
  | nil => exact .inl ⟨hm, fun hne => absurd (List.prefix_nil.mp hm) hne⟩
  | @word w s t hw _ ih =>
    cases m with
    | nil => exact .inl ⟨List.nil_prefix, fun hne => absurd rfl hne⟩
    | cons c y =>
      obtain ⟨rfl, hy⟩ := List.cons_prefix_cons.mp hm
      refine .inr ⟨w, hw, [], y, rfl, ?_⟩
      -- what follows up to the next blank has no blank in it
      rcases ih ((List.takeWhile_prefix (· ≠ ' ')).trans hy) with ⟨hfront, -⟩ | ⟨-, -, x, y', hy', -⟩
      · exact (List.prefix_append_right_inj w).mpr hfront
      · have hblank : ' ' ∈ y.takeWhile (· ≠ ' ') := by
          rw [hy']
          simp
        simpa using List.mem_takeWhile_imp hblank
  | @kept c s t hno _ ih =>
    cases m with
    | nil => exact .inl ⟨List.nil_prefix, fun hne => absurd rfl hne⟩
    | cons d m =>
      obtain ⟨rfl, hm'⟩ := List.cons_prefix_cons.mp hm
      rcases ih hm' with ⟨hfront, -⟩ | ⟨w, hw, x, y, rfl, hx⟩
      · exact .inl ⟨List.cons_prefix_cons.mpr ⟨rfl, hfront⟩, fun _ => hno⟩
      · exact .inr ⟨w, hw, d :: x, y, rfl, List.cons_prefix_cons.mpr ⟨rfl, hx⟩⟩

/-- A pass leaves a stretch as it is if no word begins in it. -/
theorem past {q : Str} (hno : ∀ y ≠ [], y <:+ q → ∀ w ∈ words, ¬ w <+: y ++ s)
    (h : Cut words (q ++ s) t) : ∃ t', t = q ++ t' ∧ Cut words s t' := by
  induction q generalizing t with
  | nil => exact ⟨t, rfl, h⟩
  | cons c q ih =>
    have hfront := hno (c :: q) (List.cons_ne_nil _ _) List.suffix_rfl
    rcases h.cases_front with ⟨hs, -⟩ | ⟨w, hw, s', t', hs, -⟩ | ⟨d, s', t', hs, rfl, -, h'⟩
    · cases hs
    · exact absurd (hs ▸ List.prefix_append _ _) (hfront w hw)
    · obtain ⟨rfl, rfl⟩ := List.cons.inj hs
      obtain ⟨t'', rfl, hcut⟩ := ih (fun y hy hyq => hno y hy (hyq.trans (List.suffix_cons _ _))) h'
      exact ⟨t'', rfl, hcut⟩

theorem replace {q : Str} (hclear : Clear (words ++ [q]) s) (h : Cut words s t) :
    Cut (words ++ [q]) s (replaceFrom q [' '] 0 t) := by
  have hq : q ∈ words ++ [q] := by simp
  have hold : ∀ w ∈ words, w ∈ words ++ [q] := fun w hw => List.mem_append_left _ hw
  induction hn : s.length using Nat.strong_induction_on generalizing s t with
  | _ n ih =>
    have hshorter : ∀ {w s' : Str}, w ≠ [] → s = w ++ s' → s'.length < n := by
      intro w s' hw hs
      have hpos := List.length_pos_iff.mpr hw
      rw [hs, List.length_append] at hn
      omega
    -- a blank in the place of a word does not complete `q`
    have hwhole : q <+: t → q <+: s ∧ ∀ w ∈ words, ¬ w <+: s := by
      intro hqt
      rcases h.front hqt with ⟨hfront, hno⟩ | ⟨w, hw, x, y, hxy, hx⟩
      · exact ⟨hfront, hno (hclear.nonempty q hq)⟩
      · exact absurd hx.isInfix (hclear.whole w (hold w hw) x y (hxy ▸ hq))
    rcases h.cases_front with ⟨rfl, rfl⟩ | ⟨w, hw, s', t', rfl, rfl, h'⟩ |
      ⟨c, s', t', rfl, rfl, hno, h'⟩
    · exact .nil
    · have hqt : ¬ q <+: ' ' :: t' := fun hqt => (hwhole hqt).2 w hw (List.prefix_append _ _)
      rw [replaceFrom_other hqt]
      exact .word (hold w hw) (ih _ (hshorter (hclear.nonempty w (hold w hw)) rfl)
        (hclear.suffix (List.suffix_append _ _)) h' rfl)
    · by_cases hqs : q <+: c :: s'
      · obtain ⟨s'', hs⟩ := hqs
        rw [← hs] at h hno hclear ⊢
        have hnone : ∀ y ≠ [], y <:+ q → ∀ w ∈ words, ¬ w <+: y ++ s'' := by
          rintro y hy ⟨x, hxy⟩ w hw hbegin
          have hne : q ≠ w := by
            rintro rfl
            exact hno q hw (List.prefix_append _ _)
          exact hclear.apart q hq w (hold w hw) hne x
            ⟨y, s'', hxy.symm, hy, List.suffix_rfl, hbegin⟩
        obtain ⟨t'', ht, hcut⟩ := h.past hnone
        rw [ht, replaceFrom_old (hclear.nonempty q hq)]
        exact .word hq (ih _ (hshorter (hclear.nonempty q hq) hs.symm)
          (hclear.suffix (List.suffix_append _ _)) hcut rfl)
      · rw [replaceFrom_other fun hqt => hqs (hwhole hqt).1]
        refine .kept (fun w hw => ?_) (ih _ (hshorter (List.cons_ne_nil c []) rfl)
          (hclear.suffix (List.suffix_cons _ _)) h' rfl)
        rcases List.mem_append.mp hw with hw | hw
        · exact hno w hw
        · rwa [List.mem_singleton.mp hw]

end Cut

/-- **One pass.** Words that keep clear of one another may be replaced one after the other. -/
theorem cut_blankOut (hclear : Clear words s) : Cut words s (blankOut words s) := by
  induction words using List.reverseRecOn with
  | nil => exact .refl s
  | append_singleton words q ih =>
    have hcut := ih (hclear.sublist fun w hw => List.mem_append_left _ hw)
    have hq : q ≠ [] := hclear.nonempty q (by simp)
    have hstep : blankOut (words ++ [q]) s = replaceFrom q [' '] 0 (blankOut words s) := by
      unfold blankOut
      rw [List.foldl_append]
      exact if_neg hq
    rw [hstep]
    exact hcut.replace hclear

/-- **Any order.** -/
theorem blankOut_perm (hclear : Clear words s) (h : words.Perm words') :
    blankOut words s = blankOut words' s := by
  have hclear' : Clear words' s := hclear.sublist fun w hw => h.mem_iff.mpr hw
  exact (cut_blankOut hclear).unique hclear (fun w => h.mem_iff) (cut_blankOut hclear')

/-! ## What stands in the cut text -/

/-- `m`, standing between `before` and `after`, lies inside an occurrence of `w`. -/
def Within (w before m after : Str) : Prop :=
  ∃ a x y b, before = a ++ x ∧ w = x ++ m ++ y ∧ after = y ++ b

theorem within_self {before m after : Str} : Within (before ++ m ++ after) before m after :=
  ⟨[], before, after, [], rfl, rfl, (List.append_nil _).symm⟩

/-- No word overlaps itself in `s`. -/
def Single (words : List Str) (s : Str) : Prop := ∀ w ∈ words, ∀ x ≠ [], ¬ BeginsIn s w x w

theorem Single.suffix (h : Single words s) (hts : t <:+ s) : Single words t := by
  rintro w hw x hx ⟨y, b, hxy, hy, hin, hbegin⟩
  exact h w hw x hx ⟨y, b, hxy, hy, hin.trans hts, hbegin⟩

/-- An occurrence around a stretch behind a word does not reach into the word. -/
theorem within_behind {w w' a m b : Str} (hclear : Clear words (w ++ (a ++ m ++ b)))
    (hsingle : Single words (w ++ (a ++ m ++ b))) (hw : w ∈ words) (hw' : w' ∈ words)
    (hm : m ≠ []) (hin : Within w' (w ++ a) m b) : Within w' a m b := by
  obtain ⟨a', x, y, b', hbefore, hword, rfl⟩ := hin
  rcases List.append_eq_append_iff.mp hbefore with ⟨k, rfl, rfl⟩ | ⟨k, rfl, rfl⟩
  · exact ⟨k, x, y, b', rfl, hword, rfl⟩
  by_cases hk : k = []
  · subst hk
    exact ⟨[], a, y, b', rfl, hword, rfl⟩
  exfalso
  have hbegin : BeginsIn (a' ++ k ++ (a ++ m ++ (y ++ b'))) (a' ++ k) a' w' := by
    refine ⟨k, a ++ m ++ (y ++ b'), rfl, hk, List.suffix_rfl, b', ?_⟩
    rw [hword]
    simp
  by_cases hne : a' ++ k = w'
  · subst hne
    by_cases ha' : a' = []
    · subst ha'
      have hlen := congrArg List.length hword
      have hpos := List.length_pos_iff.mpr hm
      simp only [List.nil_append, List.length_append] at hlen
      omega
    · exact hsingle _ hw a' ha' hbegin
  · exact hclear.apart _ hw w' hw' hne a' hbegin

/-- What stands in the cut text stood in the text outside of every word, or a blank completes
it. -/
theorem Cut.stands (hclear : Clear words s) (hsingle : Single words s) (h : Cut words s t)
    {u m v : Str} (hm : m ≠ []) (ht : t = u ++ m ++ v) :
    (∃ a b, s = a ++ m ++ b ∧ ∀ w ∈ words, ¬ Within w a m b) ∨
      ∃ w ∈ words, ∃ x y, m = x ++ ' ' :: y ∧ Completes s w x y := by
  induction h generalizing u with
  | nil =>
    obtain ⟨hum, -⟩ := List.append_eq_nil_iff.mp ht.symm
    exact absurd (List.append_eq_nil_iff.mp hum).2 hm
  | @word w s t hw h ih =>
    cases u with
    | nil =>
      have hfront : m <+: ' ' :: t := by
        rw [ht]
        exact List.prefix_append _ _
      rcases (Cut.word hw h).front hfront with ⟨-, hno⟩ | ⟨w', hw', x, y, hxy, hx⟩
      · exact absurd (List.prefix_append w s) (hno hm w hw)
      · exact .inr ⟨w', hw', x, y, hxy, hx.isInfix⟩
    | cons d u =>
      have hend : s <:+ w ++ s := List.suffix_append w s
      rcases ih (hclear.suffix hend) (hsingle.suffix hend) (List.cons.inj ht).2 with
        ⟨a, b, rfl, hno⟩ | ⟨w', hw', x, y, hxy, hx⟩
      · refine .inl ⟨w ++ a, b, by simp, fun w' hw' hin => ?_⟩
        exact hno w' hw' (within_behind hclear hsingle hw hw' hm hin)
      · exact .inr ⟨w', hw', x, y, hxy, hx.trans hend.isInfix⟩
  | @kept c s t hno h ih =>
    have hcover : ∀ w ∈ words, ∀ {a b : Str}, c :: s = a ++ m ++ b → Within w a m b →
        ∃ a', a = c :: a' ∧ Within w a' m b := by
      rintro w hw a b hs ⟨a', x, y, b', rfl, hword, rfl⟩
      cases a' with
      | nil => exact absurd ⟨b', by rw [hs, hword]; simp⟩ (hno w hw)
      | cons d a' =>
        obtain ⟨rfl, -⟩ := List.cons.inj hs
        exact ⟨a' ++ x, rfl, a', x, y, b', rfl, hword, rfl⟩
    cases u with
    | nil =>
      have hfront : m <+: c :: t := by
        rw [ht]
        exact List.prefix_append _ _
      rcases (Cut.kept hno h).front hfront with ⟨⟨b, hb⟩, -⟩ | ⟨w', hw', x, y, hxy, hx⟩
      · refine .inl ⟨[], b, hb.symm, fun w hw hin => ?_⟩
        obtain ⟨a', ha', -⟩ := hcover w hw hb.symm hin
        cases ha'
      · exact .inr ⟨w', hw', x, y, hxy, hx.isInfix⟩
    | cons d u =>
      have hend : s <:+ c :: s := List.suffix_cons c s
      rcases ih (hclear.suffix hend) (hsingle.suffix hend) (List.cons.inj ht).2 with
        ⟨a, b, rfl, hno'⟩ | ⟨w', hw', x, y, hxy, hx⟩
      · refine .inl ⟨c :: a, b, rfl, fun w hw hin => ?_⟩
        obtain ⟨a', ha', hin'⟩ := hcover w hw rfl hin
        obtain ⟨-, rfl⟩ := List.cons.inj ha'
        exact hno' w hw hin'
      · exact .inr ⟨w', hw', x, y, hxy, hx.trans hend.isInfix⟩

/-- An occurrence of `w` shares a character with `m`, standing between `before` and `after`. -/
def Meets (w before m after : Str) : Prop :=
  ∃ a b, before ++ m ++ after = a ++ w ++ b ∧ a.length < (before ++ m).length ∧
    before.length < (a ++ w).length

theorem Meets.behind {w a m b : Str} (h : Meets w a m b) (c : Str) : Meets w (c ++ a) m b := by
  obtain ⟨x, y, hs, hstart, hend⟩ := h
  refine ⟨c ++ x, y, by simpa using hs, ?_, ?_⟩
  · simp only [List.length_append] at hstart ⊢
    omega
  · simp only [List.length_append] at hend ⊢
    omega

/-- An occurrence that begins in a stretch meets it. -/
theorem meets_of_begins {w x y b : Str} (hw : w ≠ []) (hy : y ≠ []) (h : w <+: y ++ b) :
    Meets w [] (x ++ y) b := by
  obtain ⟨v, hv⟩ := h
  have hwpos := List.length_pos_iff.mpr hw
  have hypos := List.length_pos_iff.mpr hy
  refine ⟨x, v, by simp [hv], ?_, ?_⟩
  · simp only [List.nil_append, List.length_append]
    omega
  · simp only [List.length_nil, List.length_append]
    omega

/-- An occurrence that begins before a stretch and does not end there meets it. -/
theorem meets_of_reaches {a k m b v : Str} (hm : m ≠ []) (hk : k ≠ []) (h : m ++ b = k ++ v) :
    Meets (a ++ k) a m b := by
  have hmpos := List.length_pos_iff.mpr hm
  have hkpos := List.length_pos_iff.mpr hk
  refine ⟨[], v, ?_, ?_, ?_⟩
  · rw [List.append_assoc, h]
    simp
  · simp only [List.length_nil, List.length_append]
    omega
  · simp only [List.nil_append, List.length_append]
    omega

theorem Cut.keeps (hclear : Clear words s) (h : Cut words s t) {a m b : Str} (hm : m ≠ [])
    (hs : s = a ++ m ++ b) (hno : ∀ w ∈ words, ¬ Meets w a m b) : ∃ u v, t = u ++ m ++ v := by
  induction h generalizing a with
  | nil =>
    obtain ⟨ham, -⟩ := List.append_eq_nil_iff.mp hs.symm
    exact absurd (List.append_eq_nil_iff.mp ham).2 hm
  | @word w s t hw h ih =>
    have hend : s <:+ w ++ s := List.suffix_append w s
    have hbehind : ∀ a', a = w ++ a' → s = a' ++ m ++ b → ∃ u v, ' ' :: t = u ++ m ++ v := by
      rintro a' rfl hs'
      obtain ⟨u, v, rfl⟩ := ih (hclear.suffix hend) hs' fun w' hw' hin => hno w' hw' (hin.behind w)
      exact ⟨' ' :: u, v, rfl⟩
    rw [List.append_assoc] at hs
    rcases List.append_eq_append_iff.mp hs with ⟨a', ha', hs'⟩ | ⟨k, hwk, hs'⟩
    · exact hbehind a' ha' (by rw [hs', List.append_assoc])
    · by_cases hk : k = []
      · subst hk
        exact hbehind [] (by simpa using hwk.symm) (by simpa using hs'.symm)
      · -- the word ends in `m`, or behind it
        subst hwk
        exact absurd (meets_of_reaches hm hk hs') (hno _ hw)
  | @kept c s t hfront h ih =>
    have hend : s <:+ c :: s := List.suffix_cons c s
    cases a with
    | nil =>
      have hnone : ∀ y ≠ [], y <:+ m → ∀ w ∈ words, ¬ w <+: y ++ b := by
        rintro y hy ⟨x, rfl⟩ w hw hbegin
        exact hno w hw (meets_of_begins (hclear.nonempty w hw) hy hbegin)
      have hcut := Cut.kept hfront h
      rw [hs, List.nil_append] at hcut
      obtain ⟨t', ht, -⟩ := hcut.past hnone
      exact ⟨[], t', ht⟩
    | cons d a =>
      obtain ⟨rfl, hs'⟩ := List.cons.inj hs
      obtain ⟨u, v, rfl⟩ := ih (hclear.suffix hend) hs' fun w hw hin => hno w hw (hin.behind [c])
      exact ⟨c :: u, v, rfl⟩

/-! ## What no word touches -/

/-- `z` is a part of `w` from its front or a blank up to a blank or its end. -/
def Part (z w : Str) : Prop :=
  ∃ x y, w = x ++ z ++ y ∧ (x = [] ∨ [' '] <:+ x) ∧ (y = [] ∨ [' '] <+: y)

/-- No part of a word shares a character with `m`, standing between `before` and `after`. -/
structure Untouched (words : List Str) (before m after : Str) : Prop where
  nonempty : ∀ w ∈ words, w ≠ []
  apart : ∀ w ∈ words, ∀ z ≠ [], Part z w → ¬ Meets z before m after

theorem Untouched.subset {a m b : Str} (h : Untouched words a m b)
    (hsub : ∀ w ∈ words', w ∈ words) : Untouched words' a m b where
  nonempty w hw := h.nonempty w (hsub w hw)
  apart w hw := h.apart w (hsub w hw)

theorem part_self (w : Str) : Part w w := ⟨[], [], by simp, .inl rfl, .inl rfl⟩

theorem upto_blank (q : Str) : ∃ q' y, q = q' ++ y ∧ ' ' ∉ q' ∧ (y = [] ∨ [' '] <+: y) := by
  induction q with
  | nil => exact ⟨[], [], rfl, List.not_mem_nil, .inl rfl⟩
  | cons c q ih =>
    by_cases hc : ' ' = c
    · exact ⟨[], c :: q, rfl, List.not_mem_nil, .inr (hc ▸ List.prefix_append [' '] q)⟩
    · obtain ⟨q', y, rfl, hq', hy⟩ := ih
      exact ⟨c :: q', y, rfl, by simp [hc, hq'], hy⟩

theorem from_blank (p : Str) : ∃ x p', p = x ++ p' ∧ ' ' ∉ p' ∧ (x = [] ∨ [' '] <:+ x) := by
  obtain ⟨p', x, hp, hp', hx⟩ := upto_blank p.reverse
  refine ⟨x.reverse, p'.reverse, ?_, by simpa using hp', ?_⟩
  · rw [← List.reverse_append, ← hp, List.reverse_reverse]
  · rcases hx with rfl | hx
    · exact .inl rfl
    · exact .inr (by simpa using List.reverse_suffix.mpr hx)

/-- An occurrence of `z` shares the stretch `r` with `m`: it is `p` before `m` and `q` behind. -/
theorem meets_of_shared {p r q m₁ m₂ before after : Str} (hr : r ≠ []) (hp : p <:+ before)
    (hq : q <+: after) (hpm : p = [] ∨ m₁ = []) (hqm : q = [] ∨ m₂ = []) :
    Meets (p ++ r ++ q) before (m₁ ++ r ++ m₂) after := by
  obtain ⟨a, rfl⟩ := hp
  obtain ⟨b, rfl⟩ := hq
  have hpos := List.length_pos_iff.mpr hr
  refine ⟨a ++ m₁, m₂ ++ b, ?_, ?_, ?_⟩
  · rcases hpm with rfl | rfl <;> rcases hqm with rfl | rfl <;> simp
  · simp only [List.length_append]
    omega
  · simp only [List.length_append]
    omega

theorem shared_front {m z v after : Str} (hz : z ≠ []) (hm : m ≠ []) (h : m ++ after = z ++ v) :
    ∃ r q m₂, z = r ++ q ∧ r ≠ [] ∧ m = r ++ m₂ ∧ q <+: after ∧ (q = [] ∨ m₂ = []) := by
  rcases List.append_eq_append_iff.mp h with ⟨q, rfl, rfl⟩ | ⟨m₂, rfl, -⟩
  · exact ⟨m, q, [], rfl, hm, by simp, List.prefix_append _ _, .inr rfl⟩
  · exact ⟨z, [], m₂, by simp, hz, rfl, List.nil_prefix, .inl rfl⟩

theorem Meets.shared {z before m after : Str} (hz : z ≠ []) (hm : m ≠ [])
    (h : Meets z before m after) :
    ∃ p r q m₁ m₂, z = p ++ r ++ q ∧ r ≠ [] ∧ m = m₁ ++ r ++ m₂ ∧ p <:+ before ∧ q <+: after ∧
      (p = [] ∨ m₁ = []) ∧ (q = [] ∨ m₂ = []) := by
  obtain ⟨u, v, hs, hstart, hend⟩ := h
  rw [List.append_assoc, List.append_assoc] at hs
  rcases List.append_eq_append_iff.mp hs with ⟨m₁, rfl, hmz⟩ | ⟨p, rfl, hzv⟩
  · -- `z` begins in `m`
    rcases List.append_eq_append_iff.mp hmz with ⟨x, rfl, -⟩ | ⟨m', rfl, hm'⟩
    · simp only [List.length_append] at hstart
      omega
    · have hne : m' ≠ [] := by
        rintro rfl
        simp at hstart
      obtain ⟨r, q, m₂, rfl, hr, rfl, hq, hqm⟩ := shared_front hz hne hm'.symm
      exact ⟨[], r, q, m₁, m₂, by simp, hr, by simp, List.nil_suffix, hq, .inl rfl, hqm⟩
  · -- it begins before `m`
    rcases List.append_eq_append_iff.mp hzv with ⟨x, rfl, -⟩ | ⟨z', rfl, hm'⟩
    · simp only [List.length_append] at hend
      omega
    · have hne : z' ≠ [] := by
        rintro rfl
        simp at hend
      obtain ⟨r, q, m₂, rfl, hr, rfl, hq, hqm⟩ := shared_front hne hm hm'
      exact ⟨p, r, q, [], m₂, by simp, hr, by simp, List.suffix_append _ _, hq, .inr rfl, hqm⟩

/-- Blanks put in around `m` bring no word closer to it. -/
theorem Untouched.around {a b a' m b' : Str} (hm : m ≠ []) (h : Untouched words a m b)
    (ha : ∀ p, ' ' ∉ p → p <:+ a' → p <:+ a) (hb : ∀ q, ' ' ∉ q → q <+: b' → q <+: b) :
    Untouched words a' m b' := by
  refine ⟨h.nonempty, ?_⟩
  rintro w hw z hz ⟨x, y, hword, hx, hy⟩ hmeets
  obtain ⟨p, r, q, m₁, m₂, rfl, hr, rfl, hp, hq, hpm, hqm⟩ := hmeets.shared hz hm
  obtain ⟨x', p', rfl, hp', hx'⟩ := from_blank p
  obtain ⟨q', y', rfl, hq', hy'⟩ := upto_blank q
  refine h.apart w hw (p' ++ r ++ q') (by simp [hr]) ⟨x ++ x', y' ++ y, ?_, ?_, ?_⟩
    (meets_of_shared hr (ha p' hp' ((List.suffix_append _ _).trans hp))
      (hb q' hq' ((List.prefix_append _ _).trans hq)) ?_ ?_)
  · simp [hword]
  · rcases hx' with rfl | hx'
    · simpa using hx
    · exact .inr (hx'.trans (List.suffix_append _ _))
  · rcases hy' with rfl | hy'
    · simpa using hy
    · exact .inr (hy'.trans (List.prefix_append _ _))
  · exact hpm.imp_left fun hnil => (List.append_eq_nil_iff.mp hnil).2
  · exact hqm.imp_left fun hnil => (List.append_eq_nil_iff.mp hnil).1

theorem replaceFrom_past {w new m b : Str} (hno : ∀ y ≠ [], y <:+ m → ¬ w <+: y ++ b) :
    replaceFrom w new 0 (m ++ b) = m ++ replaceFrom w new 0 b := by
  induction m with
  | nil => rfl
  | cons c m ih =>
    have hfront : ¬ w <+: c :: (m ++ b) := hno (c :: m) (List.cons_ne_nil _ _) List.suffix_rfl
    rw [List.cons_append, replaceFrom_other hfront,
      ih fun y hy hym => hno y hy (hym.trans (List.suffix_cons _ _))]
    rfl

/-- A replacement goes on around a stretch that no occurrence meets. -/
theorem replaceFrom_around {w new a m b : Str} (hw : w ≠ []) (hm : m ≠ [])
    (hno : ¬ Meets w a m b) : replaceFrom w new 0 (a ++ m ++ b) =
      replaceFrom w new 0 a ++ m ++ replaceFrom w new 0 b := by
  have hwpos := List.length_pos_iff.mpr hw
  induction hn : a.length using Nat.strong_induction_on generalizing a with
  | _ n ih =>
    cases a with
    | nil =>
      refine replaceFrom_past fun y hy hym hfront => hno ?_
      obtain ⟨x, rfl⟩ := hym
      exact meets_of_begins hw hy hfront
    | cons c a =>
      by_cases hfront : w <+: c :: a
      · obtain ⟨a', ha'⟩ := hfront
        rw [← ha'] at hno hn ⊢
        have hshorter : a'.length < n := by
          rw [List.length_append] at hn
          omega
        rw [List.append_assoc, List.append_assoc, replaceFrom_old hw, replaceFrom_old hw,
          ← List.append_assoc, ih _ hshorter (fun h => hno (h.behind w)) rfl]
        simp
      · have hfront' : ¬ w <+: c :: (a ++ m ++ b) := by
          rintro ⟨v, hv⟩
          have hs : w ++ v = (c :: a) ++ (m ++ b) := hv.trans (List.append_assoc (c :: a) m b)
          rcases List.append_eq_append_iff.mp hs with ⟨k, hk, -⟩ | ⟨k, rfl, hk⟩
          · exact hfront ⟨k, hk.symm⟩
          · by_cases hne : k = []
            · subst hne
              exact hfront (by simp)
            · exact hno (meets_of_reaches hm hne hk)
        rw [List.cons_append, List.cons_append, replaceFrom_other hfront', replaceFrom_other hfront,
          ih _ (hn ▸ Nat.lt_succ_self _) (fun h => hno (h.behind [c])) rfl]
        rfl

theorem replaceFrom_or_blank (q s : Str) :
    replaceFrom q [' '] 0 s = s ∨ ' ' ∈ replaceFrom q [' '] 0 s := by
  induction s with
  | nil => exact .inl rfl
  | cons c s ih =>
    by_cases hq : q <+: c :: s
    · rw [replaceFrom, if_pos hq]
      exact .inr List.mem_cons_self
    · rw [replaceFrom_other hq]
      rcases ih with hs | hs
      · exact .inl (by rw [hs])
      · exact .inr (List.mem_cons_of_mem _ hs)

theorem suffix_of_suffix_replaceFrom {q p s : Str} (hq : q ≠ []) (hp : ' ' ∉ p)
    (h : p <:+ replaceFrom q [' '] 0 s) : p <:+ s := by
  induction hn : s.length using Nat.strong_induction_on generalizing s with
  | _ n ih =>
    cases s with
    | nil => exact h
    | cons c s =>
      by_cases hfront : q <+: c :: s
      · obtain ⟨s', hs'⟩ := hfront
        have hshorter : s'.length < n := by
          have hpos := List.length_pos_iff.mpr hq
          rw [← hs', List.length_append] at hn
          omega
        rw [← hs', replaceFrom_old hq] at h
        rcases List.suffix_cons_iff.mp h with rfl | hrest
        · exact absurd List.mem_cons_self hp
        · rw [← hs']
          exact (ih _ hshorter hrest rfl).trans (List.suffix_append _ _)
      · rw [replaceFrom_other hfront] at h
        rcases List.suffix_cons_iff.mp h with rfl | hrest
        · rcases replaceFrom_or_blank q s with hs | hs
          · rw [hs]
          · exact absurd (List.mem_cons_of_mem _ hs) hp
        · exact (ih _ (hn ▸ Nat.lt_succ_self _) hrest rfl).trans (List.suffix_cons _ _)

theorem blankOut_untouched {a m b : Str} (hm : m ≠ []) (h : Untouched words a m b) :
    ∃ a' b', blankOut words (a ++ m ++ b) = a' ++ m ++ b' := by
  induction words generalizing a b with
  | nil => exact ⟨a, b, rfl⟩
  | cons w words ih =>
    have hw : w ≠ [] := h.nonempty w List.mem_cons_self
    have hno : ¬ Meets w a m b := h.apart w List.mem_cons_self w hw (part_self w)
    have hrest : Untouched words a m b := h.subset fun _ => List.mem_cons_of_mem w
    have hstep : blankOut (w :: words) (a ++ m ++ b) =
        blankOut words (replaceFrom w [' '] 0 a ++ m ++ replaceFrom w [' '] 0 b) := by
      rw [← replaceFrom_around hw hm hno]
      exact congrArg (blankOut words) (if_neg hw)
    rw [hstep]
    exact ih (hrest.around hm (fun p hp hpa => suffix_of_suffix_replaceFrom hw hp hpa)
      fun q hq hqb => prefix_of_prefix_replaceFrom hq hqb)

/-- What has no blank in it and stands there after the replacements stood there before, whatever
the words are. -/
theorem infix_of_infix_blankOut {m : Str} (hm : ' ' ∉ m) (h : m <:+: blankOut words s) :
    m <:+: s := by
  induction words generalizing s with
  | nil => exact h
  | cons w words ih => exact infix_of_infix_replace hm (ih h)

theorem mem_of_mem_blankOut {c : Char} (hc : c ≠ ' ') (h : c ∈ blankOut words s) : c ∈ s := by
  rw [← List.singleton_infix_iff] at h ⊢
  exact infix_of_infix_blankOut (by simpa using hc.symm) h

end IspPlatform.Py
