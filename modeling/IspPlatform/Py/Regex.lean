import Mathlib.Data.List.Forall2
import IspPlatform.Py.Text

/-!
# Regular expressions

The part of `re` that needs no captures: classes of characters and their repetition,
sequences, alternatives, `\b` and look-ahead. `ends` runs an expression from a place in the
text and lists the places it can reach; `Matches` says what it matches in which context, and
`search_iff` that `search` finds a match exactly when there is one.
-/

namespace IspPlatform.Py

inductive Regex where
  | eps
  | cls (p : Char → Bool)
  /-- Any number of characters of a class. -/
  | many (p : Char → Bool)
  | seq (r s : Regex)
  | alt (r s : Regex)
  /-- `\b`, given the word characters. -/
  | boundary (word : Char → Bool)
  /-- `(?=r)`. -/
  | look (r : Regex)

namespace Regex

/-- A place in a text: the characters before it, the last one first, and those after it. -/
abbrev Cursor := Str × Str

/-- One of the two characters at a place is a word character, and the other one is not. -/
def atBoundary (word : Char → Bool) (k : Cursor) : Bool :=
  k.1.head?.any word != k.2.head?.any word

/-- The places reached by reading characters of a class, the farthest first. -/
def manyEnds (p : Char → Bool) : Str → Str → List Cursor
  | l, [] => [(l, [])]
  | l, c :: cs => (if p c then manyEnds p (c :: l) cs else []) ++ [(l, c :: cs)]

/-- The places an expression can reach. -/
def ends : Regex → Cursor → List Cursor
  | eps, k => [k]
  | cls p, (l, t) =>
    match t with
    | [] => []
    | c :: cs => if p c then [(c :: l, cs)] else []
  | many p, (l, t) => manyEnds p l t
  | seq r s, k => (ends r k).flatMap (ends s)
  | alt r s, k => ends r k ++ ends s k
  | boundary word, k => if atBoundary word k then [k] else []
  | look r, k => if (ends r k).isEmpty then [] else [k]

def searchFrom (r : Regex) : Str → Str → Bool
  | l, [] => !(ends r (l, [])).isEmpty
  | l, c :: cs => !(ends r (l, c :: cs)).isEmpty || searchFrom r (c :: l) cs

/-- `r.search(s)` finds a match. -/
def search (r : Regex) (s : Str) : Bool := searchFrom r [] s

/-- The characters of `s`, each compared by `eq`. -/
def chars (eq : Char → Char → Bool) : Str → Regex
  | [] => eps
  | c :: cs => seq (cls (eq c)) (chars eq cs)

/-- A literal, as it is. -/
def exactly (s : String) : Regex := chars (· == ·) (lit s)

/-- One of several expressions. -/
def any : List Regex → Regex
  | [] => cls fun _ => false
  | r :: rs => alt r (any rs)

/-- The expression matches `m` between `l`, read backwards, and `t`. -/
def Matches : Regex → Str → Str → Str → Prop
  | eps, _, m, _ => m = []
  | cls p, _, m, _ => ∃ c, m = [c] ∧ p c = true
  | many p, _, m, _ => ∀ c ∈ m, p c = true
  | seq r s, l, m, t => ∃ m₁ m₂, m = m₁ ++ m₂ ∧ Matches r l m₁ (m₂ ++ t) ∧
      Matches s (m₁.reverse ++ l) m₂ t
  | alt r s, l, m, t => Matches r l m t ∨ Matches s l m t
  | boundary word, l, m, t => m = [] ∧ atBoundary word (l, t) = true
  | look r, l, m, t => m = [] ∧ ∃ m' t', t = m' ++ t' ∧ Matches r l m' t'

/-! ## What `ends` reaches -/

theorem mem_manyEnds {p : Char → Bool} {l t : Str} {k : Cursor} :
    k ∈ manyEnds p l t ↔
      ∃ m t', k = (m.reverse ++ l, t') ∧ t = m ++ t' ∧ ∀ c ∈ m, p c = true := by
  induction t generalizing l with
  | nil =>
    unfold manyEnds
    constructor
    · intro h
      exact ⟨[], [], by simpa using h, rfl, by simp⟩
    · rintro ⟨m, t', rfl, hm, -⟩
      obtain ⟨rfl, rfl⟩ := List.append_eq_nil_iff.mp hm.symm
      exact List.mem_singleton.mpr rfl
  | cons c cs ih =>
    unfold manyEnds
    rw [List.mem_append, List.mem_singleton]
    constructor
    · rintro (h | rfl)
      · by_cases hc : p c = true
        · rw [if_pos hc] at h
          obtain ⟨m, t', rfl, rfl, hm⟩ := ih.mp h
          exact ⟨c :: m, t', by simp, rfl, by simpa using ⟨hc, hm⟩⟩
        · rw [if_neg hc] at h
          cases h
      · exact ⟨[], _, rfl, rfl, by simp⟩
    · rintro ⟨m, t', rfl, hm, hall⟩
      rcases m with _ | ⟨c', m⟩
      · exact .inr (by rw [hm]; rfl)
      · obtain ⟨rfl, rfl⟩ := List.cons.inj hm
        obtain ⟨hc, hm'⟩ := List.forall_mem_cons.mp hall
        rw [if_pos hc]
        exact .inl (ih.mpr ⟨m, t', by simp, rfl, hm'⟩)

/-- An expression reaches the places behind its matches. -/
theorem mem_ends {r : Regex} {l t : Str} {k : Cursor} :
    k ∈ ends r (l, t) ↔ ∃ m t', k = (m.reverse ++ l, t') ∧ t = m ++ t' ∧ Matches r l m t' := by
  induction r generalizing l t k with
  | eps =>
    unfold ends Matches
    constructor
    · intro h
      exact ⟨[], t, List.mem_singleton.mp h, rfl, rfl⟩
    · rintro ⟨m, t', rfl, rfl, rfl⟩
      exact List.mem_singleton.mpr rfl
  | cls p =>
    unfold ends Matches
    constructor
    · intro h
      rcases t with _ | ⟨c, cs⟩
      · cases h
      · by_cases hc : p c = true
        · simp only [hc, if_true, List.mem_singleton] at h
          exact ⟨[c], cs, h, rfl, c, rfl, hc⟩
        · simp [hc] at h
    · rintro ⟨m, t', rfl, rfl, c, rfl, hc⟩
      simp [hc]
  | many p => exact mem_manyEnds
  | seq r s ihr ihs =>
    unfold ends Matches
    rw [List.mem_flatMap]
    constructor
    · rintro ⟨⟨l₁, t₁⟩, h₁, h₂⟩
      obtain ⟨m₁, t', heq, rfl, hm₁⟩ := ihr.mp h₁
      obtain ⟨rfl, rfl⟩ := Prod.mk.inj heq
      obtain ⟨m₂, t₂, rfl, rfl, hm₂⟩ := ihs.mp h₂
      exact ⟨m₁ ++ m₂, t₂, by simp, by simp, m₁, m₂, rfl, hm₁, hm₂⟩
    · rintro ⟨m, t', rfl, rfl, m₁, m₂, rfl, hm₁, hm₂⟩
      refine ⟨(m₁.reverse ++ l, m₂ ++ t'), ihr.mpr ⟨m₁, _, rfl, by simp, hm₁⟩, ?_⟩
      exact ihs.mpr ⟨m₂, t', by simp, rfl, hm₂⟩
  | alt r s ihr ihs =>
    unfold ends Matches
    rw [List.mem_append, ihr, ihs]
    constructor
    · rintro (⟨m, t', hk, ht, hm⟩ | ⟨m, t', hk, ht, hm⟩)
      · exact ⟨m, t', hk, ht, .inl hm⟩
      · exact ⟨m, t', hk, ht, .inr hm⟩
    · rintro ⟨m, t', hk, ht, hm | hm⟩
      · exact .inl ⟨m, t', hk, ht, hm⟩
      · exact .inr ⟨m, t', hk, ht, hm⟩
  | boundary word =>
    unfold ends Matches
    constructor
    · intro h
      by_cases hb : atBoundary word (l, t) = true
      · rw [if_pos hb] at h
        exact ⟨[], t, List.mem_singleton.mp h, rfl, rfl, hb⟩
      · rw [if_neg hb] at h
        cases h
    · rintro ⟨m, t', rfl, rfl, rfl, hb⟩
      rw [List.nil_append, if_pos hb]
      exact List.mem_singleton.mpr rfl
  | look r ih =>
    unfold ends Matches
    constructor
    · intro h
      rcases hr : ends r (l, t) with _ | ⟨k', ks⟩
      · rw [hr] at h
        cases h
      · rw [hr] at h
        obtain ⟨m, t', -, ht, hm⟩ := ih.mp (hr ▸ List.mem_cons_self)
        exact ⟨[], t, by simpa using h, rfl, rfl, m, t', ht, hm⟩
    · rintro ⟨m, t', rfl, rfl, rfl, m', t'', ht, hm⟩
      have hmem := ih.mpr ⟨m', t'', rfl, ht, hm⟩
      rw [List.nil_append]
      have hne : (ends r (l, t')).isEmpty = false := by
        rw [List.isEmpty_eq_false_iff]
        exact List.ne_nil_of_mem hmem
      simp [hne]

theorem ends_nonempty {r : Regex} {l t : Str} :
    (!(ends r (l, t)).isEmpty) = true ↔ ∃ m t', t = m ++ t' ∧ Matches r l m t' := by
  rw [Bool.not_eq_true', List.isEmpty_eq_false_iff_exists_mem]
  constructor
  · rintro ⟨k, hk⟩
    obtain ⟨m, t', -, ht, hm⟩ := mem_ends.mp hk
    exact ⟨m, t', ht, hm⟩
  · rintro ⟨m, t', ht, hm⟩
    exact ⟨_, mem_ends.mpr ⟨m, t', rfl, ht, hm⟩⟩

theorem searchFrom_iff {r : Regex} {l s : Str} :
    searchFrom r l s = true ↔ ∃ pre m t, s = pre ++ m ++ t ∧ Matches r (pre.reverse ++ l) m t := by
  induction s generalizing l with
  | nil =>
    unfold searchFrom
    rw [ends_nonempty]
    constructor
    · rintro ⟨m, t', ht, hm⟩
      exact ⟨[], m, t', ht, hm⟩
    · rintro ⟨pre, m, t, hs, hm⟩
      obtain ⟨hpm, rfl⟩ := List.append_eq_nil_iff.mp hs.symm
      obtain ⟨rfl, rfl⟩ := List.append_eq_nil_iff.mp hpm
      exact ⟨[], [], rfl, hm⟩
  | cons c cs ih =>
    unfold searchFrom
    rw [Bool.or_eq_true, ends_nonempty, ih]
    constructor
    · rintro (⟨m, t', ht, hm⟩ | ⟨pre, m, t, rfl, hm⟩)
      · exact ⟨[], m, t', ht, hm⟩
      · exact ⟨c :: pre, m, t, rfl, by simpa using hm⟩
    · rintro ⟨pre, m, t, hs, hm⟩
      rcases pre with _ | ⟨c', pre⟩
      · exact .inl ⟨m, t, hs, hm⟩
      · obtain ⟨rfl, rfl⟩ := List.cons.inj hs
        exact .inr ⟨pre, m, t, rfl, by simpa using hm⟩

/-- **Search.** A match is found exactly when the text has one. -/
theorem search_iff {r : Regex} {s : Str} :
    search r s = true ↔ ∃ pre m t, s = pre ++ m ++ t ∧ Matches r pre.reverse m t := by
  unfold search
  rw [searchFrom_iff]
  simp

/-! ## Derived expressions -/

theorem matches_seq {r s : Regex} {l m t : Str} : Matches (seq r s) l m t ↔
    ∃ m₁ m₂, m = m₁ ++ m₂ ∧ Matches r l m₁ (m₂ ++ t) ∧ Matches s (m₁.reverse ++ l) m₂ t := Iff.rfl

theorem matches_cls {p : Char → Bool} {l m t : Str} :
    Matches (cls p) l m t ↔ ∃ c, m = [c] ∧ p c = true := Iff.rfl

theorem matches_alt {r s : Regex} {l m t : Str} :
    Matches (alt r s) l m t ↔ Matches r l m t ∨ Matches s l m t := Iff.rfl

theorem matches_chars {eq : Char → Char → Bool} {w l m t : Str} :
    Matches (chars eq w) l m t ↔ List.Forall₂ (fun c x => eq c x = true) w m := by
  induction w generalizing l m with
  | nil =>
    rw [List.forall₂_nil_left_iff]
    exact Iff.rfl
  | cons c w ih =>
    unfold chars
    rw [matches_seq, List.forall₂_cons_left_iff]
    constructor
    · rintro ⟨m₁, m₂, rfl, hm₁, hm₂⟩
      obtain ⟨x, rfl, hx⟩ := matches_cls.mp hm₁
      exact ⟨x, m₂, hx, ih.mp hm₂, rfl⟩
    · rintro ⟨x, m₂, hx, hm₂, rfl⟩
      exact ⟨[x], m₂, rfl, ⟨x, rfl, hx⟩, ih.mpr hm₂⟩

theorem matches_any {rs : List Regex} {l m t : Str} :
    Matches (any rs) l m t ↔ ∃ r ∈ rs, Matches r l m t := by
  induction rs with
  | nil =>
    unfold any
    rw [matches_cls]
    simp
  | cons r rs ih =>
    unfold any
    rw [matches_alt, ih, List.exists_mem_cons_iff]

/-! ## More text behind a match -/

/-- The expression never matches the empty text. -/
def consumes : Regex → Bool
  | cls _ => true
  | seq r s => r.consumes || s.consumes
  | alt r s => r.consumes && s.consumes
  | eps | many _ | boundary _ | look _ => false

/-- A match stays one when the text goes on; `more` if the text behind it is not empty. -/
def steady (more : Bool) : Regex → Bool
  | boundary _ => more
  | seq r s => r.steady (more || s.consumes) && s.steady more
  | alt r s => r.steady more && s.steady more
  | look r => r.steady false
  | eps | cls _ | many _ => true

theorem ne_nil_of_consumes {r : Regex} (hr : r.consumes = true) {l m t : Str}
    (h : Matches r l m t) : m ≠ [] := by
  induction r generalizing l m t with
  | eps | many | boundary | look => cases hr
  | cls p =>
    obtain ⟨c, rfl, -⟩ := h
    exact List.cons_ne_nil _ _
  | seq r s ihr ihs =>
    obtain ⟨m₁, m₂, rfl, h₁, h₂⟩ := h
    rcases Bool.or_eq_true_iff.mp hr with hr | hs
    · exact List.append_ne_nil_of_left_ne_nil (ihr hr h₁) _
    · exact List.append_ne_nil_of_right_ne_nil _ (ihs hs h₂)
  | alt r s ihr ihs =>
    obtain ⟨hr, hs⟩ := Bool.and_eq_true_iff.mp hr
    rcases h with h | h
    · exact ihr hr h
    · exact ihs hs h

theorem matches_append {r : Regex} {more : Bool} (hr : r.steady more = true) {l m t : Str}
    (ht : more = true → t ≠ []) (h : Matches r l m t) (e : Str) : Matches r l m (t ++ e) := by
  induction r generalizing more l m t with
  | eps | cls | many => exact h
  | boundary word =>
    obtain ⟨rfl, hb⟩ := h
    refine ⟨rfl, ?_⟩
    obtain ⟨c, t, rfl⟩ := List.exists_cons_of_ne_nil (ht hr)
    exact hb
  | seq r s ihr ihs =>
    obtain ⟨hr, hs⟩ := Bool.and_eq_true_iff.mp hr
    obtain ⟨m₁, m₂, rfl, h₁, h₂⟩ := h
    refine ⟨m₁, m₂, rfl, ?_, ihs hs ht h₂⟩
    rw [← List.append_assoc]
    refine ihr hr (fun hmore => ?_) h₁
    rcases Bool.or_eq_true_iff.mp hmore with hmore | hconsumes
    · exact List.append_ne_nil_of_right_ne_nil _ (ht hmore)
    · exact List.append_ne_nil_of_left_ne_nil (ne_nil_of_consumes hconsumes h₂) _
  | alt r s ihr ihs =>
    obtain ⟨hr, hs⟩ := Bool.and_eq_true_iff.mp hr
    rcases h with h | h
    · exact .inl (ihr hr ht h)
    · exact .inr (ihs hs ht h)
  | look r ih =>
    obtain ⟨rfl, m', t', rfl, h'⟩ := h
    exact ⟨rfl, m', t' ++ e, List.append_assoc .., ih hr (by simp) h'⟩

theorem search_append {r : Regex} (hr : r.steady false = true) {s : Str} (h : r.search s = true)
    (e : Str) : r.search (s ++ e) = true := by
  obtain ⟨pre, m, t, rfl, hm⟩ := search_iff.mp h
  exact search_iff.mpr ⟨pre, m, t ++ e, by simp, matches_append hr (by simp) hm e⟩

end Regex

end IspPlatform.Py
