import IspPlatform.Py.Decimal

/-!
# Format specifications of integers

`zeroPad` is `{n:0{width}d}` and `grouped` is `{n:,}`, both of a natural number.
Padding does not change the number the digits denote, so padded numerals of
different numbers differ, at any width; deleting the separators of a grouped
numeral gives `str(n)` back.
-/

namespace IspPlatform.Py

/-- `ValueError(text)`. -/
structure ValueError where
  text : Str
  deriving DecidableEq, Repr

/-- `{n:0{width}d}`. -/
def zeroPad (width n : Nat) : Str :=
  List.replicate (width - (natStr n).length) '0' ++ natStr n

/-- A comma after every digit that has a positive multiple of three digits to its right. -/
def commas : Str → Str
  | [] => []
  | c :: cs => if cs ≠ [] ∧ cs.length % 3 = 0 then c :: ',' :: commas cs else c :: commas cs

/-- `{n:,}`. -/
def grouped (n : Nat) : Str := commas (natStr n)

/-! ## Digits of a numeral -/

theorem isDigit_natStr {n : Nat} {c : Char} (h : c ∈ natStr n) : c.isDigit = true :=
  Nat.isDigit_of_mem_toDigits (by decide) (by decide) h

theorem isDigit_zeroPad {w n : Nat} {c : Char} (h : c ∈ zeroPad w n) : c.isDigit = true := by
  unfold zeroPad at h
  rcases List.mem_append.mp h with hz | hn
  · obtain rfl := List.eq_of_mem_replicate hz
    decide
  · exact isDigit_natStr hn

theorem natStr_ne_nil (n : Nat) : natStr n ≠ [] := Nat.toDigits_ne_nil

theorem not_mem_natStr {n : Nat} {c : Char} (h : c.isDigit = false) : c ∉ natStr n := by
  intro hc
  have := isDigit_natStr hc
  simp [h] at this

theorem not_mem_zeroPad {w n : Nat} {c : Char} (h : c.isDigit = false) : c ∉ zeroPad w n := by
  intro hc
  have := isDigit_zeroPad hc
  simp [h] at this

theorem mem_intStr {n : Int} {c : Char} (h : c ∈ intStr n) : c = '-' ∨ c.isDigit = true := by
  unfold intStr at h
  split at h
  · exact .inr (isDigit_natStr h)
  · rcases List.mem_cons.mp h with h | h
    · exact .inl h
    · exact .inr (isDigit_natStr h)

theorem not_mem_intStr {n : Int} {c : Char} (hs : c ≠ '-') (hd : c.isDigit = false) :
    c ∉ intStr n := by
  intro hc
  rcases mem_intStr hc with h | h
  · exact hs h
  · rw [hd] at h
    cases h

/-! ## The number denoted -/

theorem ofDigitChars_natStr (n : Nat) : Nat.ofDigitChars 10 (natStr n) 0 = n :=
  Nat.ofDigitChars_ten_toDigits

theorem natStr_injective : Function.Injective natStr := by
  intro m n h
  rw [← ofDigitChars_natStr m, h, ofDigitChars_natStr]

theorem intStr_injective : Function.Injective intStr := by
  have hsign : ∀ n : Nat, '-' ∉ natStr n := fun n => not_mem_natStr (by decide)
  intro a b h
  cases a with
  | ofNat m =>
    cases b with
    | ofNat n => rw [natStr_injective h]
    | negSucc n =>
      have hm : natStr m = '-' :: natStr (n + 1) := h
      exact absurd (hm ▸ List.mem_cons_self) (hsign m)
  | negSucc m =>
    cases b with
    | ofNat n =>
      have hn : '-' :: natStr (m + 1) = natStr n := h
      exact absurd (hn ▸ List.mem_cons_self) (hsign n)
    | negSucc n => rw [Nat.succ_injective (natStr_injective (List.cons.inj h).2)]

theorem ofDigitChars_zeroPad (w n : Nat) : Nat.ofDigitChars 10 (zeroPad w n) 0 = n := by
  rw [zeroPad, Nat.ofDigitChars_append, Nat.ofDigitChars_replicate_zero, Nat.mul_zero]
  exact ofDigitChars_natStr n

/-- Padded numerals stay distinct, past the width too. -/
theorem zeroPad_injective (w : Nat) : Function.Injective (zeroPad w) := by
  intro m n h
  rw [← ofDigitChars_zeroPad w m, h, ofDigitChars_zeroPad]

theorem length_zeroPad (w n : Nat) : (zeroPad w n).length = max w (numDigits n) := by
  simp only [zeroPad, List.length_append, List.length_replicate, numDigits, natStr]
  omega

theorem length_zeroPad_of_lt {w n : Nat} (hw : 0 < w) (h : n < 10 ^ w) :
    (zeroPad w n).length = w := by
  have hle := (numDigits_le_iff hw).mpr h
  rw [length_zeroPad]
  omega

theorem filter_commas (s : Str) : (commas s).filter (· ≠ ',') = s.filter (· ≠ ',') := by
  induction s with
  | nil => rfl
  | cons c cs ih =>
    unfold commas
    rw [List.filter_cons, ← ih]
    split <;> simp [List.filter_cons]

theorem filter_grouped (n : Nat) : (grouped n).filter (· ≠ ',') = natStr n := by
  rw [grouped, filter_commas, List.filter_eq_self]
  intro c hc
  rw [decide_eq_true_eq]
  rintro rfl
  exact not_mem_natStr (by decide) hc

example : grouped 1234567 = lit "1,234,567" := by decide

end IspPlatform.Py
