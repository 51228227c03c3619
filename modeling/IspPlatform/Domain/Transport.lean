import IspPlatform.Py.Lists
import IspPlatform.Domain.Display

/-!
# Display and transport

The display has a currency in front and separators in the whole part; the parser refuses both.
No two amounts are displayed alike, and a displayed amount is read back, as what it is, exactly
when it shows neither.
-/

namespace IspPlatform.Domain

open Py

theorem format_ok {minor : Int} {d : Nat} {currency : Option Str} {text : Str}
    (h : formatMinorUnits minor d currency = .ok text) :
    ∃ n : Nat, minor = n ∧ text = label currency ++ shown d n := by
  by_cases hneg : minor < 0
  · rw [formatMinorUnits, if_pos hneg] at h
    cases h
  · obtain ⟨n, rfl⟩ := Int.eq_ofNat_of_zero_le (not_lt.mp hneg)
    rw [format_nat] at h
    exact ⟨n, rfl, (Except.ok.inj h).symm⟩

/-! ## No two amounts alike -/

theorem shown_injective (d : Nat) : Function.Injective (shown d) := by
  intro n n' h
  obtain ⟨hwhole, -, hfrac⟩ := last_split (P := (· = '.')) h rfl rfl
    (fun c hc heq => not_mem_zeroPad (by decide) (heq ▸ hc))
    (fun c hc heq => not_mem_zeroPad (by decide) (heq ▸ hc))
  have hdiv : n / 10 ^ d = n' / 10 ^ d := by
    have hdigits : natStr (n / 10 ^ d) = natStr (n' / 10 ^ d) := by
      rw [← filter_grouped, hwhole, filter_grouped]
    rw [← ofDigitChars_natStr (n / 10 ^ d), hdigits, ofDigitChars_natStr]
  have hmod := zeroPad_injective d hfrac
  rw [← Nat.div_add_mod n (10 ^ d), hdiv, hmod, Nat.div_add_mod]

theorem blank_not_mem_shown (d n : Nat) : ' ' ∉ shown d n := by
  intro h
  rcases List.mem_append.mp h with h | h
  · have hin : ' ' ∈ (grouped (n / 10 ^ d)).filter (· ≠ ',') :=
      List.mem_filter.mpr ⟨h, by decide⟩
    rw [filter_grouped] at hin
    exact not_mem_natStr (by decide) hin
  · rcases List.mem_cons.mp h with h | h
    · cases h
    · exact not_mem_zeroPad (by decide) h

theorem label_cases (currency : Option Str) :
    label currency = [] ∨ ∃ c, c ≠ [] ∧ label currency = c ++ [' '] := by
  cases currency with
  | none => exact .inl rfl
  | some c =>
    cases c with
    | nil => exact .inl rfl
    | cons c cs => exact .inr ⟨c :: cs, by simp, rfl⟩

/-- **No two amounts alike.** A displayed text tells its amount and its currency. -/
theorem displays_apart {d : Nat} {minor minor' : Int} {currency currency' : Option Str} {text : Str}
    (h : formatMinorUnits minor d currency = .ok text)
    (h' : formatMinorUnits minor' d currency' = .ok text) :
    minor = minor' ∧ label currency = label currency' := by
  obtain ⟨n, rfl, rfl⟩ := format_ok h
  obtain ⟨n', rfl, heq⟩ := format_ok h'
  have hblank : ∀ m, ∀ c ∈ shown d m, ¬ c = ' ' := fun m c hc hc' =>
    blank_not_mem_shown d m (hc' ▸ hc)
  rcases label_cases currency with hl | ⟨c, -, hl⟩ <;>
    rcases label_cases currency' with hl' | ⟨c', -, hl'⟩ <;> rw [hl, hl'] at heq ⊢
  · rw [List.nil_append, List.nil_append] at heq
    rw [shown_injective d heq]
    exact ⟨rfl, rfl⟩
  · -- a blank on one side only
    have hin : ' ' ∈ shown d n := by
      rw [List.nil_append] at heq
      rw [heq]
      simp
    exact absurd hin (blank_not_mem_shown d n)
  · have hin : ' ' ∈ shown d n' := by
      rw [List.nil_append] at heq
      rw [← heq]
      simp
    exact absurd hin (blank_not_mem_shown d n')
  · rw [List.append_assoc, List.append_assoc] at heq
    obtain ⟨rfl, -, hshown⟩ := last_split (P := (· = ' ')) heq rfl rfl (hblank n) (hblank n')
    rw [shown_injective d hshown]
    exact ⟨rfl, rfl⟩

theorem displays_apart_shillings :
    (250000 : Int) = 250000 ∧ label (some (lit "KES")) = label (some (lit "KES")) := by
  have hshown : formatMinorUnits 250000 2 (some (lit "KES")) = .ok (lit "KES 2,500.00") := by
    decide
  exact displays_apart hshown hshown

/-! ## What is read back -/

theorem commas_of_short {s : Str} (h : s.length ≤ 3) : commas s = s := by
  induction s with
  | nil => rfl
  | cons c cs ih =>
    rw [List.length_cons] at h
    unfold commas
    rw [if_neg, ih (by omega)]
    rintro ⟨hne, hmod⟩
    have := List.length_pos_iff.mpr hne
    omega

theorem mem_commas_of_long {s : Str} (h : 3 < s.length) : ',' ∈ commas s := by
  induction s with
  | nil => simp at h
  | cons c cs ih =>
    rw [List.length_cons] at h
    unfold commas
    split
    · simp
    · next hnot =>
      have hne : cs ≠ [] := by
        rintro rfl
        simp at h
      have hlong : 3 < cs.length := by
        have hmod := fun hz => hnot ⟨hne, hz⟩
        have : cs.length ≠ 3 := by
          intro h3
          exact hmod (by rw [h3])
        omega
      exact List.mem_cons_of_mem _ (ih hlong)

theorem comma_mem_shown {d n : Nat} (h : 1000 * 10 ^ d ≤ n) : ',' ∈ shown d n := by
  refine List.mem_append_left _ (mem_commas_of_long ?_)
  by_contra hshort
  have hlt := (numDigits_le_iff (n := n / 10 ^ d) (by decide : 0 < 3)).mp (not_lt.mp hshort)
  rw [Nat.div_lt_iff_lt_mul (by positivity)] at hlt
  omega

theorem shown_of_small {d n : Nat} (h : n < 1000 * 10 ^ d) :
    shown d n = natStr (n / 10 ^ d) ++ '.' :: zeroPad d (n % 10 ^ d) := by
  have hlt : n / 10 ^ d < 10 ^ 3 := (Nat.div_lt_iff_lt_mul (by positivity)).mpr h
  have hshort : (natStr (n / 10 ^ d)).length ≤ 3 := (numDigits_le_iff (by decide)).mpr hlt
  rw [shown, grouped, commas_of_short hshort]

/-- What the parser accepts depends on the stripped text alone. -/
theorem parse_stripped {raw raw' : Str} {d : Nat} {m : Int} (hs : strip raw = strip raw')
    (h : parseMinorUnits raw d = .ok m) : parseMinorUnits raw' d = .ok m := by
  have hamount : IsAmount d raw := by
    by_contra hnot
    obtain ⟨e, he⟩ := parseMinorUnits_not_amount hnot
    rw [he] at h
    cases h
  obtain ⟨ip, fp, hp, hle⟩ := hamount
  rw [parseMinorUnits_amount hp hle] at h
  rw [hs] at hp
  rwa [parseMinorUnits_amount hp hle]

theorem dropWhile_before {p : Char → Bool} {x : Char} (hx : ¬ p x = true) (a b : Str) :
    ∃ a', (a ++ x :: b).dropWhile p = a' ++ x :: b := by
  induction a with
  | nil => exact ⟨[], List.dropWhile_cons_of_neg hx⟩
  | cons y a ih =>
    by_cases hy : p y = true
    · rw [List.cons_append, List.dropWhile_cons_of_pos hy]
      exact ih
    · exact ⟨y :: a, List.dropWhile_cons_of_neg hy⟩

theorem mem_strip_between {a b : Str} {x y : Char} (c : Char) (hx : x ∈ a)
    (hxs : isSpace x = false) (hy : y ∈ b) (hys : isSpace y = false) :
    c ∈ strip (a ++ c :: b) := by
  obtain ⟨a₁, a₂, rfl⟩ := List.append_of_mem hx
  obtain ⟨b₁, b₂, rfl⟩ := List.append_of_mem hy
  have hxn : ¬ isSpace x = true := by simp [hxs]
  have hyn : ¬ isSpace y = true := by simp [hys]
  obtain ⟨a', ha'⟩ := dropWhile_before hxn a₁ (a₂ ++ c :: (b₁ ++ y :: b₂))
  have hdrop : (a₁ ++ x :: a₂ ++ c :: (b₁ ++ y :: b₂)).dropWhile isSpace =
      (a' ++ x :: a₂ ++ c :: b₁) ++ y :: b₂ := by
    simpa using ha'
  rw [strip, hdrop, rdropWhile_behind hyn]
  simp

theorem strip_label {l r : Str} (hl : strip l = []) (hr : ∀ c ∈ r, isSpace c = false) :
    strip (l ++ r) = r := by
  have hspaces : ∀ c ∈ l, isSpace c = true := by
    intro c hc
    by_contra hno
    have hin := mem_strip hc (by simpa using hno)
    rw [hl] at hin
    cases hin
  rw [strip, List.dropWhile_append_of_pos hspaces]
  exact strip_eq_self hr

theorem shown_not_space (d n : Nat) : ∀ c ∈ shown d n, isSpace c = false := by
  intro c hc
  by_cases hcomma : c = ','
  · rw [hcomma]
    decide
  rcases List.mem_append.mp hc with hc | hc
  · have hin : c ∈ (grouped (n / 10 ^ d)).filter (· ≠ ',') :=
      List.mem_filter.mpr ⟨hc, by simpa using hcomma⟩
    rw [filter_grouped] at hin
    exact isSpace_digit (isDigit_natStr hin)
  · rcases List.mem_cons.mp hc with rfl | hc
    · decide
    · exact isSpace_digit (isDigit_zeroPad hc)

/-- What the parser accepts has digits and points only, apart from white space around it. -/
theorem parse_allowed {raw : Str} {d : Nat} {m : Int} (h : parseMinorUnits raw d = .ok m) :
    ∀ c ∈ strip raw, c ∈ allowed := by
  have hamount : IsAmount d raw := by
    by_contra hnot
    obtain ⟨e, he⟩ := parseMinorUnits_not_amount hnot
    rw [he] at h
    cases h
  obtain ⟨ip, fp, hp, -⟩ := hamount
  intro c hc
  simpa using List.all_eq_true.mp hp.allowed c hc

/-- **What is read back.** A displayed amount is accepted by the parser exactly when it is below a
thousand, no currency is shown and the currency has minor units, and then as what it is. -/
theorem read_back_iff {d : Nat} {minor m : Int} {currency : Option Str} {text : Str}
    (h : formatMinorUnits minor d currency = .ok text) (hmax : minor < 10 ^ 28) :
    parseMinorUnits text d = .ok m ↔ m = minor ∧ minor < 1000 * 10 ^ d ∧
      strip (label currency) = [] ∧ 1 ≤ d ∧ d ≤ 2000054 := by
  obtain ⟨n, rfl, rfl⟩ := format_ok h
  have hn : n < 10 ^ 28 := by exact_mod_cast hmax
  have hf : n % 10 ^ d < 10 ^ d := Nat.mod_lt _ (by positivity)
  have hsplit : 10 ^ d * (n / 10 ^ d) + n % 10 ^ d = n := Nat.div_add_mod n (10 ^ d)
  have hsmall : (n : Int) < 1000 * 10 ^ d ↔ n < 1000 * 10 ^ d := by exact_mod_cast Iff.rfl
  rw [hsmall]
  constructor
  · intro hok
    have hallowed := parse_allowed hok
    have hlt : n < 1000 * 10 ^ d := by
      by_contra hge
      have hcomma := comma_mem_shown (not_lt.mp hge)
      have hin := hallowed _ (mem_strip (List.mem_append_right _ hcomma) (by decide))
      revert hin
      decide
    have hlabel : strip (label currency) = [] := by
      by_contra hne
      obtain ⟨x, hx, hxs⟩ : ∃ x ∈ label currency, isSpace x = false := by
        by_contra hall
        refine hne ?_
        rw [strip, List.dropWhile_eq_nil_iff.mpr fun x hx => by_contra fun hno =>
          hall ⟨x, hx, by simpa using hno⟩]
        rfl
      rcases label_cases currency with hl | ⟨c, -, hl⟩ <;> rw [hl] at hx hallowed
      · cases hx
      · have hxc : x ∈ c := by
          rcases List.mem_append.mp hx with hx | hx
          · exact hx
          · rw [List.mem_singleton.mp hx] at hxs
            exact absurd hxs (by decide)
        have hpoint : '.' ∈ shown d n := List.mem_append_right _ List.mem_cons_self
        have hin := mem_strip_between ' ' hxc hxs hpoint (by decide)
        have hblank := hallowed ' ' (by simpa using hin)
        revert hblank
        decide
    have hread : parseMinorUnits (shown d n) d = .ok m := by
      refine parse_stripped ?_ hok
      rw [strip_label hlabel (shown_not_space d n), strip_eq_self (shown_not_space d n)]
    rw [shown_of_small hlt] at hread
    have hd : 1 ≤ d := by
      by_contra hd
      obtain rfl : d = 0 := by omega
      exact parse_written_no_digits _ _ _ hread
    have hlim : d ≤ 2000054 := by
      by_contra hlim
      exact parse_written_far (by omega) hf _ hread
    rw [parse_written hd hlim hf (by omega), hsplit] at hread
    exact ⟨(Except.ok.inj hread).symm, hlt, hlabel, hd, hlim⟩
  · rintro ⟨rfl, hlt, hlabel, hd, hlim⟩
    have hread : parseMinorUnits (shown d n) d = .ok n := by
      rw [shown_of_small hlt, parse_written hd hlim hf (by omega), hsplit]
    refine parse_stripped ?_ hread
    rw [strip_label hlabel (shown_not_space d n), strip_eq_self (shown_not_space d n)]

theorem read_back_iff_shillings : parseMinorUnits (lit "2,500.00") 2 = .ok 250000 ↔
    (250000 : Int) = 250000 ∧ (250000 : Int) < 1000 * 10 ^ 2 ∧ strip (label none) = [] ∧
      1 ≤ 2 ∧ 2 ≤ 2000054 := by
  have hshown : formatMinorUnits 250000 2 none = .ok (lit "2,500.00") := by decide
  exact read_back_iff hshown (by decide)

end IspPlatform.Domain
