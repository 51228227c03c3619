import IspPlatform.Domain.Money
import IspPlatform.Py.Numerals

/-!
# Money on the way out

`formatMinorUnits` is the display side: a division by the currency's scale, the
whole part grouped, the fraction padded. `parse_written` is what the parser makes
of a whole and a fraction part written with a point between them, and the round
trip follows from it; the fixtures of `SyntheticData` go through the same lemma.
-/

namespace IspPlatform.Domain

open Py

/-- `format_minor_units`. The whole and the fraction part are not negative past the guard. -/
def formatMinorUnits (minor : Int) (minorUnitDigits : Nat) (currency : Option Str) :
    Except ValueError Str :=
  if minor < 0 then .error ⟨lit "minor units must not be negative"⟩
  else
    let scale : Int := 10 ^ minorUnitDigits
    let whole := minor / scale
    let fraction := minor % scale
    let rendered := grouped whole.toNat ++ '.' :: zeroPad minorUnitDigits fraction.toNat
    match currency with
    | some c => if c = [] then .ok rendered else .ok (c ++ ' ' :: rendered)
    | none => .ok rendered

example : formatMinorUnits 250000 2 (some (lit "KES")) = .ok (lit "KES 2,500.00") := by decide

/-- What stands before the amount. -/
def label : Option Str → Str
  | some (c :: cs) => c :: cs ++ [' ']
  | _ => []

/-- The amount. -/
def shown (d n : Nat) : Str := grouped (n / 10 ^ d) ++ '.' :: zeroPad d (n % 10 ^ d)

theorem format_nat (d n : Nat) (currency : Option Str) :
    formatMinorUnits n d currency = .ok (label currency ++ shown d n) := by
  have hneg : ¬ (n : Int) < 0 := by omega
  have hwhole : ((n : Int) / 10 ^ d).toNat = n / 10 ^ d := by
    rw [show ((n : Int) / 10 ^ d) = ((n / 10 ^ d : Nat) : Int) by push_cast; rfl]
    exact Int.toNat_natCast _
  have hfrac : ((n : Int) % 10 ^ d).toNat = n % 10 ^ d := by
    rw [show ((n : Int) % 10 ^ d) = ((n % 10 ^ d : Nat) : Int) by push_cast; rfl]
    exact Int.toNat_natCast _
  simp only [formatMinorUnits, hneg, if_false, hwhole, hfrac]
  cases currency with
  | none => rfl
  | some c =>
    cases c with
    | nil => rfl
    | cons c cs => simp [label, shown]

theorem strip_eq_self {s : Str} (h : ∀ c ∈ s, isSpace c = false) : strip s = s := by
  have hd : s.dropWhile isSpace = s := by
    rw [List.dropWhile_eq_self_iff]
    intro hpos
    simp [h _ (List.getElem_mem hpos)]
  rw [strip, hd, List.rdropWhile_eq_self_iff]
  intro hne
  simp [h _ (List.getLast_mem hne)]

theorem isSpace_digit {c : Char} (h : c.isDigit = true) : isSpace c = false := by
  have hall : (lit "0123456789").all (!isSpace ·) = true := by decide
  simpa using List.all_eq_true.mp hall c (mem_digits h)

theorem digits_natStr (n : Nat) : Digits (natStr n) :=
  List.all_eq_true.mpr fun _ h => isDigit_natStr h

theorem digits_zeroPad (w n : Nat) : Digits (zeroPad w n) :=
  List.all_eq_true.mpr fun _ h => isDigit_zeroPad h

theorem plain_written (d w f : Nat) :
    Plain (strip (natStr w ++ '.' :: zeroPad d f)) (natStr w) (zeroPad d f) := by
  have hns : ∀ c ∈ natStr w ++ '.' :: zeroPad d f, isSpace c = false := by
    intro c hc
    rcases List.mem_append.mp hc with hc | hc
    · exact isSpace_digit (isDigit_natStr hc)
    · rcases List.mem_cons.mp hc with rfl | hc
      · decide
      · exact isSpace_digit (isDigit_zeroPad hc)
  rw [strip_eq_self hns]
  exact .point _ _ (digits_natStr w) (digits_zeroPad d f) (by simp [natStr_ne_nil])

theorem coefficient_written {d f : Nat} (hd : 0 < d) (hf : f < 10 ^ d) (w : Nat) :
    coefficient (natStr w) (zeroPad d f) = 10 ^ d * w + f := by
  rw [coefficient_eq, ofDigitChars_natStr, ofDigitChars_zeroPad, length_zeroPad_of_lt hd hf]

/-- The parser reads a whole and a padded fraction part back, when they have at most
28 digits together. -/
theorem parse_written {d w f : Nat} (hd : 0 < d) (hlim : d ≤ 2000054) (hf : f < 10 ^ d)
    (hmax : 10 ^ d * w + f < 10 ^ 28) :
    parseMinorUnits (natStr w ++ '.' :: zeroPad d f) d = .ok (10 ^ d * w + f : Nat) := by
  have hlen := length_zeroPad_of_lt hd hf
  have hcoeff := coefficient_written hd hf w
  have hdig : numDigits (10 ^ d * w + f) ≤ 28 := (numDigits_le_iff (by decide)).mpr hmax
  have hrep : Representable d (natStr w) (zeroPad d f) := by
    refine ⟨hlim, .inr ⟨?_, ?_⟩⟩
    · rw [hcoeff, hlen]; omega
    · rw [hcoeff, Nat.sub_eq_zero_of_le hdig, Nat.pow_zero]
      exact Nat.one_dvd _
  obtain ⟨minor, hok, hval⟩ :=
    parsesExactly_of_representable (plain_written d w f) hlen.le hrep
  -- the value of the numeral is its coefficient, at the currency's scale
  have hscaled := value_scaled d (natStr w) (zeroPad d f)
  rw [hlen, hcoeff, neg_add_cancel] at hscaled
  have hminor : (minor : ℚ) = ((10 ^ d * w + f : Nat) : Int) := by
    rw [hval, ← hscaled]
    simp [Decimal.value, Decimal.signed]
  rw [hok, Int.cast_inj.mp hminor]

/-! ## The round trip -/

/-- Deleting the separators of a displayed amount gives a text that parses back to it. -/
def RoundTrips (d : Nat) (minor : Int) : Prop :=
  ∃ text, formatMinorUnits minor d none = .ok text ∧
    parseMinorUnits (text.filter (· ≠ ',')) d = .ok minor

theorem filter_shown (d n : Nat) : (shown d n).filter (· ≠ ',') =
    natStr (n / 10 ^ d) ++ '.' :: zeroPad d (n % 10 ^ d) := by
  have hpad : (zeroPad d (n % 10 ^ d)).filter (· ≠ ',') = zeroPad d (n % 10 ^ d) := by
    rw [List.filter_eq_self]
    intro c hc
    rw [decide_eq_true_eq]
    rintro rfl
    exact not_mem_zeroPad (by decide) hc
  rw [shown, List.filter_append, filter_grouped, List.filter_cons_of_pos (by decide), hpad]

/-- Without minor units the display still writes a fraction digit, which the parser refuses. -/
theorem parse_written_no_digits (w f : Nat) (m : Int) :
    parseMinorUnits (natStr w ++ '.' :: zeroPad 0 f) 0 ≠ .ok m := by
  intro hok
  have hnot : ¬ IsAmount 0 (natStr w ++ '.' :: zeroPad 0 f) := by
    rintro ⟨ip, fp, hp, hle⟩
    obtain ⟨-, hfp⟩ := hp.pieces
    obtain ⟨-, hfp'⟩ := (plain_written 0 w f).pieces
    rw [← hfp, hfp'] at hle
    have hpos := numDigits_pos f
    rw [length_zeroPad] at hle
    omega
  obtain ⟨e, he⟩ := parseMinorUnits_not_amount hnot
  rw [he] at hok
  cases hok

theorem parse_written_far {d w f : Nat} (hd : 2000054 < d) (hf : f < 10 ^ d) (m : Int) :
    parseMinorUnits (natStr w ++ '.' :: zeroPad d f) d ≠ .ok m := by
  intro hok
  have hlen := length_zeroPad_of_lt (by omega) hf
  rw [parseMinorUnits_amount (plain_written d w f) hlen.le] at hok
  split at hok
  · cases hok
  · next x hx =>
    have hlim := (Decimal.scaleb_finite.mp hx).1
    simp only [defaultContext, Nat.abs_cast] at hlim
    omega

/-- **Display and parse.** The round trip holds exactly for the currencies with at least
one minor-unit digit and no more than a shift of the context allows. -/
theorem roundTrips_iff {d : Nat} {minor : Int} (h0 : 0 ≤ minor) (hmax : minor < 10 ^ 28) :
    RoundTrips d minor ↔ 1 ≤ d ∧ d ≤ 2000054 := by
  obtain ⟨n, rfl⟩ := Int.eq_ofNat_of_zero_le h0
  have hn : n < 10 ^ 28 := by exact_mod_cast hmax
  have hf : n % 10 ^ d < 10 ^ d := Nat.mod_lt _ (by positivity)
  have hsplit : 10 ^ d * (n / 10 ^ d) + n % 10 ^ d = n := Nat.div_add_mod n (10 ^ d)
  have hiff : RoundTrips d n ↔
      parseMinorUnits (natStr (n / 10 ^ d) ++ '.' :: zeroPad d (n % 10 ^ d)) d = .ok (n : Int) := by
    rw [RoundTrips, format_nat, ← filter_shown]
    simp [label]
  rw [hiff]
  constructor
  · intro hok
    refine ⟨?_, ?_⟩
    · by_contra hd
      obtain rfl : d = 0 := by omega
      exact parse_written_no_digits _ _ _ hok
    · by_contra hd
      exact parse_written_far (by omega) hf _ hok
  · rintro ⟨hd, hlim⟩
    rw [parse_written hd hlim hf (by omega), hsplit]

theorem roundTrips_iff_cents : RoundTrips 2 250000 ↔ 1 ≤ 2 ∧ 2 ≤ 2000054 :=
  roundTrips_iff (by decide) (by decide)

/-- `250` of a currency without minor units is displayed as `250.0`, which does not parse. -/
theorem no_minor_units_no_round_trip :
    0 ≤ (250 : Int) ∧ (250 : Int) < 10 ^ 28 ∧
      formatMinorUnits 250 0 none = .ok (lit "250.0") ∧
      parseMinorUnits (lit "250.0") 0 =
        .error (.money (.fractionalDigits 0 (lit "250.0"))) ∧
      ¬ RoundTrips 0 250 := by
  have hformat : formatMinorUnits 250 0 none = .ok (lit "250.0") := by decide
  have hparse : parseMinorUnits (lit "250.0") 0 =
      .error (.money (.fractionalDigits 0 (lit "250.0"))) := by decide
  refine ⟨by decide, by decide, hformat, hparse, ?_⟩
  rintro ⟨text, htext, hok⟩
  rw [hformat] at htext
  cases htext
  rw [show (lit "250.0").filter (· ≠ ',') = lit "250.0" by decide, hparse] at hok
  cases hok

end IspPlatform.Domain
