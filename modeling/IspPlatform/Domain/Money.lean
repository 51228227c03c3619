import Mathlib.Tactic.FieldSimp
import IspPlatform.Py.Decimal

/-!
# Money at the boundary

`parseMinorUnits` is the one function that turns an external amount into integer
minor units: a check on the characters, `Decimal`, a check on the exponent,
`scaleb`, `int`, and a last comparison. `Plain` is the grammar of amounts;
`parseMinorUnits_amount` and `parseMinorUnits_not_amount` are the function's two
cases, and everything else about it follows from them.
-/

namespace IspPlatform.Domain

open Py

/-- `MoneyParseError`, one constructor for each message. -/
inductive MoneyParseError where
  | empty
  | unexpectedCharacters (raw : Str)
  | manyPoints (raw : Str)
  | notDecimal (raw : Str)
  | notFinite (raw : Str)
  | negative (raw : Str)
  | fractionalDigits (minorUnitDigits : Nat) (raw : Str)
  | notRepresentable (raw : Str)
  deriving DecidableEq, Repr

/-- `str(exc)`. -/
def MoneyParseError.str (printable : Char → Bool) : MoneyParseError → Str
  | .empty => lit "amount is empty"
  | .unexpectedCharacters raw => lit "amount has unexpected characters: " ++ reprStr printable raw
  | .manyPoints raw => lit "amount has more than one decimal point: " ++ reprStr printable raw
  | .notDecimal raw => lit "amount is not a decimal: " ++ reprStr printable raw
  | .notFinite raw => lit "amount is not finite: " ++ reprStr printable raw
  | .negative raw => lit "amount is negative: " ++ reprStr printable raw
  | .fractionalDigits d raw =>
    lit "amount has more than " ++ natStr d ++ lit " fractional digits: " ++ reprStr printable raw
  | .notRepresentable raw =>
    lit "amount is not representable in minor units: " ++ reprStr printable raw

/-- What leaves `parse_minor_units`: its own error, or a `decimal` signal it does not catch. -/
inductive ParseExn where
  | money (e : MoneyParseError)
  | decimal (s : Signal)
  deriving DecidableEq, Repr

/-- `_ALLOWED`. -/
def allowed : Str := lit "0123456789."

/-- `parse_minor_units`, after its `isinstance` check. -/
def parseMinorUnits (raw : Str) (minorUnitDigits : Nat) : Except ParseExn Int :=
  let text := strip raw
  if text = [] then .error (.money .empty)
  else if ¬ text.all (allowed.contains ·) then .error (.money (.unexpectedCharacters raw))
  else if 1 < text.count '.' then .error (.money (.manyPoints raw))
  else
    match Decimal.ofText text with
    | .error .invalidOperation => .error (.money (.notDecimal raw))
    | .error s => .error (.decimal s)
    | .ok value =>
      if ¬ value.isFinite then .error (.money (.notFinite raw))
      else if value.isNegative then .error (.money (.negative raw))
      else if minorUnitDigits < -value.exponent then
        .error (.money (.fractionalDigits minorUnitDigits raw))
      else
        match value.scaleb defaultContext minorUnitDigits with
        | .error s => .error (.decimal s)
        | .ok scaled =>
          let minor := scaled.toInt
          if ¬ (Decimal.ofInt minor).numericEq scaled then
            .error (.money (.notRepresentable raw))
          else .ok minor

/-! ## The grammar of amounts -/

/-- ASCII digits only. -/
def Digits (s : Str) : Prop := s.all Char.isDigit = true

/-- `text` is a plain unsigned decimal: the digits `ip`, and after the point, if there
is one, the digits `fp`. -/
inductive Plain : Str → Str → Str → Prop where
  | whole (ip : Str) : Digits ip → ip ≠ [] → Plain ip ip []
  | point (ip fp : Str) : Digits ip → Digits fp → ip ++ fp ≠ [] → Plain (ip ++ '.' :: fp) ip fp

/-- `raw`, apart from surrounding white space, is a plain decimal with at most `d`
fractional digits. -/
def IsAmount (d : Nat) (raw : Str) : Prop :=
  ∃ ip fp, Plain (strip raw) ip fp ∧ fp.length ≤ d

/-- The decimal value of a plain numeral. -/
def numeralValue (ip fp : Str) : ℚ :=
  Nat.ofDigitChars 10 ip 0 + Nat.ofDigitChars 10 fp 0 / 10 ^ fp.length

/-- The coefficient of a plain numeral: its digits without the point. -/
def coefficient (ip fp : Str) : Nat := Nat.ofDigitChars 10 (ip ++ fp) 0

/-! ## Reading a numeral -/

theorem Digits.until_point {s : Str} (h : Digits s) : ∀ c ∈ s, decide (c ≠ '.') = true := by
  intro c hc
  have hd := List.all_eq_true.mp h c hc
  rw [decide_eq_true_eq]
  rintro rfl
  revert hd; decide

theorem Digits.allowed {s : Str} (h : Digits s) : ∀ c ∈ s, c ∈ allowed := by
  intro c hc
  have hd := mem_digits (List.all_eq_true.mp h c hc)
  change c ∈ lit "0123456789" ++ ['.']
  exact List.mem_append_left _ hd

theorem digits_append {s t : Str} : Digits (s ++ t) ↔ Digits s ∧ Digits t := by
  simp [Digits, List.all_append]

theorem Plain.pieces {text ip fp : Str} (h : Plain text ip fp) :
    text.takeWhile (· ≠ '.') = ip ∧ (text.dropWhile (· ≠ '.')).drop 1 = fp := by
  cases h with
  | whole _ hip hne =>
    rw [List.takeWhile_eq_self_iff.mpr hip.until_point,
      List.dropWhile_eq_nil_iff.mpr hip.until_point]
    exact ⟨rfl, rfl⟩
  | point _ _ hip hfp hne =>
    rw [List.takeWhile_append_of_pos hip.until_point, List.dropWhile_append_of_pos hip.until_point]
    simp

theorem Plain.digits {text ip fp : Str} (h : Plain text ip fp) :
    Digits (ip ++ fp) ∧ ip ++ fp ≠ [] := by
  cases h with
  | whole _ hip hne => simpa using ⟨hip, hne⟩
  | point _ _ hip hfp hne => exact ⟨digits_append.mpr ⟨hip, hfp⟩, hne⟩

theorem plain_of_pieces {text ip rest : Str} (h : ip ++ rest = text)
    (hhead : rest = [] ∨ rest.head? = some '.') (hd : Digits (ip ++ rest.drop 1))
    (hne : ip ++ rest.drop 1 ≠ []) : Plain text ip (rest.drop 1) := by
  subst h
  rcases rest with _ | ⟨c, fp⟩
  · simp only [List.drop_nil, List.append_nil] at hd hne ⊢
    exact .whole _ hd hne
  · obtain rfl : c = '.' := by simpa using hhead
    obtain ⟨hip, hfp⟩ := digits_append.mp hd
    exact .point _ _ hip hfp hne

/-- `Decimal` accepts the plain numerals and nothing else, exactly. -/
theorem ofText_eq_ok_iff {text : Str} {v : Decimal} :
    Decimal.ofText text = .ok v ↔
      ∃ ip fp, Plain text ip fp ∧ v = .finite false (coefficient ip fp) (-fp.length) := by
  constructor
  · intro h
    simp only [Decimal.ofText] at h
    split at h
    · next hd =>
      cases h
      -- what is left after the digits is nothing, or starts with the point
      have hhead : text.dropWhile (fun c => decide (c ≠ '.')) = [] ∨
          (text.dropWhile (fun c => decide (c ≠ '.'))).head? = some '.' := by
        rcases hrest : text.dropWhile (fun c => decide (c ≠ '.')) with _ | ⟨c, fp⟩
        · exact .inl rfl
        · have hc := List.head?_dropWhile_not (fun c => decide (c ≠ '.')) text
          rw [hrest] at hc
          exact .inr (by simpa using hc)
      exact ⟨_, _, plain_of_pieces List.takeWhile_append_dropWhile hhead hd.1 hd.2, rfl⟩
    · cases h
  · rintro ⟨ip, fp, h, rfl⟩
    obtain ⟨hip, hfp⟩ := h.pieces
    have hd := h.digits
    unfold Decimal.ofText
    rw [hip, hfp]
    exact if_pos hd

theorem ofText_error {text : Str} {s : Signal} (h : Decimal.ofText text = .error s) :
    s = .invalidOperation := by
  simp only [Decimal.ofText] at h
  split at h <;> cases h
  rfl

theorem Plain.ne_nil {text ip fp : Str} (h : Plain text ip fp) : text ≠ [] := by
  cases h with
  | whole _ _ hne => exact hne
  | point _ _ _ _ _ => simp

theorem Plain.allowed {text ip fp : Str} (h : Plain text ip fp) :
    text.all (Domain.allowed.contains ·) = true := by
  rw [List.all_eq_true]
  intro c hc
  rw [List.contains_iff_mem]
  cases h with
  | whole _ hip _ => exact hip.allowed c hc
  | point _ _ hip hfp _ =>
    rcases List.mem_append.mp hc with hc | hc
    · exact hip.allowed c hc
    · rcases List.mem_cons.mp hc with rfl | hc
      · decide
      · exact hfp.allowed c hc

theorem Digits.count_point {s : Str} (h : Digits s) : s.count '.' = 0 := by
  rw [List.count_eq_zero]
  intro hmem
  simpa using h.until_point '.' hmem

theorem Plain.count_point {text ip fp : Str} (h : Plain text ip fp) : text.count '.' ≤ 1 := by
  cases h with
  | whole _ hip _ => rw [hip.count_point]; omega
  | point _ _ hip hfp _ => simp [hip.count_point, hfp.count_point]

/-! ## The two cases of the parser -/

theorem parseMinorUnits_not_amount {d : Nat} {raw : Str} (h : ¬ IsAmount d raw) :
    ∃ e, parseMinorUnits raw d = .error (.money e) := by
  unfold parseMinorUnits
  extract_lets text
  split
  · exact ⟨_, rfl⟩
  split
  · exact ⟨_, rfl⟩
  split
  · exact ⟨_, rfl⟩
  split
  · exact ⟨_, rfl⟩
  · next s hs hv => exact absurd (ofText_error hv) hs
  · next v hv =>
    obtain ⟨ip, fp, hp, rfl⟩ := ofText_eq_ok_iff.mp hv
    have hlong : d < fp.length := by
      by_contra hle
      exact h ⟨ip, fp, hp, by omega⟩
    have hexp : (d : Int) < -(-(fp.length : Int)) := by omega
    simp [Decimal.isFinite, Decimal.isNegative, Decimal.exponent, hlong]

theorem parseMinorUnits_amount {d : Nat} {raw ip fp : Str} (h : Plain (strip raw) ip fp)
    (hd : fp.length ≤ d) :
    parseMinorUnits raw d =
      match (Decimal.finite false (coefficient ip fp) (-fp.length)).scaleb defaultContext d with
      | .error s => .error (.decimal s)
      | .ok scaled => .ok scaled.toInt := by
  have hv := ofText_eq_ok_iff.mpr ⟨ip, fp, h, rfl⟩
  have hcount : ¬ 1 < (strip raw).count '.' := by have := h.count_point; omega
  have hexp : ¬ (d : Int) < -(-(fp.length : Int)) := by omega
  unfold parseMinorUnits
  simp only [h.ne_nil, h.allowed, hcount, hv, Decimal.isFinite, Decimal.isNegative,
    Decimal.exponent, hexp, if_false, not_true_eq_false, Bool.false_and, Bool.false_eq_true]
  split
  · rfl
  · next scaled hs =>
    obtain ⟨q, m, rfl, hm⟩ := Decimal.scaleb_whole (by decide) (by omega) hs
    simp [Decimal.numericEq_toInt hm]

/-- **Rejection.** The parser raises its own error on what is not an amount, and on
nothing else. -/
theorem rejects_iff_not_amount (raw : Str) (d : Nat) :
    (∃ e, parseMinorUnits raw d = .error (.money e)) ↔ ¬ IsAmount d raw := by
  refine ⟨?_, parseMinorUnits_not_amount⟩
  rintro ⟨e, he⟩ ⟨ip, fp, hp, hle⟩
  rw [parseMinorUnits_amount hp hle] at he
  split at he <;> cases he

/-! ## Exactness -/

/-- The parse gives the numeral's value times `10^d`, no more and no less. -/
def ParsesExactly (d : Nat) (raw ip fp : Str) : Prop :=
  ∃ minor, parseMinorUnits raw d = .ok minor ∧ (minor : ℚ) = numeralValue ip fp * 10 ^ d

/-- The numeral fits the default context: at most 28 significant digits, a result
below `10^1000000`, and a shift `scaleb` accepts. -/
def Representable (d : Nat) (ip fp : Str) : Prop :=
  d ≤ 2000054 ∧ (coefficient ip fp = 0 ∨
    (numDigits (coefficient ip fp) + (d - fp.length) ≤ 1000000 ∧
      10 ^ (numDigits (coefficient ip fp) - 28) ∣ coefficient ip fp))

theorem coefficient_eq (ip fp : Str) :
    coefficient ip fp = 10 ^ fp.length * Nat.ofDigitChars 10 ip 0 + Nat.ofDigitChars 10 fp 0 := by
  rw [coefficient, Nat.ofDigitChars_append, Nat.ofDigitChars_eq_ofDigitChars_zero]

theorem value_scaled (d : Nat) (ip fp : Str) :
    Decimal.value (.finite false (coefficient ip fp) (-fp.length + d)) =
      numeralValue ip fp * 10 ^ d := by
  have hne : (10 : ℚ) ^ fp.length ≠ 0 := by positivity
  rw [Decimal.value, zpow_add₀ (by norm_num), zpow_neg, zpow_natCast, zpow_natCast, numeralValue,
    coefficient_eq]
  simp only [Decimal.signed, Bool.false_eq_true, if_false]
  push_cast
  field_simp

theorem representable_iff_scaleb {d : Nat} {ip fp : Str} (hd : fp.length ≤ d) :
    Representable d ip fp ↔ ∃ x, Decimal.scaleb defaultContext
      (.finite false (coefficient ip fp) (-fp.length)) d = .ok x ∧
        x.value = numeralValue ip fp * 10 ^ d := by
  have hiff := Decimal.scaleb_exact_iff (show 0 < defaultContext.prec by decide) (s := false)
    (c := coefficient ip fp) (e := -fp.length) (n := d)
    (by simp only [Context.etiny, defaultContext]; omega)
  rw [value_scaled] at hiff
  rw [hiff, Representable]
  simp only [defaultContext, Nat.abs_cast]
  have hlim : d ≤ 2000054 ↔ (d : Int) ≤ 2 * (999999 + (28 : Nat)) := by omega
  have hdig : numDigits (coefficient ip fp) + (d - fp.length) ≤ 1000000 ↔
      (numDigits (coefficient ip fp) : Int) + (-fp.length + d) ≤ 999999 + 1 := by omega
  rw [hlim, hdig]

theorem parsesExactly_of_representable {d : Nat} {raw ip fp : Str} (h : Plain (strip raw) ip fp)
    (hd : fp.length ≤ d) (hr : Representable d ip fp) : ParsesExactly d raw ip fp := by
  obtain ⟨x, hx, hval⟩ := (representable_iff_scaleb hd).mp hr
  obtain ⟨q, m, rfl, hm⟩ := Decimal.scaleb_whole (by decide) (by omega) hx
  rw [ParsesExactly, parseMinorUnits_amount h hd, hx]
  exact ⟨_, rfl, by rw [Decimal.toInt_whole hm, hval]⟩

/-- **Exact parsing.** An amount is parsed exactly if and only if it fits the context. -/
theorem parses_exactly_iff {d : Nat} {raw ip fp : Str} (h : Plain (strip raw) ip fp)
    (hd : fp.length ≤ d) : ParsesExactly d raw ip fp ↔ Representable d ip fp := by
  refine ⟨?_, parsesExactly_of_representable h hd⟩
  rintro ⟨minor, hm, hval⟩
  rw [parseMinorUnits_amount h hd] at hm
  rw [representable_iff_scaleb hd]
  split at hm
  · cases hm
  · next x hx =>
    cases hm
    obtain ⟨q, m, rfl, hm⟩ := Decimal.scaleb_whole (by decide) (by omega) hx
    exact ⟨_, hx, by rw [← Decimal.toInt_whole hm, hval]⟩

theorem parses_exactly_iff_thousand :
    ParsesExactly 2 (lit " 1000.00") (lit "1000") (lit "00") ↔
      Representable 2 (lit "1000") (lit "00") :=
  parses_exactly_iff (.point (lit "1000") (lit "00") rfl rfl (by decide)) (by decide)

/-- Thirty-one digits come back rounded to twenty-eight: `…678901` as `…679000`. -/
theorem long_amount_is_rounded :
    Plain (strip (lit "12345678901234567890123456789.01"))
        (lit "12345678901234567890123456789") (lit "01") ∧
      ¬ ParsesExactly 2 (lit "12345678901234567890123456789.01")
        (lit "12345678901234567890123456789") (lit "01") := by
  refine ⟨.point (lit "12345678901234567890123456789") (lit "01") rfl rfl (by decide), ?_⟩
  rintro ⟨minor, hparse, hval⟩
  have hrounded : parseMinorUnits (lit "12345678901234567890123456789.01") 2 =
      .ok 1234567890123456789012345679000 := by decide
  obtain rfl : 1234567890123456789012345679000 = minor := by
    simpa [hrounded] using hparse
  have hip : Nat.ofDigitChars 10 (lit "12345678901234567890123456789") 0 =
      12345678901234567890123456789 := by decide
  have hfp : Nat.ofDigitChars 10 (lit "01") 0 = 1 := by decide
  rw [numeralValue, hip, hfp, show (lit "01").length = 2 from rfl] at hval
  norm_num at hval

end IspPlatform.Domain
