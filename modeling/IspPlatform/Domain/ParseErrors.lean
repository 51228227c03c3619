import IspPlatform.Domain.Money
import IspPlatform.Py.Lists
import IspPlatform.Py.Numerals
import IspPlatform.Py.Repr

/-!
# The messages of the parser

A message of `MoneyParseError` is one legible line, whatever the amount was, and tells which check
failed and for which text.
-/

namespace IspPlatform.Domain

open Py Lib

/-- The text that an error quotes. -/
def MoneyParseError.quoted : MoneyParseError → Option Str
  | .empty => none
  | .unexpectedCharacters raw | .manyPoints raw | .notDecimal raw | .notFinite raw | .negative raw
  | .fractionalDigits _ raw | .notRepresentable raw => some raw

section
variable {printable : Char → Bool} {raw : Str} {d : Nat} {e e' : MoneyParseError}

theorem quoted_eq (h : parseMinorUnits raw d = .error (.money e)) :
    e.quoted = if strip raw = [] then none else some raw := by
  unfold parseMinorUnits at h
  by_cases hblank : strip raw = []
  · rw [if_pos hblank] at h
    cases h
    rw [if_pos hblank]
    rfl
  rw [if_neg hblank]
  simp only [if_neg hblank] at h
  split at h
  · cases h
    rfl
  split at h
  · cases h
    rfl
  split at h
  · cases h
    rfl
  · cases h
  · split at h
    · cases h
      rfl
    split at h
    · cases h
      rfl
    split at h
    · cases h
      rfl
    split at h
    · cases h
    · split at h
      · cases h
        rfl
      · cases h

theorem legible_natStr {n : Nat} {c : Char} (h : c ∈ natStr n) : Legible printable c := by
  have hdigit := isDigit_natStr h
  rw [Char.isDigit_iff_toNat] at hdigit
  change 48 ≤ c.toNat ∧ c.toNat ≤ 57 at hdigit
  exact ⟨by omega, .inl (by omega)⟩

theorem legible_append {s t : Str} (hs : ∀ c ∈ s, Legible printable c)
    (ht : ∀ c ∈ t, Legible printable c) : ∀ c ∈ s ++ t, Legible printable c := by
  intro c hc
  exact (List.mem_append.mp hc).elim (hs c) (ht c)

theorem legible_message (e : MoneyParseError) : ∀ c ∈ e.str printable, Legible printable c := by
  have hquoted : ∀ {heading : String} (raw : Str),
      (lit heading).all (fun c => 0x20 ≤ c.toNat && c.toNat < 0x7f) = true →
      ∀ c ∈ lit heading ++ reprStr printable raw, Legible printable c :=
    fun _ h => legible_append (fun _ => legible_lit h) fun _ => legible_reprStr
  cases e with
  | empty => exact fun c => legible_lit (by decide)
  | fractionalDigits d raw =>
    refine legible_append (legible_append (legible_append ?_ ?_) ?_) fun _ => legible_reprStr
    · exact fun c => legible_lit (by decide)
    · exact fun c => legible_natStr
    · exact fun c => legible_lit (by decide)
  | unexpectedCharacters raw | manyPoints raw | notDecimal raw | notFinite raw | negative raw
  | notRepresentable raw => exact hquoted raw (by decide)

/-! ## Told apart -/

theorem natStr_cons (n : Nat) : ∃ c w, natStr n = c :: w ∧ c.isDigit = true := by
  obtain ⟨c, w, h⟩ := List.exists_cons_of_ne_nil (natStr_ne_nil n)
  exact ⟨c, w, h, isDigit_natStr (h ▸ List.mem_cons_self)⟩

theorem str_manyPoints_ne {raw raw' : Str} :
    MoneyParseError.str printable (.manyPoints raw) ≠
      MoneyParseError.str printable (.fractionalDigits d raw') := by
  intro h
  obtain ⟨c, w, hd, hc⟩ := natStr_cons d
  have hrest : lit "one decimal point: " ++ reprStr printable raw =
      natStr d ++ (lit " fractional digits: " ++ reprStr printable raw') := by
    simpa [MoneyParseError.str, lit] using h
  rw [hd] at hrest
  obtain ⟨rfl, -⟩ := List.cons.inj hrest
  revert hc
  decide

theorem str_fractionalDigits {d' : Nat} {raw raw' : Str}
    (h : MoneyParseError.str printable (.fractionalDigits d raw) =
      MoneyParseError.str printable (.fractionalDigits d' raw')) : d = d' ∧ raw = raw' := by
  have hblank : ∀ n : Nat, ' ' ∉ natStr n := fun n => not_mem_natStr (by decide)
  have hrest : natStr d ++ ' ' :: (lit "fractional digits: " ++ reprStr printable raw) =
      natStr d' ++ ' ' :: (lit "fractional digits: " ++ reprStr printable raw') := by
    simpa [MoneyParseError.str, lit] using h
  obtain ⟨hd, hraw⟩ := eq_before_mark natStr_injective hblank hrest
  exact ⟨hd, (reprStr_selfDelimiting printable).injective (List.append_cancel_left hraw)⟩

theorem str_injective : Function.Injective (MoneyParseError.str printable) := by
  have hquoted : ∀ {heading raw raw' : Str},
      heading ++ reprStr printable raw = heading ++ reprStr printable raw' → raw = raw' :=
    fun h => (reprStr_selfDelimiting printable).injective (List.append_cancel_left h)
  intro e e' h
  cases e with
  | empty =>
    cases e' with
    | empty => rfl
    | _ => simp [MoneyParseError.str, lit] at h
  | unexpectedCharacters raw =>
    cases e' with
    | unexpectedCharacters raw' => rw [hquoted h]
    | _ => simp [MoneyParseError.str, lit] at h
  | manyPoints raw =>
    cases e' with
    | manyPoints raw' => rw [hquoted h]
    | fractionalDigits d' raw' => exact absurd h str_manyPoints_ne
    | _ => simp [MoneyParseError.str, lit] at h
  | notDecimal raw =>
    cases e' with
    | notDecimal raw' => rw [hquoted h]
    | _ => simp [MoneyParseError.str, lit] at h
  | notFinite raw =>
    cases e' with
    | notFinite raw' => rw [hquoted h]
    | _ => simp [MoneyParseError.str, lit] at h
  | negative raw =>
    cases e' with
    | negative raw' => rw [hquoted h]
    | _ => simp [MoneyParseError.str, lit] at h
  | fractionalDigits d raw =>
    cases e' with
    | manyPoints raw' => exact absurd h.symm str_manyPoints_ne
    | fractionalDigits d' raw' =>
      obtain ⟨rfl, rfl⟩ := str_fractionalDigits h
      rfl
    | _ => simp [MoneyParseError.str, lit] at h
  | notRepresentable raw =>
    cases e' with
    | notRepresentable raw' => rw [hquoted h]
    | _ => simp [MoneyParseError.str, lit] at h

/-! ## From the end -/

/-- What a message says before the text it quotes. -/
def MoneyParseError.heading : MoneyParseError → Str
  | .empty => lit "amount is empty"
  | .unexpectedCharacters _ => lit "amount has unexpected characters:"
  | .manyPoints _ => lit "amount has more than one decimal point:"
  | .notDecimal _ => lit "amount is not a decimal:"
  | .notFinite _ => lit "amount is not finite:"
  | .negative _ => lit "amount is negative:"
  | .fractionalDigits d _ => lit "amount has more than " ++ natStr d ++ lit " fractional digits:"
  | .notRepresentable _ => lit "amount is not representable in minor units:"

theorem str_quoted (h : e.quoted = some raw) :
    e.str printable = e.heading ++ ' ' :: reprStr printable raw := by
  cases e with
  | empty => cases h
  | _ =>
    cases h
    simp [MoneyParseError.str, MoneyParseError.heading, lit]

theorem heading_plain : ∀ c ∈ e.heading, c ≠ '=' := by
  refine fun c hc hmark => ?_
  subst hmark
  revert hc
  cases e with
  | fractionalDigits d raw =>
    have hd : '=' ∉ natStr d := not_mem_natStr (by decide)
    simp [MoneyParseError.heading, hd, lit]
  | _ => simp [MoneyParseError.heading, lit]

/-- A message at the end of a text tells the error and where it begins. -/
theorem str_end {u v : Str} (h : u ++ '=' :: e.str printable = v ++ '=' :: e'.str printable) :
    u = v ∧ e = e' := by
  have hempty : ∀ {e : MoneyParseError}, e.quoted = none → e = .empty := by
    rintro (_ | _) ⟨⟩
    rfl
  -- a message without a quoted text ends with a letter
  have hmixed : ∀ {u v raw : Str} {e : MoneyParseError}, e.quoted = some raw →
      u ++ '=' :: MoneyParseError.str printable .empty ≠ v ++ '=' :: e.str printable := by
    intro u v raw e hraw heq
    obtain ⟨q, hq, hrepr⟩ := reprStr_eq printable raw
    have hlast := congrArg List.getLast? heq
    rw [str_quoted hraw, hrepr] at hlast
    simp only [List.getLast?_append, List.getLast?_cons, MoneyParseError.str] at hlast
    obtain rfl : 'y' = q := Option.some.inj hlast
    exact absurd hq (by unfold IsQuote; decide)
  cases hraw : e.quoted with
  | none =>
    obtain rfl := hempty hraw
    cases hraw' : e'.quoted with
    | none =>
      obtain rfl := hempty hraw'
      exact ⟨List.append_cancel_right h, rfl⟩
    | some raw' => exact absurd h (hmixed hraw')
  | some raw =>
    cases hraw' : e'.quoted with
    | none =>
      obtain rfl := hempty hraw'
      exact absurd h.symm (hmixed hraw)
    | some raw' =>
      have hquoted : (u ++ '=' :: e.heading) ++ ' ' :: reprStr printable raw =
          (v ++ '=' :: e'.heading) ++ ' ' :: reprStr printable raw' := by
        rw [str_quoted hraw, str_quoted hraw'] at h
        simpa using h
      obtain ⟨hbefore, rfl⟩ := reprStr_end printable hquoted
      obtain ⟨rfl, -, hheading⟩ := last_split (P := (· = '=')) hbefore rfl rfl
        heading_plain heading_plain
      refine ⟨rfl, @str_injective printable _ _ ?_⟩
      rw [str_quoted hraw, str_quoted hraw', hheading]

/-- **A message tells its text.** Two amounts refused with one message failed the same check and
are the same text, or both blank; and no text puts a character into its message that is not
legible. -/
theorem message_tells {raw' : Str} {d' : Nat} (h : parseMinorUnits raw d = .error (.money e))
    (h' : parseMinorUnits raw' d' = .error (.money e'))
    (hsame : e.str printable = e'.str printable) :
    e = e' ∧ (raw = raw' ∨ strip raw = [] ∧ strip raw' = []) ∧
      ∀ c ∈ e.str printable, Legible printable c := by
  obtain rfl := str_injective hsame
  refine ⟨rfl, ?_, legible_message e⟩
  have hquote := (quoted_eq h).symm.trans (quoted_eq h')
  split_ifs at hquote with hblank hblank'
  · exact .inr ⟨hblank, hblank'⟩
  · exact .inl (Option.some.inj hquote)

end

/-- An amount that would begin a line of its own. -/
def forgedLine : Str := lit "12\nINFO credited"

theorem message_tells_forged :
    MoneyParseError.unexpectedCharacters forgedLine = .unexpectedCharacters forgedLine ∧
      (forgedLine = forgedLine ∨ strip forgedLine = [] ∧ strip forgedLine = []) ∧
      ∀ c ∈ lit "amount has unexpected characters: '12\\nINFO credited'",
        Legible (fun _ => true) c := by
  have hparse : parseMinorUnits forgedLine 2 =
      .error (.money (.unexpectedCharacters forgedLine)) := by decide
  have hsame : MoneyParseError.str (fun _ => true) (.unexpectedCharacters forgedLine) =
      MoneyParseError.str (fun _ => true) (.unexpectedCharacters forgedLine) := rfl
  exact message_tells hparse hparse hsame

end IspPlatform.Domain
