import IspPlatform.Lib.Codes
import IspPlatform.Py.Text

/-!
# Reading a `repr`

The `repr` of a string tells the string and where it ends, whatever follows it; so does that of a
list of strings. It is made of printable characters.
-/

namespace IspPlatform.Py

open Lib

def hexDigit (c : Char) : Nat := if c.isDigit then c.toNat - 48 else c.toNat - 87

def hexValue (s : Str) : Nat := s.foldl (fun n c => 16 * n + hexDigit c) 0

theorem hexDigit_digitChar {n : Nat} (h : n < 16) : hexDigit n.digitChar = n := by
  interval_cases n <;> decide

theorem hexValue_snoc (s : Str) (c : Char) :
    hexValue (s ++ [c]) = 16 * hexValue s + hexDigit c := by
  simp [hexValue]

theorem hexValue_toDigits (n : Nat) : hexValue (Nat.toDigits 16 n) = n := by
  induction n using Nat.strongRecOn with
  | ind n ih =>
    by_cases hn : n < 16
    · rw [Nat.toDigits_of_lt_base hn]
      exact (hexValue_snoc [] _).trans (by rw [hexDigit_digitChar hn]; simp [hexValue])
    · rw [Nat.toDigits_of_base_le (by decide) (by omega), hexValue_snoc, ih _ (by omega),
        hexDigit_digitChar (Nat.mod_lt _ (by decide))]
      omega

theorem hexValue_hex (w n : Nat) : hexValue (hex w n) = n := by
  have hzeros : ∀ k (s : Str), hexValue (List.replicate k '0' ++ s) = hexValue s := by
    intro k s
    induction k with
    | zero => rfl
    | succ k ih => exact ih
  rw [hex, hzeros, hexValue_toDigits]

theorem length_hex {w n : Nat} (hw : 0 < w) (h : n < 16 ^ w) : (hex w n).length = w := by
  have hle := (Nat.length_toDigits_le_iff (by decide) hw).mpr h
  simp only [hex, List.length_append, List.length_replicate]
  omega

theorem hex_append {w m n : Nat} {u v : Str} (hw : 0 < w) (hm : m < 16 ^ w) (hn : n < 16 ^ w)
    (h : hex w m ++ u = hex w n ++ v) : m = n ∧ u = v := by
  obtain ⟨hhex, rfl⟩ := List.append_inj h (by rw [length_hex hw hm, length_hex hw hn])
  refine ⟨?_, rfl⟩
  rw [← hexValue_hex w m, hhex, hexValue_hex]

theorem mem_toDigits {n : Nat} {c : Char} (h : c ∈ Nat.toDigits 16 n) :
    ∃ k < 16, c = k.digitChar := by
  induction n using Nat.strongRecOn with
  | ind n ih =>
    by_cases hn : n < 16
    · rw [Nat.toDigits_of_lt_base hn] at h
      exact ⟨n, hn, List.mem_singleton.mp h⟩
    · rw [Nat.toDigits_of_base_le (by decide) (by omega)] at h
      rcases List.mem_append.mp h with h | h
      · exact ih _ (by omega) h
      · exact ⟨_, Nat.mod_lt _ (by decide), List.mem_singleton.mp h⟩

theorem mem_hex {w n : Nat} {c : Char} (h : c ∈ hex w n) : ∃ k < 16, c = k.digitChar := by
  rcases List.mem_append.mp h with h | h
  · exact ⟨0, by decide, List.eq_of_mem_replicate h⟩
  · exact mem_toDigits h

/-! ## Escapes -/

/-- The character of a two-character escape. -/
def shortEscape (q e : Char) : Option Char :=
  if e = '\\' ∨ e = q then some e
  else if e = 't' then some '\t'
  else if e = 'n' then some '\n'
  else if e = 'r' then some '\r'
  else none

/-- The number of digits of a numeric escape. -/
def hexWidth (tag : Char) : Option Nat :=
  if tag = 'x' then some 2 else if tag = 'u' then some 4 else if tag = 'U' then some 8 else none

def IsQuote (q : Char) : Prop := q = '\'' ∨ q = '"'

/-- The word stands for the character between quotes `q`. -/
inductive Escaped (q c : Char) : Str → Prop where
  | plain : c ≠ '\\' → c ≠ q → Escaped q c [c]
  | short (e : Char) : shortEscape q e = some c → Escaped q c ['\\', e]
  | numeric (tag : Char) (w : Nat) : hexWidth tag = some w → c.toNat < 16 ^ w →
      Escaped q c ('\\' :: tag :: hex w c.toNat)

section
variable {q c d : Char}

theorem hexWidth_pos {tag : Char} {w : Nat} (h : hexWidth tag = some w) : 0 < w := by
  unfold hexWidth at h
  split_ifs at h <;> cases h <;> decide

theorem shortEscape_tag (hq : IsQuote q) {tag : Char} {w : Nat} (h : hexWidth tag = some w) :
    shortEscape q tag = none := by
  unfold hexWidth at h
  split_ifs at h with hx hu hU
  all_goals subst_vars; rcases hq with rfl | rfl <;> rfl

theorem Escaped.unique (hq : IsQuote q) {w x u v : Str} (hc : Escaped q c w) (hd : Escaped q d x)
    (h : w ++ u = x ++ v) : c = d ∧ u = v := by
  cases hc with
  | plain hback _ =>
    cases hd with
    | plain => exact List.cons.inj h
    | short | numeric => exact absurd (List.cons.inj h).1 hback
  | short e he =>
    cases hd with
    | plain hback _ => exact absurd (List.cons.inj h).1.symm hback
    | short e' he' =>
      obtain ⟨rfl, rfl⟩ := List.cons.inj (List.cons.inj h).2
      exact ⟨Option.some.inj (he.symm.trans he'), rfl⟩
    | numeric tag w htag _ =>
      obtain ⟨rfl, -⟩ := List.cons.inj (List.cons.inj h).2
      cases he.symm.trans (shortEscape_tag hq htag)
  | numeric tag w htag hlt =>
    cases hd with
    | plain hback _ => exact absurd (List.cons.inj h).1.symm hback
    | short e' he' =>
      obtain ⟨rfl, -⟩ := List.cons.inj (List.cons.inj h).2
      cases he'.symm.trans (shortEscape_tag hq htag)
    | numeric tag' w' htag' hlt' =>
      obtain ⟨rfl, hrest⟩ := List.cons.inj (List.cons.inj h).2
      obtain rfl := Option.some.inj (htag.symm.trans htag')
      obtain ⟨hnat, huv⟩ := hex_append (hexWidth_pos htag) hlt hlt' hrest
      exact ⟨Char.toNat_inj.mp hnat, huv⟩

variable (printable : Char → Bool)

theorem reprChar_escaped (hq : IsQuote q) (c : Char) : Escaped q c (reprChar printable q c) := by
  obtain ⟨ht, hn, hr⟩ : shortEscape q 't' = some '\t' ∧ shortEscape q 'n' = some '\n' ∧
      shortEscape q 'r' = some '\r' := by
    rcases hq with rfl | rfl <;> exact ⟨rfl, rfl, rfl⟩
  unfold reprChar
  split_ifs with hself htab hfeed hret hctl hplain hx hu
  · exact .short c (if_pos hself)
  · exact htab ▸ .short 't' ht
  · exact hfeed ▸ .short 'n' hn
  · exact hret ▸ .short 'r' hr
  · exact .numeric 'x' 2 rfl (by omega)
  · exact .plain (fun h => hself (.inl h)) fun h => hself (.inr h)
  · exact .numeric 'x' 2 rfl (by omega)
  · exact .numeric 'u' 4 rfl (by omega)
  · exact .numeric 'U' 8 rfl c.val.toNat_lt

theorem reprChar_selfDelimiting (hq : IsQuote q) : SelfDelimiting (reprChar printable q) :=
  fun c d _ _ h => (reprChar_escaped printable hq c).unique hq (reprChar_escaped printable hq d) h

theorem reprChar_opens (hq : IsQuote q) : Opens q (reprChar printable q) := by
  intro c
  have hback : '\\' ≠ q := by rcases hq with rfl | rfl <;> decide
  have hc := reprChar_escaped printable hq c
  generalize reprChar printable q c = w at hc ⊢
  cases hc with
  | plain _ hne => exact ⟨c, [], rfl, hne⟩
  | short e _ => exact ⟨_, _, rfl, hback⟩
  | numeric tag w _ _ => exact ⟨_, _, rfl, hback⟩

/-! ## Strings and lists of strings -/

theorem reprStr_eq (s : Str) : ∃ q, IsQuote q ∧
    reprStr printable s = q :: (s.flatMap (reprChar printable q) ++ [q]) := by
  unfold reprStr
  by_cases h : '\'' ∈ s ∧ '"' ∉ s
  · exact ⟨'"', .inr rfl, by rw [if_pos h]; rfl⟩
  · exact ⟨'\'', .inl rfl, by rw [if_neg h]; rfl⟩

theorem reprStr_selfDelimiting : SelfDelimiting (reprStr printable) := by
  intro s t u v h
  obtain ⟨q, hq, hs⟩ := reprStr_eq printable s
  obtain ⟨q', -, ht⟩ := reprStr_eq printable t
  rw [hs, ht] at h
  obtain ⟨rfl, hrest⟩ := List.cons.inj h
  exact (reprChar_selfDelimiting printable hq).listed (reprChar_opens printable hq) hrest

theorem reprStr_opens {mark : Char} (h : ¬ IsQuote mark) : Opens mark (reprStr printable) := by
  intro s
  obtain ⟨q, hq, hs⟩ := reprStr_eq printable s
  exact ⟨q, _, hs, fun hsame => h (hsame ▸ hq)⟩

/-- **Reading back.** A text that begins with the `repr` of a list of strings tells the list. -/
theorem reprList_selfDelimiting : SelfDelimiting (reprList printable) := by
  have hclose : ¬ IsQuote ']' := by unfold IsQuote; decide
  have hsep : ∃ x w, lit ", " = x :: w ∧ x ≠ ']' := ⟨',', [' '], rfl, by decide⟩
  have hjoined := (reprStr_selfDelimiting printable).joined (reprStr_opens printable hclose) hsep
  intro l l' u v h
  refine hjoined.framed ['['] [] ?_
  simpa [reprList] using h

/-! ## From the end -/

/-- Within an escape, the quote comes after the backslash. -/
theorem Escaped.guarded (hq : IsQuote q) {w : Str} (h : Escaped q c w) : Guarded '\\' q w := by
  have hback : '\\' ≠ q := by rcases hq with rfl | rfl <;> decide
  have htail : ∀ {s : Str}, (∀ x ∈ s.tail, x ≠ q) → Guarded '\\' q ('\\' :: s) := by
    intro s hs a b hab
    cases a with
    | nil => exact absurd (List.cons.inj hab).1 hback
    | cons z a =>
      obtain ⟨rfl, rfl⟩ := List.cons.inj hab
      cases a with
      | nil => rfl
      | cons y a => exact absurd rfl (hs q (by simp))
  cases h with
  | plain _ hne => exact guarded_of_not_mem (by simpa using hne.symm)
  | short e _ => exact htail (by simp)
  | numeric tag w _ _ =>
    refine htail fun x hx => ?_
    obtain ⟨k, hk, rfl⟩ := mem_hex hx
    rcases hq with rfl | rfl <;> interval_cases k <;> decide

/-- A text that ends with a blank and the `repr` of a string tells the string and what is before. -/
theorem reprStr_end {u v s t : Str}
    (h : u ++ ' ' :: reprStr printable s = v ++ ' ' :: reprStr printable t) : u = v ∧ s = t := by
  obtain ⟨q, hq, hs⟩ := reprStr_eq printable s
  obtain ⟨q', hq', ht⟩ := reprStr_eq printable t
  have hguarded : ∀ s : Str, Guarded '\\' q (s.flatMap (reprChar printable q)) :=
    fun s => .flatMap fun c _ => (reprChar_escaped printable hq c).guarded hq
  have hblank : ∀ u : Str, (u ++ [' ']).getLast? ≠ some '\\' := by simp
  have hsame := h
  rw [hs, ht] at hsame
  obtain rfl : q = q' := by
    have hlast := congrArg List.getLast? hsame
    simp only [List.getLast?_append, List.getLast?_cons] at hlast
    exact Option.some.inj hlast
  have hbody : (u ++ [' ']) ++ q :: s.flatMap (reprChar printable q) =
      (v ++ [' ']) ++ q :: t.flatMap (reprChar printable q) := by
    exact @List.append_cancel_right _ _ [q] _ (by simpa using hsame)
  obtain ⟨hbefore, hquoted⟩ :=
    eq_after_mark (hguarded s) (hguarded t) (hblank u) (hblank v) hbody
  refine ⟨List.append_cancel_right hbefore, (reprStr_selfDelimiting printable).injective ?_⟩
  rw [hs, ht, hquoted]

/-- No control character; beyond ASCII, one that the table has as printable. -/
def Legible (c : Char) : Prop :=
  0x20 ≤ c.toNat ∧ (c.toNat < 0x7f ∨ 0x7f < c.toNat ∧ printable c = true)

variable {printable}

theorem legible_hex {w n : Nat} (h : c ∈ hex w n) : Legible printable c := by
  obtain ⟨k, hk, rfl⟩ := mem_hex h
  have hrange : 0x20 ≤ k.digitChar.toNat ∧ k.digitChar.toNat < 0x7f := by
    interval_cases k <;> decide
  exact ⟨hrange.1, .inl hrange.2⟩

theorem legible_lit {s : String}
    (hs : (lit s).all (fun c => 0x20 ≤ c.toNat && c.toNat < 0x7f) = true) (h : c ∈ lit s) :
    Legible printable c := by
  have hc := List.all_eq_true.mp hs c h
  simp only [Bool.and_eq_true, decide_eq_true_eq] at hc
  exact ⟨hc.1, .inl hc.2⟩

theorem legible_reprChar (hq : IsQuote q) {x : Char} (h : x ∈ reprChar printable q c) :
    Legible printable x := by
  have hmark : ∀ e ∈ lit "\\tnrxuU'\"", Legible printable e := fun e => legible_lit (by decide)
  have hback : Legible printable '\\' := hmark _ (by decide)
  have hescape : ∀ {tag : Char} {w n : Nat}, tag ∈ lit "\\tnrxuU'\"" →
      x ∈ ['\\', tag] ++ hex w n → Legible printable x := by
    intro tag w n htag hx
    rcases List.mem_append.mp hx with hx | hx
    · rcases List.mem_cons.mp hx with rfl | hx
      · exact hback
      · exact List.mem_singleton.mp hx ▸ hmark _ htag
    · exact legible_hex hx
  have hshort : ∀ {e : Char}, e ∈ lit "\\tnrxuU'\"" → x ∈ ['\\', e] → Legible printable x :=
    fun he hx => hescape (w := 0) (n := 0) he (List.mem_append_left _ hx)
  unfold reprChar at h
  split_ifs at h with hself htab hfeed hret hctl hplain hx hu
  · refine hshort ?_ h
    rcases hself with rfl | rfl
    · decide
    · rcases hq with rfl | rfl <;> decide
  · exact hshort (by decide) h
  · exact hshort (by decide) h
  · exact hshort (by decide) h
  · exact hescape (by decide) h
  · obtain rfl := List.mem_singleton.mp h
    refine ⟨by omega, ?_⟩
    by_cases hlow : x.toNat < 0x7f
    · exact .inl hlow
    · exact .inr ⟨by omega, hplain.resolve_left hlow⟩
  · exact hescape (by decide) h
  · exact hescape (by decide) h
  · exact hescape (by decide) h

theorem legible_reprStr {s : Str} (h : c ∈ reprStr printable s) : Legible printable c := by
  obtain ⟨q, hq, hs⟩ := reprStr_eq printable s
  have hquote : Legible printable q := by
    rcases hq with rfl | rfl <;> exact ⟨by decide, .inl (by decide)⟩
  rw [hs] at h
  rcases List.mem_cons.mp h with rfl | h
  · exact hquote
  · rcases List.mem_append.mp h with h | h
    · obtain ⟨x, -, hx⟩ := List.mem_flatMap.mp h
      exact legible_reprChar hq hx
    · exact List.mem_singleton.mp h ▸ hquote

end

end IspPlatform.Py
