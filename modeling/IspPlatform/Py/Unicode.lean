import IspPlatform.Py.Regex

/-!
# Character tables and letter case

What the interpreter's Unicode database decides is a table; outside it everything is
computed. ASCII is fixed, so the tables are read for the other characters only. `lower` is
`str.lower` with its one context rule, the final sigma, and `ignoreCase` is the comparison
of `re.IGNORECASE` with an ASCII character.
-/

namespace IspPlatform.Py

/-- The interpreter's tables, for the characters outside ASCII. -/
structure Unicode where
  printable : Char → Bool
  alnum : Char → Bool
  decimal : Char → Bool
  cased : Char → Bool
  caseIgnorable : Char → Bool
  lower : Char → Str

/-- Tables that are enough for texts in ASCII. -/
def asciiOnly : Unicode :=
  ⟨fun _ => false, fun _ => false, fun _ => false, fun _ => false, fun _ => false, fun c => [c]⟩

def isAscii (c : Char) : Bool := c.toNat < 128

namespace Unicode

variable (U : Unicode)

/-- `\w`. -/
def word (c : Char) : Bool := if isAscii c then c.isAlphanum || c == '_' else U.alnum c

/-- `\d`. -/
def digit (c : Char) : Bool := if isAscii c then c.isDigit else U.decimal c

def isCased (c : Char) : Bool := if isAscii c then c.isAlpha else U.cased c

def isCaseIgnorable (c : Char) : Bool :=
  if isAscii c then (lit "'.:^`").contains c else U.caseIgnorable c

def lowerChar (c : Char) : Str := if isAscii c then [c.toLower] else U.lower c

/-- A sigma between these characters, those before it read backwards, ends a word. -/
def finalSigma (before after : Str) : Bool :=
  (before.find? (!U.isCaseIgnorable ·)).any U.isCased &&
    !(after.find? (!U.isCaseIgnorable ·)).any U.isCased

def lowerFrom (before : Str) : Str → Str
  | [] => []
  | c :: cs =>
    (if c = 'Σ' then [if U.finalSigma before cs then 'ς' else 'σ'] else U.lowerChar c) ++
      lowerFrom (c :: before) cs

/-- `s.lower()`. -/
def lowered (s : Str) : Str := U.lowerFrom [] s

/-- What `lower` makes of a stretch between these characters, those before it read backwards. -/
def lowerWithin (after : Str) : Str → Str → Str
  | _, [] => []
  | before, c :: cs =>
    (if c = 'Σ' then [if U.finalSigma before (cs ++ after) then 'ς' else 'σ']
      else U.lowerChar c) ++ lowerWithin after (c :: before) cs

theorem lowerFrom_append (before m after : Str) : U.lowerFrom before (m ++ after) =
    U.lowerWithin after before m ++ U.lowerFrom (m.reverse ++ before) after := by
  induction m generalizing before with
  | nil => rfl
  | cons c m ih =>
    rw [List.cons_append, lowerFrom, lowerWithin, ih, List.append_assoc, List.reverse_cons,
      List.append_assoc]
    rfl

theorem lowerFrom_eq_within (before m : Str) : U.lowerFrom before m = U.lowerWithin [] before m := by
  have h := U.lowerFrom_append before m []
  rw [List.append_nil] at h
  exact h.trans (List.append_nil _)

theorem lowerWithin_eq_flatMap {m : Str} (hm : 'Σ' ∉ m) (before after : Str) :
    U.lowerWithin after before m = m.flatMap U.lowerChar := by
  induction m generalizing before with
  | nil => rfl
  | cons c m ih =>
    have hc : c ≠ 'Σ' := fun h => hm (h ▸ List.mem_cons_self)
    rw [lowerWithin, if_neg hc, ih (List.not_mem_of_not_mem_cons hm)]
    rfl

theorem lowerWithin_append (x m before after : Str) : U.lowerWithin after before (x ++ m) =
    U.lowerWithin (m ++ after) before x ++ U.lowerWithin after (x.reverse ++ before) m := by
  induction x generalizing before with
  | nil => rfl
  | cons c x ih =>
    rw [List.cons_append, lowerWithin, lowerWithin, ih, List.append_assoc, List.append_assoc,
      List.reverse_cons, List.append_assoc]
    rfl

/-- The next character that letter case looks at is a letter. -/
def seesLetter (s : Str) : Bool := (s.find? (!U.isCaseIgnorable ·)).any U.isCased

theorem seesLetter_append {s t : Str} (ht : U.seesLetter t = false) :
    U.seesLetter (s ++ t) = U.seesLetter s := by
  unfold seesLetter at ht ⊢
  rw [List.find?_append]
  cases hs : s.find? (!U.isCaseIgnorable ·) with
  | none =>
    rw [Option.none_or]
    exact ht
  | some c => rw [Option.some_or]

theorem finalSigma_eq (before after : Str) :
    U.finalSigma before after = (U.seesLetter before && !U.seesLetter after) := rfl

/-- A stretch that sees no letter around it is lowered as if it stood alone. -/
theorem lowerWithin_alone {before after : Str} (hbefore : U.seesLetter before = false)
    (hafter : U.seesLetter after = false) (r m : Str) :
    U.lowerWithin after (r ++ before) m = U.lowerFrom r m := by
  induction m generalizing r with
  | nil => rfl
  | cons c m ih =>
    rw [lowerWithin, lowerFrom, finalSigma_eq, finalSigma_eq, U.seesLetter_append hbefore,
      U.seesLetter_append hafter, ← ih]
    rfl

/-- What `str.lower` keeps to: a character stays one or more characters, and no comma and no
blank comes up. -/
structure Lowers : Prop where
  nonempty : ∀ c, isAscii c = false → U.lower c ≠ []
  apart : ∀ c, isAscii c = false → ',' ∉ U.lower c ∧ ' ' ∉ U.lower c

variable {U}

theorem lowers_asciiOnly : asciiOnly.Lowers := by
  refine ⟨fun c _ => List.cons_ne_nil _ _, fun c hc => ?_⟩
  constructor
  · intro h
    rw [← List.mem_singleton.mp h] at hc
    cases hc
  · intro h
    rw [← List.mem_singleton.mp h] at hc
    cases hc

end Unicode

/-- The ASCII character that `re.IGNORECASE` takes a character for: four characters outside
ASCII stand for a letter of it, the last one being the Kelvin sign. -/
def foldCase (c : Char) : Char :=
  if c = 'İ' ∨ c = 'ı' then 'i' else if c = 'ſ' then 's'
  else if c = '\u212a' then 'k' else c.toLower

/-- The lower-case character `c` matches `x` under `re.IGNORECASE`. -/
def ignoreCase (c x : Char) : Bool := foldCase x = c

/-- A lower-case literal, in either case. -/
def Regex.eitherCase (s : String) : Regex := Regex.chars ignoreCase (lit s)

theorem ignoreCase_of_toLower {c x : Char} (hc : isAscii c = true) (h : x.toLower = c) :
    ignoreCase c x = true := by
  have hne : ∀ y : Char, isAscii y.toLower = false → x ≠ y := by
    rintro y hy rfl
    rw [h, hc] at hy
    cases hy
  have hi := hne 'İ' (by decide)
  have hj := hne 'ı' (by decide)
  have hs := hne 'ſ' (by decide)
  have hk := hne '\u212a' (by decide)
  simp [ignoreCase, foldCase, hi, hj, hs, hk, h]

theorem toLower_of_not_isUpper {x : Char} (hu : ¬ x.isUpper = true) : x.toLower = x := by
  have hout : ¬ ('A'.val ≤ x.val ∧ x.val ≤ 'Z'.val) := fun hin => hu (decide_eq_true hin)
  exact dif_neg hout

theorem eq_of_toLower {x d : Char} (hd : d.toNat < 97) (h : x.toLower = d) : x = d := by
  by_cases hu : x.isUpper = true
  · exfalso
    have hin : 'A'.val ≤ x.val ∧ x.val ≤ 'Z'.val := of_decide_eq_true hu
    have hlower : x.toLower.val = x.val + ('a'.val - 'A'.val) := by
      unfold Char.toLower
      rw [dif_pos hin]
    have hlo : 65 ≤ x.val.toNat := hin.1
    have hhi : x.val.toNat ≤ 90 := hin.2
    have hval : d.toNat = x.val.toNat + 32 := by
      rw [← h]
      show x.toLower.val.toNat = _
      rw [hlower, UInt32.toNat_add]
      show (x.val.toNat + 32) % 4294967296 = _
      omega
    omega
  · rw [← h, toLower_of_not_isUpper hu]

/-- A letter in either case is a word character. -/
theorem Unicode.word_of_toLower (U : Unicode) {x : Char} (h : x.toLower.isLower = true) :
    U.word x = true := by
  have hletter : x.isUpper = true ∨ x.isLower = true := by
    by_cases hu : x.isUpper = true
    · exact .inl hu
    · rw [toLower_of_not_isUpper hu] at h
      exact .inr h
  have hascii : isAscii x = true := by
    have hval : x.toNat = x.val.toNat := rfl
    unfold isAscii
    rw [decide_eq_true_eq]
    rcases hletter with hu | hl
    · have hle : x.val ≤ 'Z'.val := (of_decide_eq_true hu).2
      have : x.val.toNat ≤ 90 := hle
      omega
    · have hrange : (decide ('a'.val ≤ x.val) && decide (x.val ≤ 'z'.val)) = true := hl
      have hle : x.val ≤ 'z'.val := of_decide_eq_true (Bool.and_eq_true_iff.mp hrange).2
      have : x.val.toNat ≤ 122 := hle
      omega
  have halpha : x.isAlpha = true := by
    show (x.isUpper || x.isLower) = true
    rw [Bool.or_eq_true]
    exact hletter
  have halphanum : x.isAlphanum = true := by
    show (x.isAlpha || x.isDigit) = true
    rw [halpha, Bool.true_or]
  unfold Unicode.word
  rw [if_pos hascii, halphanum, Bool.true_or]

end IspPlatform.Py
