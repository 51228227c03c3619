import Mathlib.Data.Char
import Mathlib.Data.Finset.Sort
import Mathlib.Data.List.DropRight
import Mathlib.Data.List.Lex
import Mathlib.Tactic.IntervalCases

/-!
# Python strings

`Str` is a `str` as its list of characters. The module has what the modelled
code uses of `str`: `strip`, decimal rendering of integers, and `repr` (the
`!r` of an f-string), which needs the interpreter's table of printable
characters and takes it as a parameter, and `sorted`.
-/

namespace IspPlatform.Py

/-- A Python string. -/
abbrev Str := List Char

/-- A literal of the source. -/
def lit (s : String) : Str := s.toList

/-- `str.isspace` of one character. -/
def isSpace (c : Char) : Bool :=
  let n := c.toNat
  (9 ≤ n && n ≤ 13) || (28 ≤ n && n ≤ 32) || n == 0x85 || n == 0xa0 || n == 0x1680 ||
    (0x2000 ≤ n && n ≤ 0x200a) || n == 0x2028 || n == 0x2029 || n == 0x202f || n == 0x205f ||
    n == 0x3000

/-- `s.strip()`. -/
def strip (s : Str) : Str := (s.dropWhile isSpace).rdropWhile isSpace

/-- What stands before the first `c`, and what stands after it. -/
def partition (c : Char) (s : Str) : Str × Str :=
  (s.takeWhile (· ≠ c), (s.dropWhile (· ≠ c)).drop 1)

/-- `str(n)` of a natural number. -/
def natStr (n : Nat) : Str := Nat.toDigits 10 n

/-- `str(n)` of an integer. -/
def intStr : Int → Str
  | .ofNat n => natStr n
  | .negSucc n => '-' :: natStr (n + 1)

/-- `n` in lower-case hexadecimal, padded with zeros to `width`. -/
def hex (width n : Nat) : Str :=
  let ds := Nat.toDigits 16 n
  List.replicate (width - ds.length) '0' ++ ds

/-- One character of a `repr` quoted with `q`. -/
def reprChar (printable : Char → Bool) (q c : Char) : Str :=
  if c = '\\' ∨ c = q then ['\\', c]
  else if c = '\t' then ['\\', 't']
  else if c = '\n' then ['\\', 'n']
  else if c = '\r' then ['\\', 'r']
  else if c.toNat < 0x20 ∨ c.toNat = 0x7f then ['\\', 'x'] ++ hex 2 c.toNat
  else if c.toNat < 0x7f ∨ printable c then [c]
  else if c.toNat ≤ 0xff then ['\\', 'x'] ++ hex 2 c.toNat
  else if c.toNat ≤ 0xffff then ['\\', 'u'] ++ hex 4 c.toNat
  else ['\\', 'U'] ++ hex 8 c.toNat

/-- `repr(s)`: double quotes only when `s` has a single quote and no double one. -/
def reprStr (printable : Char → Bool) (s : Str) : Str :=
  let q := if '\'' ∈ s ∧ '"' ∉ s then '"' else '\''
  [q] ++ s.flatMap (reprChar printable q) ++ [q]

/-- `repr` of a list of strings. -/
def reprList (printable : Char → Bool) (l : List Str) : Str :=
  ['['] ++ (lit ", ").intercalate (l.map (reprStr printable)) ++ [']']

/-- `sorted(texts)`. -/
def sorted (texts : Finset Str) : List Str := texts.sort

@[simp] theorem sorted_toFinset (texts : Finset Str) : (sorted texts).toFinset = texts :=
  Finset.sort_toFinset _ _

theorem rdropWhile_behind {p : Char → Bool} {z : Char} (hz : ¬ p z = true) (a b : Str) :
    (a ++ z :: b).rdropWhile p = a ++ z :: b.rdropWhile p := by
  induction b using List.reverseRecOn with
  | nil => rw [List.rdropWhile_nil, List.rdropWhile_concat_neg _ _ _ hz]
  | append_singleton b y ih =>
    have hsnoc : a ++ z :: (b ++ [y]) = (a ++ z :: b) ++ [y] := by simp
    rw [hsnoc]
    by_cases hy : p y = true
    · rw [List.rdropWhile_concat_pos _ _ _ hy, List.rdropWhile_concat_pos _ _ _ hy, ih]
    · rw [List.rdropWhile_concat_neg _ _ _ hy, List.rdropWhile_concat_neg _ _ _ hy, hsnoc]

theorem mem_strip {s : Str} {c : Char} (hc : c ∈ s) (hspace : isSpace c = false) :
    c ∈ strip s := by
  obtain ⟨before, after, rfl⟩ := List.append_of_mem hc
  have hnot : ¬ isSpace c = true := by simp [hspace]
  unfold strip
  rw [List.dropWhile_append]
  split
  · rw [List.dropWhile_cons_of_neg hnot]
    have hkeep := rdropWhile_behind hnot [] after
    rw [List.nil_append] at hkeep
    rw [hkeep]
    exact List.mem_cons_self
  · rw [rdropWhile_behind hnot]
    simp

theorem partition_append {c : Char} {pre : Str} (post : Str) (h : c ∉ pre) :
    partition c (pre ++ c :: post) = (pre, post) := by
  have hne : ∀ x ∈ pre, decide (x ≠ c) = true := by
    intro x hx
    rw [decide_eq_true_eq]
    rintro rfl
    exact h hx
  unfold partition
  rw [List.takeWhile_append_of_pos hne, List.dropWhile_append_of_pos hne]
  simp

theorem digitChar_sub {c : Char} (h : c.isDigit = true) :
    c.toNat - 48 < 10 ∧ Nat.digitChar (c.toNat - 48) = c := by
  rw [Char.isDigit_iff_toNat] at h
  change 48 ≤ c.toNat ∧ c.toNat ≤ 57 at h
  refine ⟨by omega, Char.toNat_inj.mp ?_⟩
  rw [Nat.toNat_digitChar_of_lt_ten (by omega)]
  omega

theorem mem_digits {c : Char} (h : c.isDigit = true) : c ∈ lit "0123456789" := by
  obtain ⟨hlt, hc⟩ := digitChar_sub h
  rw [← hc]
  generalize c.toNat - 48 = n at hlt
  interval_cases n <;> decide

end IspPlatform.Py
