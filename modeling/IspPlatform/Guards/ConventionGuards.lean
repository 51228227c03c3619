import IspPlatform.Py.Substring
import IspPlatform.Py.Unicode

/-!
# The convention guards

`check_file` with its rules. The scan goes through the lines of a file with their numbers
and one flag, `in_docstring`.
-/

namespace IspPlatform.Guards

open Py

inductive Rule where
  | naiveDatetime
  | moneyFloat
  | swallowedExcept
  deriving DecidableEq, Repr

def Rule.name : Rule → Str
  | naiveDatetime => lit "naive-datetime"
  | moneyFloat => lit "money-float"
  | swallowedExcept => lit "swallowed-except"

structure Finding where
  path : Str
  lineNo : Nat
  rule : Rule
  text : Str
  deriving DecidableEq, Repr

def Finding.render (f : Finding) : Str :=
  f.path ++ lit ":" ++ natStr f.lineNo ++ lit ": [" ++ f.rule.name ++ lit "] " ++ strip f.text

/-- `ALLOW`, the waiver word. -/
def allow : Str := lit "guard-ok"

/-- `\s*`. -/
def blanks : Regex := .many isSpace

/-- `NAIVE_TIME`. -/
def naiveTime (U : Unicode) : Regex :=
  .seq (.boundary U.word) (Regex.any
    [.seq (.exactly "datetime.now(") (.seq blanks (.exactly ")")),
      .exactly "datetime.utcnow(", .exactly "date.today("])

/-- `[A-Za-z_]`, with the case ignored. -/
def nameStart (c : Char) : Bool := (foldCase c).isLower || c == '_'

/-- `[A-Za-z0-9_.]`, with the case ignored. -/
def nameChar (c : Char) : Bool := nameStart c || c.isDigit || c == '.'

/-- `MONEY_FLOAT`. -/
def moneyFloat : Regex :=
  .seq (.eitherCase "float(") (.seq blanks (.seq (.look (.cls nameStart)) (.seq (.many nameChar)
    (Regex.any [.eitherCase "amount", .eitherCase "balance", .eitherCase "price",
      .eitherCase "charge", .eitherCase "minor", .eitherCase "cents", .eitherCase "total"]))))

/-- `INT_OF_FLOAT`. -/
def intOfFloat : Regex := .seq (.exactly "int(") (.seq blanks (.exactly "float("))

/-- `BARE_PASS`. -/
def barePass : Regex :=
  .seq (.exactly "except") (.seq (.cls isSpace) (.seq blanks
    (.seq (Regex.any [.exactly "Exception", .exactly "BaseException"])
      (.seq blanks (.exactly ":")))))

/-- The patterns of a rule find something in a line. -/
def Rule.matches (U : Unicode) (line : Str) : Rule → Bool
  | naiveDatetime => (naiveTime U).search line
  | moneyFloat => Guards.moneyFloat.search line || intOfFloat.search line
  | swallowedExcept => barePass.search line

/-! ## The scan -/

/-- The two kinds of triple quote. -/
inductive Quote where
  | double
  | single
  deriving DecidableEq, Repr

def Quote.mark : Quote → Str
  | double => ['"', '"', '"']
  | single => ['\'', '\'', '\'']

/-- `raw.rstrip("\n")`. -/
def lineOf (raw : Str) : Str := raw.rdropWhile (· = '\n')

/-- `quotes`, of both kinds together. -/
def quotes (line : Str) : Nat := count Quote.double.mark line + count Quote.single.mark line

/-- `line.lstrip().startswith("#")`. -/
def isComment (line : Str) : Bool := (line.dropWhile isSpace).head? = some '#'

/-- The findings of line `i` itself, with the line after it if there is one. -/
def report (U : Unicode) (path : Str) (i : Nat) (line : Str) (next : Option Str) : List Finding :=
  (if Rule.naiveDatetime.matches U line then
    [⟨path, i, .naiveDatetime, lit "timezone-naive now()/today()"⟩] else []) ++
  (if Rule.moneyFloat.matches U line then
    [⟨path, i, .moneyFloat, lit "float() on a money value"⟩] else []) ++
  (if Rule.swallowedExcept.matches U line then
    let nxt := match next with
      | some raw => strip raw
      | none => []
    if nxt = lit "pass" then [⟨path, i, .swallowedExcept, lit "except ...: pass"⟩] else []
  else [])

/-- The loop of `check_file`, from line `i`. -/
def checkFrom (U : Unicode) (path : Str) (i : Nat) (inDocstring : Bool) : List Str → List Finding
  | [] => []
  | raw :: rest =>
    let line := lineOf raw
    if quotes line % 2 = 1 then checkFrom U path (i + 1) (!inDocstring) rest
    else if inDocstring || 0 < quotes line then checkFrom U path (i + 1) inDocstring rest
    else if isComment line || allow <:+: line then checkFrom U path (i + 1) inDocstring rest
    else report U path i line rest.head? ++ checkFrom U path (i + 1) inDocstring rest

/-- `check_file`. -/
def checkFile (U : Unicode) (path : Str) (lines : List Str) : List Finding :=
  checkFrom U path 1 false lines

/-! ## What is reported where -/

/-- All triple quotes of some lines. -/
def quotesIn (lines : List Str) : Nat := (lines.map fun raw => quotes (lineOf raw)).sum

/-- The rules are run on the line, unless the scan takes it for part of a docstring. -/
def Exposed (line : Str) : Prop := quotes line = 0 ∧ isComment line = false ∧ ¬ allow <:+: line

instance (line : Str) : Decidable (Exposed line) := by
  unfold Exposed
  infer_instance

theorem Quote.mark_ne_nil (q : Quote) : q.mark ≠ [] := by
  cases q <;> exact List.cons_ne_nil _ _

variable {U : Unicode} {path : Str}

theorem lineNo_report {i : Nat} {line : Str} {next : Option Str} {f : Finding}
    (h : f ∈ report U path i line next) : f.lineNo = i := by
  unfold report at h
  simp only [List.mem_append, List.mem_ite_nil_right, List.mem_singleton] at h
  obtain (⟨-, rfl⟩ | ⟨-, rfl⟩) | ⟨-, -, rfl⟩ := h <;> rfl

theorem exists_report {i : Nat} {line : Str} {next : Option Str} {r : Rule}
    (hr : r ≠ .swallowedExcept) :
    (∃ f ∈ report U path i line next, f.rule = r) ↔ r.matches U line = true := by
  unfold report
  simp only [List.mem_append, List.mem_ite_nil_right, List.mem_singleton]
  constructor
  · rintro ⟨f, (⟨hm, rfl⟩ | ⟨hm, rfl⟩) | ⟨-, -, rfl⟩, rfl⟩
    · exact hm
    · exact hm
    · exact absurd rfl hr
  · intro hm
    cases r with
    | naiveDatetime => exact ⟨_, .inl (.inl ⟨hm, rfl⟩), rfl⟩
    | moneyFloat => exact ⟨_, .inl (.inr ⟨hm, rfl⟩), rfl⟩
    | swallowedExcept => exact absurd rfl hr

/-- One line: it is reported if it is exposed and an even number `k` of triple quotes stands
above it, and its own triple quotes are added to them. -/
theorem checkFrom_cons {i k : Nat} {raw : Str} {rest : List Str} :
    checkFrom U path i (k % 2 = 1) (raw :: rest) =
      (if k % 2 = 0 ∧ Exposed (lineOf raw) then report U path i (lineOf raw) rest.head?
        else []) ++
        checkFrom U path (i + 1) ((k + quotes (lineOf raw)) % 2 = 1) rest := by
  rw [checkFrom]
  by_cases hodd : quotes (lineOf raw) % 2 = 1
  · have hflip : (!decide (k % 2 = 1)) = decide ((k + quotes (lineOf raw)) % 2 = 1) := by
      rw [← decide_not, decide_eq_decide]
      omega
    have hhidden : ¬ (k % 2 = 0 ∧ Exposed (lineOf raw)) := by
      rintro ⟨-, hq, -⟩
      omega
    rw [if_pos hodd, if_neg hhidden, hflip, List.nil_append]
  · have hkeep : decide (k % 2 = 1) = decide ((k + quotes (lineOf raw)) % 2 = 1) := by
      rw [decide_eq_decide]
      omega
    rw [if_neg hodd, ← hkeep]
    by_cases hskip : (decide (k % 2 = 1) || decide (0 < quotes (lineOf raw))) = true
    · have hhidden : ¬ (k % 2 = 0 ∧ Exposed (lineOf raw)) := by
        rw [Bool.or_eq_true, decide_eq_true_eq, decide_eq_true_eq] at hskip
        rintro ⟨hk, hq, -⟩
        omega
      rw [if_pos hskip, if_neg hhidden, List.nil_append]
    · rw [if_neg hskip]
      rw [Bool.or_eq_true, decide_eq_true_eq, decide_eq_true_eq] at hskip
      have hq : quotes (lineOf raw) = 0 := by omega
      have hk : k % 2 = 0 := by omega
      by_cases hout : (isComment (lineOf raw) || decide (allow <:+: lineOf raw)) = true
      · have hhidden : ¬ (k % 2 = 0 ∧ Exposed (lineOf raw)) := by
          rintro ⟨-, -, hc, ha⟩
          simp [hc, ha] at hout
        rw [if_pos hout, if_neg hhidden, List.nil_append]
      · have hshown : k % 2 = 0 ∧ Exposed (lineOf raw) := by
          rw [Bool.or_eq_true, decide_eq_true_eq, not_or, Bool.not_eq_true] at hout
          exact ⟨hk, hq, hout.1, hout.2⟩
        rw [if_neg hout, if_pos hshown]

/-- The findings from line `i` on, with `k` triple quotes above it: those of every exposed
line that has an even number of triple quotes above it. -/
theorem mem_checkFrom {lines : List Str} {i k : Nat} {f : Finding} :
    f ∈ checkFrom U path i (k % 2 = 1) lines ↔ ∃ n raw, lines[n]? = some raw ∧
      (k + quotesIn (lines.take n)) % 2 = 0 ∧ Exposed (lineOf raw) ∧
      f ∈ report U path (i + n) (lineOf raw) lines[n + 1]? := by
  induction lines generalizing i k with
  | nil => simp [checkFrom]
  | cons raw rest ih =>
    have hrest : ∀ n, (k + quotes (lineOf raw)) + quotesIn (rest.take n) =
        k + quotesIn ((raw :: rest).take (n + 1)) := by
      intro n
      simp only [quotesIn, List.take_succ_cons, List.map_cons, List.sum_cons]
      omega
    rw [checkFrom_cons, List.mem_append, ih]
    constructor
    · rintro (hf | ⟨n, raw', hn, hk, hx, hf⟩)
      · obtain ⟨⟨hk, hx⟩, hf⟩ := List.mem_ite_nil_right.mp hf
        exact ⟨0, raw, rfl, by simpa [quotesIn] using hk, hx,
          by simpa [List.head?_eq_getElem?] using hf⟩
      · refine ⟨n + 1, raw', hn, hrest n ▸ hk, hx, ?_⟩
        rwa [show i + (n + 1) = i + 1 + n by omega]
    · rintro ⟨n, raw', hn, hk, hx, hf⟩
      cases n with
      | zero =>
        obtain rfl := Option.some.inj hn
        refine .inl (List.mem_ite_nil_right.mpr ⟨⟨by simpa [quotesIn] using hk, hx⟩, ?_⟩)
        simpa [List.head?_eq_getElem?] using hf
      | succ n =>
        refine .inr ⟨n, raw', hn, (hrest n).symm ▸ hk, hx, ?_⟩
        rwa [show i + 1 + n = i + (n + 1) by omega]

theorem mem_checkFile {lines : List Str} {f : Finding} :
    f ∈ checkFile U path lines ↔ ∃ n raw, lines[n]? = some raw ∧
      quotesIn (lines.take n) % 2 = 0 ∧ Exposed (lineOf raw) ∧
      f ∈ report U path (n + 1) (lineOf raw) lines[n + 1]? := by
  have hfrom := @mem_checkFrom U path lines 1 0 f
  rw [Nat.zero_mod] at hfrom
  unfold checkFile
  simpa [Nat.add_comm] using hfrom

/-- A rule that looks at one line reports a line exactly when it is exposed, matches, and has
an even number of triple quotes above it. -/
theorem reported_iff {lines : List Str} {r : Rule} {n : Nat} (hr : r ≠ .swallowedExcept) :
    (∃ f ∈ checkFile U path lines, f.lineNo = n + 1 ∧ f.rule = r) ↔ ∃ raw, lines[n]? = some raw ∧
      quotesIn (lines.take n) % 2 = 0 ∧ Exposed (lineOf raw) ∧ r.matches U (lineOf raw) = true := by
  constructor
  · rintro ⟨f, hf, hline, hrule⟩
    obtain ⟨m, raw, hm, hq, hx, hrep⟩ := mem_checkFile.mp hf
    obtain rfl : m = n := by
      have := lineNo_report hrep
      omega
    exact ⟨raw, hm, hq, hx, (exists_report hr).mp ⟨f, hrep, hrule⟩⟩
  · rintro ⟨raw, hn, hq, hx, hmatch⟩
    obtain ⟨f, hrep, hrule⟩ := (exists_report hr).mpr hmatch
    exact ⟨f, mem_checkFile.mpr ⟨n, raw, hn, hq, hx, hrep⟩, lineNo_report hrep, hrule⟩

end IspPlatform.Guards
