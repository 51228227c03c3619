import Mathlib.Algebra.Order.Ring.Rat
import Mathlib.Data.Char
import Mathlib.Data.List.Lex
import Mathlib.Data.List.Sort
import IspPlatform.Py.Numerals

/-!
# The text exposition format

`readText` reads a text of metric samples: lines, each ended by a line feed, of comments,
`HELP` and `TYPE` lines and samples. In a label value the backslash, the double quote and the
line feed are escaped. Numbers are read exactly, whatever their size.
-/

namespace IspPlatform.Prometheus

open Py

/-- What a number's text denotes. -/
inductive Number where
  | exact (q : ℚ)
  | infinity (neg : Bool)
  | nan
  deriving DecidableEq

/-- The labels of a series. A label without a value is the same as no label, so a set is kept
without empty values, and ordered by name. -/
structure LabelSet where
  pairs : List (Str × Str)
  sorted : pairs.Pairwise fun p q => p.1 < q.1
  present : ∀ p ∈ pairs, p.2 ≠ []
  deriving DecidableEq

structure Sample where
  name : Str
  labels : LabelSet
  value : Number
  timestamp : Option Int
  deriving DecidableEq

def LabelSet.empty : LabelSet := ⟨[], .nil, by simp⟩

/-- The value of a label, empty if there is none. -/
def LabelSet.get (s : LabelSet) (name : Str) : Str := (s.pairs.lookup name).getD []

def isBlank (c : Char) : Bool := c == ' ' || c == '\t'

def labelStart (c : Char) : Bool := c.isAlpha || c == '_'

def labelChar (c : Char) : Bool := labelStart c || c.isDigit

def metricStart (c : Char) : Bool := labelStart c || c == ':'

def metricChar (c : Char) : Bool := metricStart c || c.isDigit

def skipBlanks (s : Str) : Str := s.dropWhile isBlank

/-- A name at the front of a text, and what is behind it. -/
def readName (start char : Char → Bool) : Str → Option (Str × Str)
  | [] => none
  | c :: cs => if start c then some (c :: cs.takeWhile char, cs.dropWhile char) else none

/-- The word at the front of a text, and what is behind it and the blanks after it. -/
def word (s : Str) : Str × Str :=
  (s.takeWhile (!isBlank ·), skipBlanks (s.dropWhile (!isBlank ·)))

/-- What stands behind a character at the front. -/
def expect (c : Char) : Str → Option Str
  | [] => none
  | x :: xs => if x = c then some xs else none

/-! ## Numbers -/

def takeSign : Str → Bool × Str
  | '-' :: s => (true, s)
  | '+' :: s => (false, s)
  | s => (false, s)

/-- An optional sign and digits. -/
def readInteger (s : Str) : Option Int :=
  let t := takeSign s
  if t.2 ≠ [] ∧ t.2.all Char.isDigit then
    let n : Int := Nat.ofDigitChars 10 t.2 0
    some (if t.1 then -n else n)
  else none

/-- Digits with an optional fraction and exponent. -/
def readDecimal (s : Str) : Option ℚ :=
  let whole := s.takeWhile Char.isDigit
  let s := s.dropWhile Char.isDigit
  let fraction := match s with
    | '.' :: t => t.takeWhile Char.isDigit
    | _ => []
  let s := match s with
    | '.' :: t => t.dropWhile Char.isDigit
    | s => s
  if whole ++ fraction = [] then none
  else
    let mantissa : ℚ := Nat.ofDigitChars 10 (whole ++ fraction) 0
    match s with
    | [] => some (mantissa * 10 ^ (-(fraction.length : Int)))
    | c :: t =>
      if c = 'e' ∨ c = 'E' then
        (readInteger t).map fun e : Int => mantissa * 10 ^ (e - (fraction.length : Int))
      else none

def readNumber (s : Str) : Option Number :=
  let t := takeSign s
  match readDecimal t.2 with
  | some q => some (.exact (if t.1 then -q else q))
  | none =>
    let name := t.2.map Char.toLower
    if name = lit "inf" ∨ name = lit "infinity" then some (.infinity t.1)
    else if s.map Char.toLower = lit "nan" then some .nan
    else none

/-! ## Labels -/

/-- The character that an escape stands for. -/
def unescape : Char → Option Char
  | '\\' => some '\\'
  | '"' => some '"'
  | 'n' => some '\n'
  | _ => none

/-- A label value behind its opening quote, and what is behind its closing quote. -/
def readLabelValue : Str → Option (Str × Str)
  | [] => none
  | '"' :: s => some ([], s)
  | ['\\'] => none
  | '\\' :: c :: s =>
    match unescape c, readLabelValue s with
    | some x, some (v, s) => some (x :: v, s)
    | _, _ => none
  | c :: s =>
    match readLabelValue s with
    | some (v, s) => some (c :: v, s)
    | none => none

/-- The labels behind the opening brace, at most `fuel - 1` of them, and what is behind the
closing brace. -/
def readLabels : Nat → Str → Option (List (Str × Str) × Str)
  | 0, _ => none
  | fuel + 1, s =>
    match skipBlanks s with
    | '}' :: s => some ([], s)
    | s => do
      let (name, s) ← readName labelStart labelChar s
      let s ← expect '=' (skipBlanks s)
      let s ← expect '"' (skipBlanks s)
      let (value, s) ← readLabelValue s
      match skipBlanks s with
      | ',' :: s =>
        let (labels, s) ← readLabels fuel s
        some ((name, value) :: labels, s)
      | '}' :: s => some ([(name, value)], s)
      | _ => none

/-- The set of some labels, if their names differ. -/
def labelSet (labels : List (Str × Str)) : Option LabelSet :=
  let pairs := (labels.filter (·.2 ≠ [])).insertionSort fun p q => p.1 ≤ q.1
  if h : (labels.map (·.1)).Nodup ∧ pairs.Pairwise (fun p q => p.1 < q.1) ∧ ∀ p ∈ pairs, p.2 ≠ []
  then some ⟨pairs, h.2.1, h.2.2⟩
  else none

/-! ## Lines -/

inductive Line where
  | blank
  | comment
  | help (name doc : Str)
  | type (name kind : Str)
  | sample (s : Sample)
  deriving DecidableEq

def Line.sample? : Line → Option Sample
  | sample s => some s
  | blank | comment | help .. | type .. => none

def kinds : List Str :=
  [lit "counter", lit "gauge", lit "histogram", lit "summary", lit "untyped"]

def readSample (s : Str) : Option Sample := do
  let (name, s) ← readName metricStart metricChar s
  let (labels, s) ← match skipBlanks s with
    | '{' :: s => readLabels (s.length + 1) s
    | s => some ([], s)
  let labels ← labelSet labels
  let (number, s) := word (skipBlanks s)
  let value ← readNumber number
  if s = [] then some ⟨name, labels, value, none⟩
  else
    let timestamp ← readInteger s
    some ⟨name, labels, value, some timestamp⟩

def isMetricName (s : Str) : Bool := readName metricStart metricChar s = some (s, [])

/-- What stands behind the `#` of a comment line. -/
def readComment (s : Str) : Option Line :=
  let (first, s) := word s
  if first = lit "HELP" then
    let (name, doc) := word s
    if isMetricName name then some (.help name doc) else none
  else if first = lit "TYPE" then
    let (name, s) := word s
    let (kind, s) := word s
    if isMetricName name ∧ kind ∈ kinds ∧ s = [] then some (.type name kind) else none
  else some .comment

def readLine (line : Str) : Option Line :=
  match skipBlanks (line.rdropWhile isBlank) with
  | [] => some .blank
  | '#' :: s => readComment (skipBlanks s)
  | s => (readSample s).map .sample

/-! ## Texts -/

/-- A later line may follow an earlier one: a metric has one `HELP` and one `TYPE`, which
stands before its samples, and a series has one sample. -/
def Line.before : Line → Line → Bool
  | help m _, help n _ => m ≠ n
  | type m _, type n _ => m ≠ n
  | sample s, type n _ => s.name ≠ n
  | sample s, sample t => ¬ (s.name = t.name ∧ s.labels = t.labels)
  | _, _ => true

/-- The lines of a text, each ended by a line feed. -/
def linesOf (text : Str) : Option (List Str) :=
  let lines := text.splitOn '\n'
  if lines.getLast? = some [] then some lines.dropLast else none

def readText (text : Str) : Option (List Sample) := do
  let lines ← linesOf text
  let items ← lines.mapM readLine
  if items.Pairwise (fun a b => a.before b) then some (items.filterMap Line.sample?) else none

/-- A text that a label value may have as it is. -/
def Unreserved (v : Str) : Prop := '"' ∉ v ∧ '\\' ∉ v ∧ '\n' ∉ v

instance (v : Str) : Decidable (Unreserved v) := by
  unfold Unreserved
  infer_instance

/-- A label with its value. -/
def LabelSet.single (name value : Str) : LabelSet where
  pairs := if value = [] then [] else [(name, value)]
  sorted := by split <;> simp
  present := by
    split
    · simp
    · simpa

/-- A sample line with one label, its value not escaped. -/
def sampleLine (metric label value number : Str) : Str :=
  metric ++ '{' :: (label ++ '=' :: '"' :: (value ++ '"' :: '}' :: ' ' :: number))

theorem LabelSet.get_single (name value : Str) : (LabelSet.single name value).get name = value := by
  unfold LabelSet.single LabelSet.get
  by_cases h : value = [] <;> simp [h]

theorem LabelSet.single_injective (name : Str) : Function.Injective (LabelSet.single name) := by
  intro v w h
  rw [← LabelSet.get_single name v, h, LabelSet.get_single]

theorem labelSet_single (name value : Str) :
    labelSet [(name, value)] = some (LabelSet.single name value) := by
  unfold labelSet LabelSet.single
  by_cases h : value = []
  · simp [h]
  · simp [h]

theorem readName_start {start char : Char → Bool} {name : Str}
    (h : readName start char name = some (name, [])) :
    ∃ c cs, name = c :: cs ∧ start c = true := by
  cases name with
  | nil => cases h
  | cons c cs =>
    by_cases hc : start c = true
    · exact ⟨c, cs, rfl, hc⟩
    · rw [readName, if_neg hc] at h
      cases h

theorem readName_chars {start char : Char → Bool} {name : Str}
    (h : readName start char name = some (name, [])) :
    ∀ c ∈ name, start c = true ∨ char c = true := by
  cases name with
  | nil => cases h
  | cons c cs =>
    simp only [readName, Option.ite_none_right_eq_some, Option.some.injEq, Prod.mk.injEq,
      List.cons.injEq, true_and] at h
    obtain ⟨hc, htake, -⟩ := h
    intro x hx
    rcases List.mem_cons.mp hx with rfl | hx
    · exact .inl hc
    · exact .inr (List.takeWhile_eq_self_iff.mp htake x hx)

theorem readName_append {start char : Char → Bool} {name rest : Str}
    (h : readName start char name = some (name, [])) (hrest : rest.head?.any char = false) :
    readName start char (name ++ rest) = some (name, rest) := by
  cases name with
  | nil => cases h
  | cons c cs =>
    simp only [readName, Option.ite_none_right_eq_some, Option.some.injEq, Prod.mk.injEq,
      List.cons.injEq, true_and] at h
    obtain ⟨hc, htake, -⟩ := h
    have hall := List.takeWhile_eq_self_iff.mp htake
    have hdrop : rest.takeWhile char = [] ∧ rest.dropWhile char = rest := by
      cases rest with
      | nil => exact ⟨rfl, rfl⟩
      | cons x xs =>
        have hx : char x = false := hrest
        simp [hx]
    rw [List.cons_append, readName, if_pos hc, List.takeWhile_append_of_pos hall,
      List.dropWhile_append_of_pos hall, hdrop.1, hdrop.2, List.append_nil]

theorem readLabelValue_unreserved {v : Str} (rest : Str) (h : Unreserved v) :
    readLabelValue (v ++ '"' :: rest) = some (v, rest) := by
  induction v with
  | nil => rfl
  | cons c v ih =>
    obtain ⟨hq, hb, hn⟩ := h
    have hqc := List.ne_of_not_mem_cons hq
    have hbc := List.ne_of_not_mem_cons hb
    have hv := ih ⟨List.not_mem_of_not_mem_cons hq, List.not_mem_of_not_mem_cons hb,
      List.not_mem_of_not_mem_cons hn⟩
    rw [List.cons_append, readLabelValue, hv]
    · exact fun hc => hqc hc.symm
    · exact fun hc _ => hbc hc.symm
    · exact fun _ _ hc _ => hbc hc.symm

theorem metricChar_not_blank {c : Char} (h : metricChar c = true) : isBlank c = false := by
  by_contra hb
  simp only [isBlank, Bool.not_eq_false, Bool.or_eq_true, beq_iff_eq] at hb
  obtain rfl | rfl := hb <;> cases h

theorem metricStart_not_blank {c : Char} (h : metricStart c = true) : isBlank c = false := by
  apply metricChar_not_blank
  rw [metricChar, h, Bool.true_or]

theorem metricName_chars {metric : Str} (h : isMetricName metric = true) :
    ∀ c ∈ metric, metricChar c = true := by
  intro c hc
  rcases readName_chars (of_decide_eq_true h) c hc with hstart | hchar
  · rw [metricChar, hstart, Bool.true_or]
  · exact hchar

theorem metricName_feed {metric : Str} (h : isMetricName metric = true) : '\n' ∉ metric := by
  intro hin
  have hchar := metricName_chars h _ hin
  cases hchar

theorem skipBlanks_cons {c : Char} {s : Str} (h : isBlank c = false) :
    skipBlanks (c :: s) = c :: s := by
  rw [skipBlanks, List.dropWhile_cons_of_neg]
  rw [h]
  decide

def isLabelName (s : Str) : Bool := readName labelStart labelChar s = some (s, [])

theorem readLabels_label {label : Str} (fuel : Nat) (u : Str) (hl : isLabelName label = true) :
    readLabels (fuel + 1) (label ++ '=' :: '"' :: u) =
      (readLabelValue u).bind fun r => match skipBlanks r.2 with
        | ',' :: s => (readLabels fuel s).bind fun t => some ((label, r.1) :: t.1, t.2)
        | '}' :: s => some ([(label, r.1)], s)
        | _ => none := by
  have hname := of_decide_eq_true hl
  have htail : ('=' :: '"' :: u).head?.any labelChar = false := rfl
  have hread := readName_append hname htail
  obtain ⟨c, cs, rfl, hc⟩ := readName_start hname
  have hblank : isBlank c = false := by
    apply metricStart_not_blank
    rw [metricStart, hc, Bool.true_or]
  have hequals : expect '=' (skipBlanks ('=' :: '"' :: u)) = some ('"' :: u) := rfl
  have hopening : expect '"' (skipBlanks ('"' :: u)) = some u := rfl
  rw [readLabels, List.cons_append, skipBlanks_cons hblank]
  split
  · next s hs =>
    obtain ⟨rfl, -⟩ := List.cons.inj hs
    cases hc
  · rw [List.cons_append] at hread
    simp only [hread, Option.bind_eq_bind, Option.bind_some]
    rw [hequals, Option.bind_some, hopening, Option.bind_some]

theorem readLabels_single {label value : Str} (fuel : Nat) (rest : Str)
    (hl : isLabelName label = true) (hv : Unreserved value) :
    readLabels (fuel + 1) (label ++ '=' :: '"' :: (value ++ '"' :: '}' :: rest)) =
      some ([(label, value)], rest) := by
  rw [readLabels_label fuel _ hl, readLabelValue_unreserved _ hv]
  rfl

/-! ## Numbers -/

theorem readDecimal_natStr (n : Nat) : readDecimal (natStr n) = some (n : ℚ) := by
  have htake : (natStr n).takeWhile Char.isDigit = natStr n :=
    List.takeWhile_eq_self_iff.mpr fun _ => isDigit_natStr
  have hdrop : (natStr n).dropWhile Char.isDigit = [] :=
    List.dropWhile_eq_nil_iff.mpr fun _ => isDigit_natStr
  unfold readDecimal
  rw [htake, hdrop]
  simp [natStr_ne_nil, ofDigitChars_natStr]

theorem readNumber_signed (neg : Bool) (n : Nat) :
    readNumber ((if neg then ['-'] else []) ++ natStr n) =
      some (.exact (if neg then -(n : ℚ) else n)) := by
  have hsign : takeSign ((if neg then ['-'] else []) ++ natStr n) = (neg, natStr n) := by
    cases neg with
    | true => rfl
    | false =>
      show takeSign (natStr n) = (false, natStr n)
      unfold takeSign
      split
      · next s hs => exact absurd (hs ▸ List.mem_cons_self) (not_mem_natStr (by decide))
      · next s hs => exact absurd (hs ▸ List.mem_cons_self) (not_mem_natStr (by decide))
      · rfl
  unfold readNumber
  rw [hsign]
  simp only [readDecimal_natStr]

theorem readNumber_intStr (n : Int) : readNumber (intStr n) = some (.exact n) := by
  cases n with
  | ofNat n => exact readNumber_signed false n
  | negSucc n =>
    rw [Int.cast_negSucc]
    exact readNumber_signed true (n + 1)

theorem readNumber_ne_nil {s : Str} {x : Number} (h : readNumber s = some x) : s ≠ [] := by
  rintro rfl
  cases h

/-! ## Lines -/

/-- No blank stands in the text. -/
def isWord (s : Str) : Bool := s.all (!isBlank ·)

theorem not_blank_of_mem {s : Str} {c : Char} (h : isWord s = true) (hc : c ∈ s) :
    isBlank c = false := by
  simpa using List.all_eq_true.mp h c hc

theorem isWord_metric {metric : Str} (h : isMetricName metric = true) : isWord metric = true := by
  apply List.all_eq_true.mpr
  intro c hc
  rw [metricChar_not_blank (metricName_chars h c hc)]
  rfl

theorem word_blank {w : Str} (s : Str) (h : isWord w = true) :
    word (w ++ ' ' :: s) = (w, skipBlanks s) := by
  have hall : ∀ c ∈ w, (!isBlank c) = true := List.all_eq_true.mp h
  rw [word, List.takeWhile_append_of_pos hall, List.dropWhile_append_of_pos hall]
  simp [isBlank, skipBlanks]

theorem word_end {w : Str} (h : isWord w = true) : word w = (w, []) := by
  have hall : ∀ c ∈ w, (!isBlank c) = true := List.all_eq_true.mp h
  rw [word, List.takeWhile_eq_self_iff.mpr hall, List.dropWhile_eq_nil_iff.mpr hall]
  rfl

/-- A comment line that does not end in a blank is read from its first word on. -/
theorem readLine_comment {s : Str} {z : Char} (hz : isBlank z = false) :
    readLine ('#' :: ' ' :: (s ++ [z])) = readComment (skipBlanks (s ++ [z])) := by
  have hend : ('#' :: ' ' :: (s ++ [z])).rdropWhile isBlank = '#' :: ' ' :: (s ++ [z]) := by
    rw [← List.cons_append, ← List.cons_append, List.rdropWhile_concat_neg]
    rw [hz]
    decide
  unfold readLine
  rw [hend, skipBlanks_cons (show isBlank '#' = false from rfl)]
  rfl

/-- The first word of a comment about a metric, and the text behind it. -/
theorem word_metric {metric : Str} (first s : Str) (hfirst : isWord first = true)
    (hm : isMetricName metric = true) :
    word (first ++ ' ' :: (metric ++ ' ' :: s)) = (first, metric ++ ' ' :: s) ∧
      word (metric ++ ' ' :: s) = (metric, skipBlanks s) := by
  obtain ⟨c, cs, hcs, hc⟩ := readName_start (of_decide_eq_true hm)
  have hskip : skipBlanks (metric ++ ' ' :: s) = metric ++ ' ' :: s := by
    rw [hcs]
    exact skipBlanks_cons (metricStart_not_blank hc)
  constructor
  · rw [word_blank _ hfirst, hskip]
  · exact word_blank s (isWord_metric hm)

/-- The text has no blank at either end. -/
def Trimmed (s : Str) : Prop := s.head?.all (!isBlank ·) = true ∧ s.getLast?.any (!isBlank ·) = true

instance (s : Str) : Decidable (Trimmed s) := by
  unfold Trimmed
  infer_instance

theorem readLine_help {metric doc : Str} (hm : isMetricName metric = true) (hdoc : Trimmed doc) :
    readLine (lit "# HELP " ++ metric ++ lit " " ++ doc) = some (.help metric doc) := by
  obtain ⟨hhead, hlast⟩ := hdoc
  obtain rfl | ⟨doc, z, rfl⟩ := List.eq_nil_or_concat doc
  · cases hlast
  rw [List.concat_eq_append] at hhead hlast ⊢
  have hz : isBlank z = false := by simpa using hlast
  have hdoc : skipBlanks (doc ++ [z]) = doc ++ [z] := by
    cases doc with
    | nil => exact skipBlanks_cons hz
    | cons c cs => exact skipBlanks_cons (by simpa using hhead)
  have hline : lit "# HELP " ++ metric ++ lit " " ++ (doc ++ [z]) =
      '#' :: ' ' :: ((lit "HELP" ++ ' ' :: (metric ++ ' ' :: doc)) ++ [z]) := by
    simp [lit]
  have hskip : skipBlanks ((lit "HELP" ++ ' ' :: (metric ++ ' ' :: doc)) ++ [z]) =
      lit "HELP" ++ ' ' :: (metric ++ ' ' :: (doc ++ [z])) := by
    rw [List.append_assoc, List.cons_append, List.append_assoc, List.cons_append]
    rfl
  obtain ⟨hfirst, hsecond⟩ := word_metric (lit "HELP") (doc ++ [z]) (by decide) hm
  rw [hline, readLine_comment hz, hskip]
  unfold readComment
  rw [hfirst]
  simp only [if_true]
  rw [hsecond, hdoc]
  simp [hm]

theorem readLine_type {metric kind : Str} (hm : isMetricName metric = true)
    (hk : kind ∈ kinds) :
    readLine (lit "# TYPE " ++ metric ++ lit " " ++ kind) = some (.type metric kind) := by
  have hkinds : kinds.all (fun k => !k.isEmpty && isWord k) = true := by decide
  obtain ⟨hne, hword⟩ := Bool.and_eq_true_iff.mp (List.all_eq_true.mp hkinds kind hk)
  obtain ⟨init, z, rfl⟩ := (List.eq_nil_or_concat kind).resolve_left (by simpa using hne)
  rw [List.concat_eq_append] at hk hword ⊢
  have hline : lit "# TYPE " ++ metric ++ lit " " ++ (init ++ [z]) =
      '#' :: ' ' :: ((lit "TYPE" ++ ' ' :: (metric ++ ' ' :: init)) ++ [z]) := by
    simp [lit]
  have hskip : skipBlanks ((lit "TYPE" ++ ' ' :: (metric ++ ' ' :: init)) ++ [z]) =
      lit "TYPE" ++ ' ' :: (metric ++ ' ' :: (init ++ [z])) := by
    rw [List.append_assoc, List.cons_append, List.append_assoc, List.cons_append]
    rfl
  have hkind : skipBlanks (init ++ [z]) = init ++ [z] := by
    rw [skipBlanks, List.dropWhile_eq_self_iff]
    intro hlen
    rw [not_blank_of_mem hword (List.getElem_mem hlen)]
    decide
  obtain ⟨hfirst, hsecond⟩ := word_metric (lit "TYPE") (init ++ [z]) (by decide) hm
  rw [hline, readLine_comment (not_blank_of_mem hword (by simp)), hskip]
  unfold readComment
  rw [hfirst]
  dsimp only
  rw [if_neg (show lit "TYPE" ≠ lit "HELP" by decide), if_pos rfl]
  rw [hsecond, hkind]
  simp only
  rw [word_end hword]
  simp [hm, hk]

/-- A line that starts with a metric and a brace is a sample, without the blanks at its end. -/
theorem readLine_brace {metric : Str} (s : Str) (hm : isMetricName metric = true) :
    readLine (metric ++ '{' :: s) =
      (readSample (metric ++ '{' :: s.rdropWhile isBlank)).map .sample := by
  have hbrace : ¬ isBlank '{' = true := by decide
  unfold readLine
  rw [rdropWhile_behind hbrace]
  obtain ⟨c, cs, rfl, hc⟩ := readName_start (of_decide_eq_true hm)
  rw [List.cons_append, skipBlanks_cons (metricStart_not_blank hc)]
  split
  · next hs => cases hs
  · next t hs =>
    obtain ⟨rfl, -⟩ := List.cons.inj hs
    cases hc
  · rfl

theorem readSample_brace {metric : Str} (s : Str) (hm : isMetricName metric = true) :
    readSample (metric ++ '{' :: s) = (readLabels (s.length + 1) s).bind fun r =>
      (labelSet r.1).bind fun labels =>
        (readNumber (word (skipBlanks r.2)).1).bind fun value =>
          if (word (skipBlanks r.2)).2 = [] then some ⟨metric, labels, value, none⟩
          else (readInteger (word (skipBlanks r.2)).2).bind fun timestamp =>
            some ⟨metric, labels, value, some timestamp⟩ := by
  have htail : ('{' :: s).head?.any metricChar = false := rfl
  unfold readSample
  rw [readName_append (of_decide_eq_true hm) htail]
  simp only [Option.bind_eq_bind, Option.bind_some,
    skipBlanks_cons (show isBlank '{' = false from rfl)]

theorem readLine_sample {metric label value number : Str} {x : Number}
    (hm : isMetricName metric = true) (hl : isLabelName label = true) (hv : Unreserved value)
    (hword : isWord number = true) (hx : readNumber number = some x) :
    readLine (sampleLine metric label value number) =
      some (.sample ⟨metric, LabelSet.single label value, x, none⟩) := by
  have hend : (label ++ '=' :: '"' :: (value ++ '"' :: '}' :: ' ' :: number)).rdropWhile isBlank =
      label ++ '=' :: '"' :: (value ++ '"' :: '}' :: ' ' :: number) := by
    obtain ⟨init, z, rfl⟩ := (List.eq_nil_or_concat number).resolve_left (readNumber_ne_nil hx)
    have hz : ¬ isBlank z = true := by
      rw [not_blank_of_mem hword (by simp)]
      decide
    have hsnoc : label ++ '=' :: '"' :: (value ++ '"' :: '}' :: ' ' :: init.concat z) =
        (label ++ '=' :: '"' :: (value ++ '"' :: '}' :: ' ' :: init)) ++ [z] := by
      simp
    rw [hsnoc, List.rdropWhile_concat_neg _ _ _ hz]
  have hnumber : word (skipBlanks (' ' :: number)) = (number, []) := by
    have hskip : skipBlanks (' ' :: number) = number := by
      show skipBlanks number = number
      cases number with
      | nil => rfl
      | cons c cs => exact skipBlanks_cons (not_blank_of_mem hword List.mem_cons_self)
    rw [hskip, word_end hword]
  unfold sampleLine
  rw [readLine_brace _ hm, hend, readSample_brace _ hm, readLabels_single _ _ hl hv,
    Option.bind_some, labelSet_single, Option.bind_some, hnumber, hx]
  rfl

/-! ## Texts -/

theorem linesOf_intercalate {lines : List Str} (hne : lines ≠ []) :
    linesOf ((lit "\n").intercalate lines ++ lit "\n") =
      some (lines.flatMap (·.splitOn '\n')) := by
  have hsplit : ((lit "\n").intercalate lines ++ lit "\n").splitOn '\n' =
      lines.flatMap (·.splitOn '\n') ++ [[]] := by
    induction lines with
    | nil => exact absurd rfl hne
    | cons l lines ih =>
      cases lines with
      | nil =>
        rw [List.intercalate_singleton, List.flatMap_singleton]
        exact List.splitOn_append_cons_self l []
      | cons l' lines =>
        rw [List.intercalate_cons_cons, List.append_assoc, List.append_assoc, List.flatMap_cons,
          List.append_assoc, ← ih (List.cons_ne_nil _ _)]
        exact List.splitOn_append_cons_self l _
  unfold linesOf
  rw [hsplit]
  simp

theorem linesOf_join {lines : List Str} (hne : lines ≠ []) (h : ∀ l ∈ lines, '\n' ∉ l) :
    linesOf ((lit "\n").intercalate lines ++ lit "\n") = some lines := by
  have hsingle : lines.flatMap (·.splitOn '\n') = lines.flatMap ([·]) :=
    List.flatMap_congr fun l hl => List.splitOn_eq_singleton (h l hl)
  rw [linesOf_intercalate hne, hsingle, List.flatMap_singleton']

/-- A line, without a line feed in it, is read as an item. -/
def Reads (line : Str) (item : Line) : Prop := readLine line = some item ∧ '\n' ∉ line

/-- A text whose lines can be read one by one, and may follow each other, can be read. -/
theorem readText_join {lines : List Str} {items : List Line} (hne : lines ≠ [])
    (hread : List.Forall₂ Reads lines items)
    (horder : items.Pairwise fun a b => a.before b = true) :
    readText ((lit "\n").intercalate lines ++ lit "\n") = some (items.filterMap Line.sample?) := by
  have hitems : lines.mapM readLine = some items ∧ ∀ l ∈ lines, '\n' ∉ l := by
    clear hne horder
    induction hread with
    | nil => exact ⟨rfl, fun _ hl => absurd hl List.not_mem_nil⟩
    | cons hline _ ih =>
      rw [List.mapM_cons, hline.1, ih.1]
      exact ⟨rfl, List.forall_mem_cons.mpr ⟨hline.2, ih.2⟩⟩
  unfold readText
  rw [linesOf_join hne hitems.2]
  simp [hitems.1, horder]

end IspPlatform.Prometheus
