import IspPlatform.Guards.ConventionGuards
import IspPlatform.Py.Lists
import IspPlatform.Py.Numerals

/-!
# The guard as a command

`main` over the files it is given: what it exits with, and what it writes. The file system is a
parameter. `Verdict` says when each exit code is returned; the report of the findings can be read
back.
-/

namespace IspPlatform.Guards

open Py

/-- `EXCLUDE_PREFIXES`. -/
def excludePrefixes : List Str := [lit "examples/tests/", lit "tests/"]

/-- `path.removeprefix(p)`. -/
def removePrefix (p path : Str) : Str := if p <+: path then path.drop p.length else path

/-- `in_scope`. -/
def inScope (path : Str) : Bool :=
  excludePrefixes.all fun p => ¬ p <+: removePrefix (lit "./") path

/-- The paths that `main` looks at. -/
def isSource (path : Str) : Bool := decide (lit ".py" <:+ path) && inScope path

/-- What reading a file raises: an `OSError`, or any other exception. -/
inductive ReadError where
  | os (exc : Str)
  | other (exc : Str)
  deriving DecidableEq, Repr

/-- `fh.readlines()` of each path. -/
abbrev Files := Str → Except ReadError (List Str)

/-- The loop of `main`, with the findings so far. -/
def scan (U : Unicode) (files : Files) : List Str → List Finding →
    Except (Str × ReadError) (List Finding)
  | [], findings => .ok findings
  | path :: paths, findings =>
    match files path with
    | .error e => .error (path, e)
    | .ok lines => scan U files paths (findings ++ checkFile U path lines)

/-- A line that is printed. -/
def printed (line : Str) : Str := line ++ ['\n']

/-- What follows the findings, after an empty line. -/
def advice : Str :=
  lit "\nIf a hit is a genuine false positive, append a '# " ++ allow ++ lit "' comment " ++
    lit "to that line -- deliberately visible in review."

/-- What `main` prints of its findings. -/
def reportText (findings : List Finding) : Str :=
  printed (natStr findings.length ++ lit " convention violation(s):") ++
  findings.flatMap (fun f => printed (lit "  " ++ f.render)) ++
  printed advice

/-- An exit code, and what was written to `stderr`. -/
structure Ended where
  code : Nat
  stderr : Str
  deriving DecidableEq, Repr

/-- `main`; an exception that is no `OSError` is not caught. -/
def main (U : Unicode) (files : Files) (argv : List Str) : Except ReadError Ended :=
  let paths := argv.filter isSource
  if paths = [] then .ok ⟨0, []⟩
  else match scan U files paths [] with
    | .error (path, .os exc) => .ok ⟨2, printed (path ++ lit ": cannot read (" ++ exc ++ lit ")")⟩
    | .error (_, .other exc) => .error (.other exc)
    | .ok findings => if findings = [] then .ok ⟨0, []⟩ else .ok ⟨1, reportText findings⟩

/-- What the guard finds in the files, where they can be read. -/
def findingsOf (U : Unicode) (files : Files) (paths : List Str) : List Finding :=
  paths.flatMap fun path =>
    match files path with
    | .error _ => []
    | .ok lines => checkFile U path lines

example : inScope (lit "./examples/ai/eval_harness.py") = true ∧
    inScope (lit "./examples/tests/test_money.py") = false := by decide

variable {U : Unicode} {files : Files} {argv : List Str}

/-- The file was read. -/
def Readable (files : Files) (path : Str) : Prop := ∃ lines, files path = .ok lines

theorem scan_eq (paths : List Str) (findings : List Finding) :
    ((∀ path ∈ paths, Readable files path) ∧
      scan U files paths findings = .ok (findings ++ findingsOf U files paths)) ∨
    ∃ pre path post e, paths = pre ++ path :: post ∧ (∀ p ∈ pre, Readable files p) ∧
      files path = .error e ∧ scan U files paths findings = .error (path, e) := by
  induction paths generalizing findings with
  | nil => exact .inl ⟨by simp, by simp [scan, findingsOf]⟩
  | cons path paths ih =>
    cases h : files path with
    | error e =>
      refine .inr ⟨[], path, paths, e, rfl, by simp, h, ?_⟩
      rw [scan, h]
    | ok lines =>
      have hstep : scan U files (path :: paths) findings =
          scan U files paths (findings ++ checkFile U path lines) := by
        rw [scan, h]
      rw [hstep]
      rcases ih (findings ++ checkFile U path lines) with ⟨hall, hok⟩ |
        ⟨pre, p, post, e, rfl, hpre, hp, herr⟩
      · refine .inl ⟨List.forall_mem_cons.mpr ⟨⟨lines, h⟩, hall⟩, ?_⟩
        rw [hok, findingsOf, findingsOf, List.flatMap_cons, h, List.append_assoc]
      · exact .inr ⟨path :: pre, p, post, e, rfl, List.forall_mem_cons.mpr ⟨⟨lines, h⟩, hpre⟩,
          hp, herr⟩

/-- The first of the sources that cannot be read. -/
def FirstUnreadable (files : Files) (argv : List Str) (path : Str) (e : ReadError) : Prop :=
  ∃ pre post, argv.filter isSource = pre ++ path :: post ∧ (∀ p ∈ pre, Readable files p) ∧
    files path = .error e

theorem FirstUnreadable.not_readable {path : Str} {e : ReadError}
    (h : FirstUnreadable files argv path e) :
    ¬ ∀ path ∈ argv.filter isSource, Readable files path := by
  obtain ⟨pre, post, heq, -, herr⟩ := h
  intro hall
  obtain ⟨lines, hok⟩ := hall path (heq ▸ List.mem_append_right _ List.mem_cons_self)
  cases herr.symm.trans hok

theorem FirstUnreadable.unique {path path' : Str} {e e' : ReadError}
    (h : FirstUnreadable files argv path e) (h' : FirstUnreadable files argv path' e') :
    path = path' ∧ e = e' := by
  obtain ⟨pre, post, heq, hpre, herr⟩ := h
  obtain ⟨pre', post', heq', hpre', herr'⟩ := h'
  have hno : ∀ {pre : List Str} {p : Str} {e : ReadError}, (∀ p ∈ pre, Readable files p) →
      files p = .error e → p ∉ pre := by
    intro pre p e hpre herr hin
    obtain ⟨lines, hok⟩ := hpre p hin
    cases herr.symm.trans hok
  obtain rfl : path = path' := by
    rcases List.append_eq_append_iff.mp (heq.symm.trans heq') with ⟨k, rfl, hk⟩ | ⟨k, rfl, hk⟩
    · cases k with
      | nil => exact (List.cons.inj hk).1
      | cons q k =>
        obtain ⟨rfl, -⟩ := List.cons.inj hk
        exact absurd (List.mem_append_right _ List.mem_cons_self) (hno hpre' herr)
    · cases k with
      | nil => exact (List.cons.inj hk).1.symm
      | cons q k =>
        obtain ⟨rfl, -⟩ := List.cons.inj hk
        exact absurd (List.mem_append_right _ List.mem_cons_self) (hno hpre herr')
  exact ⟨rfl, Except.error.inj (herr.symm.trans herr')⟩

theorem main_eq (U : Unicode) (files : Files) (argv : List Str) :
    ((∀ path ∈ argv.filter isSource, Readable files path) ∧
      main U files argv = .ok (if findingsOf U files (argv.filter isSource) = [] then ⟨0, []⟩
        else ⟨1, reportText (findingsOf U files (argv.filter isSource))⟩)) ∨
    (∃ path exc, FirstUnreadable files argv path (.os exc) ∧ main U files argv =
      .ok ⟨2, printed (path ++ lit ": cannot read (" ++ exc ++ lit ")")⟩) ∨
    ∃ path exc, FirstUnreadable files argv path (.other exc) ∧
      main U files argv = .error (.other exc) := by
  unfold main
  by_cases hnone : argv.filter isSource = []
  · rw [if_pos hnone, hnone]
    exact .inl ⟨by simp, rfl⟩
  · rw [if_neg hnone]
    obtain ⟨hall, hscan⟩ | ⟨pre, path, post, e, heq, hpre, herr, hscan⟩ :=
      @scan_eq U files (argv.filter isSource) []
    · rw [hscan, List.nil_append]
      refine .inl ⟨hall, ?_⟩
      dsimp only
      split <;> rfl
    · rw [hscan]
      cases e with
      | os exc => exact .inr (.inl ⟨path, exc, ⟨pre, post, heq, hpre, herr⟩, rfl⟩)
      | other exc => exact .inr (.inr ⟨path, exc, ⟨pre, post, heq, hpre, herr⟩, rfl⟩)

theorem findingsOf_eq_nil {paths : List Str} (h : ∀ path ∈ paths, Readable files path) :
    findingsOf U files paths = [] ↔
      ∀ path ∈ paths, ∃ lines, files path = .ok lines ∧ checkFile U path lines = [] := by
  rw [findingsOf, List.flatMap_eq_nil_iff]
  refine forall₂_congr fun path hpath => ?_
  obtain ⟨lines, hok⟩ := h path hpath
  simp [hok]

/-- When each exit code is returned. -/
structure Verdict (U : Unicode) (files : Files) (argv : List Str) : Prop where
  clean : (∃ text, main U files argv = .ok ⟨0, text⟩) ↔ ∀ path ∈ argv, isSource path = true →
    ∃ lines, files path = .ok lines ∧ checkFile U path lines = []
  found : ∀ text, main U files argv = .ok ⟨1, text⟩ ↔
    (∀ path ∈ argv, isSource path = true → Readable files path) ∧
      findingsOf U files (argv.filter isSource) ≠ [] ∧
      text = reportText (findingsOf U files (argv.filter isSource))
  /-- What was found before is not told. -/
  unread : ∀ text, main U files argv = .ok ⟨2, text⟩ ↔
    ∃ path exc, FirstUnreadable files argv path (.os exc) ∧
      text = printed (path ++ lit ": cannot read (" ++ exc ++ lit ")")
  raised : ∀ e, main U files argv = .error e ↔
    ∃ path exc, FirstUnreadable files argv path (.other exc) ∧ e = .other exc

/-- **The gate.** It passes exactly when every source it is given was read and is clean; it
reports exactly when every one was read and one is not; the first that cannot be read ends it. -/
theorem verdict (U : Unicode) (files : Files) (argv : List Str) : Verdict U files argv := by
  have hsources : ∀ {P : Str → Prop}, (∀ path ∈ argv.filter isSource, P path) ↔
      ∀ path ∈ argv, isSource path = true → P path := by
    intro P
    simp only [List.mem_filter, and_imp]
  have hfirst : ∀ {path path' : Str} {e e' : ReadError}, FirstUnreadable files argv path e →
      FirstUnreadable files argv path' e' → e = e' := fun h h' => (h.unique h').2
  rcases main_eq U files argv with ⟨hall, hmain⟩ | ⟨path, exc, hun, hmain⟩ | ⟨path, exc, hun, hmain⟩
  · have hread : ∀ {path e}, ¬ FirstUnreadable files argv path e := fun h => h.not_readable hall
    by_cases hnil : findingsOf U files (argv.filter isSource) = []
    · rw [if_pos hnil] at hmain
      have hclean := (findingsOf_eq_nil hall).mp hnil
      refine ⟨?_, ?_, ?_, ?_⟩
      · exact iff_of_true ⟨_, hmain⟩ (hsources.mp hclean)
      · simp [hmain, hnil]
      · simp [hmain, hread]
      · simp [hmain, hread]
    · rw [if_neg hnil] at hmain
      refine ⟨?_, ?_, ?_, ?_⟩
      · rw [← hsources, ← findingsOf_eq_nil hall]
        simp [hmain, hnil]
      · intro text
        rw [hmain, Except.ok.injEq, Ended.mk.injEq]
        constructor
        · rintro ⟨-, rfl⟩
          exact ⟨hsources.mp hall, hnil, rfl⟩
        · rintro ⟨-, -, rfl⟩
          exact ⟨rfl, rfl⟩
      · simp [hmain, hread]
      · simp [hmain, hread]
  · have hunread := hun.not_readable
    refine ⟨?_, ?_, ?_, ?_⟩
    · refine iff_of_false (by simp [hmain]) fun h => hunread (hsources.mpr fun p hp hs => ?_)
      exact (h p hp hs).imp fun _ hlines => hlines.1
    · intro text
      exact iff_of_false (by simp [hmain]) fun h => hunread (hsources.mpr h.1)
    · intro text
      rw [hmain, Except.ok.injEq, Ended.mk.injEq]
      constructor
      · rintro ⟨-, rfl⟩
        exact ⟨path, exc, hun, rfl⟩
      · rintro ⟨path', exc', hun', rfl⟩
        obtain ⟨rfl, heq⟩ := hun.unique hun'
        rw [ReadError.os.inj heq]
        exact ⟨rfl, rfl⟩
    · intro e
      refine iff_of_false (by simp [hmain]) ?_
      rintro ⟨path', exc', hun', -⟩
      cases hfirst hun hun'
  · have hunread := hun.not_readable
    refine ⟨?_, ?_, ?_, ?_⟩
    · refine iff_of_false (by simp [hmain]) fun h => hunread (hsources.mpr fun p hp hs => ?_)
      exact (h p hp hs).imp fun _ hlines => hlines.1
    · intro text
      exact iff_of_false (by simp [hmain]) fun h => hunread (hsources.mpr h.1)
    · intro text
      refine iff_of_false (by simp [hmain]) ?_
      rintro ⟨path', exc', hun', -⟩
      cases hfirst hun hun'
    · intro e
      rw [hmain, Except.error.injEq]
      constructor
      · rintro rfl
        exact ⟨path, exc, hun, rfl⟩
      · rintro ⟨path', exc', hun', rfl⟩
        exact hfirst hun hun'

/-! ## The report -/

/-- The text of a rule's findings. -/
def Rule.text : Rule → Str
  | naiveDatetime => lit "timezone-naive now()/today()"
  | moneyFloat => lit "float() on a money value"
  | swallowedExcept => lit "except ...: pass"

theorem text_of_mem {path : Str} {lines : List Str} {f : Finding}
    (h : f ∈ checkFile U path lines) : f.path = path ∧ f.text = f.rule.text := by
  obtain ⟨n, raw, -, -, -, hreport⟩ := mem_checkFile.mp h
  unfold report at hreport
  simp only [List.mem_append, List.mem_ite_nil_right, List.mem_singleton] at hreport
  obtain (⟨-, rfl⟩ | ⟨-, rfl⟩) | ⟨-, -, rfl⟩ := hreport <;> exact ⟨rfl, rfl⟩

/-- What a rendered finding ends with. -/
def Rule.tail (r : Rule) : Str := lit ": [" ++ r.name ++ lit "] " ++ r.text

theorem render_eq {f : Finding} (h : f.text = f.rule.text) :
    f.render = f.path ++ ':' :: natStr f.lineNo ++ f.rule.tail := by
  have hstrip : ∀ r : Rule, strip r.text = r.text := by
    intro r
    cases r <;> decide
  unfold Finding.render Rule.tail
  rw [h, hstrip]
  simp [lit]

theorem tail_injective {a b : Str} {r r' : Rule} (h : a ++ r.tail = b ++ r'.tail) :
    r = r' ∧ a = b := by
  have hlast := congrArg List.getLast? h
  have hne : ∀ r : Rule, r.tail ≠ [] := by
    intro r
    cases r <;> decide
  rw [List.getLast?_append_of_ne_nil _ (hne r), List.getLast?_append_of_ne_nil _ (hne r')] at hlast
  obtain rfl : r = r' := by
    cases r <;> cases r' <;> first | rfl | (revert hlast; decide)
  exact ⟨rfl, List.append_cancel_right h⟩

theorem render_injective {f f' : Finding} (hf : f.text = f.rule.text)
    (hf' : f'.text = f'.rule.text) (h : f.render = f'.render) : f = f' := by
  rw [render_eq hf, render_eq hf'] at h
  obtain ⟨hrule, hfront⟩ := tail_injective h
  have hdigits : ∀ n : Nat, ∀ c ∈ natStr n, ¬ c = ':' := by
    rintro n c hc rfl
    exact not_mem_natStr (by decide) hc
  obtain ⟨hpath, -, hline⟩ := last_split (P := (· = ':')) hfront rfl rfl (hdigits _) (hdigits _)
  have hno : f.lineNo = f'.lineNo := by
    exact natStr_injective hline
  have htext : f.text = f'.text := by rw [hf, hf', hrule]
  obtain ⟨path, lineNo, rule, text⟩ := f
  obtain ⟨path', lineNo', rule', text'⟩ := f'
  simp only at hpath hno hrule htext
  rw [hpath, hno, hrule, htext]

/-- As many printed lines are read back from what they begin. -/
theorem printed_injective {l l' : List Str} {rest rest' : Str} (hlen : l.length = l'.length)
    (hl : ∀ x ∈ l, '\n' ∉ x) (hl' : ∀ x ∈ l', '\n' ∉ x)
    (h : l.flatMap printed ++ rest = l'.flatMap printed ++ rest') : l = l' := by
  induction l generalizing l' with
  | nil => exact (List.length_eq_zero_iff.mp hlen.symm).symm
  | cons x l ih =>
    cases l' with
    | nil => cases hlen
    | cons x' l' =>
      obtain ⟨hx, hrest⟩ := List.forall_mem_cons.mp hl
      obtain ⟨hx', hrest'⟩ := List.forall_mem_cons.mp hl'
      have hcut : ∀ (x : Str) (l : List Str) (rest : Str), (x :: l).flatMap printed ++ rest =
          x ++ '\n' :: (l.flatMap printed ++ rest) := by
        intro x l rest
        simp [printed]
      rw [hcut, hcut] at h
      have hsplit := congrArg (partition '\n') h
      rw [partition_append _ hx, partition_append _ hx'] at hsplit
      obtain ⟨rfl, hback⟩ := Prod.mk.inj hsplit
      exact congrArg (x :: ·) (ih (by simpa using hlen) hrest hrest' hback)

theorem newline_free {f : Finding} (hf : f.text = f.rule.text) (hpath : '\n' ∉ f.path) :
    '\n' ∉ lit "  " ++ f.render := by
  have htail : '\n' ∉ f.rule.tail := by cases f.rule <;> decide
  have hdigits : '\n' ∉ natStr f.lineNo := not_mem_natStr (by decide)
  rw [render_eq hf]
  simp [lit, hpath, htail, hdigits]

theorem reportText_eq (fs : List Finding) : reportText fs =
    natStr fs.length ++ ' ' :: (printed (lit "convention violation(s):") ++
      ((fs.map fun f => lit "  " ++ f.render).flatMap printed ++ printed advice)) := by
  rw [reportText, List.flatMap_map]
  simp only [printed, lit, List.append_assoc]
  rfl

theorem reportText_injective {fs fs' : List Finding}
    (hf : ∀ f ∈ fs, f.text = f.rule.text ∧ '\n' ∉ f.path)
    (hf' : ∀ f ∈ fs', f.text = f.rule.text ∧ '\n' ∉ f.path)
    (h : reportText fs = reportText fs') : fs = fs' := by
  have hsplit := congrArg (partition ' ') h
  have hblank : ∀ n : Nat, ' ' ∉ natStr n := fun n => not_mem_natStr (by decide)
  rw [reportText_eq, reportText_eq, partition_append _ (hblank _),
    partition_append _ (hblank _)] at hsplit
  obtain ⟨hcount, hlines⟩ := Prod.mk.inj hsplit
  have hlen : fs.length = fs'.length := by
    exact natStr_injective hcount
  have hfree : ∀ {fs : List Finding}, (∀ f ∈ fs, f.text = f.rule.text ∧ '\n' ∉ f.path) →
      ∀ x ∈ fs.map fun f => lit "  " ++ f.render, '\n' ∉ x := by
    intro fs hf x hx
    obtain ⟨f, hin, rfl⟩ := List.mem_map.mp hx
    exact newline_free (hf f hin).1 (hf f hin).2
  have hrendered := printed_injective (by simpa using hlen) (hfree hf) (hfree hf')
    (List.append_cancel_left hlines)
  refine List.ext_getElem hlen fun n hn hn' => ?_
  have hline := congrArg (·[n]?) hrendered
  simp only [List.getElem?_map, List.getElem?_eq_getElem hn, List.getElem?_eq_getElem hn',
    Option.map_some] at hline
  exact render_injective (hf _ (List.getElem_mem hn)).1 (hf' _ (List.getElem_mem hn')).1
    (List.append_cancel_left (Option.some.inj hline))

theorem findingsOf_stock {paths : List Str} (hpaths : ∀ path ∈ paths, '\n' ∉ path) :
    ∀ f ∈ findingsOf U files paths, f.text = f.rule.text ∧ '\n' ∉ f.path := by
  intro f hf
  obtain ⟨path, hpath, hin⟩ := List.mem_flatMap.mp hf
  split at hin
  · cases hin
  · obtain ⟨rfl, htext⟩ := text_of_mem hin
    exact ⟨htext, hpaths _ hpath⟩

theorem reported_text {text : Str} (h : main U files argv = .ok ⟨1, text⟩) :
    text = reportText (findingsOf U files (argv.filter isSource)) := by
  rcases main_eq U files argv with ⟨-, hmain⟩ | ⟨path, exc, -, hmain⟩ | ⟨path, exc, -, hmain⟩
  · rw [h] at hmain
    split at hmain
    · cases hmain
    · cases hmain
      rfl
  · cases h.symm.trans hmain
  · cases h.symm.trans hmain

/-- **The report tells all.** Where no path has a line feed, what a run writes determines every
finding: its file, line, rule and text. -/
theorem report_determines {files' : Files} {argv' : List Str} {text : Str}
    (h : main U files argv = .ok ⟨1, text⟩) (h' : main U files' argv' = .ok ⟨1, text⟩)
    (hargv : ∀ path ∈ argv, '\n' ∉ path) (hargv' : ∀ path ∈ argv', '\n' ∉ path) :
    findingsOf U files (argv.filter isSource) = findingsOf U files' (argv'.filter isSource) :=
  reportText_injective
    (findingsOf_stock fun path hin => hargv path (List.mem_of_mem_filter hin))
    (findingsOf_stock fun path hin => hargv' path (List.mem_of_mem_filter hin))
    ((reported_text h).symm.trans (reported_text h'))

/-- Every file has one line with a violation. -/
def naive : Files := fun _ => .ok [lit "stamp = datetime.now()\n"]

def naiveReport : Str :=
  reportText [⟨lit "billing.py", 1, .naiveDatetime, lit "timezone-naive now()/today()"⟩]

theorem report_determines_naive :
    findingsOf asciiOnly naive ([lit "billing.py", lit "tests/run.py"].filter isSource) =
      findingsOf asciiOnly naive ([lit "billing.py"].filter isSource) := by
  have hboth : main asciiOnly naive [lit "billing.py", lit "tests/run.py"] =
      .ok ⟨1, naiveReport⟩ := by rfl
  have hone : main asciiOnly naive [lit "billing.py"] = .ok ⟨1, naiveReport⟩ := by rfl
  exact report_determines hboth hone (by decide) (by decide)

end IspPlatform.Guards
