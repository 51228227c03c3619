import IspPlatform.Guards.ConventionGuards

/-!
# Files as code, comments and docstrings

A file as its author wrote it: a sequence of blocks, so that every line has a part to play.
The scan only counts triple quotes. Most of them delimit a docstring; the stray ones are those
on comment lines and those of the other kind on the lines of a docstring. The scan is right
about a line when an even number of stray ones is above it.
-/

namespace IspPlatform.Guards

open Py

def Quote.other : Quote → Quote
  | double => single
  | single => double

/-- What a line is there for. -/
inductive Part where
  | code
  | comment
  | opening (q : Quote)
  | body (q : Quote)
  | closing (q : Quote)
  | oneLine (q : Quote)
  deriving DecidableEq, Repr

/-- The delimiters a line of this part has. -/
def Part.delimiters : Part → Nat
  | code | comment | body _ => 0
  | opening _ | closing _ => 1
  | oneLine _ => 2

/-- The other triple quotes of a line. -/
def Part.strays (line : Str) : Part → Nat
  | code => 0
  | comment => quotes line
  | opening q | body q | closing q | oneLine q => count q.other.mark line

/-- The line starts inside a docstring. -/
def Part.inside : Part → Bool
  | body _ | closing _ => true
  | code | comment | opening _ | oneLine _ => false

inductive Block where
  | code (raw : Str) (unquoted : ∀ q : Quote, ¬ q.mark <:+: lineOf raw)
      (visible : isComment (lineOf raw) = false)
  | comment (raw : Str) (hidden : isComment (lineOf raw) = true)
  | docstring (q : Quote) (opening : Str) (body : List Str) (closing : Str)
      (opens : count q.mark (lineOf opening) = 1) (inner : ∀ raw ∈ body, ¬ q.mark <:+: lineOf raw)
      (closes : count q.mark (lineOf closing) = 1)
  | oneLine (q : Quote) (raw : Str) (delimited : count q.mark (lineOf raw) = 2)

def Block.parts : Block → List (Part × Str)
  | code raw _ _ => [(.code, raw)]
  | comment raw _ => [(.comment, raw)]
  | docstring q opening body closing _ _ _ =>
    (.opening q, opening) :: (body.map (Part.body q, ·) ++ [(.closing q, closing)])
  | oneLine q raw _ => [(.oneLine q, raw)]

/-- The lines of a file with their parts. -/
def partsOf (blocks : List Block) : List (Part × Str) := blocks.flatMap Block.parts

/-- The lines of a file. -/
def fileOf (blocks : List Block) : List Str := (partsOf blocks).map (·.2)

def delimitersIn (parts : List (Part × Str)) : Nat := (parts.map fun p => p.1.delimiters).sum

def straysIn (parts : List (Part × Str)) : Nat :=
  (parts.map fun p => p.1.strays (lineOf p.2)).sum

/-- The two rules that look at one line report exactly the code lines that match and are not
waived. -/
def Guarded (U : Unicode) (path : Str) (blocks : List Block) : Prop :=
  ∀ r : Rule, r ≠ .swallowedExcept → ∀ n,
    (∃ f ∈ checkFile U path (fileOf blocks), f.lineNo = n + 1 ∧ f.rule = r) ↔
      ∃ raw, (partsOf blocks)[n]? = some (.code, raw) ∧ ¬ allow <:+: lineOf raw ∧
        r.matches U (lineOf raw) = true

/-- Every line that one of the two rules would report, if it stood alone in a file, has an
even number of stray triple quotes above it. -/
def Unblinded (U : Unicode) (blocks : List Block) : Prop :=
  ∀ r : Rule, r ≠ .swallowedExcept → ∀ n part raw, (partsOf blocks)[n]? = some (part, raw) →
    Exposed (lineOf raw) → r.matches U (lineOf raw) = true →
      straysIn ((partsOf blocks).take n) % 2 = 0

/-! ## The parts of a line and its triple quotes -/

theorem quotes_eq (q : Quote) (line : Str) :
    quotes line = count q.mark line + count q.other.mark line := by
  unfold quotes
  cases q with
  | double => rfl
  | single => exact Nat.add_comm _ _

theorem Block.quotes_eq {b : Block} {p : Part × Str} (h : p ∈ b.parts) :
    quotes (lineOf p.2) = p.1.delimiters + p.1.strays (lineOf p.2) := by
  have hnone : ∀ {q : Quote} {line : Str}, ¬ q.mark <:+: line → count q.mark line = 0 :=
    fun {q} {_} hq => (count_eq_zero q.mark_ne_nil).mpr hq
  cases b with
  | code raw unquoted visible =>
    obtain rfl := List.mem_singleton.mp h
    have hd := hnone (unquoted .double)
    have hs := hnone (unquoted .single)
    show quotes (lineOf raw) = 0 + 0
    unfold quotes
    omega
  | comment raw hidden =>
    obtain rfl := List.mem_singleton.mp h
    exact (Nat.zero_add _).symm
  | docstring q opening body closing opens inner closes =>
    rw [Guards.quotes_eq q]
    unfold parts at h
    simp only [List.mem_cons, List.mem_append, List.mem_map, List.not_mem_nil, or_false] at h
    obtain rfl | ⟨raw, hraw, rfl⟩ | rfl := h
    · show _ = 1 + count q.other.mark (lineOf opening)
      rw [opens]
    · show _ = 0 + count q.other.mark (lineOf raw)
      rw [hnone (inner raw hraw)]
    · show _ = 1 + count q.other.mark (lineOf closing)
      rw [closes]
  | oneLine q raw delimited =>
    obtain rfl := List.mem_singleton.mp h
    rw [Guards.quotes_eq q]
    show _ = 2 + count q.other.mark (lineOf raw)
    rw [delimited]

theorem delimitersIn_append (ps ps' : List (Part × Str)) :
    delimitersIn (ps ++ ps') = delimitersIn ps + delimitersIn ps' := by
  unfold delimitersIn
  rw [List.map_append, List.sum_append]

theorem delimitersIn_body (q : Quote) (body : List Str) :
    delimitersIn (body.map (Part.body q, ·)) = 0 := by
  induction body with
  | nil => rfl
  | cons raw body ih =>
    show 0 + delimitersIn _ = 0
    rw [Nat.zero_add]
    exact ih

theorem Block.delimiters_even (b : Block) : delimitersIn b.parts % 2 = 0 := by
  cases b with
  | code raw unquoted visible => rfl
  | comment raw hidden => rfl
  | docstring q opening body closing opens inner closes =>
    show (1 + delimitersIn (body.map (Part.body q, ·) ++ [(.closing q, closing)])) % 2 = 0
    rw [delimitersIn_append, delimitersIn_body]
    simp [delimitersIn, Part.delimiters]
  | oneLine q raw delimited => simp [parts, delimitersIn, Part.delimiters]

/-- In a block, one delimiter is open above the lines inside its docstring and none above the
others. -/
theorem Block.delimiters_above {b : Block} {n : Nat} {p : Part × Str} (h : b.parts[n]? = some p) :
    delimitersIn (b.parts.take n) = p.1.inside.toNat := by
  have hsingle : ∀ {part : Part} {raw : Str}, part.inside = false → [(part, raw)][n]? = some p →
      delimitersIn ([(part, raw)].take n) = p.1.inside.toNat := by
    intro part raw hout hn
    cases n with
    | zero =>
      obtain rfl := Option.some.inj hn
      rw [hout]
      rfl
    | succ n => cases hn
  cases b with
  | code raw unquoted visible => exact hsingle rfl h
  | comment raw hidden => exact hsingle rfl h
  | docstring q opening body closing opens inner closes =>
    cases n with
    | zero =>
      obtain rfl := Option.some.inj h
      rfl
    | succ n =>
      -- the opening line is the only one above with a delimiter
      have hn : (body.map (Part.body q, ·) ++ [(.closing q, closing)])[n]? = some p := h
      have hlen : n ≤ (body.map (Part.body q, ·)).length := by
        have := (List.getElem?_eq_some_iff.mp hn).1
        rw [List.length_append, List.length_singleton] at this
        omega
      have hin : p.1.inside = true := by
        have hp := List.mem_of_getElem? hn
        simp only [List.mem_append, List.mem_map, List.mem_singleton] at hp
        obtain ⟨raw, -, rfl⟩ | rfl := hp <;> rfl
      show 1 + delimitersIn ((body.map (Part.body q, ·) ++ [(Part.closing q, closing)]).take n) = _
      rw [List.take_append_of_le_length hlen, ← List.map_take, delimitersIn_body, hin]
      rfl
  | oneLine q raw delimited => exact hsingle rfl h

/-- **The author's docstrings.** A line is inside a docstring exactly when an odd number of
delimiters is above it. -/
theorem delimiters_above (blocks : List Block) {n : Nat} {p : Part × Str}
    (h : (partsOf blocks)[n]? = some p) :
    delimitersIn ((partsOf blocks).take n) % 2 = p.1.inside.toNat := by
  induction blocks generalizing n with
  | nil => cases h
  | cons b blocks ih =>
    have hcons : partsOf (b :: blocks) = b.parts ++ partsOf blocks := rfl
    rw [hcons] at h ⊢
    by_cases hn : n < b.parts.length
    · rw [List.getElem?_append_left hn] at h
      rw [List.take_append_of_le_length (by omega), b.delimiters_above h]
      cases p.1.inside <;> rfl
    · rw [List.getElem?_append_right (by omega)] at h
      rw [List.take_append, List.take_of_length_le (by omega), delimitersIn_append]
      have heven := b.delimiters_even
      have := ih h
      omega

theorem quotes_above (blocks : List Block) (n : Nat) :
    quotesIn ((fileOf blocks).take n) =
      delimitersIn ((partsOf blocks).take n) + straysIn ((partsOf blocks).take n) := by
  have hsum : ∀ ps : List (Part × Str), (∀ p ∈ ps,
      quotes (lineOf p.2) = p.1.delimiters + p.1.strays (lineOf p.2)) →
      quotesIn (ps.map (·.2)) = delimitersIn ps + straysIn ps := by
    intro ps hps
    induction ps with
    | nil => rfl
    | cons p ps ih =>
      obtain ⟨hp, hps'⟩ := List.forall_mem_cons.mp hps
      have := ih hps'
      simp only [quotesIn, delimitersIn, straysIn, List.map_cons, List.sum_cons] at this ⊢
      omega
  unfold fileOf
  rw [← List.map_take]
  apply hsum
  intro p hp
  obtain ⟨b, -, hb⟩ := List.mem_flatMap.mp (List.mem_of_mem_take hp)
  exact b.quotes_eq hb

theorem Block.visible_code {b : Block} {raw : Str} (h : (Part.code, raw) ∈ b.parts) :
    isComment (lineOf raw) = false := by
  cases b with
  | code raw' unquoted visible =>
    obtain ⟨-, rfl⟩ := Prod.mk.inj (List.mem_singleton.mp h)
    exact visible
  | comment | docstring | oneLine => simp [parts] at h

theorem Block.hidden_comment {b : Block} {raw : Str} (h : (Part.comment, raw) ∈ b.parts) :
    isComment (lineOf raw) = true := by
  cases b with
  | comment raw' hidden =>
    obtain ⟨-, rfl⟩ := Prod.mk.inj (List.mem_singleton.mp h)
    exact hidden
  | code | docstring | oneLine => simp [parts] at h

theorem mem_block {blocks : List Block} {n : Nat} {p : Part × Str}
    (h : (partsOf blocks)[n]? = some p) : ∃ b ∈ blocks, p ∈ b.parts :=
  List.mem_flatMap.mp (List.mem_of_getElem? h)

theorem exposed_code {blocks : List Block} {n : Nat} {raw : Str}
    (h : (partsOf blocks)[n]? = some (.code, raw)) (ha : ¬ allow <:+: lineOf raw) :
    Exposed (lineOf raw) := by
  obtain ⟨b, -, hb⟩ := mem_block h
  exact ⟨b.quotes_eq hb, b.visible_code hb, ha⟩

/-- The part of an exposed line: code, or the body of a docstring. -/
theorem exposed_part {blocks : List Block} {n : Nat} {part : Part} {raw : Str}
    (h : (partsOf blocks)[n]? = some (part, raw)) (hx : Exposed (lineOf raw)) :
    part = .code ∨ ∃ q, part = .body q := by
  obtain ⟨b, -, hb⟩ := mem_block h
  obtain ⟨hzero, hvisible, -⟩ := hx
  have hq := b.quotes_eq hb
  cases part with
  | code => exact .inl rfl
  | body q => exact .inr ⟨q, rfl⟩
  | comment =>
    rw [b.hidden_comment hb] at hvisible
    cases hvisible
  | opening q | closing q | oneLine q =>
    simp only [Part.delimiters] at hq
    omega

theorem line_part {blocks : List Block} {n : Nat} {p : Part × Str}
    (h : (partsOf blocks)[n]? = some p) : (fileOf blocks)[n]? = some p.2 := by
  unfold fileOf
  rw [List.getElem?_map, h]
  rfl

/-- Below an even number of stray triple quotes, the scan is right about the line. -/
theorem even_quotes_iff {blocks : List Block} {n : Nat} {p : Part × Str}
    (h : (partsOf blocks)[n]? = some p) :
    quotesIn ((fileOf blocks).take n) % 2 = p.1.inside.toNat ↔
      straysIn ((partsOf blocks).take n) % 2 = 0 := by
  have hq := quotes_above blocks n
  have hd := delimiters_above blocks h
  omega

/-- **Blind guards.** The two rules report exactly the code lines they should when no line
that they match is below an odd number of stray triple quotes. -/
theorem guarded_iff_unblinded (U : Unicode) (path : Str) (blocks : List Block) :
    Guarded U path blocks ↔ Unblinded U blocks := by
  constructor
  · intro hg r hr n part raw hn hx hmatch
    rcases exposed_part hn hx with rfl | ⟨q, rfl⟩
    · -- a code line that is reported is below an even number of triple quotes
      obtain ⟨raw', hraw', heven, -⟩ := (reported_iff hr).mp
        ((hg r hr n).mpr ⟨raw, hn, hx.2.2, hmatch⟩)
      exact (even_quotes_iff hn).mp heven
    · -- a body line below an odd number of strays would be reported
      by_contra hodd
      have hq := mt (even_quotes_iff hn).mp hodd
      simp only [Part.inside, Bool.toNat_true] at hq
      have hrep : ∃ f ∈ checkFile U path (fileOf blocks), f.lineNo = n + 1 ∧ f.rule = r :=
        (reported_iff hr).mpr ⟨raw, line_part hn, by omega, hx, hmatch⟩
      obtain ⟨raw', hcode, -⟩ := (hg r hr n).mp hrep
      rw [hn] at hcode
      cases hcode
  · intro hu r hr n
    rw [reported_iff hr]
    constructor
    · rintro ⟨raw, hraw, heven, hx, hmatch⟩
      unfold fileOf at hraw
      rw [List.getElem?_map] at hraw
      obtain ⟨⟨part, raw'⟩, hn, rfl⟩ := Option.map_eq_some_iff.mp hraw
      rcases exposed_part hn hx with rfl | ⟨q, rfl⟩
      · exact ⟨_, hn, hx.2.2, hmatch⟩
      · have hq := (even_quotes_iff hn).mpr (hu r hr n _ _ hn hx hmatch)
        cases heven.symm.trans hq
    · rintro ⟨raw, hn, ha, hmatch⟩
      have hx := exposed_code hn ha
      have hs := hu r hr n _ _ hn hx hmatch
      exact ⟨raw, line_part hn, (even_quotes_iff hn).mpr hs, hx, hmatch⟩

/-- A comment with a triple quote above a naive date. -/
def blinding : List Block :=
  [.comment (lit "# Never write \"\"\" here.\n") rfl,
    .code (lit "today = date.today()\n") (by rintro (_ | _) <;> decide) rfl]

theorem comment_blinds : ¬ Guarded asciiOnly (lit "billing.py") blinding := by
  intro hg
  obtain ⟨f, hf, -⟩ := (hg .naiveDatetime (by decide) 1).mpr ⟨_, rfl, by decide, by decide⟩
  have hnone : checkFile asciiOnly (lit "billing.py") (fileOf blinding) = [] := by decide
  rw [hnone] at hf
  cases hf

end IspPlatform.Guards
