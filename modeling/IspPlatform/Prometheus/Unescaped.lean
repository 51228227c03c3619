import Mathlib.Data.List.Flatten
import IspPlatform.Prometheus.TextFormat

/-!
# Label values that are written as they are

What can be read from sample lines whose label values were not escaped. A line feed cuts a value
short, and so does a quote; an escape is read as one character. The value that is read is
therefore never longer than the one that was written, and as long only where nothing in it is
reserved.
-/

namespace IspPlatform.Prometheus

open Py

/-! ## Label values -/

theorem quote_of_readLabelValue {u : Str} {r : Str × Str} (h : readLabelValue u = some r) :
    '"' ∈ u := by
  fun_induction readLabelValue u generalizing r with
  | case1 | case3 | case5 | case7 => cases h
  | case2 => exact List.mem_cons_self
  | case4 c s x v s' hread _ ih =>
    exact List.mem_cons_of_mem _ (List.mem_cons_of_mem _ (ih hread))
  | case6 c s _ _ _ v s' hread ih => exact List.mem_cons_of_mem _ (ih hread)

/-- A value that is read from the front of a written one and its closing quote. -/
theorem readLabelValue_written {u v rest w s : Str} (h : readLabelValue u = some (w, s))
    (hu : u <+: v ++ '"' :: rest) (hrest : '"' ∉ rest) :
    w.length ≤ v.length ∧ (w.length = v.length → '"' ∉ v ∧ '\\' ∉ v) := by
  fun_induction readLabelValue u generalizing v w s with
  | case1 | case3 | case5 | case7 => cases h
  | case2 s' =>
    obtain ⟨rfl, -⟩ := Prod.mk.inj (Option.some.inj h)
    refine ⟨Nat.zero_le _, fun hlen => ?_⟩
    rw [List.eq_nil_of_length_eq_zero hlen.symm]
    exact ⟨List.not_mem_nil, List.not_mem_nil⟩
  | case4 c s₀ x v' s' hread _ ih =>
    obtain ⟨rfl, -⟩ := Prod.mk.inj (Option.some.inj h)
    match v, hu with
    | [], hu => cases (List.cons_prefix_cons.mp hu).1
    | [a], hu =>
      -- the backslash escapes the closing quote
      have hs := (List.cons_prefix_cons.mp (List.cons_prefix_cons.mp hu).2).2
      exact absurd (hs.subset (quote_of_readLabelValue hread)) hrest
    | a :: b :: v, hu =>
      have hs := (List.cons_prefix_cons.mp (List.cons_prefix_cons.mp hu).2).2
      have hlen := (ih hread hs).1
      simp only [List.length_cons]
      omega
  | case6 c s₀ hquote hend hescape v' s' hread ih =>
    obtain ⟨rfl, -⟩ := Prod.mk.inj (Option.some.inj h)
    match v, hu with
    | [], hu => exact absurd (List.cons_prefix_cons.mp hu).1 hquote
    | a :: v, hu =>
      obtain ⟨rfl, hs⟩ := List.cons_prefix_cons.mp hu
      obtain ⟨hle, heq⟩ := ih hread hs
      have hbackslash : c ≠ '\\' := by
        intro hc
        cases s₀ with
        | nil => exact hend hc rfl
        | cons d s₀ => exact hescape d s₀ hc rfl
      refine ⟨Nat.succ_le_succ hle, fun hlen => ?_⟩
      obtain ⟨hq, hb⟩ := heq (Nat.succ.inj hlen)
      simp only [List.mem_cons, not_or]
      exact ⟨⟨fun hc => hquote hc.symm, hq⟩, ⟨Ne.symm hbackslash, hb⟩⟩

/-! ## Lines -/

theorem readLabels_first {fuel : Nat} {label u : Str} {r : List (Str × Str) × Str}
    (hl : isLabelName label = true)
    (h : readLabels (fuel + 1) (label ++ '=' :: '"' :: u) = some r) :
    ∃ w s more, readLabelValue u = some (w, s) ∧ r.1 = (label, w) :: more := by
  rw [readLabels_label fuel u hl] at h
  obtain ⟨⟨w, s⟩, hvalue, h⟩ := Option.bind_eq_some_iff.mp h
  refine ⟨w, s, ?_⟩
  split at h
  · obtain ⟨⟨labels, s'⟩, -, h⟩ := Option.bind_eq_some_iff.mp h
    exact ⟨labels, hvalue, by rw [← Option.some.inj h]⟩
  · exact ⟨[], hvalue, by rw [← Option.some.inj h]⟩
  · cases h

theorem labelSet_first {label w : Str} {more : List (Str × Str)} {set : LabelSet}
    (h : labelSet ((label, w) :: more) = some set) : (set.get label).length ≤ w.length := by
  unfold labelSet at h
  dsimp only at h
  split at h
  · next hset =>
    obtain rfl := Option.some.inj h
    unfold LabelSet.get
    cases hlookup : List.lookup label _ with
    | none => exact Nat.zero_le _
    | some x =>
      obtain ⟨before, after, hpairs, -⟩ := List.lookup_eq_some_iff.mp hlookup
      have hx : (label, x) ∈ (label, w) :: more := by
        have hsorted : (label, x) ∈ (((label, w) :: more).filter (·.2 ≠ [])).insertionSort
            fun p q => p.1 ≤ q.1 := by
          have hin : (label, x) ∈ before ++ (label, x) :: after := by simp
          rw [← hpairs] at hin
          exact hin
        exact (List.mem_filter.mp ((List.perm_insertionSort _ _).mem_iff.mp hsorted)).1
      rcases List.mem_cons.mp hx with heq | hmore
      · obtain ⟨-, rfl⟩ := Prod.mk.inj heq
        exact le_rfl
      · have hnot := (List.nodup_cons.mp hset.1).1
        exact absurd (List.mem_map_of_mem hmore) hnot
  · cases h

/-- The front of a sample line, up to somewhere in its first label's value, is read as a sample
or not at all. -/
theorem readLine_front {metric label u : Str} {item : Line} (hm : isMetricName metric = true)
    (hl : isLabelName label = true)
    (h : readLine (metric ++ '{' :: (label ++ '=' :: '"' :: u)) = some item) :
    ∃ s w rest, item = .sample s ∧ readLabelValue (u.rdropWhile isBlank) = some (w, rest) ∧
      (s.labels.get label).length ≤ w.length := by
  have hend : (label ++ '=' :: '"' :: u).rdropWhile isBlank =
      label ++ '=' :: '"' :: u.rdropWhile isBlank := by
    have hquote : ¬ isBlank '"' = true := by decide
    have hkeep := rdropWhile_behind hquote (label ++ ['=']) u
    simpa using hkeep
  rw [readLine_brace _ hm, hend, readSample_brace _ hm] at h
  obtain ⟨s, hs, rfl⟩ := Option.map_eq_some_iff.mp h
  obtain ⟨r, hlabels, hs⟩ := Option.bind_eq_some_iff.mp hs
  obtain ⟨w, rest, more, hvalue, hmore⟩ := readLabels_first hl hlabels
  obtain ⟨set, hset, hs⟩ := Option.bind_eq_some_iff.mp hs
  rw [hmore] at hset
  refine ⟨s, w, rest, rfl, hvalue, ?_⟩
  obtain ⟨x, -, hs⟩ := Option.bind_eq_some_iff.mp hs
  split at hs
  · rw [← Option.some.inj hs]
    exact labelSet_first hset
  · obtain ⟨t, -, hs⟩ := Option.bind_eq_some_iff.mp hs
    rw [← Option.some.inj hs]
    exact labelSet_first hset

/-- The label's value is no longer than `value`, and shorter if that has a reserved character. -/
structure Fits (label value : Str) (s : Sample) : Prop where
  le : (s.labels.get label).length ≤ value.length
  unreserved : (s.labels.get label).length = value.length → Unreserved value

/-- A sample line to be written. -/
structure Row where
  metric : Str
  value : Str
  number : Str

/-- A row's line, under a label's name. -/
def Row.line (label : Str) (row : Row) : Str := sampleLine row.metric label row.value row.number

/-- The metric has a good name, and the number has no line feed and no quote. -/
structure Row.Proper (row : Row) : Prop where
  metric : isMetricName row.metric = true
  feed : '\n' ∉ row.number
  quote : '"' ∉ row.number

/-- The first line of a row's line is read as a sample that fits it, or not at all. -/
theorem Row.front {label : Str} {row : Row} (hl : isLabelName label = true) (h : row.Proper) :
    ∃ front more, (row.line label).splitOn '\n' = front :: more ∧
      ∀ item, readLine front = some item → ∃ s, item = .sample s ∧ Fits label row.value s := by
  obtain ⟨metric, value, number⟩ := row
  obtain ⟨hm, hfeed, hquote⟩ := h
  dsimp only at hm hfeed hquote ⊢
  have hmetric := metricName_feed hm
  have hlabel : '\n' ∉ label := by
    intro hin
    rcases readName_chars (of_decide_eq_true hl) _ hin with hchar | hchar <;> cases hchar
  by_cases hin : '\n' ∈ value
  · obtain ⟨v, v', rfl, hv⟩ := List.eq_append_cons_of_mem hin
    have hsplit : Row.line label ⟨metric, v ++ '\n' :: v', number⟩ =
        (metric ++ '{' :: (label ++ '=' :: '"' :: v)) ++
          '\n' :: (v' ++ '"' :: '}' :: ' ' :: number) := by
      simp [Row.line, sampleLine]
    have hfront : '\n' ∉ metric ++ '{' :: (label ++ '=' :: '"' :: v) := by
      simp [hmetric, hlabel, hv]
    refine ⟨_, _, by rw [hsplit, List.splitOn_append_cons_self_of_not_mem hfront], ?_⟩
    intro item hitem
    obtain ⟨s, w, rest, rfl, hvalue, hle⟩ := readLine_front hm hl hitem
    have hu : v.rdropWhile isBlank <+: v ++ '"' :: [] :=
      (List.rdropWhile_prefix _ _).trans (List.prefix_append _ _)
    have hlen := (readLabelValue_written hvalue hu List.not_mem_nil).1
    have hlt : (s.labels.get label).length < (v ++ '\n' :: v').length := by
      rw [List.length_append, List.length_cons]
      omega
    exact ⟨s, rfl, hlt.le, fun heq => absurd heq hlt.ne⟩
  · have hline : '\n' ∉ Row.line label ⟨metric, value, number⟩ := by
      simp [Row.line, sampleLine, hmetric, hlabel, hin, hfeed]
    refine ⟨_, [], List.splitOn_eq_singleton hline, ?_⟩
    intro item hitem
    obtain ⟨s, w, rest, rfl, hvalue, hle⟩ := readLine_front hm hl hitem
    have hu := List.rdropWhile_prefix isBlank (value ++ '"' :: '}' :: ' ' :: number)
    obtain ⟨hlen, heq⟩ := readLabelValue_written hvalue hu (by simp [hquote])
    refine ⟨s, rfl, hle.trans hlen, fun hsame => ?_⟩
    obtain ⟨hq, hb⟩ := heq (by omega)
    exact ⟨hq, hb, hin⟩

/-! ## Texts -/

/-- The sample of a line. -/
def sampleAt (line : Str) : Option Sample := (readLine line).bind Line.sample?

theorem mapM_some {α β : Type} {f : α → Option β} {l : List α} {m : List β}
    (h : l.mapM f = some m) : (∀ x ∈ l, (f x).isSome = true) ∧ m = l.filterMap f := by
  induction l generalizing m with
  | nil =>
    obtain rfl : [] = m := Option.some.inj h
    exact ⟨fun _ hx => absurd hx List.not_mem_nil, rfl⟩
  | cons x l ih =>
    rw [List.mapM_cons] at h
    obtain ⟨y, hy, h⟩ := Option.bind_eq_some_iff.mp h
    obtain ⟨m', hm', heq⟩ := Option.bind_eq_some_iff.mp h
    obtain rfl : y :: m' = m := Option.some.inj heq
    obtain ⟨hall, rfl⟩ := ih hm'
    refine ⟨List.forall_mem_cons.mpr ⟨by rw [hy]; rfl, hall⟩, ?_⟩
    rw [List.filterMap_cons_some hy]

theorem readText_samples {text : Str} {lines : List Str} {samples : List Sample}
    (hlines : linesOf text = some lines) (h : readText text = some samples) :
    (∀ line ∈ lines, (readLine line).isSome = true) ∧ lines.filterMap sampleAt = samples := by
  unfold readText at h
  rw [hlines] at h
  rw [Option.bind_eq_bind, Option.bind_some] at h
  obtain ⟨items, hitems, h⟩ := Option.bind_eq_some_iff.mp h
  obtain ⟨hread, rfl⟩ := mapM_some hitems
  split at h
  · rw [List.filterMap_filterMap] at h
    exact ⟨hread, Option.some.inj h⟩
  · cases h

theorem rows_front {label : Str} {rows : List Row} (hl : isLabelName label = true)
    (hrows : ∀ row ∈ rows, row.Proper)
    (hread : ∀ line ∈ rows.flatMap fun row => (row.line label).splitOn '\n',
      (readLine line).isSome = true) :
    ∃ firsts, List.Forall₂ (fun (row : Row) s => Fits label row.value s) rows firsts ∧
      firsts.Sublist ((rows.flatMap fun row => (row.line label).splitOn '\n').filterMap
        sampleAt) := by
  induction rows with
  | nil => exact ⟨[], .nil, List.nil_sublist _⟩
  | cons row rows ih =>
    rw [List.flatMap_cons] at hread ⊢
    obtain ⟨firsts, hfits, hsub⟩ := ih (fun r hr => hrows r (List.mem_cons_of_mem _ hr))
      (fun line hline => hread line (List.mem_append_right _ hline))
    obtain ⟨front, more, hsplit, hfront⟩ := Row.front hl (hrows row List.mem_cons_self)
    rw [hsplit] at hread ⊢
    obtain ⟨item, hitem⟩ := Option.isSome_iff_exists.mp (hread front (by simp))
    obtain ⟨s, rfl, hs⟩ := hfront item hitem
    refine ⟨s :: firsts, .cons hs hfits, ?_⟩
    have hat : sampleAt front = some s := by
      unfold sampleAt
      rw [hitem]
      rfl
    rw [List.cons_append, List.filterMap_cons_some hat, List.filterMap_append]
    exact (hsub.trans (List.sublist_append_right _ _)).cons_cons s

theorem unreserved_of_sum {label : Str} {rows : List Row} {samples : List Sample}
    (h : List.Forall₂ (fun (row : Row) s => Fits label row.value s) rows samples) :
    (samples.map fun s => (s.labels.get label).length).sum ≤
        (rows.map fun row => row.value.length).sum ∧
      ((samples.map fun s => (s.labels.get label).length).sum =
        (rows.map fun row => row.value.length).sum → ∀ row ∈ rows, Unreserved row.value) := by
  induction h with
  | nil => exact ⟨le_rfl, fun _ _ hrow => absurd hrow List.not_mem_nil⟩
  | @cons row s rows samples hs _ ih =>
    have hle := hs.le
    simp only [List.map_cons, List.sum_cons]
    refine ⟨by omega, fun hsum row' hrow' => ?_⟩
    rcases List.mem_cons.mp hrow' with rfl | hrow'
    · exact hs.unreserved (by omega)
    · exact ih.2 (by omega) row' hrow'

/-- Rows that are written into a text, and of which the text is read to have as many samples
with values as long in all, have nothing reserved in their values. -/
theorem unreserved_of_read {label : Str} {lines : List Str} {rows : List Row}
    {samples : List Sample} (hl : isLabelName label = true) (hne : lines ≠ [])
    (hrows : ∀ row ∈ rows, row.Proper)
    (hsub : (rows.map (Row.line label)).Sublist lines)
    (h : readText ((lit "\n").intercalate lines ++ lit "\n") = some samples)
    (hlen : samples.length = rows.length)
    (hsum : (samples.map fun s => (s.labels.get label).length).sum =
      (rows.map fun row => row.value.length).sum) :
    ∀ row ∈ rows, Unreserved row.value := by
  obtain ⟨hread, rfl⟩ := readText_samples (linesOf_intercalate hne) h
  have hsub' : (rows.flatMap fun row => (row.line label).splitOn '\n').Sublist
      (lines.flatMap (·.splitOn '\n')) := by
    have hflat := hsub.flatMap (·.splitOn '\n')
    rwa [List.flatMap_map] at hflat
  obtain ⟨firsts, hfits, hfirsts⟩ :=
    rows_front hl hrows fun line hline => hread line (hsub'.subset hline)
  have hall := (hfirsts.trans (hsub'.filterMap _)).eq_of_length
    (hfits.length_eq.symm.trans hlen.symm)
  rw [hall] at hfits
  exact (unreserved_of_sum hfits).2 hsum

end IspPlatform.Prometheus
