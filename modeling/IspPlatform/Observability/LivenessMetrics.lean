import Mathlib.Data.List.AList
import IspPlatform.Prometheus.TextFormat

/-!
# The worker liveness exposition

`render_exposition`: four metric families, one after another, with an empty line between two.
Job names stand in the label values as they are; where they have no reserved character the
text is read back as the samples it was made from.
-/

namespace IspPlatform.Observability

open Py Prometheus

/-- A `float`: `num / 2^exp` with a sign, or one that is not finite. -/
inductive PyFloat where
  | finite (neg : Bool) (num exp : Nat)
  | infinity (neg : Bool)
  | nan
  deriving DecidableEq, Repr

structure WorkerObservation where
  lastSuccess : Option PyFloat
  lastFailure : Option PyFloat
  frozenRuns : Int

/-- `num / 2^exp` rounded to the nearest integer, ties to even. -/
def roundTies (num exp : Nat) : Nat :=
  let q := num / 2 ^ exp
  let r := num % 2 ^ exp
  if 2 ^ exp < 2 * r ∨ (2 * r = 2 ^ exp ∧ q % 2 = 1) then q + 1 else q

/-- What a sample line shows: a timestamp, or an integer. -/
inductive Value where
  | timestamp (x : PyFloat)
  | int (n : Int)
  deriving DecidableEq, Repr

/-- `{x:.0f}` of a timestamp, `{n}` of an integer. -/
def Value.text : Value → Str
  | timestamp (.finite neg num exp) => (if neg then ['-'] else []) ++ natStr (roundTies num exp)
  | timestamp (.infinity neg) => (if neg then ['-'] else []) ++ lit "inf"
  | timestamp .nan => lit "nan"
  | int n => intStr n

/-- A metric family with its rows, a job and a value each. -/
def family (metric help : Str) (rows : List (Str × Value)) : List Str :=
  (lit "# HELP " ++ metric ++ lit " " ++ help) :: (lit "# TYPE " ++ metric ++ lit " gauge") ::
    rows.map fun row =>
      metric ++ lit "\x7bjob=\"" ++ row.1 ++ lit "\"\x7d " ++ row.2.text

def registered : Str := lit "isp_worker_registered"

def lastSuccess : Str := lit "isp_worker_last_success_timestamp_seconds"

def lastFailure : Str := lit "isp_worker_last_failure_timestamp_seconds"

def frozenRuns : Str := lit "isp_worker_frozen_runs"

/-- `Mapping[str, WorkerObservation]`. -/
abbrev Observations := AList fun _ : Str => WorkerObservation

/-- `_sorted`. -/
def Observations.sorted (observations : Observations) : List (Str × WorkerObservation) :=
  (observations.entries.map fun e => (e.1, e.2)).insertionSort fun p q => p.1 ≤ q.1

def registeredRows (roster : List Str) : List (Str × Value) :=
  (roster.insertionSort (· ≤ ·)).map fun job => (job, .int 1)

def lastSuccessRows (observations : Observations) : List (Str × Value) :=
  observations.sorted.filterMap fun p => p.2.lastSuccess.map fun x => (p.1, .timestamp x)

def lastFailureRows (observations : Observations) : List (Str × Value) :=
  observations.sorted.filterMap fun p => p.2.lastFailure.map fun x => (p.1, .timestamp x)

def frozenRunsRows (observations : Observations) : List (Str × Value) :=
  observations.sorted.map fun p => (p.1, .int p.2.frozenRuns)

/-- `lines`. -/
def renderLines (roster : List Str) (observations : Observations) : List Str :=
  family registered (lit "Workers the scheduler expects to exist.") (registeredRows roster) ++
  [[]] ++
  family lastSuccess (lit "Unix time of the last successful run.")
    (lastSuccessRows observations) ++
  [[]] ++
  family lastFailure (lit "Unix time of the last run that raised.")
    (lastFailureRows observations) ++
  [[]] ++
  family frozenRuns (lit "Runs left at 'running' with no completion -- the signature of a " ++
    lit "killed process, not a caught exception.") (frozenRunsRows observations)

/-- `render_exposition`. -/
def renderExposition (roster : List Str) (observations : Observations) : Str :=
  (lit "\n").intercalate (renderLines roster observations) ++ lit "\n"

/-! ## The samples -/

/-- The number a value's text denotes. -/
def Value.number : Value → Number
  | timestamp (.finite neg num exp) =>
    .exact (if neg then -(roundTies num exp : ℚ) else roundTies num exp)
  | timestamp (.infinity neg) => .infinity neg
  | timestamp .nan => .nan
  | int n => .exact n

/-- The series of a job. -/
def jobLabels (job : Str) : LabelSet := LabelSet.single (lit "job") job

def familySamples (metric : Str) (rows : List (Str × Value)) : List Sample :=
  rows.map fun row => ⟨metric, jobLabels row.1, row.2.number, none⟩

/-- The samples of an exposition. -/
def expositionSamples (roster : List Str) (observations : Observations) : List Sample :=
  familySamples registered (registeredRows roster) ++
  familySamples lastSuccess (lastSuccessRows observations) ++
  familySamples lastFailure (lastFailureRows observations) ++
  familySamples frozenRuns (frozenRunsRows observations)

theorem jobLabels_injective : Function.Injective jobLabels := LabelSet.single_injective _

theorem Value.readNumber_text (v : Value) : readNumber v.text = some v.number := by
  cases v with
  | timestamp x =>
    cases x with
    | finite neg num exp => exact readNumber_signed neg _
    | infinity neg => cases neg <;> rfl
    | nan => rfl
  | int n => exact readNumber_intStr n

theorem Value.mem_text {v : Value} {c : Char} (h : c ∈ v.text) : c ∈ lit "-infa0123456789" := by
  have hsub : lit "0123456789" ⊆ lit "-infa0123456789" := by decide
  have hsign : ∀ {neg : Bool} {s : Str}, s ⊆ lit "-infa0123456789" →
      c ∈ (if neg then ['-'] else []) ++ s → c ∈ lit "-infa0123456789" := by
    intro neg s hs hc
    cases neg with
    | false => exact hs hc
    | true =>
      rcases List.mem_cons.mp hc with rfl | hc
      · decide
      · exact hs hc
  cases v with
  | timestamp x =>
    cases x with
    | finite neg num exp => exact hsign (fun _ hx => hsub (mem_digits (isDigit_natStr hx))) h
    | infinity neg => exact hsign (by decide) h
    | nan =>
      have hnan : lit "nan" ⊆ lit "-infa0123456789" := by decide
      exact hnan h
  | int n =>
    rcases mem_intStr h with rfl | hd
    · decide
    · exact hsub (mem_digits hd)

theorem Value.text_word (v : Value) : isWord v.text = true ∧ '\n' ∉ v.text := by
  have hall : isWord (lit "-infa0123456789") = true := by decide
  constructor
  · apply List.all_eq_true.mpr
    intro c hc
    exact List.all_eq_true.mp hall c (Value.mem_text hc)
  · intro hin
    have hfeed := Value.mem_text hin
    revert hfeed
    decide

/-! ## Reading a family -/

/-- The lines of a family, as they are read. -/
def familyItems (metric help : Str) (rows : List (Str × Value)) : List Line :=
  .help metric help :: .type metric (lit "gauge") :: (familySamples metric rows).map .sample

/-- The lines of a metric with a good name and help text are read as its family. -/
theorem reads_family {metric help : Str} {rows : List (Str × Value)}
    (hm : isMetricName metric = true) (hhelp : Trimmed help) (hfeed : '\n' ∉ help)
    (hrows : ∀ job ∈ rows.map (·.1), Unreserved job) :
    List.Forall₂ Reads (family metric help rows) (familyItems metric help rows) := by
  have hmetric := metricName_feed hm
  have hgauge : lit "gauge" ∈ kinds := by decide
  have hhelp' : Reads (lit "# HELP " ++ metric ++ lit " " ++ help) (.help metric help) :=
    ⟨readLine_help hm hhelp, by simp [lit, hmetric, hfeed]⟩
  have htype' : Reads (lit "# TYPE " ++ metric ++ lit " gauge") (.type metric (lit "gauge")) := by
    have hline : lit "# TYPE " ++ metric ++ lit " gauge" =
        lit "# TYPE " ++ metric ++ lit " " ++ lit "gauge" := by
      simp [lit]
    rw [hline]
    exact ⟨readLine_type hm hgauge, by simp [lit, hmetric]⟩
  unfold family familyItems familySamples
  refine .cons hhelp' (.cons htype' ?_)
  rw [List.map_map, List.forall₂_map_left_iff, List.forall₂_map_right_iff, List.forall₂_same]
  intro row hrow
  have hu := hrows _ (List.mem_map_of_mem hrow)
  have hline : metric ++ lit "\x7bjob=\"" ++ row.1 ++ lit "\"\x7d " ++ row.2.text =
      sampleLine metric (lit "job") row.1 row.2.text := by
    simp [lit, sampleLine]
  unfold Reads
  rw [hline]
  constructor
  · exact readLine_sample hm (by decide) hu row.2.text_word.1 row.2.readNumber_text
  · have htext := row.2.text_word.2
    simp [sampleLine, lit, hmetric, htext, hu.2.2]

/-- The metric a line is about. -/
def metricOf : Line → Option Str
  | .help n _ | .type n _ => some n
  | .sample s => some s.name
  | .blank | .comment => none

theorem before_of_metricOf_ne {a b : Line} (h : metricOf a ≠ metricOf b) : a.before b = true := by
  cases a with
  | blank | comment => rfl
  | help m _ | type m _ =>
    cases b with
    | blank | comment | sample => rfl
    | help n _ | type n _ => first | rfl | simpa [metricOf, Line.before] using h
  | sample s =>
    cases b with
    | blank | comment | help => rfl
    | type n _ => simpa [metricOf, Line.before] using h
    | sample t =>
      have hname : s.name ≠ t.name := by simpa [metricOf] using h
      simp [Line.before, hname]

theorem metricOf_of_mem_family {metric help : Str} {rows : List (Str × Value)} {a : Line}
    (h : a ∈ familyItems metric help rows) : metricOf a = some metric := by
  unfold familyItems familySamples at h
  simp only [List.mem_cons, List.mem_map, exists_exists_and_eq_and] at h
  obtain rfl | rfl | ⟨row, -, rfl⟩ := h <;> rfl

/-- Lines about these metrics only, in an order in which they may follow each other. -/
structure Ordered (metrics : List Str) (items : List Line) : Prop where
  order : items.Pairwise fun a b => a.before b = true
  about : ∀ b ∈ items, ∀ metric, metricOf b = some metric → metric ∈ metrics

theorem Ordered.nil : Ordered [] [] := ⟨.nil, fun _ hb => absurd hb List.not_mem_nil⟩

theorem Ordered.blank {metrics : List Str} {items : List Line} (h : Ordered metrics items) :
    Ordered metrics ([Line.blank] ++ items) where
  order := List.pairwise_cons.mpr ⟨fun _ _ => rfl, h.order⟩
  about := by
    intro b hb metric hmetric
    rcases List.mem_cons.mp hb with rfl | hb
    · cases hmetric
    · exact h.about b hb metric hmetric

theorem Ordered.family {metrics : List Str} {items : List Line} {metric : Str} (help : Str)
    {rows : List (Str × Value)} (hjobs : (rows.map (·.1)).Nodup) (hnew : metric ∉ metrics)
    (h : Ordered metrics items) :
    Ordered (metric :: metrics) (familyItems metric help rows ++ items) where
  order := by
    rw [List.pairwise_append]
    refine ⟨?_, h.order, fun a ha b hb => ?_⟩
    · unfold familyItems familySamples
      simp only [List.pairwise_cons, List.mem_cons, List.mem_map, List.pairwise_map]
      refine ⟨?_, ?_, ?_⟩
      · rintro b (rfl | ⟨s, -, rfl⟩) <;> rfl
      · rintro b ⟨s, -, rfl⟩
        rfl
      · refine (List.pairwise_map.mp hjobs).imp fun {p q} hne => ?_
        simp [Line.before, jobLabels_injective.eq_iff, hne]
    · apply before_of_metricOf_ne
      rw [metricOf_of_mem_family ha]
      exact fun hsame => hnew (h.about b hb metric hsame.symm)
  about := by
    intro b hb name hname
    rcases List.mem_append.mp hb with hb | hb
    · rw [metricOf_of_mem_family hb] at hname
      obtain rfl := Option.some.inj hname
      exact List.mem_cons_self
    · exact List.mem_cons_of_mem _ (h.about b hb name hname)

/-! ## Reading an exposition -/

/-- The lines of an exposition, as they are read. -/
def expositionItems (roster : List Str) (observations : Observations) : List Line :=
  familyItems registered (lit "Workers the scheduler expects to exist.")
    (registeredRows roster) ++
  ([Line.blank] ++
  (familyItems lastSuccess (lit "Unix time of the last successful run.")
    (lastSuccessRows observations) ++
  ([Line.blank] ++
  (familyItems lastFailure (lit "Unix time of the last run that raised.")
    (lastFailureRows observations) ++
  ([Line.blank] ++
  familyItems frozenRuns (lit "Runs left at 'running' with no completion -- the signature of a " ++
    lit "killed process, not a caught exception.") (frozenRunsRows observations))))))

theorem family_samples (metric help : Str) (rows : List (Str × Value)) :
    (familyItems metric help rows).filterMap Line.sample? = familySamples metric rows := by
  show (((familySamples metric rows).map Line.sample).filterMap Line.sample?) = _
  rw [List.filterMap_map]
  exact List.filterMap_some

theorem items_samples (roster : List Str) (observations : Observations) :
    (expositionItems roster observations).filterMap Line.sample? =
      expositionSamples roster observations := by
  have hblank : ∀ items, ([Line.blank] ++ items).filterMap Line.sample? =
      items.filterMap Line.sample? := fun _ => rfl
  unfold expositionItems expositionSamples
  rw [List.filterMap_append, family_samples, hblank, List.filterMap_append, family_samples, hblank,
    List.filterMap_append, family_samples, hblank, family_samples, List.append_assoc,
    List.append_assoc]

section Rows

variable {observations : Observations}

theorem jobs_filterMap (seen : WorkerObservation → Option PyFloat)
    (l : List (Str × WorkerObservation)) :
    (l.filterMap fun p => (seen p.2).map fun x => (p.1, Value.timestamp x)).map (·.1) =
      (l.filter fun p => (seen p.2).isSome).map (·.1) := by
  induction l with
  | nil => rfl
  | cons p l ih =>
    rw [List.filterMap_cons, List.filter_cons]
    cases h : seen p.2 with
    | none => simpa [h] using ih
    | some x => simpa [h] using ih

theorem Observations.sorted_perm (observations : Observations) :
    observations.sorted.Perm (observations.entries.map fun e => (e.1, e.2)) :=
  List.perm_insertionSort _ _

theorem Observations.nodup_sorted (observations : Observations) :
    (observations.sorted.map (·.1)).Nodup := by
  rw [(observations.sorted_perm.map _).nodup_iff, List.map_map]
  exact observations.keys_nodup

theorem Observations.mem_sorted {job : Str} {obs : WorkerObservation} :
    (job, obs) ∈ observations.sorted ↔ observations.lookup job = some obs := by
  rw [observations.sorted_perm.mem_iff, ← Option.mem_def, AList.mem_lookup_iff]
  simp

theorem Observations.key_of_mem_sorted {p : Str × WorkerObservation}
    (h : p ∈ observations.sorted) : p.1 ∈ observations := by
  rw [← AList.lookup_isSome, Observations.mem_sorted.mp h]
  rfl

end Rows

/-- The rows of a family that shows a part of the observations, in order. -/
structure Shows (observations : Observations) (rows : List (Str × Value)) : Prop where
  nodup : (rows.map (·.1)).Nodup
  observed : ∀ job ∈ rows.map (·.1), job ∈ observations

theorem shows_sublist {observations : Observations} {rows : List (Str × Value)}
    (h : (rows.map (·.1)).Sublist (observations.sorted.map (·.1))) : Shows observations rows where
  nodup := h.nodup observations.nodup_sorted
  observed := by
    intro job hjob
    obtain ⟨p, hp, rfl⟩ := List.mem_map.mp (h.subset hjob)
    exact Observations.key_of_mem_sorted hp

theorem shows_timestamps (observations : Observations)
    (seen : WorkerObservation → Option PyFloat) :
    Shows observations (observations.sorted.filterMap fun p =>
      (seen p.2).map fun x => (p.1, Value.timestamp x)) := by
  apply shows_sublist
  rw [jobs_filterMap]
  exact List.filter_sublist.map _

theorem shows_frozenRuns (observations : Observations) :
    Shows observations (frozenRunsRows observations) := by
  apply shows_sublist
  unfold frozenRunsRows
  rw [List.map_map]
  exact List.Sublist.refl _

theorem jobs_registeredRows (roster : List Str) :
    (registeredRows roster).map (·.1) = roster.insertionSort (· ≤ ·) := by
  unfold registeredRows
  rw [List.map_map]
  exact List.map_id _

/-- **The exposition.** With distinct jobs of unreserved names it is read as its samples. -/
theorem readText_exposition {roster : List Str} {observations : Observations}
    (hnodup : roster.Nodup) (hroster : ∀ job ∈ roster, Unreserved job)
    (hobs : ∀ job ∈ observations, Unreserved job) :
    readText (renderExposition roster observations) =
      some (expositionSamples roster observations) := by
  have hjobs : ((registeredRows roster).map (·.1)).Nodup := by
    rw [jobs_registeredRows]
    exact (List.perm_insertionSort _ _).nodup_iff.mpr hnodup
  have hlisted : ∀ job ∈ (registeredRows roster).map (·.1), Unreserved job := by
    intro job hjob
    rw [jobs_registeredRows] at hjob
    exact hroster job ((List.perm_insertionSort _ _).mem_iff.mp hjob)
  have hseen : ∀ {rows}, Shows observations rows → ∀ job ∈ rows.map (·.1), Unreserved job :=
    fun hs job hjob => hobs job (hs.observed job hjob)
  have hsuccess : Shows observations (lastSuccessRows observations) :=
    shows_timestamps observations (·.lastSuccess)
  have hfailure : Shows observations (lastFailureRows observations) :=
    shows_timestamps observations (·.lastFailure)
  have hfrozen := shows_frozenRuns observations
  have hlines : List.Forall₂ Reads (renderLines roster observations)
      (expositionItems roster observations) := by
    have hblank : List.Forall₂ Reads [[]] [Line.blank] := .cons ⟨rfl, List.not_mem_nil⟩ .nil
    unfold renderLines expositionItems
    rw [List.append_assoc, List.append_assoc, List.append_assoc, List.append_assoc,
      List.append_assoc]
    apply List.rel_append (reads_family (by decide) (by decide) (by decide) hlisted)
    apply List.rel_append hblank
    apply List.rel_append (reads_family (by decide) (by decide) (by decide) (hseen hsuccess))
    apply List.rel_append hblank
    apply List.rel_append (reads_family (by decide) (by decide) (by decide) (hseen hfailure))
    apply List.rel_append hblank
    exact reads_family (by decide) (by decide) (by decide) (hseen hfrozen)
  have horder : Ordered [registered, lastSuccess, lastFailure, frozenRuns]
      (expositionItems roster observations) := by
    unfold expositionItems
    apply Ordered.family _ hjobs (by decide)
    apply Ordered.blank
    apply Ordered.family _ hsuccess.nodup (by decide)
    apply Ordered.blank
    apply Ordered.family _ hfailure.nodup (by decide)
    apply Ordered.blank
    rw [← List.append_nil (familyItems frozenRuns _ _)]
    exact Ordered.family _ hfrozen.nodup List.not_mem_nil Ordered.nil
  have hne : renderLines roster observations ≠ [] := List.cons_ne_nil _ _
  unfold renderExposition
  rw [readText_join hne hlines horder.order, items_samples]

end IspPlatform.Observability
