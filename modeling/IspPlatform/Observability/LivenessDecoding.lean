import IspPlatform.Prometheus.Unescaped
import IspPlatform.Observability.LivenessMetrics

/-!
# Which expositions can be decoded

An exposition is decoded as the samples it is to show exactly when no job's name has a character
that a label value must escape.
-/

namespace IspPlatform.Observability

open Py Prometheus

/-- The integer that a timestamp is. -/
def PyFloat.integer? : PyFloat → Option Int
  | finite neg num exp => if 2 ^ exp ∣ num then some (if neg then -(num / 2 ^ exp : Nat) else
      (num / 2 ^ exp : Nat)) else none
  | infinity _ | nan => none

/-- The samples that an exposition is to show. -/
inductive Expected (roster : List Str) (observations : Observations) : Sample → Prop where
  | registered {job : Str} : job ∈ roster →
      Expected roster observations ⟨registered, jobLabels job, .exact 1, none⟩
  | lastSuccess {job : Str} {obs : WorkerObservation} {x : PyFloat} {t : Int} :
      observations.lookup job = some obs → obs.lastSuccess = some x → x.integer? = some t →
      Expected roster observations ⟨lastSuccess, jobLabels job, .exact t, none⟩
  | lastFailure {job : Str} {obs : WorkerObservation} {x : PyFloat} {t : Int} :
      observations.lookup job = some obs → obs.lastFailure = some x → x.integer? = some t →
      Expected roster observations ⟨lastFailure, jobLabels job, .exact t, none⟩
  | frozenRuns {job : Str} {obs : WorkerObservation} : observations.lookup job = some obs →
      Expected roster observations ⟨frozenRuns, jobLabels job, .exact obs.frozenRuns, none⟩

/-- The text is read as the expected samples, each once. -/
def Decodes (roster : List Str) (observations : Observations) : Prop :=
  ∃ samples, readText (renderExposition roster observations) = some samples ∧ samples.Nodup ∧
    ∀ s, s ∈ samples ↔ Expected roster observations s

/-- Every timestamp is an integer. -/
def IntegerTimestamps (observations : Observations) : Prop :=
  ∀ job obs, observations.lookup job = some obs → ∀ x,
    obs.lastSuccess = some x ∨ obs.lastFailure = some x → x.integer?.isSome = true

variable {roster : List Str} {observations : Observations}

theorem number_of_integer {x : PyFloat} {t : Int} (h : x.integer? = some t) :
    (Value.timestamp x).number = .exact t := by
  cases x with
  | infinity neg | nan => cases h
  | finite neg num exp =>
    rw [PyFloat.integer?] at h
    split at h
    · next hdvd =>
      obtain rfl := Option.some.inj h
      have hround : roundTies num exp = num / 2 ^ exp := by
        have hpow : 0 < 2 ^ exp := Nat.two_pow_pos exp
        unfold roundTies
        rw [Nat.mod_eq_zero_of_dvd hdvd]
        exact if_neg (by omega)
      rw [Value.number, hround]
      generalize num / 2 ^ exp = n
      cases neg <;> simp
    · cases h

theorem mem_familySamples {metric : Str} {rows : List (Str × Value)} {s : Sample} :
    s ∈ familySamples metric rows ↔
      ∃ job v, (job, v) ∈ rows ∧ s = ⟨metric, jobLabels job, v.number, none⟩ := by
  unfold familySamples
  simp only [List.mem_map, Prod.exists, eq_comm]

theorem mem_registeredRows {job : Str} {v : Value} :
    (job, v) ∈ registeredRows roster ↔ job ∈ roster ∧ v = .int 1 := by
  unfold registeredRows
  simp only [List.mem_map, Prod.mk.injEq, (List.perm_insertionSort _ _).mem_iff]
  constructor
  · rintro ⟨job', hjob, rfl, rfl⟩
    exact ⟨hjob, rfl⟩
  · rintro ⟨hjob, rfl⟩
    exact ⟨job, hjob, rfl, rfl⟩

theorem mem_timestampRows {seen : WorkerObservation → Option PyFloat} {job : Str} {v : Value} :
    (job, v) ∈ (observations.sorted.filterMap fun p =>
      (seen p.2).map fun x => (p.1, Value.timestamp x)) ↔
      ∃ obs x, observations.lookup job = some obs ∧ seen obs = some x ∧ v = .timestamp x := by
  simp only [List.mem_filterMap, Prod.exists, Option.map_eq_some_iff, Prod.mk.injEq]
  constructor
  · rintro ⟨job, obs, hobs, x, hx, rfl, rfl⟩
    exact ⟨obs, x, Observations.mem_sorted.mp hobs, hx, rfl⟩
  · rintro ⟨obs, x, hobs, hx, rfl⟩
    exact ⟨job, obs, Observations.mem_sorted.mpr hobs, x, hx, rfl, rfl⟩

theorem mem_frozenRunsRows {job : Str} {v : Value} :
    (job, v) ∈ frozenRunsRows observations ↔
      ∃ obs, observations.lookup job = some obs ∧ v = .int obs.frozenRuns := by
  unfold frozenRunsRows
  simp only [List.mem_map, Prod.exists, Prod.mk.injEq]
  constructor
  · rintro ⟨job, obs, hobs, rfl, rfl⟩
    exact ⟨obs, Observations.mem_sorted.mp hobs, rfl⟩
  · rintro ⟨obs, hobs, rfl⟩
    exact ⟨job, obs, Observations.mem_sorted.mpr hobs, rfl, rfl⟩

/-- With integer timestamps the samples of an exposition are the expected ones. -/
theorem mem_expositionSamples (hint : IntegerTimestamps observations) {s : Sample} :
    s ∈ expositionSamples roster observations ↔ Expected roster observations s := by
  unfold expositionSamples
  simp only [List.mem_append, mem_familySamples, mem_registeredRows, lastSuccessRows,
    lastFailureRows, mem_timestampRows, mem_frozenRunsRows]
  constructor
  · rintro (((⟨job, v, ⟨hjob, rfl⟩, rfl⟩ | ⟨job, v, ⟨obs, x, hobs, hx, rfl⟩, rfl⟩) |
      ⟨job, v, ⟨obs, x, hobs, hx, rfl⟩, rfl⟩) | ⟨job, v, ⟨obs, hobs, rfl⟩, rfl⟩)
    · exact .registered hjob
    · obtain ⟨t, ht⟩ := Option.isSome_iff_exists.mp (hint job obs hobs x (.inl hx))
      rw [number_of_integer ht]
      exact .lastSuccess hobs hx ht
    · obtain ⟨t, ht⟩ := Option.isSome_iff_exists.mp (hint job obs hobs x (.inr hx))
      rw [number_of_integer ht]
      exact .lastFailure hobs hx ht
    · exact .frozenRuns hobs
  · intro h
    cases h with
    | registered hjob => exact .inl (.inl (.inl ⟨_, _, ⟨hjob, rfl⟩, rfl⟩))
    | lastSuccess hobs hx ht =>
      exact .inl (.inl (.inr ⟨_, _, ⟨_, _, hobs, hx, rfl⟩, by rw [number_of_integer ht]⟩))
    | lastFailure hobs hx ht =>
      exact .inl (.inr ⟨_, _, ⟨_, _, hobs, hx, rfl⟩, by rw [number_of_integer ht]⟩)
    | frozenRuns hobs => exact .inr ⟨_, _, ⟨_, hobs, rfl⟩, rfl⟩

/-- A family's rows, as they are written. -/
def writtenFamily (metric : Str) (rows : List (Str × Value)) : List Row :=
  rows.map fun row => ⟨metric, row.1, row.2.text⟩

/-- The rows of an exposition. -/
def writtenRows (roster : List Str) (observations : Observations) : List Row :=
  writtenFamily registered (registeredRows roster) ++
  writtenFamily lastSuccess (lastSuccessRows observations) ++
  writtenFamily lastFailure (lastFailureRows observations) ++
  writtenFamily frozenRuns (frozenRunsRows observations)

theorem writtenFamily_proper {metric : Str} (hm : isMetricName metric = true)
    (rows : List (Str × Value)) : ∀ row ∈ writtenFamily metric rows, row.Proper := by
  intro row hrow
  obtain ⟨⟨job, v⟩, -, rfl⟩ := List.mem_map.mp hrow
  refine ⟨hm, v.text_word.2, fun hin => ?_⟩
  have hquote := Value.mem_text hin
  revert hquote
  decide

theorem writtenFamily_sublist (metric help : Str) (rows : List (Str × Value)) :
    ((writtenFamily metric rows).map (Row.line (lit "job"))).Sublist
      (family metric help rows) := by
  have hlines : (writtenFamily metric rows).map (Row.line (lit "job")) =
      rows.map fun row => metric ++ lit "\x7bjob=\"" ++ row.1 ++ lit "\"\x7d " ++ row.2.text := by
    unfold writtenFamily
    rw [List.map_map]
    apply List.map_congr_left
    intro row _
    simp [lit, Row.line, sampleLine]
  rw [hlines]
  exact ((List.Sublist.refl _).cons _).cons _

theorem writtenRows_proper : ∀ row ∈ writtenRows roster observations, row.Proper := by
  unfold writtenRows
  intro row hrow
  simp only [List.mem_append] at hrow
  rcases hrow with ((h | h) | h) | h
  · exact writtenFamily_proper (by decide) _ row h
  · exact writtenFamily_proper (by decide) _ row h
  · exact writtenFamily_proper (by decide) _ row h
  · exact writtenFamily_proper (by decide) _ row h

theorem writtenRows_sublist (roster : List Str) (observations : Observations) :
    ((writtenRows roster observations).map (Row.line (lit "job"))).Sublist
      (renderLines roster observations) := by
  have hblank : ∀ l : List Str, l.Sublist (l ++ [[]]) := fun l => List.sublist_append_left _ _
  unfold writtenRows renderLines
  simp only [List.map_append]
  refine .append (.trans (.append (.trans (.append (.trans ?_ (hblank _)) ?_) (hblank _)) ?_)
    (hblank _)) ?_
  · exact writtenFamily_sublist ..
  · exact writtenFamily_sublist ..
  · exact writtenFamily_sublist ..
  · exact writtenFamily_sublist ..

theorem writtenRows_jobs (roster : List Str) (observations : Observations) :
    (expositionSamples roster observations).map (fun s => (s.labels.get (lit "job")).length) =
      (writtenRows roster observations).map fun row => row.value.length := by
  have hfamily : ∀ metric rows,
      (familySamples metric rows).map (fun s => (s.labels.get (lit "job")).length) =
        (writtenFamily metric rows).map fun row => row.value.length := by
    intro metric rows
    unfold familySamples writtenFamily
    rw [List.map_map, List.map_map]
    apply List.map_congr_left
    intro row _
    exact congrArg List.length (LabelSet.get_single (lit "job") row.1)
  unfold expositionSamples writtenRows
  simp only [List.map_append, hfamily]

/-! ## Decoding -/

theorem nodup_familySamples {metric : Str} {rows : List (Str × Value)}
    (h : (rows.map (·.1)).Nodup) : (familySamples metric rows).Nodup := by
  apply List.Nodup.of_map fun s => s.labels
  have hlabels : (familySamples metric rows).map (·.labels) =
      (rows.map (·.1)).map jobLabels := by
    unfold familySamples
    rw [List.map_map, List.map_map]
    rfl
  rw [hlabels]
  exact h.map jobLabels_injective

theorem nodup_expositionSamples (hnodup : roster.Nodup) :
    (expositionSamples roster observations).Nodup := by
  have hjobs : ((registeredRows roster).map (·.1)).Nodup := by
    rw [jobs_registeredRows]
    exact (List.perm_insertionSort _ _).nodup_iff.mpr hnodup
  have hname : ∀ {metric rows s}, s ∈ familySamples metric rows → s.name = metric := by
    intro metric rows s hs
    obtain ⟨job, v, -, rfl⟩ := mem_familySamples.mp hs
    rfl
  have hapart : ∀ {metric metric' rows rows'}, metric ≠ metric' →
      List.Disjoint (familySamples metric rows) (familySamples metric' rows') := by
    intro metric metric' rows rows' hne s hs hs'
    exact hne ((hname hs).symm.trans (hname hs'))
  unfold expositionSamples
  simp only [List.nodup_append', List.disjoint_append_left]
  refine ⟨⟨⟨nodup_familySamples hjobs, nodup_familySamples (shows_timestamps _ _).nodup,
    hapart (by decide)⟩, nodup_familySamples (shows_timestamps _ _).nodup,
    hapart (by decide), hapart (by decide)⟩, nodup_familySamples (shows_frozenRuns _).nodup,
    ⟨hapart (by decide), hapart (by decide)⟩, hapart (by decide)⟩

theorem unreserved_of_decodes (hnodup : roster.Nodup) (hint : IntegerTimestamps observations)
    (h : Decodes roster observations) :
    (∀ job ∈ roster, Unreserved job) ∧ ∀ job ∈ observations, Unreserved job := by
  obtain ⟨samples, hread, hsamples, hmem⟩ := h
  have hperm : samples.Perm (expositionSamples roster observations) := by
    rw [List.perm_ext_iff_of_nodup hsamples (nodup_expositionSamples hnodup)]
    intro s
    rw [hmem, mem_expositionSamples hint]
  have hjobs := writtenRows_jobs roster observations
  have hlen : samples.length = (writtenRows roster observations).length := by
    have hsame := congrArg List.length hjobs
    rw [List.length_map, List.length_map] at hsame
    rw [hperm.length_eq, hsame]
  have hsum := (hperm.map fun s => (s.labels.get (lit "job")).length).sum_nat
  rw [hjobs] at hsum
  have hall := unreserved_of_read (by decide) (List.cons_ne_nil _ _) writtenRows_proper
    (writtenRows_sublist roster observations) hread hlen hsum
  constructor
  · intro job hjob
    refine hall ⟨registered, job, intStr 1⟩ ?_
    have hrow : (⟨registered, job, intStr 1⟩ : Row) ∈
        writtenFamily registered (registeredRows roster) :=
      List.mem_map_of_mem (mem_registeredRows.mpr ⟨hjob, rfl⟩)
    unfold writtenRows
    simp [hrow]
  · intro job hjob
    obtain ⟨obs, hobs⟩ := Option.isSome_iff_exists.mp (AList.lookup_isSome.mpr hjob)
    refine hall ⟨frozenRuns, job, intStr obs.frozenRuns⟩ ?_
    have hrow : (⟨frozenRuns, job, intStr obs.frozenRuns⟩ : Row) ∈
        writtenFamily frozenRuns (frozenRunsRows observations) :=
      List.mem_map_of_mem (mem_frozenRunsRows.mpr ⟨obs, hobs, rfl⟩)
    unfold writtenRows
    simp [hrow]

/-- **Decoding.** An exposition is decoded as its samples exactly when no job's name has a
backslash, a double quote or a line feed. -/
theorem decodes_iff (hnodup : roster.Nodup) (hint : IntegerTimestamps observations) :
    Decodes roster observations ↔
      (∀ job ∈ roster, Unreserved job) ∧ ∀ job ∈ observations, Unreserved job := by
  constructor
  · exact unreserved_of_decodes hnodup hint
  · rintro ⟨hroster, hobs⟩
    exact ⟨expositionSamples roster observations, readText_exposition hnodup hroster hobs,
      nodup_expositionSamples hnodup, fun s => mem_expositionSamples hint⟩

/-- A job that ran once. -/
def ranOnce (job : Str) : Observations :=
  AList.singleton job ⟨some (.finite false 1 0), none, 0⟩

theorem integer_ranOnce (job : Str) : IntegerTimestamps (ranOnce job) := by
  intro job' obs hobs x hx
  have hmem := AList.mem_lookup_iff.mp (Option.mem_def.mpr hobs)
  unfold ranOnce at hmem
  rw [AList.singleton_entries, List.mem_singleton] at hmem
  cases hmem
  rcases hx with hx | hx <;> cases hx
  decide

theorem decodes_iff_billing :
    Decodes [lit "billing"] (ranOnce (lit "billing")) ↔
      (∀ job ∈ [lit "billing"], Unreserved job) ∧
        ∀ job ∈ ranOnce (lit "billing"), Unreserved job :=
  decodes_iff (by decide) (integer_ranOnce _)

/-- A job's name that writes another job's sample. -/
def forging : Str := lit "a\"\x7d 1\nisp_worker_registered\x7bjob=\"b"

theorem forging_not_decoded : ¬ Decodes [forging] ∅ := by
  intro h
  have hunreserved := (unreserved_of_decodes (List.nodup_singleton _)
    (fun _ _ hobs => by cases hobs) h).1 forging List.mem_cons_self
  revert hunreserved
  decide

end IspPlatform.Observability
