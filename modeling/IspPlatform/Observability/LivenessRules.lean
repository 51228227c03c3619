import IspPlatform.Observability.LivenessMetrics
import IspPlatform.Prometheus.Query
import IspPlatform.Workers.JobRegistry

/-!
# The worker liveness alerts

The expressions of the `worker_liveness` rules, evaluated over what a registry and the
heartbeat observations expose.
-/

namespace IspPlatform.Observability

open Py Prometheus Workers

/-- `WorkerStalled`. -/
def workerStalled : Query := .above (.age (.series lastSuccess)) 5400

/-- `WorkerNeverSucceeded`. -/
def workerNeverSucceeded : Query := .unlessIn (.series registered) (.series lastSuccess)

/-- `WorkerMetricsAbsent`. -/
def workerMetricsAbsent : Query := .absent (.series registered)

/-- No success of the job is known. -/
def NeverSucceeded (observations : Observations) (job : Str) : Prop :=
  ∀ obs, observations.lookup job = some obs → obs.lastSuccess = none

/-- What the rules make of some samples, in a scrape at any time: never-succeeded selects the
series of each registered job without a success, once, and no job that stalled can select; the
metrics are absent when there is no registered job. -/
structure Detectable {F : Type} (A : Floats F)
    (h : List ((Str × Str) × Except ValueError Unit)) (observations : Observations)
    (samples : List Sample) : Prop where
  nodup : ∀ now, (workerNeverSucceeded.select A now samples).Nodup
  never : ∀ now labels, labels ∈ workerNeverSucceeded.select A now samples ↔
    ∃ job, labels = jobLabels job ∧ Registered h job ∧ NeverSucceeded observations job
  not_stalled : ∀ now later, ∀ labels ∈ workerNeverSucceeded.select A now samples,
    ∀ stalled ∈ workerStalled.select A later samples,
      stalled.get (lit "job") ≠ labels.get (lit "job")
  absent : ∀ now, workerMetricsAbsent.select A now samples ≠ [] ↔ ∀ job, ¬ Registered h job

theorem series_family (metric name : Str) (rows : List (Str × Value)) :
    ((familySamples metric rows).filter (·.name = name)).map (·.labels) =
      if metric = name then (rows.map (·.1)).map jobLabels else [] := by
  unfold familySamples
  rw [List.filter_map]
  by_cases hm : metric = name
  · rw [if_pos hm, List.filter_eq_self.mpr]
    · rw [List.map_map, List.map_map]
      rfl
    · intro row _
      simpa using hm
  · rw [if_neg hm, List.filter_eq_nil_iff.mpr]
    · rfl
    · intro row _
      simpa using hm

section Series

variable {F : Type} {A : Floats F} {now : F} {roster : List Str} {observations : Observations}

theorem select_metric (metric : Str) : (Query.series metric).select A now
    (expositionSamples roster observations) =
      (if registered = metric then ((registeredRows roster).map (·.1)).map jobLabels else []) ++
      (if lastSuccess = metric then ((lastSuccessRows observations).map (·.1)).map jobLabels
        else []) ++
      (if lastFailure = metric then ((lastFailureRows observations).map (·.1)).map jobLabels
        else []) ++
      (if frozenRuns = metric then ((frozenRunsRows observations).map (·.1)).map jobLabels
        else []) := by
  rw [Query.select_series]
  unfold expositionSamples
  rw [List.filter_append, List.filter_append, List.filter_append, List.map_append, List.map_append,
    List.map_append, series_family, series_family, series_family, series_family]

theorem select_registered : (Query.series registered).select A now
    (expositionSamples roster observations) = (roster.insertionSort (· ≤ ·)).map jobLabels := by
  have h₁ : lastSuccess ≠ registered := by decide
  have h₂ : lastFailure ≠ registered := by decide
  have h₃ : frozenRuns ≠ registered := by decide
  rw [select_metric, if_pos rfl, if_neg h₁, if_neg h₂, if_neg h₃, List.append_nil, List.append_nil,
    List.append_nil, jobs_registeredRows]

theorem select_lastSuccess : (Query.series lastSuccess).select A now
    (expositionSamples roster observations) =
      ((lastSuccessRows observations).map (·.1)).map jobLabels := by
  have h₁ : registered ≠ lastSuccess := by decide
  have h₂ : lastFailure ≠ lastSuccess := by decide
  have h₃ : frozenRuns ≠ lastSuccess := by decide
  rw [select_metric, if_neg h₁, if_pos rfl, if_neg h₂, if_neg h₃, List.nil_append, List.append_nil,
    List.append_nil]

theorem mem_lastSuccess {job : Str} : job ∈ (lastSuccessRows observations).map (·.1) ↔
    ¬ NeverSucceeded observations job := by
  unfold lastSuccessRows NeverSucceeded
  rw [jobs_filterMap (·.lastSuccess)]
  simp only [List.mem_map, List.mem_filter, not_forall]
  constructor
  · rintro ⟨p, ⟨hp, hsome⟩, rfl⟩
    refine ⟨p.2, Observations.mem_sorted.mp hp, fun hnone => ?_⟩
    rw [hnone] at hsome
    cases hsome
  · rintro ⟨obs, hobs, hsome⟩
    exact ⟨(job, obs), ⟨Observations.mem_sorted.mpr hobs, Option.isSome_iff_ne_none.mpr hsome⟩, rfl⟩

theorem select_neverSucceeded {labels : LabelSet} :
    labels ∈ workerNeverSucceeded.select A now (expositionSamples roster observations) ↔
      ∃ job, labels = jobLabels job ∧ job ∈ roster ∧ NeverSucceeded observations job := by
  unfold workerNeverSucceeded
  rw [Query.select_unlessIn, select_registered, select_lastSuccess, List.mem_filter, List.mem_map,
    decide_eq_true_eq]
  constructor
  · rintro ⟨⟨job, hjob, rfl⟩, hout⟩
    refine ⟨job, rfl, (List.perm_insertionSort _ _).mem_iff.mp hjob, ?_⟩
    by_contra hsucc
    exact hout (List.mem_map_of_mem (mem_lastSuccess.mpr hsucc))
  · rintro ⟨job, rfl, hjob, hnever⟩
    refine ⟨⟨job, (List.perm_insertionSort _ _).mem_iff.mpr hjob, rfl⟩, fun hin => ?_⟩
    obtain ⟨job', hjob', hsame⟩ := List.mem_map.mp hin
    rw [jobLabels_injective hsame] at hjob'
    exact mem_lastSuccess.mp hjob' hnever

end Series

/-- **Never-succeeded workers.** Whatever jobs were registered and whatever is observed, the
exposition can be read, and never-succeeded fires for exactly the registered jobs without a
success. -/
theorem never_succeeded_detectable {printable : Char → Bool} {F : Type} (A : Floats F)
    {h : List ((Str × Str) × Except ValueError Unit)} {r : JobRegistry}
    (hr : (jobRegistry printable).Reach .empty h r) (observations : Observations)
    (hroster : ∀ job, Registered h job → Unreserved job)
    (hobs : ∀ job ∈ observations, Unreserved job) :
    ∃ samples, readText (renderExposition r.roster observations) = some samples ∧
      Detectable A h observations samples := by
  have hmem := mem_roster_iff hr
  refine ⟨_, readText_exposition (nodup_roster r) (fun job hjob => hroster job ((hmem job).mp hjob))
    hobs, ?_, ?_, ?_, ?_⟩
  · intro now
    unfold workerNeverSucceeded
    rw [Query.select_unlessIn, select_registered]
    apply List.Nodup.filter
    apply List.Nodup.map jobLabels_injective
    exact (List.perm_insertionSort _ _).nodup_iff.mpr (nodup_roster r)
  · intro now labels
    simp only [select_neverSucceeded, hmem]
  · intro now later labels hlabels stalled hstalled hsame
    obtain ⟨job, rfl, -, hnever⟩ := select_neverSucceeded.mp hlabels
    have hseries := Query.select_age_above _ _ _ _ _ hstalled
    rw [select_lastSuccess] at hseries
    obtain ⟨job', hjob', rfl⟩ := List.mem_map.mp hseries
    rw [jobLabels, jobLabels, LabelSet.get_single, LabelSet.get_single] at hsame
    rw [hsame] at hjob'
    exact mem_lastSuccess.mp hjob' hnever
  · intro now
    unfold workerMetricsAbsent
    rw [Query.select_absent, select_registered, List.map_eq_nil_iff,
      List.eq_nil_iff_forall_not_mem]
    simp only [(List.perm_insertionSort _ r.roster).mem_iff, hmem]

/-- Exact arithmetic, for numbers that floats have exactly. -/
def exactFloats : Floats ℚ where
  ofNumber
    | .exact q => q
    | .infinity _ | .nan => 0
  sub := (· - ·)
  lt x y := x < y

/-- Two jobs are registered, one of them twice. -/
def registrations : List (Str × Str) :=
  [(lit "metrics", lit "0 * * * *"), (lit "suspension", lit "5 0 * * *"),
    (lit "metrics", lit "5 * * * *")]

def registryRan : List ((Str × Str) × Except ValueError Unit) × JobRegistry :=
  (jobRegistry fun _ => true).run .empty registrations

/-- One of them has succeeded. -/
def metricsSucceeded : Observations :=
  AList.singleton (lit "metrics") ⟨some (.finite false 1770000000 0), none, 0⟩

theorem never_succeeded_detectable_suspension : Registered registryRan.1 (lit "suspension") ∧
    ∃ samples, readText (renderExposition registryRan.2.roster metricsSucceeded) = some samples ∧
      Detectable exactFloats registryRan.1 metricsSucceeded samples ∧
      ∀ now, jobLabels (lit "suspension") ∈ workerNeverSucceeded.select exactFloats now samples := by
  have hran : (jobRegistry fun _ => true).Reach .empty registryRan.1 registryRan.2 :=
    Machine.Reach.init.run registrations
  have hreg : Registered registryRan.1 (lit "suspension") :=
    (registered_iff hran _).mpr ⟨_, List.mem_cons_of_mem _ List.mem_cons_self, rfl⟩
  have hroster : ∀ job, Registered registryRan.1 job → Unreserved job := by
    have hall : ∀ x ∈ registryRan.1, Unreserved x.1.1 := by decide
    rintro job ⟨cron, hin⟩
    exact hall _ hin
  have hobs : ∀ job ∈ metricsSucceeded, Unreserved job := by
    intro job hjob
    obtain rfl := List.mem_singleton.mp hjob
    decide
  have hnever : NeverSucceeded metricsSucceeded (lit "suspension") := by
    intro obs hobs
    cases hobs
  obtain ⟨samples, hread, hdet⟩ :=
    never_succeeded_detectable exactFloats hran metricsSucceeded hroster hobs
  exact ⟨hreg, samples, hread, hdet, fun now => (hdet.never now _).mpr ⟨_, rfl, hreg, hnever⟩⟩

end IspPlatform.Observability
