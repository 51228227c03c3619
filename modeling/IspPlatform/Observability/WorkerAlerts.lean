import IspPlatform.Observability.LivenessDecoding
import IspPlatform.Observability.LivenessRules
import IspPlatform.Prometheus.Alerts

/-!
# The worker liveness group

The four rules of `worker_liveness`, evaluated again and again over what the application exposes.
A round is one evaluation: the registry and the observations that were scraped, or nothing where
the endpoint did not answer.
-/

namespace IspPlatform.Observability

open Py Prometheus Workers

def workerStalledRule : AlertRule := ⟨lit "WorkerStalled", workerStalled, 600000⟩

def workerNeverSucceededRule : AlertRule :=
  ⟨lit "WorkerNeverSucceeded", workerNeverSucceeded, 1800000⟩

/-- `WorkerFrozenRuns`. -/
def workerFrozenRunsRule : AlertRule :=
  ⟨lit "WorkerFrozenRuns", .above (.series frozenRuns) 0, 900000⟩

def workerMetricsAbsentRule : AlertRule :=
  ⟨lit "WorkerMetricsAbsent", workerMetricsAbsent, 900000⟩

/-- The group `worker_liveness`. -/
def workerLiveness : List AlertRule :=
  [workerStalledRule, workerNeverSucceededRule, workerFrozenRunsRule, workerMetricsAbsentRule]

structure Round where
  /-- In milliseconds. -/
  time : Int
  /-- What was last scraped. -/
  exposed : Option (JobRegistry × Observations)

namespace Round

/-- A scrape that fails, or whose text cannot be read, gives no samples. -/
def samples (s : Round) : List Sample :=
  match s.exposed with
  | none => []
  | some (r, observations) => (readText (renderExposition r.roster observations)).getD []

def evaluation (s : Round) : Evaluation := ⟨s.time, s.samples⟩

/-- The job names have no reserved character. -/
def Plain (s : Round) : Prop :=
  ∀ r observations, s.exposed = some (r, observations) →
    (∀ job ∈ r.roster, Unreserved job) ∧ ∀ job ∈ observations, Unreserved job

/-- The job's observation, where there is one. -/
def observed (s : Round) (job : Str) : Option WorkerObservation :=
  s.exposed.bind fun x => x.2.lookup job

/-- The scheduler expects the job. -/
def Expects (s : Round) (job : Str) : Prop :=
  ∃ r observations, s.exposed = some (r, observations) ∧ job ∈ r.roster

variable {F : Type} (A : Floats F)

/-- A success at `x` is older than the limit. -/
def Old (s : Round) (x : PyFloat) : Prop :=
  A.lt (A.ofNumber (.exact 5400))
    (A.sub (A.ofNumber (.exact (s.time / 1000))) (A.ofNumber (Value.timestamp x).number)) = true

/-- The last success is too long ago. -/
def Stalls (s : Round) (job : Str) : Prop :=
  ∃ obs x, s.observed job = some obs ∧ obs.lastSuccess = some x ∧ s.Old A x

/-- Expected, and without a success. -/
def Unproven (s : Round) (job : Str) : Prop :=
  s.Expects job ∧ ∀ obs, s.observed job = some obs → obs.lastSuccess = none

/-- There are runs that never completed. -/
def Freezes (s : Round) (job : Str) : Prop :=
  ∃ obs, s.observed job = some obs ∧
    A.lt (A.ofNumber (.exact 0)) (A.ofNumber (.exact obs.frozenRuns)) = true

/-- No job is expected, or nothing is exposed. -/
def Blind (s : Round) : Prop := ∀ job, ¬ s.Expects job

end Round

/-! ## What each rule selects -/

section
variable {roster : List Str} {observations : Observations} {x : Sample}

theorem name_familySamples {metric : Str} {rows : List (Str × Value)}
    (h : x ∈ familySamples metric rows) : x.name = metric := by
  obtain ⟨job, v, -, rfl⟩ := mem_familySamples.mp h
  rfl

/-- The families of an exposition, with their metrics. -/
def families (roster : List Str) (observations : Observations) : List (Str × List (Str × Value)) :=
  [(registered, registeredRows roster), (lastSuccess, lastSuccessRows observations),
    (lastFailure, lastFailureRows observations), (frozenRuns, frozenRunsRows observations)]

theorem expositionSamples_eq : expositionSamples roster observations =
    (families roster observations).flatMap fun f => familySamples f.1 f.2 := by
  simp [expositionSamples, families]

theorem sample_family {metric : Str} {rows : List (Str × Value)}
    (h : (metric, rows) ∈ families roster observations) :
    (x ∈ expositionSamples roster observations ∧ x.name = metric) ↔
      x ∈ familySamples metric rows := by
  have hmetrics : ((families roster observations).map (·.1)).Nodup :=
    (by decide : [registered, lastSuccess, lastFailure, frozenRuns].Nodup)
  rw [expositionSamples_eq, List.mem_flatMap]
  constructor
  · rintro ⟨⟨f, hf, hx⟩, hname⟩
    have hsame : f = (metric, rows) :=
      List.inj_on_of_nodup_map hmetrics hf h ((name_familySamples hx).symm.trans hname)
    rwa [hsame] at hx
  · exact fun hx => ⟨⟨_, h, hx⟩, name_familySamples hx⟩

theorem sample_lastSuccess :
    (x ∈ expositionSamples roster observations ∧ x.name = lastSuccess) ↔
      x ∈ familySamples lastSuccess (lastSuccessRows observations) :=
  sample_family (by simp [families])

theorem sample_frozenRuns :
    (x ∈ expositionSamples roster observations ∧ x.name = frozenRuns) ↔
      x ∈ familySamples frozenRuns (frozenRunsRows observations) :=
  sample_family (by simp [families])

end

namespace Round

variable {F : Type} {A : Floats F} {s : Round} {l : LabelSet}

theorem samples_exposed (hp : s.Plain) {r : JobRegistry} {observations : Observations}
    (h : s.exposed = some (r, observations)) :
    s.samples = expositionSamples r.roster observations := by
  obtain ⟨hroster, hobs⟩ := hp r observations h
  unfold samples
  rw [h]
  dsimp only
  rw [readText_exposition (nodup_roster r) hroster hobs]
  rfl

theorem samples_nothing (h : s.exposed = none) : s.samples = [] := by
  unfold samples
  rw [h]

theorem mem_samples (hp : s.Plain) {x : Sample} : x ∈ s.samples ↔
    ∃ r observations, s.exposed = some (r, observations) ∧
      x ∈ expositionSamples r.roster observations := by
  cases h : s.exposed with
  | none => simp [samples_nothing h]
  | some e =>
    obtain ⟨r, observations⟩ := e
    simp [samples_exposed hp h]

theorem observed_eq_some {job : Str} {obs : WorkerObservation} : s.observed job = some obs ↔
    ∃ r observations, s.exposed = some (r, observations) ∧ observations.lookup job = some obs := by
  simp [observed, Option.bind_eq_some_iff]

theorem selected_stalled (hp : s.Plain) :
    l ∈ workerStalledRule.selected A s.evaluation ↔
      ∃ job, l = jobLabels job ∧ s.Stalls A job := by
  unfold AlertRule.selected workerStalledRule workerStalled evaluation
  simp only [Query.mem_select_above, Query.mem_eval_age, Query.mem_eval_series, mem_samples hp]
  constructor
  · rintro ⟨_, ⟨_, ⟨x, ⟨r, observations, hexp, hx⟩, hname, rfl⟩, rfl⟩, rfl, hlt⟩
    obtain ⟨job, v, hrow, rfl⟩ := mem_familySamples.mp (sample_lastSuccess.mp ⟨hx, hname⟩)
    obtain ⟨obs, t, hobs, ht, rfl⟩ := mem_timestampRows.mp hrow
    exact ⟨job, rfl, obs, t, observed_eq_some.mpr ⟨r, observations, hexp, hobs⟩, ht, hlt⟩
  · rintro ⟨job, rfl, obs, t, hobs, ht, hlt⟩
    obtain ⟨r, observations, hexp, hobs⟩ := observed_eq_some.mp hobs
    obtain ⟨hx, hname⟩ := sample_lastSuccess.mpr (mem_familySamples.mpr
      ⟨job, _, mem_timestampRows.mpr ⟨obs, t, hobs, ht, rfl⟩, rfl⟩)
    exact ⟨_, ⟨_, ⟨_, ⟨r, observations, hexp, hx⟩, hname, rfl⟩, rfl⟩, rfl, hlt⟩

theorem selected_frozen (hp : s.Plain) :
    l ∈ workerFrozenRunsRule.selected A s.evaluation ↔
      ∃ job, l = jobLabels job ∧ s.Freezes A job := by
  unfold AlertRule.selected workerFrozenRunsRule evaluation
  simp only [Query.mem_select_above, Query.mem_eval_series, mem_samples hp]
  constructor
  · rintro ⟨_, ⟨x, ⟨r, observations, hexp, hx⟩, hname, rfl⟩, rfl, hlt⟩
    obtain ⟨job, v, hrow, rfl⟩ := mem_familySamples.mp (sample_frozenRuns.mp ⟨hx, hname⟩)
    obtain ⟨obs, hobs, rfl⟩ := mem_frozenRunsRows.mp hrow
    exact ⟨job, rfl, obs, observed_eq_some.mpr ⟨r, observations, hexp, hobs⟩, hlt⟩
  · rintro ⟨job, rfl, obs, hobs, hlt⟩
    obtain ⟨r, observations, hexp, hobs⟩ := observed_eq_some.mp hobs
    obtain ⟨hx, hname⟩ := sample_frozenRuns.mpr (mem_familySamples.mpr
      ⟨job, _, mem_frozenRunsRows.mpr ⟨obs, hobs, rfl⟩, rfl⟩)
    exact ⟨_, ⟨_, ⟨r, observations, hexp, hx⟩, hname, rfl⟩, rfl, hlt⟩

theorem selected_neverSucceeded (hp : s.Plain) :
    l ∈ workerNeverSucceededRule.selected A s.evaluation ↔
      ∃ job, l = jobLabels job ∧ s.Unproven job := by
  unfold AlertRule.selected workerNeverSucceededRule evaluation
  dsimp only
  cases h : s.exposed with
  | none =>
    rw [samples_nothing h]
    simp [workerNeverSucceeded, Query.select, Query.eval, Unproven, Expects, h]
  | some e =>
    obtain ⟨r, observations⟩ := e
    rw [samples_exposed hp h, select_neverSucceeded]
    simp [Unproven, Expects, observed, NeverSucceeded, h]

theorem selected_absent (hp : s.Plain) :
    l ∈ workerMetricsAbsentRule.selected A s.evaluation ↔ l = LabelSet.empty ∧ s.Blind := by
  unfold AlertRule.selected workerMetricsAbsentRule workerMetricsAbsent evaluation
  dsimp only
  rw [Query.mem_select_absent]
  refine and_congr_right fun _ => ?_
  cases h : s.exposed with
  | none =>
    rw [samples_nothing h]
    simp [Query.select, Query.eval, Blind, Expects, h]
  | some e =>
    obtain ⟨r, observations⟩ := e
    rw [samples_exposed hp h, select_registered, List.map_eq_nil_iff,
      List.eq_nil_iff_forall_not_mem]
    simp [Blind, Expects, h, (List.perm_insertionSort _ r.roster).mem_iff]

end Round

/-! ## When the alerts fire -/

section
variable {F : Type} {A : Floats F} {rounds : List Round}

/-- When each alert of the group fires at the last of some rounds. -/
structure Fires (A : Floats F) (rounds : List Round) : Prop where
  stalled : ∀ l, l ∈ workerStalledRule.firing A (rounds.map Round.evaluation) ↔
    ∃ job, l = jobLabels job ∧ Held Round.time (·.Stalls A job) 600000 rounds
  never : ∀ l, l ∈ workerNeverSucceededRule.firing A (rounds.map Round.evaluation) ↔
    ∃ job, l = jobLabels job ∧ Held Round.time (·.Unproven job) 1800000 rounds
  frozen : ∀ l, l ∈ workerFrozenRunsRule.firing A (rounds.map Round.evaluation) ↔
    ∃ job, l = jobLabels job ∧ Held Round.time (·.Freezes A job) 900000 rounds
  absent : ∀ l, l ∈ workerMetricsAbsentRule.firing A (rounds.map Round.evaluation) ↔
    l = LabelSet.empty ∧ Held Round.time Round.Blind 900000 rounds

theorem held_job {P : Round → Str → Prop} {d : Int} {l : LabelSet} :
    Held Round.time (fun s => ∃ job, l = jobLabels job ∧ P s job) d rounds ↔
      ∃ job, l = jobLabels job ∧ Held Round.time (P · job) d rounds := by
  constructor
  · rintro ⟨pre, e, post, last, rfl, hlast, hall, hd⟩
    obtain ⟨job, rfl, -⟩ := hall e List.mem_cons_self
    refine ⟨job, rfl, pre, e, post, last, rfl, hlast, ?_, hd⟩
    intro x hx
    obtain ⟨job', hsame, hP⟩ := hall x hx
    exact jobLabels_injective hsame ▸ hP
  · rintro ⟨job, rfl, h⟩
    exact h.imp fun _ _ hP => ⟨job, rfl, hP⟩

theorem ordered_evaluations (h : InOrder Round.time rounds) :
    InOrder Evaluation.time (rounds.map Round.evaluation) :=
  List.pairwise_map.mpr h

/-- A rule fires for what it selected at each round of a streak. -/
theorem fires_rounds {r : AlertRule} {l : LabelSet} {P : Round → Prop}
    (hord : InOrder Round.time rounds)
    (hsel : ∀ s ∈ rounds, (l ∈ r.selected A s.evaluation ↔ P s)) :
    l ∈ r.firing A (rounds.map Round.evaluation) ↔ Held Round.time P r.hold rounds := by
  rw [fires_iff (ordered_evaluations hord), held_map]
  exact Held.congr hsel

theorem job_fires {r : AlertRule} {l : LabelSet} {P : Round → Str → Prop}
    (hord : InOrder Round.time rounds) (hsel : ∀ s ∈ rounds,
      (l ∈ r.selected A s.evaluation ↔ ∃ job, l = jobLabels job ∧ P s job)) :
    l ∈ r.firing A (rounds.map Round.evaluation) ↔
      ∃ job, l = jobLabels job ∧ Held Round.time (P · job) r.hold rounds := by
  rw [fires_rounds hord hsel, held_job]

/-- **When the group fires.** Over any rounds, each alert fires for exactly the jobs whose
condition held at every evaluation for the rule's `for`. -/
theorem group_fires (hord : InOrder Round.time rounds) (hp : ∀ s ∈ rounds, s.Plain) :
    Fires A rounds where
  stalled _ := job_fires hord fun s hs => Round.selected_stalled (hp s hs)
  never _ := job_fires hord fun s hs => Round.selected_neverSucceeded (hp s hs)
  frozen _ := job_fires hord fun s hs => Round.selected_frozen (hp s hs)
  absent l := by
    rw [fires_rounds hord fun s hs => Round.selected_absent (hp s hs)]
    constructor
    · rintro ⟨pre, e, post, last, rfl, hlast, hall, hd⟩
      exact ⟨(hall e List.mem_cons_self).1, pre, e, post, last, rfl, hlast,
        fun x hx => (hall x hx).2, hd⟩
    · rintro ⟨rfl, h⟩
      exact h.imp fun _ _ hb => ⟨rfl, hb⟩

/-! ## Quiet rounds -/

/-- Numbers as the rules need them: an age in milliseconds against the limit, and a sign. -/
structure Accurate (A : Floats F) : Prop where
  age : ∀ (ms : Int) (sec : Nat), 0 ≤ ms → ms < 2 ^ 50 → sec < 2 ^ 40 →
    (A.lt (A.ofNumber (.exact 5400))
      (A.sub (A.ofNumber (.exact (ms / 1000))) (A.ofNumber (.exact sec))) = true ↔
        5400000 < ms - 1000 * sec)
  positive : ∀ n : Int,
    A.lt (A.ofNumber (.exact 0)) (A.ofNumber (.exact n)) = true ↔ 0 < n

/-- Every expected job has succeeded, no known success is old, and no run is frozen. -/
def Round.Healthy (A : Floats F) (s : Round) : Prop :=
  ∃ r observations, s.exposed = some (r, observations) ∧ r.roster ≠ [] ∧
    (∀ job ∈ r.roster, ∃ obs, observations.lookup job = some obs ∧ obs.lastSuccess ≠ none) ∧
    ∀ job obs, observations.lookup job = some obs →
      obs.frozenRuns ≤ 0 ∧ ∀ x, obs.lastSuccess = some x → ¬ s.Old A x

/-- **A quiet group.** Whatever came before, no alert of the group is pending or firing after a
round exactly if it is healthy: jobs that are not expected, and failures, count for nothing but
through what they leave behind. -/
theorem quiet_iff (hA : Accurate A) {s : Round} (hp : s.Plain) :
    (∀ r ∈ workerLiveness, r.run A ((rounds ++ [s]).map Round.evaluation) = []) ↔
      s.Healthy A := by
  have hjobs : ∀ {P : Str → Prop},
      (∀ l, ¬ ∃ job, l = jobLabels job ∧ P job) ↔ ∀ job, ¬ P job := fun {P} =>
    ⟨fun h job hP => h _ ⟨job, rfl, hP⟩, fun h _ ⟨job, _, hP⟩ => h job hP⟩
  have hblind : (∀ l : LabelSet, ¬ (l = LabelSet.empty ∧ s.Blind)) ↔ ¬ s.Blind :=
    ⟨fun h hb => h _ ⟨rfl, hb⟩, fun h l hl => h hl.2⟩
  simp only [workerLiveness, List.forall_mem_cons, List.map_append, List.map_cons, List.map_nil,
    run_concat_eq_nil, Round.selected_stalled hp, Round.selected_neverSucceeded hp,
    Round.selected_frozen hp, Round.selected_absent hp, hjobs, hblind, List.not_mem_nil,
    false_implies, implies_true, and_true]
  constructor
  · rintro ⟨hstalled, hnever, hfrozen, hseen⟩
    obtain ⟨job, r, observations, hexp, hjob⟩ := not_forall_not.mp hseen
    have hobserved : ∀ job, s.observed job = observations.lookup job := by
      intro job
      rw [Round.observed, hexp]
      rfl
    refine ⟨r, observations, hexp, List.ne_nil_of_mem hjob, ?_, ?_⟩
    · intro job hjob
      have hproven := hnever job
      rw [Round.Unproven, hobserved] at hproven
      by_contra hno
      refine hproven ⟨⟨r, observations, hexp, hjob⟩, fun obs hobs => ?_⟩
      by_contra hsome
      exact hno ⟨obs, hobs, hsome⟩
    · intro job obs hobs
      rw [← hobserved] at hobs
      constructor
      · by_contra hpos
        exact hfrozen job ⟨obs, hobs, (hA.positive _).mpr (by omega)⟩
      · intro x hx hold
        exact hstalled job ⟨obs, x, hobs, hx, hold⟩
  · rintro ⟨r, observations, hexp, hne, hproven, hfresh⟩
    have hobserved : ∀ job, s.observed job = observations.lookup job := by
      intro job
      rw [Round.observed, hexp]
      rfl
    refine ⟨?_, ?_, ?_, ?_⟩
    · rintro job ⟨obs, x, hobs, hx, hold⟩
      rw [hobserved] at hobs
      exact (hfresh job obs hobs).2 x hx hold
    · rintro job ⟨⟨r', observations', hexp', hjob⟩, hnone⟩
      cases hexp.symm.trans hexp'
      obtain ⟨obs, hobs, hsome⟩ := hproven job hjob
      rw [← hobserved] at hobs
      exact hsome (hnone obs hobs)
    · rintro job ⟨obs, hobs, hlt⟩
      rw [hobserved] at hobs
      have hle := (hfresh job obs hobs).1
      have hpos := (hA.positive _).mp hlt
      omega
    · intro hblind
      obtain ⟨job, hjob⟩ := List.exists_mem_of_ne_nil _ hne
      exact hblind job ⟨r, observations, hexp, hjob⟩

/-! ## How late the group is -/

/-- The last success of a job, where one is known. -/
def Round.lastSuccess (s : Round) (job : Str) : Option PyFloat :=
  (s.observed job).bind (·.lastSuccess)

/-- When a job is to be detected whose record stands still from `a` on: a success at second `sec`,
or none. -/
def deadline (a : Int) : Option Nat → Int
  | none => a + 1800000
  | some sec => max a (1000 * (sec + 5400) + 1) + 600000

/-- **No silent worker.** A job that is expected, and whose last success stands still, fires one of
the alerts at every evaluation from its deadline on, one interval between evaluations allowed. -/
theorem no_silent_worker (hA : Accurate A) {gap : Int} (hgap : 0 ≤ gap)
    (hreg : Regular Round.time gap rounds) (hp : ∀ s ∈ rounds, s.Plain)
    (hclock : ∀ s ∈ rounds, 0 ≤ s.time ∧ s.time < 2 ^ 50) {first last : Round}
    (hfirst : rounds.head? = some first) (hlast : rounds.getLast? = some last) {a : Int}
    (hstart : first.time ≤ a) {job : Str} {stamp : Option PyFloat} {sec : Option Nat}
    (hsec : (stamp = none ∧ sec = none) ∨ ∃ x n, stamp = some x ∧ sec = some n ∧ n < 2 ^ 40 ∧
      (Value.timestamp x).number = .exact n)
    (hexpects : ∀ s ∈ rounds, a ≤ s.time → s.Expects job)
    (hidle : ∀ s ∈ rounds, a ≤ s.time → s.lastSuccess job = stamp)
    (hend : deadline a sec + gap ≤ last.time) :
    jobLabels job ∈ workerNeverSucceededRule.firing A (rounds.map Round.evaluation) ∨
      jobLabels job ∈ workerStalledRule.firing A (rounds.map Round.evaluation) := by
  rcases hsec with ⟨rfl, rfl⟩ | ⟨x, n, rfl, rfl, hn, hnum⟩
  · left
    rw [job_fires hreg.ordered fun s hs => Round.selected_neverSucceeded (hp s hs)]
    refine ⟨job, rfl, held_since (a := a) hreg hfirst hlast hgap (by decide) (by omega) ?_ ?_⟩
    · have hdue : a + 1800000 + gap ≤ last.time := hend
      show a + gap + 1800000 ≤ last.time
      omega
    · intro s hs hle
      refine ⟨hexpects s hs hle, fun obs hobs => ?_⟩
      have hnone := hidle s hs hle
      rw [Round.lastSuccess, hobs] at hnone
      exact hnone
  · right
    rw [job_fires hreg.ordered fun s hs => Round.selected_stalled (hp s hs)]
    have hdue : max a (1000 * ((n : Int) + 5400) + 1) + 600000 + gap ≤ last.time := hend
    refine ⟨job, rfl, held_since (a := max a (1000 * ((n : Int) + 5400) + 1)) hreg hfirst hlast
      hgap (by decide) (by omega) ?_ ?_⟩
    · show max a (1000 * ((n : Int) + 5400) + 1) + gap + 600000 ≤ last.time
      omega
    · intro s hs hle
      have hsome := hidle s hs (by omega)
      obtain ⟨obs, hobs, hx⟩ := Option.bind_eq_some_iff.mp hsome
      refine ⟨obs, x, hobs, hx, ?_⟩
      obtain ⟨h0, hmax⟩ := hclock s hs
      rw [Round.Old, hnum]
      exact (hA.age s.time n h0 hmax hn).mpr (by omega)

end

theorem accurate_exactFloats : Accurate exactFloats where
  age ms sec _ _ _ := by
    simp only [exactFloats, decide_eq_true_eq]
    rw [lt_sub_iff_add_lt, lt_div_iff₀ (by norm_num)]
    norm_cast
    omega
  positive n := by
    simp only [exactFloats, decide_eq_true_eq]
    norm_cast

/-- One job is registered. -/
def suspensionRegistry : JobRegistry :=
  (JobRegistry.empty.register (fun _ => true) (lit "suspension") (lit "5 0 * * *")).2

/-- Evaluations half an hour apart, without any run of the job. -/
def neverRan : List Round :=
  [⟨1770000000000, some (suspensionRegistry, ∅)⟩, ⟨1770001800000, some (suspensionRegistry, ∅)⟩,
    ⟨1770003600000, some (suspensionRegistry, ∅)⟩]

theorem roster_suspension : suspensionRegistry.roster = [lit "suspension"] := by decide

theorem plain_suspension (t : Int) {observations : Observations}
    (hobs : ∀ job ∈ observations, job = lit "suspension") :
    (Round.mk t (some (suspensionRegistry, observations))).Plain := by
  have hname : Unreserved (lit "suspension") := by decide
  rintro r observations ⟨⟩
  refine ⟨?_, fun job hjob => hobs job hjob ▸ hname⟩
  rw [roster_suspension]
  intro job hjob
  exact List.mem_singleton.mp hjob ▸ hname

theorem regular_neverRan : Regular Round.time 1800000 neverRan :=
  .cons_cons (by decide) (.cons_cons (by decide) (.singleton _))

theorem plain_neverRan : ∀ s ∈ neverRan, s.Plain := by
  simp only [neverRan, List.forall_mem_cons, List.not_mem_nil, false_implies, implies_true,
    and_true]
  have hnone : ∀ job ∈ (∅ : Observations), job = lit "suspension" :=
    fun job hjob => absurd hjob (AList.notMem_empty _)
  exact ⟨plain_suspension _ hnone, plain_suspension _ hnone, plain_suspension _ hnone⟩

theorem group_fires_neverRan : Fires exactFloats neverRan :=
  group_fires regular_neverRan.ordered plain_neverRan

theorem no_silent_worker_neverRan :
    jobLabels (lit "suspension") ∈
        workerNeverSucceededRule.firing exactFloats (neverRan.map Round.evaluation) ∨
      jobLabels (lit "suspension") ∈
        workerStalledRule.firing exactFloats (neverRan.map Round.evaluation) := by
  refine no_silent_worker accurate_exactFloats (by decide) regular_neverRan plain_neverRan ?_ rfl
    rfl (a := 1770000000000) (by decide) (.inl ⟨rfl, rfl⟩) ?_ ?_ (by decide)
  · simp only [neverRan, List.forall_mem_cons, List.not_mem_nil, false_implies, implies_true,
      and_true]
    decide
  · simp only [neverRan, List.forall_mem_cons, List.not_mem_nil, false_implies, implies_true,
      and_true]
    have hexpects : ∀ t, (Round.mk t (some (suspensionRegistry, ∅))).Expects (lit "suspension") :=
      fun t => ⟨_, _, rfl, roster_suspension ▸ List.mem_singleton_self _⟩
    exact ⟨fun _ => hexpects _, fun _ => hexpects _, fun _ => hexpects _⟩
  · simp only [neverRan, List.forall_mem_cons, List.not_mem_nil, false_implies, implies_true,
      and_true]
    exact ⟨fun _ => rfl, fun _ => rfl, fun _ => rfl⟩

/-- The job has run a minute before. -/
def justRan : Round :=
  ⟨1770000060000, some (suspensionRegistry, AList.singleton (lit "suspension")
    ⟨some (.finite false 1770000000 0), none, 0⟩)⟩

theorem lookup_singleton {job job' : Str} {obs obs' : WorkerObservation} :
    (AList.singleton job obs : Observations).lookup job' = some obs' ↔ job' = job ∧ obs' = obs := by
  rw [← Option.mem_def, AList.mem_lookup_iff]
  simp

theorem quiet_iff_justRan : justRan.Healthy exactFloats ∧
    ∀ r ∈ workerLiveness, r.run exactFloats (([] ++ [justRan]).map Round.evaluation) = [] := by
  have hplain : justRan.Plain := plain_suspension _ fun job hjob => List.mem_singleton.mp hjob
  suffices hhealthy : justRan.Healthy exactFloats from
    ⟨hhealthy, (quiet_iff accurate_exactFloats hplain).mpr hhealthy⟩
  refine ⟨_, _, rfl, ?_, ?_, ?_⟩
  · rw [roster_suspension]
    decide
  · rw [roster_suspension]
    intro job hjob
    exact ⟨_, lookup_singleton.mpr ⟨List.mem_singleton.mp hjob, rfl⟩, fun h => nomatch h⟩
  · intro job obs hobs
    obtain ⟨-, rfl⟩ := lookup_singleton.mp hobs
    refine ⟨by decide, ?_⟩
    rintro x ⟨⟩
    have hnum : (Value.timestamp (.finite false 1770000000 0)).number = .exact (1770000000 : Nat) :=
      rfl
    rw [Round.Old, hnum, justRan]
    rw [accurate_exactFloats.age 1770000060000 1770000000 (by decide) (by decide) (by decide)]
    decide

end IspPlatform.Observability
