import IspPlatform.Prometheus.TextFormat

/-!
# Queries

The part of the query language that alert rules on one scrape use. A query gives a vector of
elements, each a label set with a value; the values are floating-point numbers, whose
arithmetic is a parameter.
-/

namespace IspPlatform.Prometheus

open Py

/-- The floating-point numbers a query is evaluated with. -/
structure Floats (F : Type) where
  ofNumber : Number → F
  sub : F → F → F
  lt : F → F → Bool

structure Element (F : Type) where
  labels : LabelSet
  value : F

inductive Query where
  /-- The series of a metric. -/
  | series (metric : Str)
  /-- `v unless w`. -/
  | unlessIn (v w : Query)
  /-- `time() - v`. -/
  | age (v : Query)
  /-- `v > bound`. -/
  | above (v : Query) (bound : Int)
  /-- `absent(v)`. -/
  | absent (v : Query)
  deriving DecidableEq

namespace Query

variable {F : Type} (A : Floats F) (now : F) (samples : List Sample)

def eval : Query → List (Element F)
  | series metric =>
    (samples.filter (·.name = metric)).map fun s => ⟨s.labels, A.ofNumber s.value⟩
  | unlessIn v w => (eval v).filter fun e => (eval w).all (·.labels ≠ e.labels)
  | age v => (eval v).map fun e => { e with value := A.sub now e.value }
  | above v bound => (eval v).filter fun e => A.lt (A.ofNumber (.exact bound)) e.value
  | absent v => if (eval v).isEmpty then [⟨LabelSet.empty, A.ofNumber (.exact 1)⟩] else []

/-- The label sets that a query selects. -/
def select (q : Query) : List LabelSet := (q.eval A now samples).map (·.labels)

theorem select_series (metric : Str) : (series metric).select A now samples =
    (samples.filter (·.name = metric)).map (·.labels) := by
  unfold select eval
  rw [List.map_map]
  rfl

theorem select_unlessIn (v w : Query) : (v.unlessIn w).select A now samples =
    (v.select A now samples).filter (· ∉ w.select A now samples) := by
  unfold select
  rw [eval, List.filter_map]
  congr 1
  apply List.filter_congr
  intro e _
  rw [Bool.eq_iff_iff]
  simp

theorem mem_eval_series {metric : Str} {e : Element F} : e ∈ (series metric).eval A now samples ↔
    ∃ s ∈ samples, s.name = metric ∧ e = ⟨s.labels, A.ofNumber s.value⟩ := by
  simp only [eval, List.mem_map, List.mem_filter, decide_eq_true_eq, and_assoc]
  exact exists_congr fun s => and_congr_right fun _ => and_congr_right fun _ => eq_comm

theorem mem_eval_age {v : Query} {e : Element F} : e ∈ v.age.eval A now samples ↔
    ∃ x ∈ v.eval A now samples, e = { x with value := A.sub now x.value } := by
  simp only [eval, List.mem_map, eq_comm]

theorem mem_select_above {v : Query} {bound : Int} {l : LabelSet} :
    l ∈ (v.above bound).select A now samples ↔ ∃ e ∈ v.eval A now samples, l = e.labels ∧
      A.lt (A.ofNumber (.exact bound)) e.value = true := by
  simp only [select, eval, List.mem_map, List.mem_filter, and_assoc]
  exact exists_congr fun e => and_congr_right fun _ => by rw [and_comm, eq_comm]

theorem mem_select_absent {v : Query} {l : LabelSet} : l ∈ v.absent.select A now samples ↔
    l = LabelSet.empty ∧ v.select A now samples = [] := by
  unfold select
  rw [eval]
  by_cases h : v.eval A now samples = []
  · simp [h]
  · simp [h]

/-- A comparison of ages selects some of the series. -/
theorem select_age_above (v : Query) (bound : Int) :
    ((v.age).above bound).select A now samples ⊆ v.select A now samples := by
  intro l hl
  unfold select at hl ⊢
  rw [eval, eval] at hl
  obtain ⟨e, he, rfl⟩ := List.mem_map.mp hl
  obtain ⟨e', he', rfl⟩ := List.mem_map.mp (List.mem_of_mem_filter he)
  exact List.mem_map.mpr ⟨e', he', rfl⟩

theorem select_absent (v : Query) :
    (absent v).select A now samples ≠ [] ↔ v.select A now samples = [] := by
  unfold select
  rw [eval]
  by_cases h : v.eval A now samples = []
  · simp [h]
  · simp [h]

end Query

end IspPlatform.Prometheus
