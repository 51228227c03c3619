import Mathlib.Data.Char
import Mathlib.Data.List.AList
import Mathlib.Data.List.Lex
import Mathlib.Data.List.Sort
import IspPlatform.Py.Machine
import IspPlatform.Py.Numerals

/-!
# The job registry

`register` and `roster`. The schedule of a job is kept with its name.
-/

namespace IspPlatform.Workers

open Py

structure JobRegistry where
  jobs : AList fun _ : Str => Str

namespace JobRegistry

def empty : JobRegistry := ⟨∅⟩

/-- `register`, with what it raises and the registry it leaves. -/
def register (printable : Char → Bool) (r : JobRegistry) (jobName cron : Str) :
    Except ValueError Unit × JobRegistry :=
  if jobName ∈ r.jobs then
    (.error ⟨lit "job " ++ reprStr printable jobName ++ lit " already registered"⟩, r)
  else (.ok (), { r with jobs := r.jobs.insert jobName cron })

def roster (r : JobRegistry) : List Str := r.jobs.keys.insertionSort (· ≤ ·)

end JobRegistry

/-- The registry under calls of `register`. -/
def jobRegistry (printable : Char → Bool) :
    Machine JobRegistry (Str × Str) (Except ValueError Unit) where
  step r call := r.register printable call.1 call.2

/-- Some call registered the job. -/
def Registered (h : List ((Str × Str) × Except ValueError Unit)) (job : Str) : Prop :=
  ∃ cron, ((job, cron), Except.ok ()) ∈ h

variable {printable : Char → Bool} {h : List ((Str × Str) × Except ValueError Unit)}
  {r : JobRegistry}

theorem nodup_roster (r : JobRegistry) : r.roster.Nodup :=
  (List.perm_insertionSort _ _).nodup_iff.mpr r.jobs.keys_nodup

theorem mem_roster {job : Str} : job ∈ r.roster ↔ job ∈ r.jobs := by
  unfold JobRegistry.roster
  rw [(List.perm_insertionSort _ _).mem_iff, AList.mem_keys]

/-- **The roster.** It has the registered jobs and no others. -/
theorem mem_roster_iff (hr : (jobRegistry printable).Reach .empty h r) (job : Str) :
    job ∈ r.roster ↔ Registered h job := by
  rw [mem_roster]
  induction hr with
  | init => simp [JobRegistry.empty, Registered]
  | @call h r call _ ih =>
    show job ∈ (r.register printable call.1 call.2).2.jobs ↔
      Registered (h ++ [(call, (r.register printable call.1 call.2).1)]) job
    unfold JobRegistry.register Registered
    by_cases hdup : call.1 ∈ r.jobs
    · rw [if_pos hdup]
      simp [ih, Registered]
    · rw [if_neg hdup]
      simp only [AList.mem_insert, ih, Registered, List.mem_append, List.mem_singleton,
        Prod.mk.injEq, and_true, exists_or]
      constructor
      · rintro (rfl | hin)
        · exact .inr ⟨call.2, rfl⟩
        · exact .inl hin
      · rintro (hin | ⟨cron, rfl⟩)
        · exact .inr hin
        · exact .inl rfl

theorem register_ok_iff (hr : (jobRegistry printable).Reach .empty h r) (job cron : Str) :
    (r.register printable job cron).1 = .ok () ↔ ¬ Registered h job := by
  rw [← mem_roster_iff hr, mem_roster]
  unfold JobRegistry.register
  by_cases hdup : job ∈ r.jobs
  · rw [if_pos hdup]
    simp [hdup]
  · rw [if_neg hdup]
    simp [hdup]

theorem registered_iff (hr : (jobRegistry printable).Reach .empty h r) (job : Str) :
    Registered h job ↔ ∃ x ∈ h, x.1.1 = job := by
  refine ⟨fun ⟨cron, hin⟩ => ⟨_, hin, rfl⟩, ?_⟩
  rintro ⟨x, hx, rfl⟩
  obtain ⟨pre, post, rfl⟩ := List.append_of_mem hx
  obtain ⟨r₁, hr₁, hres⟩ := hr.moment rfl
  by_cases hreg : Registered pre x.1.1
  · obtain ⟨cron, hin⟩ := hreg
    exact ⟨cron, List.mem_append_left _ hin⟩
  · have hok : x.2 = .ok () := hres.trans ((register_ok_iff hr₁ x.1.1 x.1.2).mpr hreg)
    refine ⟨x.1.2, List.mem_append_right _ ?_⟩
    rw [← hok]
    exact List.mem_cons_self

end IspPlatform.Workers
