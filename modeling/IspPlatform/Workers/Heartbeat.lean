import IspPlatform.Py.Text
import IspPlatform.Py.Pool

/-!
# Job runs with a heartbeat

`runWithHeartbeat` opens a row, runs the job body and closes the row. The `try`
statement holds the body alone: a logger call or `close_run` that raises leaves the
wrapper, and so does a cancellation of the body.
-/

namespace IspPlatform.Workers

open Py Prog System

inductive HeartbeatStatus where
  | running
  | completed
  | failed
  deriving DecidableEq, Repr

/-- A moment, with its ISO text. -/
structure Moment where
  micros : Int
  isoformat : Str
  deriving DecidableEq, Repr

/-- `RunHandle`. -/
structure RunHandle where
  jobName : Str
  startedAt : Moment
  processed : Int
  skipped : Int
  failures : Int
  notes : List (Str × Str)
  deriving DecidableEq, Repr

structure Exn where
  msg : Str
  deriving DecidableEq, Repr

/-- The clock, the calls of `Logger` and `HeartbeatStore`, and the job body. A logger is
the reference `bind` gave back. -/
inductive Call where
  | now
  | bind (job runStartedAt : Str)
  | openRun (jobName : Str) (startedAt : Moment)
  | info (log : Nat) (event : Str) (fields : List (Str × Int))
  | exception (log : Nat) (event : Str) (fields : List (Str × Int))
  | closeRun (jobName : Str) (status : HeartbeatStatus) (handle : RunHandle)
  | body (handle : RunHandle)
  deriving DecidableEq, Repr

/-- The body gives back its handle as it left it, and how it ended. -/
@[reducible] def Call.Res : Call → Type
  | .now => Moment
  | .bind .. => Nat
  | .body _ => RunHandle × Outcome Exn Unit
  | _ => Unit

@[reducible] def calls : Iface := { Op := Call, Res := Call.Res, Exn := Exn }

abbrev call (c : Call) : Prog calls c.Res := Prog.call (I := calls) c

def processedField (h : RunHandle) : List (Str × Int) := [(lit "processed", h.processed)]

def counterFields (h : RunHandle) : List (Str × Int) :=
  [(lit "processed", h.processed), (lit "skipped", h.skipped), (lit "failures", h.failures)]

/-- `run_with_heartbeat`. -/
def runWithHeartbeat (jobName : Str) : Prog calls HeartbeatStatus := do
  let startedAt ← call .now
  let log ← call (.bind jobName startedAt.isoformat)
  let handle : RunHandle := ⟨jobName, startedAt, 0, 0, 0, []⟩
  call (.openRun jobName startedAt)
  call (.info log (lit "job.start") [])
  let (handle, outcome) ← call (.body handle)
  match outcome with
  | .raised _ => do
    call (.exception log (lit "job.failed") (processedField handle))
    call (.closeRun jobName .failed handle)
    return .failed
  | .cancelled => .done .cancelled
  | .ret () => do
    call (.info log (lit "job.completed") (counterFields handle))
    call (.closeRun jobName .completed handle)
    return .completed

/-! ## Program points -/

section
variable (job : Str)

def opened (m : Moment) : Event calls := ⟨.openRun job m, .ret ()⟩

/-- The calls up to the body. -/
def prologue (m : Moment) (log : Nat) : List (Event calls) :=
  [⟨.now, .ret m⟩, ⟨.bind job m.isoformat, .ret log⟩, opened job m,
    ⟨.info log (lit "job.start") [], .ret ()⟩]

/-- The body, ended with `o`. -/
def ran (m : Moment) (h : RunHandle) (o : Outcome Exn Unit) : Event calls :=
  ⟨.body ⟨job, m, 0, 0, 0, []⟩, .ret (h, o)⟩

/-- The calls that returned, and the next one. -/
inductive Leading : List (Event calls) → Call → Prop where
  | now : Leading [] .now
  | bind (m : Moment) : Leading [⟨.now, .ret m⟩] (.bind job m.isoformat)
  | openRun (m : Moment) (log : Nat) :
      Leading [⟨.now, .ret m⟩, ⟨.bind job m.isoformat, .ret log⟩] (.openRun job m)
  | start (m : Moment) (log : Nat) :
      Leading [⟨.now, .ret m⟩, ⟨.bind job m.isoformat, .ret log⟩, opened job m]
        (.info log (lit "job.start") [])
  | body (m : Moment) (log : Nat) :
      Leading (prologue job m log) (.body ⟨job, m, 0, 0, 0, []⟩)
  | completed (m : Moment) (log : Nat) (h : RunHandle) :
      Leading (prologue job m log ++ [ran job m h (.ret ())])
        (.info log (lit "job.completed") (counterFields h))
  | closeCompleted (m : Moment) (log : Nat) (h : RunHandle) :
      Leading (prologue job m log ++ [ran job m h (.ret ()),
        ⟨.info log (lit "job.completed") (counterFields h), .ret ()⟩])
        (.closeRun job .completed h)
  | failed (m : Moment) (log : Nat) (h : RunHandle) (e : Exn) :
      Leading (prologue job m log ++ [ran job m h (.raised e)])
        (.exception log (lit "job.failed") (processedField h))
  | closeFailed (m : Moment) (log : Nat) (h : RunHandle) (e : Exn) :
      Leading (prologue job m log ++ [ran job m h (.raised e),
        ⟨.exception log (lit "job.failed") (processedField h), .ret ()⟩])
        (.closeRun job .failed h)

/-- The program points of `runWithHeartbeat`. -/
inductive HeartbeatPoint : List (Event calls) → Head calls HeartbeatStatus → Prop where
  | leading {b : List (Event calls)} {op : Call} : Leading job b op → HeartbeatPoint b (.call op)
  | halted {b : List (Event calls)} {op : Call} {r : Reply calls op}
      {o : Outcome Exn HeartbeatStatus} : Leading job b op → Halts r o →
      HeartbeatPoint (b ++ [⟨op, r⟩]) (.ended o)
  | completed (m : Moment) (log : Nat) (h : RunHandle) :
      HeartbeatPoint (prologue job m log ++ [ran job m h (.ret ()),
        ⟨.info log (lit "job.completed") (counterFields h), .ret ()⟩,
        ⟨.closeRun job .completed h, .ret ()⟩]) (.ended (.ret .completed))
  | failed (m : Moment) (log : Nat) (h : RunHandle) (e : Exn) :
      HeartbeatPoint (prologue job m log ++ [ran job m h (.raised e),
        ⟨.exception log (lit "job.failed") (processedField h), .ret ()⟩,
        ⟨.closeRun job .failed h, .ret ()⟩]) (.ended (.ret .failed))
  | cancelled (m : Moment) (log : Nat) (h : RunHandle) :
      HeartbeatPoint (prologue job m log ++ [ran job m h .cancelled]) (.ended .cancelled)

end

variable {job : Str} {t : List (Event calls)} {q : Prog calls HeartbeatStatus}

/-- What follows the body. -/
def finish (jobName : Str) (log : Nat) (handle : RunHandle) :
    Outcome Exn Unit → Prog calls HeartbeatStatus
  | .raised _ => do
    call (.exception log (lit "job.failed") (processedField handle))
    call (.closeRun jobName .failed handle)
    return .failed
  | .cancelled => .done .cancelled
  | .ret () => do
    call (.info log (lit "job.completed") (counterFields handle))
    call (.closeRun jobName .completed handle)
    return .completed

theorem finish_point {m : Moment} {log : Nat} {h : RunHandle} {o : Outcome Exn Unit}
    (hf : After (finish job log h o) t q) :
    HeartbeatPoint job (prologue job m log ++ ran job m h o :: t) q.head := by
  cases o with
  | ret u =>
    rcases After.call_cases hf with ⟨rfl, hq⟩ | ⟨-, t₁, rfl, h₁⟩ | ⟨r, o, hr, rfl, rfl⟩
    · rw [hq]; exact .leading (.completed m log h)
    · rcases After.call_cases h₁ with ⟨rfl, hq⟩ | ⟨-, t₂, rfl, h₂⟩ | ⟨r, o, hr, rfl, rfl⟩
      · rw [hq]; exact .leading (.closeCompleted m log h)
      · obtain ⟨rfl, rfl⟩ := After.done_iff.mp h₂
        exact .completed m log h
      · exact .halted (.closeCompleted m log h) hr
    · exact .halted (.completed m log h) hr
  | raised e =>
    rcases After.call_cases hf with ⟨rfl, hq⟩ | ⟨-, t₁, rfl, h₁⟩ | ⟨r, o, hr, rfl, rfl⟩
    · rw [hq]; exact .leading (.failed m log h e)
    · rcases After.call_cases h₁ with ⟨rfl, hq⟩ | ⟨-, t₂, rfl, h₂⟩ | ⟨r, o, hr, rfl, rfl⟩
      · rw [hq]; exact .leading (.closeFailed m log h e)
      · obtain ⟨rfl, rfl⟩ := After.done_iff.mp h₂
        exact .failed m log h e
      · exact .halted (.closeFailed m log h e) hr
    · exact .halted (.failed m log h e) hr
  | cancelled =>
    obtain ⟨rfl, rfl⟩ := After.done_iff.mp hf
    exact .cancelled m log h

/-- **Program points.** Every point `runWithHeartbeat` can be at. -/
theorem runWithHeartbeat_point (h : After (runWithHeartbeat job) t q) :
    HeartbeatPoint job t q.head := by
  unfold runWithHeartbeat at h
  rcases After.call_cases h with ⟨rfl, hq⟩ | ⟨m, t₁, rfl, h₁⟩ | ⟨r, o, hr, rfl, rfl⟩
  · rw [hq]; exact .leading .now
  · rcases After.call_cases h₁ with ⟨rfl, hq⟩ | ⟨log, t₂, rfl, h₂⟩ | ⟨r, o, hr, rfl, rfl⟩
    · rw [hq]; exact .leading (.bind m)
    · rcases After.call_cases h₂ with ⟨rfl, hq⟩ | ⟨-, t₃, rfl, h₃⟩ | ⟨r, o, hr, rfl, rfl⟩
      · rw [hq]; exact .leading (.openRun m log)
      · rcases After.call_cases h₃ with ⟨rfl, hq⟩ | ⟨-, t₄, rfl, h₄⟩ | ⟨r, o, hr, rfl, rfl⟩
        · rw [hq]; exact .leading (.start m log)
        · rcases After.call_cases h₄ with ⟨rfl, hq⟩ | ⟨⟨hd, o⟩, t₅, rfl, h₅⟩ | ⟨r, o, hr, rfl, rfl⟩
          · rw [hq]; exact .leading (.body m log)
          · have hfinish : After (finish job log hd o) t₅ q := by cases o <;> exact h₅
            exact finish_point hfinish
          · exact .halted (.body m log) hr
        · exact .halted (.start m log) hr
      · exact .halted (.openRun m log) hr
    · exact .halted (.bind m) hr
  · exact .halted .now hr

/-! ## Runs -/

/-- What may raise: the logger and the store. A body ends as its reply says. -/
def mayRaise : Call → Prop
  | .now | .body _ => False
  | _ => True

/-- Any number of job runs. The process is not killed, and cancellation reaches a run
through its body. -/
def jobRuns : System calls Str HeartbeatStatus Unit Empty where
  main := runWithHeartbeat
  answer := answers (fun _ _ _ _ _ => True) (fun op _ => mayRaise op) fun _ => False
  tick m := m.elim
  mayStart _ _ := True
  mortal := False

abbrev Runs := Pool calls Str HeartbeatStatus Unit

/-- The `close_run` calls of a run: the job and the status. -/
def closings (log : List (Event calls)) : List (Str × HeartbeatStatus) :=
  log.filterMap fun x =>
    match x.op with
    | .closeRun job status _ => some (job, status)
    | _ => none

/-- How the body of a run ended, if it has. -/
def bodyEnds (log : List (Event calls)) : List (Outcome Exn Unit) :=
  log.filterMap fun x =>
    match x with
    | ⟨.body _, .ret (_, o)⟩ => some o
    | _ => none

/-- The run was closed once, with the status of its body, and let no exception out. -/
def Contained (job : Str) (log : List (Event calls)) (o : Outcome Exn HeartbeatStatus) : Prop :=
  closings log = [(job, if .ret () ∈ bodyEnds log then .completed else .failed)] ∧
    ∀ e, o ≠ .raised e

/-- The calls of the logger and the store once the row is open. -/
def pastOpening : Call → Prop
  | .info .. | .exception .. | .closeRun .. => True
  | _ => False

/-- From the open row on no call of the logger or the store raised, and the body was not
cancelled. -/
def Unhindered (log : List (Event calls)) : Prop :=
  (∀ x ∈ log, pastOpening x.op → x.reply.failed = false) ∧
    .cancelled ∉ bodyEnds log

variable {s : Runs}

theorem reply_ne_cancelled (h : jobRuns.Reach () anyStep s) (i : Nat) :
    ∀ x ∈ s.log i, x.reply ≠ .cancelled := by
  refine h.history_mem (Q := fun _ x => x.reply ≠ .cancelled) ?_ i
  intro s i d op k r σ' _ _ ha _ hr
  obtain rfl : r = .cancelled := hr
  exact ha.1

theorem mayRaise_of_raised (h : jobRuns.Reach () anyStep s) (i : Nat) :
    ∀ x ∈ s.log i, ∀ e, x.reply = .raised e → mayRaise x.op := by
  refine h.history_mem (Q := fun _ x => ∀ e, x.reply = .raised e → mayRaise x.op) ?_ i
  intro s i d op k r σ' _ _ ha _ e hr
  obtain rfl : r = .raised e := hr
  exact ha.1

theorem Leading.unopened {b : List (Event calls)} {op : Call} {r : Reply calls op} {m : Moment}
    (h : Leading job b op) (hr : r.failed = true)
    (hopen : opened job m ∈ b ++ [(⟨op, r⟩ : Event calls)]) (hb : ∀ hd, op ≠ .body hd) :
    pastOpening op := by
  cases h with
  | now => simp [opened] at hopen
  | bind m => simp [opened] at hopen
  | openRun m log =>
    simp only [opened, List.mem_append, List.mem_cons, List.not_mem_nil, or_false] at hopen
    rcases hopen with (hopen | hopen) | hopen
    · cases hopen
    · cases hopen
    · cases hopen; cases hr
  | body m log => exact absurd rfl (hb _)
  | _ => trivial

/-- **Containment.** A run that opened its row and ended closed it once, as its body
ended, and let nothing out, exactly when nothing hindered it. -/
theorem contained_iff_unhindered (h : jobRuns.Reach () anyStep s) {i : Nat}
    {t : Thread calls Str HeartbeatStatus} (ht : s.threads[i]? = some t)
    {o : Outcome Exn HeartbeatStatus} (hdone : t.code = .done o)
    {m : Moment} (hopen : opened t.job m ∈ s.log i) :
    Contained t.job (s.log i) o ↔ Unhindered (s.log i) := by
  have hcan := reply_ne_cancelled h i
  have hexn := mayRaise_of_raised h i
  have hpoint : HeartbeatPoint t.job (s.log i) (.ended o) :=
    runWithHeartbeat_point (h.ended ht hdone)
  generalize s.log i = log at hopen hcan hexn hpoint ⊢
  cases hpoint with
  | @halted b op r _ hl hr =>
    have hmem : (⟨op, r⟩ : Event calls) ∈ b ++ [⟨op, r⟩] := by simp
    have hpast : pastOpening op := by
      refine hl.unopened hr.failed hopen ?_
      rintro hd rfl
      cases hr with
      | raised e => exact hexn _ hmem e rfl
      | cancelled => exact hcan _ hmem rfl
    have hlet : ∃ e, o = .raised e := by
      cases hr with
      | raised e => exact ⟨e, rfl⟩
      | cancelled => exact absurd rfl (hcan _ hmem)
    obtain ⟨e, he⟩ := hlet
    constructor
    · intro hc
      exact absurd he (hc.2 e)
    · intro hu
      have := hu.1 _ hmem hpast
      rw [hr.failed] at this
      cases this
  | completed m log h =>
    refine iff_of_true ⟨rfl, by simp⟩ ⟨?_, ?_⟩
    · simp [prologue, ran, opened, pastOpening]
    · simp [bodyEnds, prologue, ran, opened]
  | failed m log h e =>
    refine iff_of_true ⟨?_, by simp⟩ ⟨?_, ?_⟩
    · rw [if_neg (by simp [bodyEnds, prologue, ran, opened])]
      rfl
    · simp [prologue, ran, opened, pastOpening]
    · simp [bodyEnds, prologue, ran, opened]
  | cancelled m log h =>
    refine iff_of_false (fun hc => ?_) fun hu => hu.2 ?_
    · cases hc.1
    · exact List.mem_singleton.mpr rfl

def reconciliation : Str := lit "reconciliation"

def midnight : Moment := ⟨0, lit "1970-01-01T00:00:00+00:00"⟩

/-- The handle of a body that has processed three items. -/
def three : RunHandle := ⟨reconciliation, midnight, 3, 0, 0, []⟩

/-- The row is open and the body has returned. -/
def worked : Runs :=
  ⟨(), [⟨reconciliation, finish reconciliation 1 three (.ret ()), false⟩],
    (prologue reconciliation midnight 1 ++ [ran reconciliation midnight three (.ret ())]).map
      ((0, ·))⟩

theorem reach_worked : jobRuns.Reach () anyStep worked := by
  have idle : jobRuns.Reach () anyStep ⟨(), [], []⟩ := .init
  have started := idle.start reconciliation True.intro True.intro
  have read := started.answer (i := 0) (.ret midnight) () rfl True.intro True.intro
  have bound := read.answer (i := 0) (.ret 1) () rfl True.intro True.intro
  have opened := bound.answer (i := 0) (.ret ()) () rfl True.intro True.intro
  have logged := opened.answer (i := 0) (.ret ()) () rfl True.intro True.intro
  exact logged.answer (i := 0) (.ret (three, .ret ())) () rfl True.intro True.intro

def closed : Runs :=
  ⟨(), [⟨reconciliation, .done (.ret .completed), false⟩],
    worked.trace ++ [(0, ⟨.info 1 (lit "job.completed") (counterFields three), .ret ()⟩),
      (0, ⟨.closeRun reconciliation .completed three, .ret ()⟩)]⟩

theorem reach_closed : jobRuns.Reach () anyStep closed := by
  have logged := reach_worked.answer (i := 0) (.ret ()) () rfl True.intro True.intro
  exact logged.answer (i := 0) (.ret ()) () rfl True.intro True.intro

theorem contained_iff_unhindered_closed :
    Contained reconciliation (closed.log 0) (.ret .completed) ↔ Unhindered (closed.log 0) :=
  contained_iff_unhindered reach_closed (i := 0) rfl rfl (m := midnight)
    (mem_logOf.mpr (by simp [closed, worked, prologue]))

/-- The log sink is full when the run reports its completion. -/
def frozen : Runs :=
  ⟨(), [⟨reconciliation, .done (.raised ⟨lit "No space left on device"⟩), false⟩],
    worked.trace ++ [(0, ⟨.info 1 (lit "job.completed") (counterFields three),
      .raised ⟨lit "No space left on device"⟩⟩)]⟩

/-- The process lives, the body returned, the row stays open and the exception is out. -/
theorem row_frozen : ∃ s t o, jobRuns.Reach () anyStep s ∧ s.threads[0]? = some t ∧
    t.code = .done o ∧ opened t.job midnight ∈ s.log 0 ∧ closings (s.log 0) = [] ∧
    o = .raised ⟨lit "No space left on device"⟩ ∧ ¬ Contained t.job (s.log 0) o := by
  refine ⟨frozen, _, _, ?_, rfl, rfl, ?_, rfl, rfl, ?_⟩
  · exact reach_worked.answer (i := 0) (.raised ⟨lit "No space left on device"⟩) () rfl
      ⟨True.intro, .inl rfl⟩ True.intro
  · exact mem_logOf.mpr (by simp [frozen, worked, prologue])
  · intro hc
    exact hc.2 _ rfl

end IspPlatform.Workers
