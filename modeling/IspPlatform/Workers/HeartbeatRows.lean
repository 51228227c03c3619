import IspPlatform.Workers.Heartbeat

/-!
# The rows of the heartbeat table

Job runs over a table that the store keeps: `open_run` adds a row, `close_run` writes to the
newest row of the job. Any call of the logger and the store may raise, before or after its effect,
an awaited one may be cancelled, and any run may be killed. The scheduler does not start a job
beside a run of it that is in flight.

A row's status tells what became of its run: `completed` and `failed` how the body ended, a
`running` row that no run is behind any more that the run was killed, cancelled, or let down by
the logger or the store.
-/

namespace IspPlatform.Workers

open Py Prog System

/-- A row, with the run that opened it. -/
structure Row where
  run : Nat
  job : Str
  status : HeartbeatStatus
  /-- The counters it was closed with. -/
  handle : Option RunHandle
  deriving DecidableEq, Repr

/-- The newest row is the last. -/
abbrev Table := List Row

def Row.close (r : Row) (status : HeartbeatStatus) (handle : RunHandle) : Row :=
  { r with status := status, handle := some handle }

/-- What the calls of run `i` do to the table. -/
inductive StoreEffect (i : Nat) : Table → (op : Call) → op.Res → Table → Prop where
  | openRun {rows : Table} (job : Str) (m : Moment) :
      StoreEffect i rows (.openRun job m) () (rows ++ [⟨i, job, .running, none⟩])
  | closeRun {before after : Table} {r : Row} (status : HeartbeatStatus) (handle : RunHandle) :
      (∀ r' ∈ after, r'.job ≠ r.job) →
      StoreEffect i (before ++ r :: after) (.closeRun r.job status handle) ()
        (before ++ r.close status handle :: after)
  | closeNone {rows : Table} {job : Str} (status : HeartbeatStatus) (handle : RunHandle) :
      (∀ r ∈ rows, r.job ≠ job) → StoreEffect i rows (.closeRun job status handle) () rows
  | other {rows : Table} {op : Call} (a : op.Res) : (∀ job m, op ≠ .openRun job m) →
      (∀ job status handle, op ≠ .closeRun job status handle) → StoreEffect i rows op a rows

/-- The calls that are awaited. A body that is cancelled ends so. -/
def mayCancel : Call → Prop
  | .openRun .. | .closeRun .. => True
  | _ => False

/-- Any number of job runs over the table, none beside another of its job. -/
def scheduledRuns : System calls Str HeartbeatStatus Table Empty where
  main := runWithHeartbeat
  answer := answers StoreEffect (fun op _ => mayRaise op) mayCancel
  tick m := m.elim
  mayStart ts job := ∀ t ∈ ts, t.InFlight → t.job ≠ job
  mortal := True

abbrev Scheduled := Pool calls Str HeartbeatStatus Table

/-- The body ended with `o` and left the handle `h`. -/
def BodyEnded (log : List (Event calls)) (h : RunHandle) (o : Outcome Exn Unit) : Prop :=
  ∃ h₀, (⟨.body h₀, .ret (h, o)⟩ : Event calls) ∈ log

/-- The body was cancelled, or some call gave back no value. -/
def Hindered (log : List (Event calls)) : Prop :=
  .cancelled ∈ bodyEnds log ∨ ∃ x ∈ log, x.reply.failed = true

/-- What a row says of its run. -/
structure Told (s : Scheduled) (r : Row) : Prop where
  completed : r.status = .completed →
    ∃ h, r.handle = some h ∧ BodyEnded (s.log r.run) h (.ret ())
  failed : r.status = .failed →
    ∃ h e, r.handle = some h ∧ BodyEnded (s.log r.run) h (.raised e)
  running : r.status = .running → ∃ t, s.threads[r.run]? = some t ∧ t.job = r.job ∧
    (t.InFlight ∨ t.dead = true ∨ Hindered (s.log r.run))
  /-- Without a call of `close_run` the row is as it was opened: a crash leaves it so. -/
  frozen : closings (s.log r.run) = [] → r.status = .running

/-! ## Program points -/

variable {job : Str} {t : List (Event calls)} {q : Prog calls HeartbeatStatus}

theorem Leading.at_openRun {b : List (Event calls)} {job' : Str} {m : Moment}
    (h : Leading job b (.openRun job' m)) :
    job' = job ∧ (∀ x ∈ b, ∀ job'' m', x.op ≠ .openRun job'' m') ∧ closings b = [] := by
  cases h with
  | openRun m log => exact ⟨rfl, by simp, rfl⟩

theorem Leading.at_closeRun {b : List (Event calls)} {job' : Str} {status : HeartbeatStatus}
    {handle : RunHandle} (h : Leading job b (.closeRun job' status handle)) :
    job' = job ∧ (∃ m, opened job m ∈ b) ∧ closings b = [] ∧
      (status = .completed ∧ BodyEnded b handle (.ret ()) ∨
        ∃ e, status = .failed ∧ BodyEnded b handle (.raised e)) := by
  cases h with
  | closeCompleted m log h =>
    exact ⟨rfl, ⟨m, by simp [prologue]⟩, rfl, .inl ⟨rfl, ⟨job, m, 0, 0, 0, []⟩, by simp [ran]⟩⟩
  | closeFailed m log h e =>
    exact ⟨rfl, ⟨m, by simp [prologue]⟩, rfl, .inr ⟨e, rfl, ⟨job, m, 0, 0, 0, []⟩, by simp [ran]⟩⟩

theorem HeartbeatPoint.at_call {b : List (Event calls)} {op : Call}
    (h : HeartbeatPoint job b (.call op)) : Leading job b op := by
  cases h with
  | leading h => exact h

theorem HeartbeatPoint.openRun_job {b : List (Event calls)} {q : Head calls HeartbeatStatus}
    (h : HeartbeatPoint job b q) {job' : Str} {m : Moment} {r : Reply calls (.openRun job' m)}
    (hx : (⟨.openRun job' m, r⟩ : Event calls) ∈ b) : job' = job := by
  cases h with
  | leading h => cases h <;> simp_all [prologue, opened, ran]
  | halted h => cases h <;> simp_all [prologue, opened, ran]
  | completed => simp_all [prologue, opened, ran]
  | failed => simp_all [prologue, opened, ran]
  | cancelled => simp_all [prologue, opened, ran]

/-! ## The table -/

/-- The table against the calls made so far. -/
structure Recorded (rows : Table) (tr : List (Nat × Event calls)) : Prop where
  authored : ∀ r ∈ rows, ∃ m reply, (r.run, (⟨.openRun r.job m, reply⟩ : Event calls)) ∈ tr
  kept : ∀ i job m, (i, opened job m) ∈ tr → ∃ r ∈ rows, r.run = i ∧ r.job = job
  ordered : rows.Pairwise fun r r' => r.job = r'.job → r.run < r'.run
  completed : ∀ r ∈ rows, r.status = .completed →
    ∃ h, r.handle = some h ∧ BodyEnded (logOf tr r.run) h (.ret ())
  failed : ∀ r ∈ rows, r.status = .failed →
    ∃ h e, r.handle = some h ∧ BodyEnded (logOf tr r.run) h (.raised e)
  running : ∀ r ∈ rows, r.status = .running → ∀ status h,
    (r.run, (⟨.closeRun r.job status h, .ret ()⟩ : Event calls)) ∉ tr
  frozen : ∀ r ∈ rows, closings (logOf tr r.run) = [] → r.status = .running

variable {rows rows' : Table} {tr : List (Nat × Event calls)} {i : Nat}

theorem BodyEnded.snoc {j : Nat} {h : RunHandle} {o : Outcome Exn Unit} {e : Event calls}
    (hb : BodyEnded (logOf tr j) h o) : BodyEnded (logOf (tr ++ [(i, e)]) j) h o := by
  obtain ⟨h₀, hin⟩ := hb
  exact ⟨h₀, mem_logOf.mpr (List.mem_append_left _ (mem_logOf.mp hin))⟩

theorem closings_snoc {j : Nat} {e : Event calls}
    (h : closings (logOf (tr ++ [(i, e)]) j) = []) : closings (logOf tr j) = [] := by
  rw [logOf_snoc] at h
  split at h
  · unfold closings at h ⊢
    rw [List.filterMap_append] at h
    exact (List.append_eq_nil_iff.mp h).1
  · exact h

theorem Recorded.idle (hr : Recorded rows tr) {e : Event calls}
    (hopen : ∀ job m, e ≠ opened job m)
    (hclose : ∀ r ∈ rows, r.run = i → r.status = .running →
      ∀ status h, e ≠ ⟨.closeRun r.job status h, .ret ()⟩) :
    Recorded rows (tr ++ [(i, e)]) where
  authored r hin := by
    obtain ⟨m, reply, hx⟩ := hr.authored r hin
    exact ⟨m, reply, List.mem_append_left _ hx⟩
  kept j job m hx := by
    rcases List.mem_append.mp hx with hx | hx
    · exact hr.kept j job m hx
    · obtain ⟨-, rfl⟩ := Prod.mk.inj (List.mem_singleton.mp hx)
      exact absurd rfl (hopen job m)
  ordered := hr.ordered
  completed r hin hs := by
    obtain ⟨h, hh, hb⟩ := hr.completed r hin hs
    exact ⟨h, hh, hb.snoc⟩
  failed r hin hs := by
    obtain ⟨h, e, hh, hb⟩ := hr.failed r hin hs
    exact ⟨h, e, hh, hb.snoc⟩
  running r hin hs status h hx := by
    rcases List.mem_append.mp hx with hx | hx
    · exact hr.running r hin hs status h hx
    · obtain ⟨hrun, rfl⟩ := Prod.mk.inj (List.mem_singleton.mp hx)
      exact hclose r hin hrun hs status h rfl
  frozen r hin hc := hr.frozen r hin (closings_snoc hc)

theorem Recorded.openRun (hr : Recorded rows tr) {m : Moment}
    (hlast : ∀ r ∈ rows, r.job = job → r.run < i) (hnew : closings (logOf tr i) = [])
    (reply : Reply calls (.openRun job m)) :
    Recorded (rows ++ [⟨i, job, .running, none⟩]) (tr ++ [(i, ⟨.openRun job m, reply⟩)]) := by
  have hlog : closings (logOf (tr ++ [(i, (⟨.openRun job m, reply⟩ : Event calls))]) i) = [] := by
    rw [logOf_snoc, if_pos rfl, closings, List.filterMap_append]
    exact List.append_eq_nil_iff.mpr ⟨hnew, rfl⟩
  refine ⟨?_, ?_, ?_, ?_, ?_, ?_, ?_⟩
  · intro r hin
    rcases List.mem_append.mp hin with hin | hin
    · obtain ⟨m', reply', hx⟩ := hr.authored r hin
      exact ⟨m', reply', List.mem_append_left _ hx⟩
    · rw [List.mem_singleton.mp hin]
      exact ⟨m, reply, List.mem_append_right _ List.mem_cons_self⟩
  · intro j job' m' hx
    rcases List.mem_append.mp hx with hx | hx
    · obtain ⟨r, hin, hrun⟩ := hr.kept j job' m' hx
      exact ⟨r, List.mem_append_left _ hin, hrun⟩
    · refine ⟨_, List.mem_append_right _ List.mem_cons_self, ?_⟩
      obtain ⟨rfl, he⟩ := Prod.mk.inj (List.mem_singleton.mp hx)
      have hop : Call.openRun job' m' = .openRun job m := congrArg Event.op he
      exact ⟨rfl, (Call.openRun.inj hop).1.symm⟩
  · refine List.pairwise_append.mpr ⟨hr.ordered, List.pairwise_singleton _ _, ?_⟩
    intro r hin r' hin' hjob
    rw [List.mem_singleton.mp hin'] at hjob ⊢
    exact hlast r hin hjob
  · intro r hin hs
    rcases List.mem_append.mp hin with hin | hin
    · obtain ⟨h, hh, hb⟩ := hr.completed r hin hs
      exact ⟨h, hh, hb.snoc⟩
    · rw [List.mem_singleton.mp hin] at hs
      cases hs
  · intro r hin hs
    rcases List.mem_append.mp hin with hin | hin
    · obtain ⟨h, e, hh, hb⟩ := hr.failed r hin hs
      exact ⟨h, e, hh, hb.snoc⟩
    · rw [List.mem_singleton.mp hin] at hs
      cases hs
  · intro r hin hs status h hx
    rcases List.mem_append.mp hin with hin | hin
    · rcases List.mem_append.mp hx with hx | hx
      · exact hr.running r hin hs status h hx
      · cases congrArg Event.op (Prod.mk.inj (List.mem_singleton.mp hx)).2
    · rw [List.mem_singleton.mp hin] at hx
      have hclosed : (job, status) ∈ closings (logOf (tr ++
          [(i, (⟨.openRun job m, reply⟩ : Event calls))]) i) :=
        List.mem_filterMap.mpr ⟨_, mem_logOf.mpr hx, rfl⟩
      rw [hlog] at hclosed
      cases hclosed
  · intro r hin hc
    rcases List.mem_append.mp hin with hin | hin
    · exact hr.frozen r hin (closings_snoc hc)
    · rw [List.mem_singleton.mp hin]

theorem Recorded.closeRun {before after : Table} {r : Row}
    (hr : Recorded (before ++ r :: after) tr) (hrun : r.run = i) {status : HeartbeatStatus}
    {handle : RunHandle}
    (hbody : status = .completed ∧ BodyEnded (logOf tr i) handle (.ret ()) ∨
      ∃ e, status = .failed ∧ BodyEnded (logOf tr i) handle (.raised e))
    (reply : Reply calls (.closeRun r.job status handle)) :
    Recorded (before ++ r.close status handle :: after)
      (tr ++ [(i, ⟨.closeRun r.job status handle, reply⟩)]) := by
  subst hrun
  -- every row is an old one, or it is the one that was closed
  have hcases : ∀ r' ∈ before ++ r.close status handle :: after,
      r' ∈ before ++ r :: after ∧ (r'.job = r.job → r'.run ≠ r.run) ∨
        r' = r.close status handle := by
    intro r' hin
    obtain ⟨-, hafter, hbefore⟩ := List.pairwise_append.mp hr.ordered
    rcases List.mem_append.mp hin with hin | hin
    · refine .inl ⟨List.mem_append_left _ hin, fun hjob => ?_⟩
      exact Nat.ne_of_lt (hbefore r' hin r List.mem_cons_self hjob)
    · rcases List.mem_cons.mp hin with rfl | hin
      · exact .inr rfl
      · refine .inl ⟨List.mem_append_right _ (List.mem_cons_of_mem _ hin), fun hjob => ?_⟩
        exact Nat.ne_of_gt ((List.pairwise_cons.mp hafter).1 r' hin hjob.symm)
  refine ⟨?_, ?_, ?_, ?_, ?_, ?_, ?_⟩
  · intro r' hin
    rcases hcases r' hin with ⟨hold, -⟩ | rfl
    · obtain ⟨m, reply', hx⟩ := hr.authored r' hold
      exact ⟨m, reply', List.mem_append_left _ hx⟩
    · obtain ⟨m, reply', hx⟩ := hr.authored r (List.mem_append_right _ List.mem_cons_self)
      exact ⟨m, reply', List.mem_append_left _ hx⟩
  · intro j job m hx
    rcases List.mem_append.mp hx with hx | hx
    · obtain ⟨r', hin, hrun⟩ := hr.kept j job m hx
      rcases List.mem_append.mp hin with hin | hin
      · exact ⟨r', List.mem_append_left _ hin, hrun⟩
      · rcases List.mem_cons.mp hin with rfl | hin
        · exact ⟨_, List.mem_append_right _ List.mem_cons_self, hrun⟩
        · exact ⟨r', List.mem_append_right _ (List.mem_cons_of_mem _ hin), hrun⟩
    · cases congrArg Event.op (Prod.mk.inj (List.mem_singleton.mp hx)).2
  · obtain ⟨hb, ha, hba⟩ := List.pairwise_append.mp hr.ordered
    obtain ⟨hra, ha⟩ := List.pairwise_cons.mp ha
    refine List.pairwise_append.mpr
      ⟨hb, List.pairwise_cons.mpr ⟨hra, ha⟩, fun r' hin r'' hin' => ?_⟩
    rcases List.mem_cons.mp hin' with rfl | hin'
    · exact hba r' hin r List.mem_cons_self
    · exact hba r' hin r'' (List.mem_cons_of_mem _ hin')
  · intro r' hin hs
    rcases hcases r' hin with ⟨hold, -⟩ | rfl
    · obtain ⟨h, hh, hb⟩ := hr.completed r' hold hs
      exact ⟨h, hh, hb.snoc⟩
    · rcases hbody with ⟨-, hb⟩ | ⟨e, rfl, -⟩
      · exact ⟨handle, rfl, hb.snoc⟩
      · cases hs
  · intro r' hin hs
    rcases hcases r' hin with ⟨hold, -⟩ | rfl
    · obtain ⟨h, e, hh, hb⟩ := hr.failed r' hold hs
      exact ⟨h, e, hh, hb.snoc⟩
    · rcases hbody with ⟨rfl, -⟩ | ⟨e, -, hb⟩
      · cases hs
      · exact ⟨handle, e, rfl, hb.snoc⟩
  · intro r' hin hs status' h hx
    rcases hcases r' hin with ⟨hold, hne⟩ | rfl
    · rcases List.mem_append.mp hx with hx | hx
      · exact hr.running r' hold hs status' h hx
      · obtain ⟨hrun, he⟩ := Prod.mk.inj (List.mem_singleton.mp hx)
        have hop : Call.closeRun r'.job status' h = .closeRun r.job status handle :=
          congrArg Event.op he
        exact hne (Call.closeRun.inj hop).1 hrun
    · rcases hbody with ⟨rfl, -⟩ | ⟨e, rfl, -⟩ <;> cases hs
  · intro r' hin hc
    rcases hcases r' hin with ⟨hold, -⟩ | rfl
    · exact hr.frozen r' hold (closings_snoc hc)
    · have hclosed : (r.job, status) ∈ closings (logOf (tr ++
          [(r.run, (⟨.closeRun r.job status handle, reply⟩ : Event calls))]) r.run) :=
        List.mem_filterMap.mpr
          ⟨_, mem_logOf.mpr (List.mem_append_right _ List.mem_cons_self), rfl⟩
      change closings (logOf _ r.run) = [] at hc
      rw [hc] at hclosed
      cases hclosed

theorem Recorded.own_row (hr : Recorded rows tr) {r r' : Row} (hin : r ∈ rows) (hin' : r' ∈ rows)
    (hjob : r.job = r'.job) (hrun : r.run = r'.run) : r = r' := by
  obtain ⟨before, after, rfl⟩ := List.append_of_mem hin
  obtain ⟨-, hafter, hbefore⟩ := List.pairwise_append.mp hr.ordered
  rcases List.mem_append.mp hin' with hb | ha
  · have := hbefore r' hb r List.mem_cons_self hjob.symm
    omega
  · rcases List.mem_cons.mp ha with heq | ha
    · exact heq.symm
    · have := (List.pairwise_cons.mp hafter).1 r' ha hjob
      omega

/-! ## Runs -/

variable {s : Scheduled}

/-- No row of a job is of a later run than the one in flight. -/
theorem Recorded.run_le (hr : Recorded s.shared s.trace)
    (h : scheduledRuns.Reach [] anyStep s) {t : Thread calls Str HeartbeatStatus}
    (ht : s.threads[i]? = some t) (hf : t.InFlight) :
    ∀ r ∈ s.shared, r.job = t.job → r.run ≤ i := by
  intro r hin hjob
  obtain ⟨m, reply, hx⟩ := hr.authored r hin
  have ht' := List.getElem?_eq_getElem (h.trace_lt _ hx)
  have hjob' := (runWithHeartbeat_point (h.after ht')).openRun_job (mem_logOf.mpr hx)
  exact h.last_of_inFlight (fun d => d) (fun ts d hd => hd) i r.run t _ ht hf ht'
    (hjob'.symm.trans hjob)

theorem recorded (h : scheduledRuns.Reach [] anyStep s) : Recorded s.shared s.trace := by
  refine h.inv (P := Recorded) ⟨by simp, by simp, .nil, by simp, by simp, by simp, by simp⟩ ?_ ?_
  · intro s i d op k reply σ' hs ih hj ha _
    have hlead : Leading d (s.log i) op := (runWithHeartbeat_point (hs.after hj)).at_call
    have hle := ih.run_le hs hj ⟨rfl, op, rfl⟩
    have hans : answers StoreEffect (fun op _ => mayRaise op) mayCancel i s.shared op reply σ' := ha
    rcases answers_effect hans with ⟨rfl, hno⟩ | ⟨a, he, -⟩
    · refine ih.idle ?_ ?_
      · rintro job m heq
        cases heq
        exact hno _ rfl
      · rintro r - - - status h heq
        cases heq
        exact hno _ rfl
    · generalize hrows : s.shared = rows at he ih hle
      cases he with
      | openRun job m =>
        obtain ⟨rfl, hnone, hclosings⟩ := hlead.at_openRun
        refine ih.openRun (fun r hin hjob => ?_) hclosings reply
        refine Nat.lt_of_le_of_ne (hle r hin hjob) fun heq => ?_
        obtain ⟨m', reply', hx⟩ := ih.authored r hin
        exact hnone _ (mem_logOf.mpr (heq ▸ hx)) _ _ rfl
      | @closeRun before after r status handle hafter =>
        obtain ⟨hjob, ⟨m, hopen⟩, -, hbody⟩ := hlead.at_closeRun
        obtain ⟨r', hin, hrun, hjob'⟩ := ih.kept i d m (mem_logOf.mp hopen)
        refine ih.closeRun ?_ hbody reply
        -- the run's own row is the newest of its job
        obtain ⟨-, -, hbefore⟩ := List.pairwise_append.mp ih.ordered
        rcases List.mem_append.mp hin with hin | hin
        · have hlt := hbefore r' hin r List.mem_cons_self (hjob'.trans hjob.symm)
          have := hle r (List.mem_append_right _ List.mem_cons_self) hjob
          omega
        · rcases List.mem_cons.mp hin with rfl | hin
          · exact hrun
          · exact absurd (hjob'.trans hjob.symm) (hafter r' hin)
      | @closeNone _ job status handle hnone =>
        obtain ⟨hjob, ⟨m, hopen⟩, -⟩ := hlead.at_closeRun
        obtain ⟨r', hin, -, hjob'⟩ := ih.kept i d m (mem_logOf.mp hopen)
        exact absurd (hjob'.trans hjob.symm) (hnone r' hin)
      | other a hopen hclose =>
        refine ih.idle ?_ ?_
        · rintro job m heq
          cases heq
          exact hopen _ _ rfl
        · rintro r - - - status h heq
          cases heq
          exact hclose _ _ _ rfl
  · intro s m
    exact m.elim

/-- A run that was not killed and is not in flight closed its row, or was hindered. -/
theorem HeartbeatPoint.ended_cases {b : List (Event calls)} {o : Outcome Exn HeartbeatStatus}
    (h : HeartbeatPoint job b (.ended o)) :
    Hindered b ∨ ∃ status handle, (⟨.closeRun job status handle, .ret ()⟩ : Event calls) ∈ b := by
  cases h with
  | @halted b op r _ hl hr =>
    exact .inl (.inr ⟨⟨op, r⟩, List.mem_append_right _ List.mem_cons_self, hr.failed⟩)
  | completed m log h => exact .inr ⟨.completed, h, by simp [prologue, ran]⟩
  | failed m log h e => exact .inr ⟨.failed, h, by simp [prologue, ran]⟩
  | cancelled m log h => exact .inl (.inl (List.mem_singleton.mpr rfl))

theorem reach_returned (h : scheduledRuns.Reach [] anyStep s) {d : Str} (op : Call)
    {k : Reply calls op → Prog calls HeartbeatStatus} (a : op.Res) {rows : Table}
    (hj : s.threads[i]? = some ⟨d, .await op k, false⟩) (he : StoreEffect i s.shared op a rows) :
    scheduledRuns.Reach [] anyStep
      ⟨rows, s.threads.set i ⟨d, k (.ret a), false⟩, s.trace ++ [(i, ⟨op, .ret a⟩)]⟩ :=
  h.answer (.ret a) rows hj he True.intro

/-- The process is killed once the row is open. -/
theorem reach_crashed : ∃ s, scheduledRuns.Reach [] anyStep s ∧
    s.shared = [⟨0, reconciliation, .running, none⟩] ∧ ∀ t ∈ s.threads, t.dead = true := by
  have idle : scheduledRuns.Reach [] anyStep ⟨[], [], []⟩ := .init
  have started := idle.start reconciliation (by simp [scheduledRuns]) True.intro
  have read := reach_returned started (i := 0) .now midnight rfl (.other _ (by simp) (by simp))
  have bound := reach_returned read (i := 0) (.bind reconciliation midnight.isoformat) (1 : Nat) rfl
    (.other _ (by simp) (by simp))
  have opened := reach_returned bound (i := 0) (.openRun reconciliation midnight) () rfl
    (.openRun _ _)
  have killed := opened.step (.die (i := 0) True.intro rfl) True.intro
  exact ⟨_, killed, rfl, by simp⟩

end IspPlatform.Workers
