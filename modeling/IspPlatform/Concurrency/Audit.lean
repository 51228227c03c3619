import IspPlatform.Concurrency.StoreRuns

/-!
# The audit trail of a state change

Over an audit sink that never fails, an attempt leaves its one row exactly if at most
one of its calls failed, by an exception that is not a `StateChangeFailed`: a second
failure in the handler, a cancellation, or a collaborator's own `StateChangeFailed`
leaves no row.
-/

namespace IspPlatform.Concurrency

open Py System

/-- Every call but the audit's. -/
def notRecord : Call → Prop
  | .record .. => False
  | _ => True

/-- The row a call writes, made by `i`. -/
def Call.row (i : Nat) : Call → Option AuditRow
  | .record e ev r => some ⟨i, e, ev, r⟩
  | _ => none

theorem Call.call_row {i : Nat} {op : Call} {row : AuditRow} (h : op.row i = some row) :
    row.call = i := by
  cases op with
  | record e ev r =>
    obtain rfl := Option.some.inj h
    rfl
  | _ => cases h

theorem StoreEffect.audit {i : Nat} {s s' : Stores} {op : Call} {a : op.Res}
    (h : StoreEffect i s op a s') : s'.audit = s.audit ++ (op.row i).toList := by
  cases h <;> simp [Call.row]

/-- A call that gave back no value. -/
def failed (x : Event calls) : Bool := x.reply.failed

/-- At most one call failed, and it raised an exception that is no `StateChangeFailed`. -/
def OneFailure (log : List (Event calls)) : Prop :=
  log.filter failed = [] ∨ ∃ x e, log.filter failed = [x] ∧ x.reply = .raised e ∧
    ∀ m, e ≠ .stateChangeFailed m

/-- The rows of call `i`. -/
def rowsOf (s : Changes) (i : Nat) : List AuditRow := s.shared.audit.filter (·.call = i)

/-- The attempt left exactly one row, true to whether its commit returned, and let out no
other exception than `StateChangeFailed`. -/
def Truthful (s : Changes) (i : Nat) (c : StateChange) (o : Outcome Exn CommandOutcome) : Prop :=
  (∃ result, rowsOf s i = [⟨i, c.entityId, c.event, result⟩] ∧
    (committed c.tx ∈ s.log i ∧ result = lit "success" ∨
      committed c.tx ∉ s.log i ∧ result = lit "failed")) ∧
  ∀ e, o = .raised e → ∃ m, e = .stateChangeFailed m

variable {s : Changes} {ok : Changes → Label calls StateChange Empty → Stores → Prop}

theorem audit_trace (h : (dualStore notRecord).Reach .empty ok s) :
    s.shared.audit = s.trace.filterMap fun x => Call.row x.1 x.2.op := by
  refine h.inv (P := fun b tr => b.audit = tr.filterMap fun x => Call.row x.1 x.2.op) rfl ?_
    (fun {_ m} => m.elim)
  intro s i d op k r b _ ih _ ha _
  dsimp only [dualStore] at ha
  rw [List.filterMap_append, ← ih]
  rcases answers_effect ha with ⟨rfl, hr⟩ | ⟨a, he, -⟩
  · -- a call without effect is not the audit's
    have hrow : op.row i = none := by
      cases op with
      | record e ev res =>
        cases r with
        | ret a => exact absurd rfl (hr a)
        | raised e => exact absurd ha.1 id
        | cancelled => exact absurd ha.1 id
      | _ => rfl
    simp [hrow]
  · rw [he.audit]
    cases hrow : op.row i <;> simp [hrow]

theorem record_returns (h : (dualStore notRecord).Reach .empty ok s) (i : Nat) :
    ∀ e ∈ s.log i, (∃ ent ev res, e.op = .record ent ev res) → failed e = false := by
  refine h.history_mem (Q := fun _ e => (∃ ent ev res, e.op = Call.record ent ev res) →
    failed e = false) ?_ i
  rintro s i d op k r b _ _ ha _ ⟨ent, ev, res, hop⟩
  obtain rfl : op = .record ent ev res := hop
  dsimp only [dualStore] at ha
  cases r with
  | ret a => rfl
  | raised e => exact absurd ha.1 id
  | cancelled => exact absurd ha.1 id

theorem rowsOf_eq (h : (dualStore notRecord).Reach .empty ok s) (i : Nat) :
    rowsOf s i = (s.log i).filterMap fun e => Call.row i e.op := by
  rw [rowsOf, audit_trace h, Pool.log, logOf]
  generalize s.trace = tr
  induction tr with
  | nil => rfl
  | cons x tr ih =>
    obtain ⟨j, op, r⟩ := x
    cases hrow : op.row j with
    | none => by_cases hij : j = i <;> simp_all
    | some row =>
      have hcall := Call.call_row hrow
      by_cases hij : j = i <;> simp_all

section
variable {c : StateChange} {b : List (Event calls)} {op : Call} {i : Nat}

theorem Trying.quiet (h : Trying c c.tx b op) : b.filter failed = [] ∧
    (∀ i, (b.filterMap fun e => Call.row i e.op) = []) ∧ committed c.tx ∉ b := by
  cases h <;> simp [wrote, reauthed, rolledBack, committed, failed, Call.row]

/-- A call of the `try` that fails writes no row, and none was written before it. -/
theorem Trying.no_row (h : Trying c c.tx b op) {x : Event calls}
    (hrow : Call.row i x.op = none) (rest : List (Event calls)) :
    ((b ++ x :: rest).filterMap fun e => Call.row i e.op) =
      rest.filterMap fun e => Call.row i e.op := by
  rw [List.filterMap_append, h.quiet.2.1, List.nil_append]
  exact List.filterMap_cons_none (f := fun e : Event calls => Call.row i e.op) hrow

theorem Trying.first_failure (h : Trying c c.tx b op) {x : Event calls} (hx : failed x = true)
    (rest : List (Event calls)) :
    (b ++ x :: rest).filter failed = x :: rest.filter failed := by
  rw [List.filter_append, h.quiet.1, List.nil_append, List.filter_cons_of_pos hx]

theorem oneFailure_single {log : List (Event calls)} {x : Event calls}
    (h : log.filter failed = [x]) :
    OneFailure log ↔ ∃ e, x.reply = .raised e ∧ ∀ m, e ≠ .stateChangeFailed m := by
  constructor
  · rintro (hnone | ⟨y, e, hone, hy, he⟩)
    · cases h.symm.trans hnone
    · obtain rfl : x = y := List.head_eq_of_cons_eq (h.symm.trans hone)
      exact ⟨e, hy, he⟩
  · rintro ⟨e, hx, he⟩
    exact .inr ⟨x, e, h, hx, he⟩

theorem not_oneFailure_pair {log : List (Event calls)} {x y : Event calls}
    (h : log.filter failed = [x, y]) : ¬ OneFailure log := by
  rintro (hnone | ⟨z, e, hone, -, -⟩)
  · cases h.symm.trans hnone
  · cases h.symm.trans hone

theorem not_truthful {o : Outcome Exn CommandOutcome} (h : rowsOf s i = []) :
    ¬ Truthful s i c o := by
  rintro ⟨⟨res, hrows, -⟩, -⟩
  cases h.symm.trans hrows

end

/-- **One failure.** A finished attempt left a truthful row exactly if at most one of its
calls failed, by an exception other than `StateChangeFailed`. -/
theorem truthful_iff_oneFailure (h : (dualStore notRecord).Reach .empty anyStep s) {i : Nat}
    {t : Thread calls StateChange CommandOutcome} (ht : s.threads[i]? = some t)
    {o : Outcome Exn CommandOutcome} (hdone : t.code = .done o) :
    Truthful s i t.job o ↔ OneFailure (s.log i) := by
  have hrec : ∀ x ∈ s.log i, failed x = true → Call.row i x.op = none := by
    intro x hx hf
    obtain ⟨op, r⟩ := x
    cases op with
    | record ent ev res =>
      rw [record_returns h i _ hx ⟨_, _, _, rfl⟩] at hf
      cases hf
    | _ => rfl
  have hpoint : ApplyPoint t.job t.job.tx (s.log i) (.ended o) :=
    applyStateChange_point (h.ended ht hdone)
  have hrows := rowsOf_eq h i
  generalize hlog : s.log i = log at hpoint hrec hrows ⊢
  cases hpoint with
  | returned o' ho =>
    exact iff_of_true ⟨⟨_, hrows, .inl ⟨by simp [hlog], rfl⟩⟩, by simp⟩ (.inl rfl)
  | refused o' ho =>
    refine iff_of_true ⟨⟨_, hrows, .inr ⟨?_, rfl⟩⟩, ?_⟩ (.inl rfl)
    · simp [hlog, committed, wrote, reauthed, rolledBack, recorded]
    · intro e he
      exact ⟨_, (Outcome.raised.inj he).symm⟩
  | @reportHalted o' r _ _ hr =>
    cases hrec ⟨.record t.job.entityId t.job.event (lit "success"), r⟩ (by simp)
      hr.failed
  | @noteHalted b op e r _ hb he hr =>
    cases hrec ⟨.record t.job.entityId t.job.event (lit "failed"), r⟩ (by simp)
      hr.failed
  | @escaped b op m hb =>
    rw [hb.no_row (hrec ⟨op, .raised (.stateChangeFailed m)⟩ (by simp) rfl)] at hrows
    refine iff_of_false (not_truthful hrows) ?_
    rw [oneFailure_single (hb.first_failure rfl [])]
    rintro ⟨e, hx, he⟩
    exact he m (Outcome.raised.inj hx).symm
  | @cancelled b op hb =>
    rw [hb.no_row (hrec ⟨op, .cancelled⟩ (by simp) rfl)] at hrows
    refine iff_of_false (not_truthful hrows) ?_
    rw [oneFailure_single (hb.first_failure rfl [])]
    rintro ⟨e, hx, -⟩
    cases hx
  | @undoHalted b op e r _ hb he hr =>
    rw [hb.no_row (hrec ⟨op, .raised e⟩ (by simp) rfl)] at hrows
    have hundo : failed ⟨.rollback t.job.tx, r⟩ = true := hr.failed
    have hpair := hb.first_failure (x := ⟨op, .raised e⟩) rfl [⟨.rollback t.job.tx, r⟩]
    rw [List.filter_cons_of_pos hundo, List.filter_nil] at hpair
    exact iff_of_false (not_truthful hrows) (not_oneFailure_pair hpair)
  | @failed b op e hb he =>
    rw [hb.no_row (hrec ⟨op, .raised e⟩ (by simp) rfl)] at hrows
    have hcommit : committed t.job.tx ∉ s.log i := by
      rw [hlog]
      intro hin
      rcases List.mem_append.mp hin with hin | hin
      · exact hb.quiet.2.2 hin
      · rcases List.mem_cons.mp hin with hin | hin
        · cases hin
        · simp [committed, rolledBack, recorded] at hin
    refine iff_of_true ⟨⟨lit "failed", hrows, .inr ⟨hcommit, rfl⟩⟩, ?_⟩ ?_
    · intro e' he'
      exact ⟨_, (Outcome.raised.inj he').symm⟩
    · rw [oneFailure_single (hb.first_failure rfl _)]
      exact ⟨e, rfl, he⟩

theorem truthful_iff_oneFailure_settled :
    Truthful settledSuspension 0 suspension (.ret .applied) ↔
      OneFailure (settledSuspension.log 0) :=
  truthful_iff_oneFailure reach_settledSuspension (i := 0) rfl rfl

/-- The device is unreachable, and then the rollback fails. -/
def unrecorded : Changes :=
  ⟨⟨[⟨.projection, 0, lit "acct7", lit "suspended"⟩], []⟩,
    [⟨suspension, .done (.raised (.other (lit "database down"))), false⟩],
    [(0, wrote suspension),
      (0, ⟨.forceReauth (lit "acct7"), .raised (.other (lit "router unreachable"))⟩),
      (0, ⟨.rollback suspension.tx, .raised (.other (lit "database down"))⟩)]⟩

theorem reach_unrecorded : (dualStore notRecord).Reach .empty anyStep unrecorded := by
  have projected : (dualStore notRecord).Reach .empty anyStep projectedSuspension :=
    reach_projectedSuspension
  have raised := projected.answer (i := 0)
    (.raised (.other (lit "router unreachable"))) _ rfl ⟨True.intro, .inl rfl⟩ True.intro
  exact raised.answer (i := 0) (.raised (.other (lit "database down"))) _ rfl
    ⟨True.intro, .inl rfl⟩ True.intro

/-- The attempt failed without an audit row, and not with `StateChangeFailed`. -/
theorem failure_unrecorded : ∃ s t o, (dualStore notRecord).Reach .empty anyStep s ∧
    s.threads[0]? = some t ∧ t.code = .done o ∧ rowsOf s 0 = [] ∧
    o = .raised (.other (lit "database down")) ∧ ¬ Truthful s 0 t.job o := by
  refine ⟨unrecorded, _, _, reach_unrecorded, rfl, rfl, rfl, rfl, ?_⟩
  rintro ⟨⟨result, hrows, -⟩, -⟩
  cases hrows

end IspPlatform.Concurrency
