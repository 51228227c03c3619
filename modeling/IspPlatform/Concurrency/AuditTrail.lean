import IspPlatform.Concurrency.Audit

/-!
# The audit trail and the ledger

The trail against the ledger in every state of every run, crashes included: no row claims a change
that the ledger does not have, and a change of the ledger without its row has a call that is in
flight, was killed, or was not told that its commit went through.
-/

namespace IspPlatform.Concurrency

open Py System

/-- What the trail says of the ledger. -/
structure TrailMatches (s : Changes) : Prop where
  once : ∀ i, (rowsOf s i).length ≤ 1
  authored : ∀ row ∈ s.shared.audit, ∃ t, s.threads[row.call]? = some t ∧
    row.entityId = t.job.entityId ∧ row.event = t.job.event ∧
    (row.result = lit "success" ∨ row.result = lit "failed")
  success : ∀ row ∈ s.shared.audit, row.result = lit "success" →
    ∃ group, ⟨.projection, row.call, row.entityId, group⟩ ∈ s.shared.journal ∧
      ⟨.ledger, row.call, row.entityId, group⟩ ∈ s.shared.journal
  failure : ∀ row ∈ s.shared.audit, row.result = lit "failed" →
    ∀ tx, committed tx ∉ s.log row.call
  complete : ∀ w ∈ s.shared.journal, w.store = .ledger →
    (∃ row ∈ s.shared.audit, row.call = w.call ∧ row.entityId = w.entity ∧
      row.result = lit "success") ∨
    ∃ t, s.threads[w.call]? = some t ∧ (t.InFlight ∨ t.dead = true ∨
      ∃ x ∈ s.log w.call, x.op = .commit t.job.tx ∧ failed x = true)

/-! ## One attempt -/

section
variable {c : StateChange} {t b : List (Event calls)} {op : Call}
  {q : Head calls CommandOutcome} {i : Nat}

theorem Trying.not_committed (h : Trying c c.tx b op) (tx : Tx) : committed tx ∉ b := by
  cases h <;> simp [wrote, reauthed, rolledBack, committed]

theorem Trying.halted_uncommitted (h : Trying c c.tx b op) {r : Reply calls op}
    (hr : ∀ a, r ≠ .ret a) {rest : List (Event calls)} (hrest : ∀ tx, committed tx ∉ rest)
    (tx : Tx) : committed tx ∉ b ++ ⟨op, r⟩ :: rest := by
  intro hin
  rcases List.mem_append.mp hin with hin | hin
  · exact h.not_committed tx hin
  · rcases List.mem_cons.mp hin with heq | hin
    · cases heq
      exact hr () rfl
    · exact hrest tx hin

/-- What an attempt has noted, and whether its commit returned. -/
inductive Noted (c : StateChange) (t : List (Event calls)) (q : Head calls CommandOutcome)
    (i : Nat) : List AuditRow → Prop where
  | nothing : (∀ tx, committed tx ∈ t →
      q = .call (.record c.entityId c.event (lit "success"))) → Noted c t q i []
  | success : wrote c ∈ t → committed c.tx ∈ t →
      Noted c t q i [⟨i, c.entityId, c.event, lit "success"⟩]
  | failure : (∀ tx, committed tx ∉ t) → Noted c t q i [⟨i, c.entityId, c.event, lit "failed"⟩]

/-- The rows of an attempt at any of its points, over a sink that never fails. -/
theorem ApplyPoint.noted (h : ApplyPoint c c.tx t q)
    (hrec : ∀ x ∈ t, Concurrency.failed x = true → Call.row i x.op = none) :
    Noted c t q i (t.filterMap fun e => Call.row i e.op) := by
  cases h with
  | trying hb =>
    rw [hb.quiet.2.1 i]
    exact .nothing fun tx hin => absurd hin (hb.not_committed tx)
  | reporting o ho => exact .nothing fun _ _ => rfl
  | returned o ho => exact .success (by simp) (by simp)
  | refused o ho =>
    refine .failure fun tx => ?_
    simp [committed, wrote, reauthed, rolledBack, recorded]
  | @reportHalted o r _ _ hr =>
    cases hrec ⟨.record c.entityId c.event (lit "success"), r⟩ (by simp) hr.failed
  | @escaped b op m hb =>
    rw [hb.no_row (hrec ⟨op, .raised (.stateChangeFailed m)⟩ (by simp) rfl)]
    exact .nothing fun tx hin => absurd hin (hb.halted_uncommitted (by simp) (by simp) tx)
  | @cancelled b op hb =>
    rw [hb.no_row (hrec ⟨op, .cancelled⟩ (by simp) rfl)]
    exact .nothing fun tx hin => absurd hin (hb.halted_uncommitted (by simp) (by simp) tx)
  | @undoing b op e hb he =>
    rw [hb.no_row (hrec ⟨op, .raised e⟩ (by simp) rfl)]
    exact .nothing fun tx hin => absurd hin (hb.halted_uncommitted (by simp) (by simp) tx)
  | @undoHalted b op e r o hb he hr =>
    rw [hb.no_row (hrec ⟨op, .raised e⟩ (by simp) rfl)]
    exact .nothing fun tx hin =>
      absurd hin (hb.halted_uncommitted (by simp) (by simp [committed]) tx)
  | @noting b op e hb he =>
    rw [hb.no_row (hrec ⟨op, .raised e⟩ (by simp) rfl)]
    exact .nothing fun tx hin =>
      absurd hin (hb.halted_uncommitted (by simp) (by simp [committed, rolledBack]) tx)
  | @noteHalted b op e r _ hb he hr =>
    cases hrec ⟨.record c.entityId c.event (lit "failed"), r⟩ (by simp) hr.failed
  | @failed b op e hb he =>
    rw [hb.no_row (hrec ⟨op, .raised e⟩ (by simp) rfl)]
    exact .failure
      (hb.halted_uncommitted (by simp) (by simp [committed, rolledBack, recorded]))

end

/-! ## Every run -/

variable {s : Changes} {ok : Changes → Label calls StateChange Empty → Stores → Prop}

theorem failed_no_row (h : (dualStore notRecord).Reach .empty ok s) (i : Nat) :
    ∀ x ∈ s.log i, failed x = true → Call.row i x.op = none := by
  intro x hx hf
  obtain ⟨op, r⟩ := x
  cases op with
  | record ent ev res =>
    rw [record_returns h i _ hx ⟨_, _, _, rfl⟩] at hf
    cases hf
  | _ => rfl

theorem thread_noted (h : (dualStore notRecord).Reach .empty ok s) {i : Nat}
    {t : Thread calls StateChange CommandOutcome} (ht : s.threads[i]? = some t) :
    Noted t.job (s.log i) t.code.head i (rowsOf s i) := by
  rw [rowsOf_eq h i]
  exact (applyStateChange_point (h.after ht)).noted (failed_no_row h i)

theorem row_cases (h : (dualStore notRecord).Reach .empty ok s) {row : AuditRow}
    (hrow : row ∈ s.shared.audit) : ∃ t, s.threads[row.call]? = some t ∧
      row.entityId = t.job.entityId ∧ row.event = t.job.event ∧
      (row.result = lit "success" ∧ wrote t.job ∈ s.log row.call ∧
          committed t.job.tx ∈ s.log row.call ∨
        row.result = lit "failed" ∧ ∀ tx, committed tx ∉ s.log row.call) := by
  obtain ⟨t, ht⟩ : ∃ t, s.threads[row.call]? = some t := by
    rw [audit_trace h] at hrow
    obtain ⟨x, hx, hop⟩ := List.mem_filterMap.mp hrow
    rw [Call.call_row hop]
    exact ⟨_, List.getElem?_eq_getElem (h.trace_lt x hx)⟩
  have hin : row ∈ rowsOf s row.call := List.mem_filter.mpr ⟨hrow, by simp⟩
  have hn := thread_noted h ht
  refine ⟨t, ht, ?_⟩
  generalize rowsOf s row.call = rows at hn hin
  cases hn with
  | nothing => cases hin
  | success hw hc =>
    have hrow := List.mem_singleton.mp hin
    exact ⟨congrArg AuditRow.entityId hrow, congrArg AuditRow.event hrow,
      .inl ⟨congrArg AuditRow.result hrow, hw, hc⟩⟩
  | failure hno =>
    have hrow := List.mem_singleton.mp hin
    exact ⟨congrArg AuditRow.entityId hrow, congrArg AuditRow.event hrow,
      .inr ⟨congrArg AuditRow.result hrow, hno⟩⟩

theorem success_ne_failed : lit "success" ≠ lit "failed" := by decide

/-- A call with no row has not been told of a commit, unless it is about to note it. -/
theorem unnoted (h : (dualStore notRecord).Reach .empty ok s) {i : Nat}
    {t : Thread calls StateChange CommandOutcome} (ht : s.threads[i]? = some t)
    (hcommit : committed t.job.tx ∈ s.log i) :
    (∃ row ∈ s.shared.audit, row.call = i ∧ row.entityId = t.job.entityId ∧
      row.result = lit "success") ∨ ∃ op, t.code.head = .call op := by
  have hrows : ∀ row ∈ rowsOf s i, row ∈ s.shared.audit := fun _ hin => (List.mem_filter.mp hin).1
  have hn := thread_noted h ht
  generalize rowsOf s i = rows at hn hrows
  cases hn with
  | nothing hq => exact .inr ⟨_, hq _ hcommit⟩
  | success => exact .inl ⟨_, hrows _ (List.mem_singleton.mpr rfl), rfl, rfl, rfl⟩
  | failure hno => exact absurd hcommit (hno _)

theorem ledger_commit (h : (dualStore notRecord).Reach .empty ok s) {w : Write}
    (hw : w ∈ s.shared.journal) (hst : w.store = .ledger) :
    ∃ t, s.threads[w.call]? = some t ∧ w.entity = t.job.entityId ∧
      ∃ x ∈ s.log w.call, x.op = .commit t.job.tx ∧
        (failed x = false → x = committed t.job.tx) := by
  obtain ⟨t, ht, hent, hg, -⟩ := dualStore_writers.author rfl h hw
  obtain ⟨⟨n, op, r⟩, hx, rfl, hop⟩ := dualStore_writers.called rfl h w hw
  refine ⟨t, ht, hent, ⟨op, r⟩, mem_logOf.mpr hx, ?_⟩
  cases op with
  | commit tx =>
    have hwrite := Option.some.inj hop
    obtain rfl : tx = t.job.tx := by rw [StateChange.tx, ← hent, ← hg, ← hwrite]
    refine ⟨rfl, fun hok => ?_⟩
    cases r with
    | ret a => rfl
    | raised e => cases hok
    | cancelled => cases hok
  | writeGroup e g =>
    rw [← Option.some.inj hop] at hst
    cases hst
  | _ => cases hop

/-- **The trail matches the ledger** in every reachable state. -/
theorem trail_matches (h : (dualStore notRecord).Reach .empty ok s) : TrailMatches s where
  once i := by
    by_cases hi : i < s.threads.length
    · have hn := thread_noted h (List.getElem?_eq_getElem hi)
      generalize rowsOf s i = rows at hn ⊢
      cases hn <;> simp
    · -- no thread, so no row
      have hnone : rowsOf s i = [] := by
        refine List.eq_nil_iff_forall_not_mem.mpr fun row hrow => ?_
        obtain ⟨hin, hcall⟩ := List.mem_filter.mp hrow
        obtain ⟨t, ht, -⟩ := row_cases h hin
        obtain rfl : row.call = i := by simpa using hcall
        exact hi (List.getElem?_eq_some_iff.mp ht).1
      simp [hnone]
  authored row hrow := by
    obtain ⟨t, ht, hent, hev, hres⟩ := row_cases h hrow
    exact ⟨t, ht, hent, hev, hres.imp And.left And.left⟩
  success row hrow hres := by
    obtain ⟨t, ht, hent, -, ⟨-, hw, hc⟩ | ⟨hno, -⟩⟩ := row_cases h hrow
    · rw [hent]
      exact ⟨t.job.targetGroup, dualStore_writers.shown h _ (mem_logOf.mp hw) _ () rfl rfl,
        dualStore_writers.shown h _ (mem_logOf.mp hc) _ () rfl rfl⟩
    · exact absurd (hres.symm.trans hno) success_ne_failed
  failure row hrow hres := by
    obtain ⟨t, -, -, -, ⟨hno, -⟩ | ⟨-, hno⟩⟩ := row_cases h hrow
    · exact absurd (hno.symm.trans hres) success_ne_failed
    · exact hno
  complete w hw hst := by
    obtain ⟨t, ht, hent, x, hx, hop, hcommit⟩ := ledger_commit h hw hst
    cases hf : failed x with
    | true => exact .inr ⟨t, ht, .inr (.inr ⟨x, hx, hop, hf⟩)⟩
    | false =>
      rcases unnoted h ht (hcommit hf ▸ hx) with ⟨row, hrow, hcall, hre, hres⟩ | hlive
      · exact .inl ⟨row, hrow, hcall, hre.trans hent.symm, hres⟩
      · cases hd : t.dead with
        | true => exact .inr ⟨t, ht, .inr (.inl hd)⟩
        | false => exact .inr ⟨t, ht, .inl ⟨hd, hlive⟩⟩

theorem trail_matches_settled : TrailMatches settledSuspension := by
  have settled : (dualStore notRecord).Reach .empty anyStep settledSuspension :=
    reach_settledSuspension
  exact trail_matches settled

end IspPlatform.Concurrency
