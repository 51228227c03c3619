import IspPlatform.Concurrency.Calls

/-!
# One state change over two stores

`applyStateChange` writes the projection, commands the device, and commits the
ledger last. `ApplyPoint` lists its program points: the calls answered so far, and
the call it stands at or how it ended. `applyStateChange_point` is the only place
where the body is unfolded.
-/

namespace IspPlatform.Concurrency

open Py Prog

/-- The outcomes that forbid the commit. -/
abbrev CommandOutcome.Refused (o : CommandOutcome) : Prop := o = .rejected ∨ o = .timeout

/-- `apply_state_change`. -/
def applyStateChange (change : StateChange) (tx : Tx) : Prog calls CommandOutcome := do
  let outcome ← tryExcept (do
      call (.writeGroup change.entityId change.targetGroup)
      let outcome ← call (.forceReauth change.entityId)
      if outcome.Refused then
        call (.rollback tx)
        call (.record change.entityId change.event (lit "failed"))
        raise (.stateChangeFailed
          (lit "device command " ++ outcome.str ++ lit " for " ++ change.entityId))
      call (.commit tx)
      return outcome)
    fun
      | .stateChangeFailed m => raise (.stateChangeFailed m)
      | exc => do
        call (.rollback tx)
        call (.record change.entityId change.event (lit "failed"))
        raise (.stateChangeFailed exc.str)
  call (.record change.entityId change.event (lit "success"))
  return outcome

/-! ## Program points -/

section
variable (c : StateChange) (tx : Tx)

def wrote : Event calls := ⟨.writeGroup c.entityId c.targetGroup, .ret ()⟩

def reauthed (o : CommandOutcome) : Event calls := ⟨.forceReauth c.entityId, .ret o⟩

def committed : Event calls := ⟨.commit tx, .ret ()⟩

def rolledBack : Event calls := ⟨.rollback tx, .ret ()⟩

def recorded (result : Str) : Event calls := ⟨.record c.entityId c.event result, .ret ()⟩

/-- The exception for a refused command. -/
def refusal (o : CommandOutcome) : Exn :=
  .stateChangeFailed (lit "device command " ++ o.str ++ lit " for " ++ c.entityId)

/-- Inside the `try`: the calls that returned, and the next one. -/
inductive Trying : List (Event calls) → Call → Prop where
  | write : Trying [] (.writeGroup c.entityId c.targetGroup)
  | reauth : Trying [wrote c] (.forceReauth c.entityId)
  | commit (o : CommandOutcome) : ¬ o.Refused → Trying [wrote c, reauthed c o] (.commit tx)
  | rollback (o : CommandOutcome) : o.Refused → Trying [wrote c, reauthed c o] (.rollback tx)
  | record (o : CommandOutcome) : o.Refused →
      Trying [wrote c, reauthed c o, rolledBack tx] (.record c.entityId c.event (lit "failed"))

/-- How the body of the `try` ends. -/
inductive Tried : List (Event calls) → Outcome Exn CommandOutcome → Prop where
  | committed (o : CommandOutcome) : ¬ o.Refused →
      Tried [wrote c, reauthed c o, committed tx] (.ret o)
  | refused (o : CommandOutcome) : o.Refused →
      Tried [wrote c, reauthed c o, rolledBack tx, recorded c (lit "failed")]
        (.raised (refusal c o))
  | halted {b : List (Event calls)} {op : Call} {r : Reply calls op}
      {o : Outcome Exn CommandOutcome} : Trying c tx b op → Halts r o → Tried (b ++ [⟨op, r⟩]) o

/-- The program points of `applyStateChange`. -/
inductive ApplyPoint : List (Event calls) → Head calls CommandOutcome → Prop where
  | trying {b : List (Event calls)} {op : Call} : Trying c tx b op → ApplyPoint b (.call op)
  | reporting (o : CommandOutcome) : ¬ o.Refused →
      ApplyPoint [wrote c, reauthed c o, committed tx]
        (.call (.record c.entityId c.event (lit "success")))
  | returned (o : CommandOutcome) : ¬ o.Refused →
      ApplyPoint [wrote c, reauthed c o, committed tx, recorded c (lit "success")] (.ended (.ret o))
  | reportHalted (o : CommandOutcome) {r : Outcome Exn Unit} {o' : Outcome Exn CommandOutcome} :
      ¬ o.Refused → Halts r o' →
      ApplyPoint [wrote c, reauthed c o, committed tx,
        ⟨.record c.entityId c.event (lit "success"), r⟩] (.ended o')
  | refused (o : CommandOutcome) : o.Refused →
      ApplyPoint [wrote c, reauthed c o, rolledBack tx, recorded c (lit "failed")]
        (.ended (.raised (refusal c o)))
  | escaped {b : List (Event calls)} {op : Call} (m : Str) : Trying c tx b op →
      ApplyPoint (b ++ [⟨op, .raised (.stateChangeFailed m)⟩])
        (.ended (.raised (.stateChangeFailed m)))
  | cancelled {b : List (Event calls)} {op : Call} : Trying c tx b op →
      ApplyPoint (b ++ [⟨op, .cancelled⟩]) (.ended .cancelled)
  | undoing {b : List (Event calls)} {op : Call} {e : Exn} : Trying c tx b op →
      (∀ m, e ≠ .stateChangeFailed m) → ApplyPoint (b ++ [⟨op, .raised e⟩]) (.call (.rollback tx))
  | undoHalted {b : List (Event calls)} {op : Call} {e : Exn} {r : Outcome Exn Unit}
      {o : Outcome Exn CommandOutcome} : Trying c tx b op → (∀ m, e ≠ .stateChangeFailed m) →
      Halts r o → ApplyPoint (b ++ [⟨op, .raised e⟩, ⟨.rollback tx, r⟩]) (.ended o)
  | noting {b : List (Event calls)} {op : Call} {e : Exn} : Trying c tx b op →
      (∀ m, e ≠ .stateChangeFailed m) → ApplyPoint (b ++ [⟨op, .raised e⟩, rolledBack tx])
        (.call (.record c.entityId c.event (lit "failed")))
  | noteHalted {b : List (Event calls)} {op : Call} {e : Exn} {r : Outcome Exn Unit}
      {o : Outcome Exn CommandOutcome} : Trying c tx b op → (∀ m, e ≠ .stateChangeFailed m) →
      Halts r o → ApplyPoint (b ++ [⟨op, .raised e⟩, rolledBack tx,
        ⟨.record c.entityId c.event (lit "failed"), r⟩]) (.ended o)
  | failed {b : List (Event calls)} {op : Call} {e : Exn} : Trying c tx b op →
      (∀ m, e ≠ .stateChangeFailed m) →
      ApplyPoint (b ++ [⟨op, .raised e⟩, rolledBack tx, recorded c (lit "failed")])
        (.ended (.raised (.stateChangeFailed e.str)))

end

/-- The body of the `try`. -/
def attempt (change : StateChange) (tx : Tx) : Prog calls CommandOutcome := do
  call (.writeGroup change.entityId change.targetGroup)
  let outcome ← call (.forceReauth change.entityId)
  if outcome.Refused then
    call (.rollback tx)
    call (.record change.entityId change.event (lit "failed"))
    raise (refusal change outcome)
  call (.commit tx)
  return outcome

/-- The second `except` clause. -/
def onFailure (change : StateChange) (tx : Tx) (exc : Exn) : Prog calls CommandOutcome := do
  call (.rollback tx)
  call (.record change.entityId change.event (lit "failed"))
  raise (.stateChangeFailed exc.str)

theorem applyStateChange_eq (change : StateChange) (tx : Tx) :
    applyStateChange change tx =
      ((attempt change tx).tryExcept fun
        | .stateChangeFailed m => raise (.stateChangeFailed m)
        | exc => onFailure change tx exc).bind fun outcome =>
          (call (.record change.entityId change.event (lit "success"))).bind fun _ =>
            .done (.ret outcome) := rfl

variable {c : StateChange} {tx : Tx} {t : List (Event calls)} {q : Prog calls CommandOutcome}

theorem attempt_point (h : After (attempt c tx) t q) :
    (∃ op, q.head = .call op ∧ Trying c tx t op) ∨ ∃ o, q.head = .ended o ∧ Tried c tx t o := by
  unfold attempt at h
  rcases After.call_cases h with ⟨rfl, hq⟩ | ⟨-, t₁, rfl, h₁⟩ | ⟨r, o, hr, rfl, rfl⟩
  · exact .inl ⟨_, hq, .write⟩
  · rcases After.call_cases h₁ with ⟨rfl, hq⟩ | ⟨o, t₂, rfl, h₂⟩ | ⟨r, o, hr, rfl, rfl⟩
    · exact .inl ⟨_, hq, .reauth⟩
    · split at h₂
      · next ho =>
        rcases After.call_cases h₂ with ⟨rfl, hq⟩ | ⟨-, t₃, rfl, h₃⟩ | ⟨r, o', hr, rfl, rfl⟩
        · exact .inl ⟨_, hq, .rollback o ho⟩
        · rcases After.call_cases h₃ with ⟨rfl, hq⟩ | ⟨-, t₄, rfl, h₄⟩ | ⟨r, o', hr, rfl, rfl⟩
          · exact .inl ⟨_, hq, .record o ho⟩
          · obtain ⟨rfl, rfl⟩ := After.done_iff.mp h₄
            exact .inr ⟨_, rfl, .refused o ho⟩
          · exact .inr ⟨o', rfl, .halted (.record o ho) hr⟩
        · exact .inr ⟨o', rfl, .halted (.rollback o ho) hr⟩
      · next ho =>
        rcases After.call_cases h₂ with ⟨rfl, hq⟩ | ⟨-, t₃, rfl, h₃⟩ | ⟨r, o', hr, rfl, rfl⟩
        · exact .inl ⟨_, hq, .commit o ho⟩
        · obtain ⟨rfl, rfl⟩ := After.done_iff.mp h₃
          exact .inr ⟨_, rfl, .committed o ho⟩
        · exact .inr ⟨o', rfl, .halted (.commit o ho) hr⟩
    · exact .inr ⟨o, rfl, .halted .reauth hr⟩
  · exact .inr ⟨o, rfl, .halted .write hr⟩

theorem onFailure_point {b : List (Event calls)} {op : Call} {e : Exn} (hb : Trying c tx b op)
    (he : ∀ m, e ≠ .stateChangeFailed m) (h : After (onFailure c tx e) t q) :
    (∀ o, q ≠ .done (.ret o)) ∧ ApplyPoint c tx (b ++ ⟨op, .raised e⟩ :: t) q.head := by
  unfold onFailure at h
  rcases After.call_cases h with ⟨rfl, hq⟩ | ⟨-, t₁, rfl, h₁⟩ | ⟨r, o, hr, rfl, rfl⟩
  · exact ⟨fun o ho => by simp [ho, head] at hq, hq ▸ .undoing hb he⟩
  · rcases After.call_cases h₁ with ⟨rfl, hq⟩ | ⟨-, t₂, rfl, h₂⟩ | ⟨r, o, hr, rfl, rfl⟩
    · exact ⟨fun o ho => by simp [ho, head] at hq, hq ▸ .noting hb he⟩
    · obtain ⟨rfl, rfl⟩ := After.done_iff.mp h₂
      exact ⟨by simp, .failed hb he⟩
    · exact ⟨by simpa using hr.ne_ret, .noteHalted hb he hr⟩
  · exact ⟨by simpa using hr.ne_ret, .undoHalted hb he hr⟩

/-- The `try` statement passed with a commit, or it stands or ended at a point of its own. -/
theorem guarded_point
    (h : After ((attempt c tx).tryExcept fun
        | .stateChangeFailed m => raise (.stateChangeFailed m)
        | exc => onFailure c tx exc) t q) :
    (∃ o, q = .done (.ret o) ∧ t = [wrote c, reauthed c o, committed tx] ∧ ¬ o.Refused) ∨
      (∀ o, q ≠ .done (.ret o)) ∧ ApplyPoint c tx t q.head := by
  rcases After.andThen_cases h with ⟨op, k, h₁, rfl⟩ | ⟨o, t₁, t₂, rfl, h₁, h₂⟩
  · rcases attempt_point h₁ with ⟨op', hop, hp⟩ | ⟨o, ho, -⟩
    · obtain rfl : op = op' := by simpa [head] using hop
      exact .inr ⟨by simp [andThen], .trying hp⟩
    · simp [head] at ho
  rcases attempt_point h₁ with ⟨op', hop, -⟩ | ⟨o', ho', hp⟩
  · simp [head] at hop
  obtain rfl : o = o' := by simpa [head] using ho'
  cases hp with
  | committed o ho =>
    obtain ⟨rfl, rfl⟩ := After.done_iff.mp h₂
    exact .inl ⟨o, rfl, rfl, ho⟩
  | refused o ho =>
    obtain ⟨rfl, rfl⟩ := After.done_iff.mp h₂
    exact .inr ⟨by simp, .refused o ho⟩
  | halted hb hr =>
    cases hr with
    | cancelled =>
      obtain ⟨rfl, rfl⟩ := After.done_iff.mp h₂
      exact .inr ⟨by simp, by rw [List.append_nil]; exact .cancelled hb⟩
    | raised e =>
      cases e with
      | stateChangeFailed m =>
        obtain ⟨rfl, rfl⟩ := After.done_iff.mp h₂
        exact .inr ⟨by simp, by rw [List.append_nil]; exact .escaped m hb⟩
      | lockTimeout m | lockUnavailable m | other m =>
        rw [List.append_assoc]
        exact .inr (onFailure_point hb (by simp) h₂)

/-- **Program points.** Every point `applyStateChange` can be at. -/
theorem applyStateChange_point (h : After (applyStateChange c tx) t q) :
    ApplyPoint c tx t q.head := by
  rw [applyStateChange_eq] at h
  rcases After.andThen_cases h with ⟨op, k, h₁, rfl⟩ | ⟨o, t₁, t₂, rfl, h₁, h₂⟩
  · rcases guarded_point h₁ with ⟨o, ho, -⟩ | ⟨-, hp⟩
    · cases ho
    · exact hp
  · rcases guarded_point h₁ with ⟨a, ha, rfl, ho⟩ | ⟨hne, hp⟩
    · cases ha
      rcases After.call_cases h₂ with ⟨rfl, hq⟩ | ⟨-, t₃, rfl, h₃⟩ | ⟨r, o', hr, rfl, rfl⟩
      · rw [hq]; exact .reporting a ho
      · obtain ⟨rfl, rfl⟩ := After.done_iff.mp h₃
        exact .returned a ho
      · exact .reportHalted a ho hr
    · cases o with
      | ret a => exact absurd rfl (hne a)
      | raised e =>
        obtain ⟨rfl, rfl⟩ := After.done_iff.mp h₂
        simpa using hp
      | cancelled =>
        obtain ⟨rfl, rfl⟩ := After.done_iff.mp h₂
        simpa using hp

end IspPlatform.Concurrency
