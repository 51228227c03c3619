import IspPlatform.Ai.ApprovalLog

/-!
# What a queue does not take back

From any state on, whatever is called: the log and the list of proposals are only added to, a
decided proposal stays as it is, and a killed queue takes no proposal more. `Grows` says so of two
states; it holds of one call and it composes.
-/

namespace IspPlatform.Ai

open Py

/-- The same proposal later: its decision may have come. -/
structure Proposal.Becomes (p p' : Proposal) : Prop where
  intent : p'.intent = p.intent
  proposedAt : p'.proposedAt = p.proposedAt
  settled : p.state ≠ .pending → p' = p

/-- What one state of a queue has in common with a later one. -/
structure ApprovalQueue.Grows (q q' : ApprovalQueue) : Prop where
  limits : q'.allowlist = q.allowlist ∧ q'.maxPending = q.maxPending ∧ q'.maxPerHour = q.maxPerHour
  proposals : ∀ (i : Nat) (p : Proposal), q.proposals[i]? = some p →
    ∃ p', q'.proposals[i]? = some p' ∧ p.Becomes p'
  longer : q.proposals.length ≤ q'.proposals.length
  /-- What was added has the next ids, in order. -/
  numbered : ∀ (i : Nat) (p : Proposal), q.proposals.length ≤ i → q'.proposals[i]? = some p →
    p.proposalId - i = q.nextId - q.proposals.length
  nextId : q'.nextId - q'.proposals.length = q.nextId - q.proposals.length
  log : q.auditLog <+: q'.auditLog
  killed : q.killed = true → q'.killed = true ∧ q'.proposals.length = q.proposals.length
  /-- What the executor was to pick up is still there, unchanged and in order. -/
  approved : q.approved.Sublist q'.approved

variable {printable : Char → Bool} {q q' q'' : ApprovalQueue} {p p' p'' : Proposal}

theorem Proposal.Becomes.refl (p : Proposal) : p.Becomes p := ⟨rfl, rfl, fun _ => rfl⟩

theorem Proposal.Becomes.trans (h : p.Becomes p') (h' : p'.Becomes p'') : p.Becomes p'' := by
  refine ⟨h'.intent.trans h.intent, h'.proposedAt.trans h.proposedAt, fun hs => ?_⟩
  obtain rfl := h.settled hs
  exact h'.settled hs

theorem Proposal.becomes_decided (hp : p.state = .pending) (approve : Bool) (operator : Str) :
    p.Becomes (p.decided approve operator) :=
  ⟨rfl, rfl, fun hs => absurd hp hs⟩

theorem filter_set_sublist {α : Type} {f : α → Bool} {l : List α} {i : Nat} {a b : α}
    (hi : l[i]? = some a) (ha : f a = false) : (l.filter f).Sublist ((l.set i b).filter f) := by
  induction l generalizing i with
  | nil => cases hi
  | cons x l ih =>
    cases i with
    | zero =>
      obtain rfl : x = a := by simpa using hi
      rw [List.filter_cons_of_neg (by simp [ha]), List.set_cons_zero, List.filter_cons]
      split
      · exact List.sublist_cons_self _ _
      · exact .refl _
    | succ i =>
      rw [List.set_cons_succ, List.filter_cons, List.filter_cons]
      split
      · exact (ih hi).cons_cons _
      · exact ih hi

namespace ApprovalQueue

theorem Grows.refl (q : ApprovalQueue) : q.Grows q where
  limits := ⟨rfl, rfl, rfl⟩
  proposals _ p hp := ⟨p, hp, .refl p⟩
  longer := Nat.le_refl _
  numbered i p hi hp := by
    rw [List.getElem?_eq_none hi] at hp
    cases hp
  nextId := rfl
  log := List.prefix_refl _
  killed hk := ⟨hk, rfl⟩
  approved := .refl _

theorem Grows.trans (h : q.Grows q') (h' : q'.Grows q'') : q.Grows q'' where
  limits := ⟨h'.limits.1.trans h.limits.1, h'.limits.2.1.trans h.limits.2.1,
    h'.limits.2.2.trans h.limits.2.2⟩
  proposals i p hp := by
    obtain ⟨p', hp', hb⟩ := h.proposals i p hp
    obtain ⟨p'', hp'', hb'⟩ := h'.proposals i p' hp'
    exact ⟨p'', hp'', hb.trans hb'⟩
  longer := Nat.le_trans h.longer h'.longer
  numbered i p hi hp := by
    by_cases hnew : q'.proposals.length ≤ i
    · exact (h'.numbered i p hnew hp).trans h.nextId
    · -- it was there in between already
      obtain ⟨p', hp'⟩ : ∃ p', q'.proposals[i]? = some p' :=
        ⟨_, List.getElem?_eq_getElem (by omega)⟩
      obtain ⟨p'', hp'', hb⟩ := h'.proposals i p' hp'
      obtain rfl : p = p'' := Option.some.inj (hp.symm.trans hp'')
      have hid : p.proposalId = p'.proposalId := congrArg Intent.proposalId hb.intent
      rw [hid]
      exact h.numbered i p' hi hp'
  nextId := h'.nextId.trans h.nextId
  log := h.log.trans h'.log
  killed hk := by
    obtain ⟨hk', hlen⟩ := h.killed hk
    obtain ⟨hk'', hlen'⟩ := h'.killed hk'
    exact ⟨hk'', hlen'.trans hlen⟩
  approved := h.approved.trans h'.approved

theorem grows_kill (q : ApprovalQueue) (reason : Str) (clock : Int) :
    q.Grows (q.kill reason clock) where
  limits := ⟨rfl, rfl, rfl⟩
  proposals _ p hp := ⟨p, hp, .refl p⟩
  longer := Nat.le_refl _
  numbered := (Grows.refl q).numbered
  nextId := rfl
  log := List.prefix_append _ _
  killed _ := ⟨rfl, rfl⟩
  approved := .refl _

theorem grows_create (hk : q.killed = false) (hid : p.proposalId = q.nextId)
    (hp : p.state = .pending) (clock : Int) : q.Grows (q.create p clock) where
  limits := ⟨rfl, rfl, rfl⟩
  proposals i p' hp' := by
    refine ⟨p', ?_, .refl p'⟩
    have hlt := (List.getElem?_eq_some_iff.mp hp').1
    exact (List.getElem?_append_left hlt).trans hp'
  longer := by
    have hlen : (q.create p clock).proposals.length = q.proposals.length + 1 := List.length_append
    omega
  numbered i p' hi hp' := by
    rcases getElem?_snoc_cases hp' with hold | ⟨rfl, rfl⟩
    · rw [List.getElem?_eq_none hi] at hold
      cases hold
    · rw [hid]
  nextId := by
    have hlen : (q.create p clock).proposals.length = q.proposals.length + 1 := List.length_append
    have hnext : (q.create p clock).nextId = q.nextId + 1 := rfl
    omega
  log := List.prefix_append _ _
  killed hk' := by
    rw [hk] at hk'
    cases hk'
  approved := by
    show (q.proposals.filter _).Sublist ((q.proposals ++ [p]).filter _)
    rw [List.filter_append]
    exact List.sublist_append_left _ _

theorem grows_settle {i : Nat} (hi : q.proposals[i]? = some p) (hp : p.state = .pending)
    (spec : ActionSpec) (approve : Bool) (operator : Str) (clock : Nat → Int) :
    q.Grows (q.settle i p spec approve operator clock) := by
  have hlog : q.auditLog <+: (q.settle i p spec approve operator clock).auditLog := by
    rw [settle_log]
    exact List.prefix_append _ _
  obtain ⟨log, heq⟩ := q.settle_eq i p spec approve operator clock
  rw [heq] at hlog ⊢
  have hlen : (q.proposals.set i (p.decided approve operator)).length = q.proposals.length :=
    List.length_set
  refine ⟨⟨rfl, rfl, rfl⟩, ?_, hlen.ge, ?_, ?_, hlog, fun hk => ⟨hk, hlen⟩, ?_⟩
  · intro j p' hp'
    have hlt := (List.getElem?_eq_some_iff.mp hp').1
    dsimp only
    rw [List.getElem?_set]
    by_cases hij : i = j
    · subst hij
      obtain rfl : p = p' := Option.some.inj (hi.symm.trans hp')
      rw [if_pos rfl, if_pos hlt]
      exact ⟨_, rfl, p.becomes_decided hp approve operator⟩
    · rw [if_neg hij]
      exact ⟨p', hp', .refl p'⟩
  · intro j p' hj hp'
    rw [List.getElem?_eq_none (hlen ▸ hj)] at hp'
    cases hp'
  · dsimp only
    rw [hlen]
  · exact filter_set_sublist hi (by simp [hp])

theorem grows_call (q : ApprovalQueue) (op : Op) :
    q.Grows ((approvalQueue printable).step q op).2 := by
  have hstep := call_step printable q op
  generalize (approvalQueue printable).step q op = r at hstep
  cases hstep with
  | refused => exact .refl q
  | halted e reason => exact grows_kill q reason _
  | created hk _ _ _ _ _ _ hp =>
    subst hp
    exact grows_create hk rfl rfl _
  | undecided e => exact .refl q
  | decided hi _ _ hp hs => exact grows_settle hi hp _ _ _ _
  | killed reason clock => exact grows_kill q reason clock

end ApprovalQueue

/-- **Nothing is taken back.** Between any two states of a run, from whatever state it goes on:
ids, intents and decisions stay, the log grows at its end, and a kill is for good. -/
theorem nothing_taken_back {h : List (Op × Result)}
    (hrun : (approvalQueue printable).Reach q h q') : q.Grows q' :=
  hrun.keeps (.refl q) fun _ op hg => hg.trans (ApprovalQueue.grows_call _ op)

theorem nothing_taken_back_ran : gate.Grows ran.2 := nothing_taken_back reach_ran

end IspPlatform.Ai
