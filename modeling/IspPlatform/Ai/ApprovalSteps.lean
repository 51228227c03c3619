import IspPlatform.Ai.ApprovalGate

/-!
# Single calls of the approval queue

`CallStep` says what each call can do: its result, and the queue it leaves. What holds of
runs is derived from it alone.
-/

namespace IspPlatform.Ai

open Py

/-- A limit refused a proposal. -/
def LimitRefusal (e : Exn) : Prop :=
  (∃ n max, e = .queueHalted (backlogText n max)) ∨ ∃ max, e = .queueHalted (rateText max)

/-- The queue with one proposal more. -/
def ApprovalQueue.create (q : ApprovalQueue) (p : Proposal) (clock : Int) : ApprovalQueue :=
  { q with nextId := q.nextId + 1, proposals := q.proposals ++ [p] }.audit (utc clock)
    (lit "proposal.created") (p.action ++ lit " #" ++ intStr q.nextId)

def Proposal.decided (p : Proposal) (approve : Bool) (operator : Str) : Proposal :=
  { p with state := if approve then .approved else .rejected, decidedBy := some operator }

/-- The queue with its `i`-th proposal `p` decided. -/
def ApprovalQueue.settle (q : ApprovalQueue) (i : Nat) (p : Proposal) (spec : ActionSpec)
    (approve : Bool) (operator : Str) (clock : Nat → Int) : ApprovalQueue :=
  let number := lit "#" ++ intStr p.proposalId
  let recorded := if approve ∧ ¬ spec.reversible then
      q.audit (utc (clock 0)) (lit "proposal.irreversible_approved")
        (number ++ lit " by " ++ operator)
    else q
  { recorded with proposals := q.proposals.set i (p.decided approve operator) }.audit
    (utc (clock 1)) (lit "proposal.decided")
    (number ++ lit " " ++ (p.decided approve operator).state.str ++ lit " by " ++ operator)

/-- What a call can do: its result, and the queue it leaves. -/
inductive CallStep (q : ApprovalQueue) : Op → Result × ApprovalQueue → Prop where
  | refused {action : Str} {arguments : Mapping Str} {rationale : Str} {now : Option Datetime}
      {clock : Nat → Int} {e : Exn} : ¬ LimitRefusal e →
      CallStep q (.propose action arguments rationale now clock) (.error e, q)
  | halted {action : Str} {arguments : Mapping Str} {rationale : Str} {now : Option Datetime}
      {clock : Nat → Int} (e : Exn) (reason : Str) :
      CallStep q (.propose action arguments rationale now clock)
        (.error e, q.kill reason (clock 1))
  | created {action : Str} {arguments : Mapping Str} {rationale : Str} {now : Option Datetime}
      {clock : Nat → Int} {spec : ActionSpec} {n : Nat} {p : Proposal} : q.killed = false →
      q.allowlist.lookup action = some spec → spec.requiredArgs ⊆ arguments.keys.toFinset →
      strip rationale ≠ [] → (q.proposals.countP (·.state = .pending) : Int) < q.maxPending →
      recent p.proposedAt q.proposals = .ok n → n < q.maxPerHour →
      p = ⟨q.nextId, action, arguments, rationale, now.getD (utc (clock 0)), .pending, none⟩ →
      CallStep q (.propose action arguments rationale now clock)
        (.ok (some p), q.create p (clock 1))
  | undecided {id : Int} {approve : Bool} {operator : Str} {clock : Nat → Int} (e : Exn) :
      CallStep q (.decide id approve operator clock) (.error e, q)
  | decided {id : Int} {approve : Bool} {operator : Str} {clock : Nat → Int} {i : Nat}
      {p : Proposal} {spec : ActionSpec} : q.proposals[i]? = some p → p.proposalId = id →
      (∀ j p', j < i → q.proposals[j]? = some p' → p'.proposalId ≠ id) → p.state = .pending →
      q.allowlist.lookup p.action = some spec →
      CallStep q (.decide id approve operator clock)
        (.ok (some (p.decided approve operator)), q.settle i p spec approve operator clock)
  | killed (reason : Str) (clock : Int) :
      CallStep q (.kill reason clock) (.ok none, q.kill reason clock)

variable {q : ApprovalQueue} {printable : Char → Bool}

theorem not_limitRefusal {e : Exn} {c : Char} {text : Str} (he : e = .queueHalted (c :: text))
    (hp : c ≠ 'p') (hr : c ≠ 'r') : ¬ LimitRefusal e := by
  rintro (⟨n, max, h⟩ | ⟨max, h⟩)
  · rw [he] at h
    exact hp (List.cons.inj (Exn.queueHalted.inj h)).1
  · rw [he] at h
    exact hr (List.cons.inj (Exn.queueHalted.inj h)).1

theorem sub_typeError {a b : Datetime} {e : Exn} (h : a.sub b = .error e) :
    ∃ m, e = .typeError m := by
  unfold Datetime.sub at h
  split at h
  · cases h
  · split at h
    · cases h
    · cases h
    · cases h
      exact ⟨_, rfl⟩

theorem recent_cons {moment : Datetime} {p : Proposal} {ps : List Proposal} :
    (∃ e, moment.sub p.proposedAt = .error e ∧ recent moment (p :: ps) = .error e) ∨
    (∃ age e, moment.sub p.proposedAt = .ok age ∧ recent moment ps = .error e ∧
      recent moment (p :: ps) = .error e) ∨
    ∃ age n, moment.sub p.proposedAt = .ok age ∧ recent moment ps = .ok n ∧
      recent moment (p :: ps) = .ok (if age < hour then n + 1 else n) := by
  rw [recent]
  cases hage : moment.sub p.proposedAt with
  | error e => exact .inl ⟨e, rfl, rfl⟩
  | ok age =>
    cases hn : recent moment ps with
    | error e => exact .inr (.inl ⟨age, e, rfl, rfl, rfl⟩)
    | ok n => exact .inr (.inr ⟨age, n, rfl, rfl, rfl⟩)

theorem recent_typeError {moment : Datetime} {l : List Proposal} {e : Exn}
    (h : recent moment l = .error e) : ∃ m, e = .typeError m := by
  induction l with
  | nil => cases h
  | cons p ps ih =>
    rcases recent_cons with ⟨e', hsub, hr⟩ | ⟨age, e', -, hps, hr⟩ | ⟨age, n, -, -, hr⟩
    · obtain rfl : e' = e := Except.error.inj (hr.symm.trans h)
      exact sub_typeError hsub
    · obtain rfl : e' = e := Except.error.inj (hr.symm.trans h)
      exact ih hps
    · rw [hr] at h
      cases h

/-- What is counted: every proposal has a distance from the moment, and those less than an hour
before it count. -/
theorem recent_ok {moment : Datetime} {l : List Proposal} {n : Nat}
    (h : recent moment l = .ok n) (near : Proposal → Bool)
    (hnear : ∀ p ∈ l, near p = true → ∀ age, moment.sub p.proposedAt = .ok age → age < hour) :
    l.countP near ≤ n := by
  induction l generalizing n with
  | nil => exact Nat.zero_le _
  | cons p ps ih =>
    rcases recent_cons with ⟨e, -, hr⟩ | ⟨age, e, -, -, hr⟩ | ⟨age, k, hage, hps, hr⟩
    · rw [hr] at h
      cases h
    · rw [hr] at h
      cases h
    · obtain rfl : _ = n := Except.ok.inj (hr.symm.trans h)
      have hle := ih hps fun p' hp' => hnear p' (List.mem_cons_of_mem _ hp')
      rw [List.countP_cons]
      by_cases hp : near p = true
      · rw [if_pos hp, if_pos (hnear p List.mem_cons_self hp age hage)]
        omega
      · rw [if_neg hp]
        split <;> omega

theorem propose_step (printable : Char → Bool) (q : ApprovalQueue) (action : Str)
    (arguments : Mapping Str) (rationale : Str) (now : Option Datetime) (clock : Nat → Int) :
    CallStep q (.propose action arguments rationale now clock)
      ((approvalQueue printable).step q (.propose action arguments rationale now clock)) := by
  unfold approvalQueue ApprovalQueue.propose
  dsimp only
  by_cases hk : q.killed = true
  · rw [if_pos hk]
    exact .refused (not_limitRefusal rfl (by decide) (by decide))
  rw [if_neg hk]
  cases hs : q.allowlist.lookup action with
  | none => exact .refused (not_limitRefusal rfl (by decide) (by decide))
  | some spec =>
    dsimp only
    by_cases hm : (spec.requiredArgs \ arguments.keys.toFinset).Nonempty
    · rw [if_pos hm]
      exact .refused (not_limitRefusal rfl (by decide) (by decide))
    rw [if_neg hm]
    by_cases hr : strip rationale = []
    · rw [if_pos hr]
      exact .refused (not_limitRefusal rfl (by decide) (by decide))
    rw [if_neg hr]
    by_cases hp : q.maxPending ≤ q.proposals.countP (·.state = .pending)
    · rw [if_pos hp]
      exact .halted _ _
    rw [if_neg hp]
    cases hn : recent (now.getD (utc (clock 0))) q.proposals with
    | error e =>
      obtain ⟨m, rfl⟩ := recent_typeError hn
      exact .refused (by rintro (⟨n, max, h⟩ | ⟨max, h⟩) <;> cases h)
    | ok n =>
      dsimp only
      by_cases hmax : q.maxPerHour ≤ n
      · rw [if_pos hmax]
        exact .halted _ _
      rw [if_neg hmax]
      refine .created (by simpa using hk) hs ?_ hr (by omega) hn (by omega) rfl
      rwa [Finset.not_nonempty_iff_eq_empty, Finset.sdiff_eq_empty_iff_subset] at hm

theorem decide_step (printable : Char → Bool) (q : ApprovalQueue) (id : Int) (approve : Bool)
    (operator : Str) (clock : Nat → Int) :
    CallStep q (.decide id approve operator clock)
      ((approvalQueue printable).step q (.decide id approve operator clock)) := by
  unfold approvalQueue ApprovalQueue.decide
  dsimp only
  cases hi : q.require id with
  | none => exact .undecided _
  | some i =>
    dsimp only
    by_cases hp : q.proposals[i].state = .pending
    · rw [if_neg (by simpa using hp)]
      cases hs : q.allowlist.lookup q.proposals[i].action with
      | none => exact .undecided _
      | some spec =>
        obtain ⟨hid, hbefore⟩ := List.findFinIdx?_eq_some_iff.mp hi
        obtain rfl : q.proposals[i].proposalId = id := by simpa using hid
        refine .decided (List.getElem?_eq_getElem i.2) rfl ?_ hp hs
        intro j p' hji hp' heq
        obtain ⟨hlt, rfl⟩ := List.getElem?_eq_some_iff.mp hp'
        exact hbefore ⟨j, hlt⟩ hji (by simpa using heq)
    · rw [if_pos hp]
      exact .undecided _

/-- **Every call.** -/
theorem call_step (printable : Char → Bool) (q : ApprovalQueue) (op : Op) :
    CallStep q op ((approvalQueue printable).step q op) := by
  cases op with
  | propose action arguments rationale now clock => apply propose_step
  | decide id approve operator clock => apply decide_step
  | kill reason clock => exact .killed reason clock

theorem ApprovalQueue.settle_eq (q : ApprovalQueue) (i : Nat) (p : Proposal) (spec : ActionSpec)
    (approve : Bool) (operator : Str) (clock : Nat → Int) :
    ∃ log, q.settle i p spec approve operator clock =
      { q with proposals := q.proposals.set i (p.decided approve operator), auditLog := log } := by
  unfold settle
  dsimp only
  split
  · exact ⟨_, rfl⟩
  · exact ⟨_, rfl⟩

end IspPlatform.Ai
