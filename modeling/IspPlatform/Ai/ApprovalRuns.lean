import IspPlatform.Ai.ApprovalSteps

/-!
# Runs of the approval queue

`Recorded` ties the queue to the history of its calls: the proposals are the successful
`propose` calls in order, and each stands as the `decide` calls on its id have left it.
-/

namespace IspPlatform.Ai

open Py

/-- What a proposal says. -/
structure Intent where
  proposalId : Int
  action : Str
  arguments : Mapping Str
  rationale : Str
  deriving DecidableEq

def Proposal.intent (p : Proposal) : Intent := ⟨p.proposalId, p.action, p.arguments, p.rationale⟩

/-- The intent of a `propose` call that succeeded: what the call said, under the id it
was given. -/
def created : Op × Result → Option Intent
  | (.propose action arguments rationale _ _, .ok (some p)) =>
    some ⟨p.proposalId, action, arguments, rationale⟩
  | _ => none

/-- The answer of a `decide` call on `id` that succeeded. -/
def verdict (id : Int) : Op × Result → Option (Bool × Str)
  | (.decide id' approve operator _, .ok _) =>
    if id' = id then some (approve, operator) else none
  | _ => none

def decisions (h : List (Op × Result)) (id : Int) : List (Bool × Str) := h.filterMap (verdict id)

/-- The life of a proposal: what it is and who decided it, after these decisions. -/
inductive Standing : ProposalState → Option Str → List (Bool × Str) → Prop where
  | pending : Standing .pending none []
  | approved (operator : Str) : Standing .approved (some operator) [(true, operator)]
  | rejected (operator : Str) : Standing .rejected (some operator) [(false, operator)]

/-- An intent the allowlist admits. -/
def Admissible (allowlist : Mapping ActionSpec) (x : Intent) : Prop :=
  ∃ spec, allowlist.lookup x.action = some spec ∧
    spec.requiredArgs ⊆ x.arguments.keys.toFinset ∧ strip x.rationale ≠ []

/-- The queue `q` is what the calls `h` have made of `q₀`. -/
structure Recorded (q₀ : ApprovalQueue) (h : List (Op × Result)) (q : ApprovalQueue) : Prop where
  allowlist : q.allowlist = q₀.allowlist
  next : q.nextId = q.proposals.length + 1
  numbered : ∀ (k : Nat) p, q.proposals[k]? = some p → p.proposalId = k + 1
  carried : h.filterMap created = q.proposals.map Proposal.intent
  admissible : ∀ x ∈ h.filterMap created, Admissible q₀.allowlist x
  standing : ∀ p ∈ q.proposals, Standing p.state p.decidedBy (decisions h p.proposalId)
  undecided : ∀ id ∉ q.proposals.map (·.proposalId), decisions h id = []

/-- A queue nothing has been proposed to. -/
structure ApprovalQueue.Empty (q : ApprovalQueue) : Prop where
  proposals : q.proposals = []
  nextId : q.nextId = 1

variable {q₀ : ApprovalQueue} {h : List (Op × Result)} {x : Op × Result}

theorem recorded_init (h0 : q₀.Empty) : Recorded q₀ [] q₀ where
  allowlist := rfl
  next := by rw [h0.nextId, h0.proposals]; rfl
  numbered := by rw [h0.proposals]; simp
  carried := by rw [h0.proposals]; rfl
  admissible := by simp
  standing := by rw [h0.proposals]; simp
  undecided _ _ := rfl

theorem decisions_snoc (id : Int) :
    decisions (h ++ [x]) id = decisions h id ++ (verdict id x).toList := by
  unfold decisions
  rw [List.filterMap_append]
  cases hx : verdict id x <;> simp [hx]

theorem decisions_idle {id : Int} (hx : verdict id x = none) :
    decisions (h ++ [x]) id = decisions h id := by
  rw [decisions_snoc, hx]
  exact List.append_nil _

theorem created_snoc :
    (h ++ [x]).filterMap created = h.filterMap created ++ (created x).toList := by
  rw [List.filterMap_append]
  cases hx : created x <;> simp [hx]

theorem Recorded.idle (hr : Recorded q₀ h q) (hx : created x = none)
    (hv : ∀ id, verdict id x = none) {q' : ApprovalQueue} (ha : q'.allowlist = q.allowlist)
    (hp : q'.proposals = q.proposals) (hn : q'.nextId = q.nextId) : Recorded q₀ (h ++ [x]) q' := by
  have hcre : (h ++ [x]).filterMap created = h.filterMap created := by
    rw [created_snoc, hx]
    simp
  constructor
  · rw [ha, hr.allowlist]
  · rw [hn, hp, hr.next]
  · rw [hp]; exact hr.numbered
  · rw [hcre, hp, hr.carried]
  · rw [hcre]; exact hr.admissible
  · rw [hp]
    intro p hmem
    rw [decisions_idle (hv _)]
    exact hr.standing p hmem
  · rw [hp]
    intro id hid
    rw [decisions_idle (hv _)]
    exact hr.undecided id hid

theorem Recorded.create (hr : Recorded q₀ h q) {p : Proposal} {c : Int}
    (hx : created x = some p.intent) (hv : ∀ id, verdict id x = none)
    (hid : p.proposalId = q.nextId) (hs : p.state = .pending) (hd : p.decidedBy = none)
    (hadm : Admissible q.allowlist p.intent) : Recorded q₀ (h ++ [x]) (q.create p c) := by
  have hnext := hr.next
  have hfresh : decisions h p.proposalId = [] := by
    apply hr.undecided
    intro hmem
    obtain ⟨p', hp', heq⟩ := List.mem_map.mp hmem
    obtain ⟨k, hk⟩ := List.mem_iff_getElem?.mp hp'
    have hlt := (List.getElem?_eq_some_iff.mp hk).1
    have := hr.numbered k p' hk
    omega
  constructor
  · exact hr.allowlist
  · show q.nextId + 1 = _
    simp only [ApprovalQueue.create, ApprovalQueue.audit, List.length_append, List.length_singleton]
    omega
  · intro k p' hk
    rcases getElem?_snoc_cases hk with hk | ⟨rfl, rfl⟩
    · exact hr.numbered k p' hk
    · omega
  · rw [created_snoc, hx, hr.carried]
    show _ = (q.proposals ++ [p]).map Proposal.intent
    rw [List.map_append]
    rfl
  · rw [created_snoc, hx]
    intro y hy
    rcases List.mem_append.mp hy with hy | hy
    · exact hr.admissible y hy
    · rw [List.mem_singleton.mp hy, ← hr.allowlist]
      exact hadm
  · intro p' hp'
    rw [decisions_idle (hv _)]
    rcases List.mem_append.mp hp' with hp' | hp'
    · exact hr.standing p' hp'
    · rw [List.mem_singleton.mp hp', hs, hd, hfresh]
      exact .pending
  · intro id hid
    rw [decisions_idle (hv _)]
    apply hr.undecided
    intro hmem
    apply hid
    show id ∈ (q.proposals ++ [p]).map (·.proposalId)
    rw [List.map_append]
    exact List.mem_append_left _ hmem

theorem Recorded.settle (hr : Recorded q₀ h q) {i : Nat} {p : Proposal} {spec : ActionSpec}
    {approve : Bool} {operator : Str} {clock : Nat → Int} (hi : q.proposals[i]? = some p)
    (hp : p.state = .pending) (hx : created x = none)
    (hv : ∀ id, verdict id x = if p.proposalId = id then some (approve, operator) else none) :
    Recorded q₀ (h ++ [x]) (q.settle i p spec approve operator clock) := by
  obtain ⟨log, hq⟩ := q.settle_eq i p spec approve operator clock
  rw [hq]
  have hcre : (h ++ [x]).filterMap created = h.filterMap created := by
    rw [created_snoc, hx]
    exact List.append_nil _
  constructor
  · exact hr.allowlist
  · rw [hr.next, List.length_set]
  · intro k p' hk
    rcases getElem?_set_cases hk with ⟨rfl, rfl⟩ | ⟨-, hk⟩
    · exact hr.numbered k p hi
    · exact hr.numbered k p' hk
  · rw [hcre, hr.carried]
    exact (map_set_of_eq hi (by rfl)).symm
  · rw [hcre]
    exact hr.admissible
  · intro p' hp'
    obtain ⟨k, hk⟩ := List.mem_iff_getElem?.mp hp'
    rw [decisions_snoc, hv]
    rcases getElem?_set_cases hk with ⟨rfl, rfl⟩ | ⟨hki, hk⟩
    · -- decided for the first time
      have hstand := hr.standing p (List.mem_of_getElem? hi)
      rw [hp] at hstand
      generalize p.decidedBy = d at hstand
      generalize hl : decisions h p.proposalId = l at hstand
      cases hstand
      show Standing _ (some operator)
        (decisions h p.proposalId ++ (if p.proposalId = p.proposalId then _ else none).toList)
      rw [if_pos rfl, hl]
      cases approve with
      | true => exact .approved operator
      | false => exact .rejected operator
    · have hne : p.proposalId ≠ p'.proposalId := by
        have := hr.numbered i p hi
        have := hr.numbered k p' hk
        omega
      rw [if_neg hne]
      simpa using hr.standing p' (List.mem_of_getElem? hk)
  · intro id hid
    rw [map_set_of_eq hi (by rfl)] at hid
    have hne : p.proposalId ≠ id := by
      rintro rfl
      exact hid (List.mem_map_of_mem (List.mem_of_getElem? hi))
    rw [decisions_snoc, hv, if_neg hne, hr.undecided id hid]
    rfl

theorem Recorded.call (hr : Recorded q₀ h q) (op : Op) :
    Recorded q₀ (h ++ [(op, ((approvalQueue printable).step q op).1)])
      ((approvalQueue printable).step q op).2 := by
  have hstep := call_step printable q op
  generalize (approvalQueue printable).step q op = res at hstep
  cases hstep with
  | refused _ => exact hr.idle rfl (fun _ => rfl) rfl rfl rfl
  | halted e reason => exact hr.idle rfl (fun _ => rfl) rfl rfl rfl
  | @created action arguments rationale now clock spec n p _ hs hsub hrat _ _ _ hp =>
    subst hp
    exact hr.create rfl (fun _ => rfl) rfl rfl rfl ⟨spec, hs, hsub, hrat⟩
  | undecided e => exact hr.idle rfl (fun _ => rfl) rfl rfl rfl
  | decided hi hid _ hp _ =>
    refine hr.settle hi hp rfl fun id' => ?_
    rw [hid]
    rfl
  | killed reason c => exact hr.idle rfl (fun _ => rfl) rfl rfl rfl

theorem recorded (h0 : q₀.Empty) (hrun : (approvalQueue printable).Reach q₀ h q) :
    Recorded q₀ h q := by
  induction hrun with
  | init => exact recorded_init h0
  | call op _ ih => exact ih.call op

/-! ## What reaches the executor -/

/-- Only approved, admissible intents are up for execution. -/
structure Gated (printable : Char → Bool) (q₀ : ApprovalQueue) (h : List (Op × Result))
    (q : ApprovalQueue) : Prop where
  /-- The ids are 1 to `n` in insertion order. -/
  numbered : ∀ (k : Nat) p, q.proposals[k]? = some p → p.proposalId = k + 1
  next : (q.proposals.length : Int) = q.nextId - 1
  /-- The proposals are the successful `propose` calls, in order, with what these said. -/
  carried : q.proposals.map Proposal.intent = h.filterMap created
  admissible : ∀ p ∈ q.proposals, Admissible q₀.allowlist p.intent
  states : ∀ p ∈ q.proposals, (p.state = .pending ∨ p.state = .approved ∨ p.state = .rejected) ∧
    (p.decidedBy = none ↔ p.state = .pending)
  approved : ∀ p, p ∈ q.approved ↔ p ∈ q.proposals ∧
    ∃ operator, decisions h p.proposalId = [(true, operator)] ∧ p.decidedBy = some operator
  /-- A call that raises leaves the proposals and the next id as they are. -/
  raising : ∀ op e, ((approvalQueue printable).step q op).1 = .error e →
    ((approvalQueue printable).step q op).2.proposals = q.proposals ∧
      ((approvalQueue printable).step q op).2.nextId = q.nextId

theorem raising_keeps (op : Op) {e : Exn}
    (he : ((approvalQueue printable).step q op).1 = .error e) :
    ((approvalQueue printable).step q op).2.proposals = q.proposals ∧
      ((approvalQueue printable).step q op).2.nextId = q.nextId := by
  have hstep := call_step printable q op
  generalize (approvalQueue printable).step q op = res at hstep he
  cases hstep with
  | refused _ => exact ⟨rfl, rfl⟩
  | halted e reason => exact ⟨rfl, rfl⟩
  | created => cases he
  | undecided e => exact ⟨rfl, rfl⟩
  | decided => cases he
  | killed reason c => cases he

/-- **Only approved intents reach the executor.** -/
theorem only_approved (h0 : q₀.Empty) (hrun : (approvalQueue printable).Reach q₀ h q) :
    Gated printable q₀ h q := by
  have hr := recorded h0 hrun
  constructor
  · exact hr.numbered
  · have := hr.next
    omega
  · exact hr.carried.symm
  · intro p hp
    apply hr.admissible
    rw [hr.carried]
    exact List.mem_map_of_mem hp
  · intro p hp
    have hstand := hr.standing p hp
    generalize p.state = state, p.decidedBy = d, decisions h p.proposalId = l at hstand ⊢
    cases hstand <;> simp
  · intro p
    have hmem : p ∈ q.approved ↔ p ∈ q.proposals ∧ p.state = .approved := by
      simp [ApprovalQueue.approved]
    rw [hmem]
    refine and_congr_right fun hp => ?_
    have hstand := hr.standing p hp
    generalize p.state = state, p.decidedBy = d, decisions h p.proposalId = l at hstand ⊢
    cases hstand <;> simp
  · intro op e he
    exact raising_keeps op he

def gate : ApprovalQueue :=
  ⟨AList.singleton (lit "suspend") ⟨{lit "account_ref"}, true⟩, 20, 30, false, [], 1, []⟩

def suspending : Op :=
  .propose (lit "suspend") (AList.singleton (lit "account_ref") (lit "ACC7")) (lit "unpaid") none
    fun _ => 0

def session : List Op :=
  [suspending, .decide 1 true (lit "operator7") fun _ => 1, .kill (lit "drill") 2, suspending]

def ran : List (Op × Result) × ApprovalQueue := (approvalQueue fun _ => false).run gate session

theorem reach_ran : (approvalQueue fun _ => false).Reach gate ran.1 ran.2 :=
  Machine.Reach.init.run session

theorem only_approved_ran : ran.2.approved.map (·.proposalId) = [1] ∧
    Gated (fun _ => false) gate ran.1 ran.2 :=
  ⟨by decide, only_approved ⟨rfl, rfl⟩ reach_ran⟩

end IspPlatform.Ai
