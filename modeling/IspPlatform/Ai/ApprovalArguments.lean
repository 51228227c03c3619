import IspPlatform.Ai.ApprovalLog

/-!
# What the log does not tell

A line of the audit log has the action and the id of a proposal, and not its arguments. Two runs
with the same log agree on what was approved as far as the arguments follow from the action.
-/

namespace IspPlatform.Ai

open Py

/-- A queue as it is created: no proposals and an empty log. -/
structure ApprovalQueue.Created (allowlist : Mapping ActionSpec) (q : ApprovalQueue) : Prop
    extends q.Empty where
  allowlist : q.allowlist = allowlist
  auditLog : q.auditLog = []

/-- Equality of two mappings. -/
def SameArguments (args args' : Mapping Str) : Prop := ∀ k, args.lookup k = args'.lookup k

/-- The proposals have the same id, action and arguments. -/
structure SameProposal (p p' : Proposal) : Prop where
  proposalId : p.proposalId = p'.proposalId
  action : p.action = p'.action
  arguments : SameArguments p.arguments p'.arguments

/-- Every `propose` call of the history passes arguments that go with its action. -/
def Follows (passed : Str → Mapping Str → Prop) (h : List (Op × Result)) : Prop :=
  ∀ x ∈ h, ∀ action arguments rationale now clock,
    x.1 = .propose action arguments rationale now clock → passed action arguments

/-- The event and detail strings of the log, in order. -/
def ApprovalQueue.events (q : ApprovalQueue) : List (Str × Str) := q.auditLog.map (·.2)

/-- Where all calls pass arguments that go with their actions, the log of a run tells what was
approved. -/
def Determines (printable : Char → Bool) (allowlist : Mapping ActionSpec)
    (passed : Str → Mapping Str → Prop) : Prop :=
  ∀ q₀ q₀' h h' q q', q₀.Created allowlist → q₀'.Created allowlist →
    (approvalQueue printable).Reach q₀ h q → (approvalQueue printable).Reach q₀' h' q' →
    Follows passed h → Follows passed h' → q.events = q'.events →
    List.Forall₂ SameProposal q.approved q'.approved

/-- An allowed action has one set of arguments that go with it. -/
def ActionFixes (allowlist : Mapping ActionSpec) (passed : Str → Mapping Str → Prop) : Prop :=
  ∀ action spec, allowlist.lookup action = some spec → ∀ args args',
    spec.requiredArgs ⊆ args.keys.toFinset → spec.requiredArgs ⊆ args'.keys.toFinset →
    passed action args → passed action args' → SameArguments args args'

variable {printable : Char → Bool} {allowlist : Mapping ActionSpec}
  {passed : Str → Mapping Str → Prop} {q₀ q q' : ApprovalQueue} {h : List (Op × Result)}

/-! ## What the log tells -/

/-- A queue that was created killed gets no proposals. -/
structure Shut (q : ApprovalQueue) : Prop where
  killed : q.killed = true
  proposals : q.proposals = []
  replays : (replay q.auditLog).proposals = []

theorem Shut.kill (hs : Shut q) (reason : Str) (clock : Int) : Shut (q.kill reason clock) where
  killed := rfl
  proposals := hs.proposals
  replays := by
    have happend := replay_append q.auditLog [(utc clock, .killed reason)]
    show (replay (q.auditLog ++ lines [(utc clock, .killed reason)])).proposals = []
    rw [happend]
    exact hs.replays

theorem Shut.call (hs : Shut q) (op : Op) : Shut ((approvalQueue printable).step q op).2 := by
  have hstep := call_step printable q op
  generalize (approvalQueue printable).step q op = res at hstep
  cases hstep with
  | refused _ => exact hs
  | halted e reason => exact hs.kill reason _
  | created hk =>
    rw [hs.killed] at hk
    cases hk
  | undecided e => exact hs
  | decided hi =>
    rw [hs.proposals] at hi
    cases hi
  | killed reason c => exact hs.kill reason c

theorem replay_accounts (h0 : q₀.Created allowlist)
    (hrun : (approvalQueue printable).Reach q₀ h q) :
    (replay q.auditLog).proposals = q.proposals.map Proposal.account := by
  cases hk : q₀.killed with
  | false =>
    have hfresh : q₀.Fresh := ⟨h0.toEmpty, hk, h0.auditLog⟩
    rw [(log_replays hfresh hrun).1.replays]
    rfl
  | true =>
    have hinit : Shut q₀ := ⟨hk, h0.proposals, by rw [h0.auditLog]; rfl⟩
    have hshut := hrun.keeps hinit fun s op hs => hs.call op
    rw [hshut.replays, hshut.proposals]
    rfl

theorem replay_events (h : q.events = q'.events) : replay q.auditLog = replay q'.auditLog := by
  have hentries : ∀ log : List (Datetime × Str × Str),
      entries log = (log.map (·.2)).filterMap fun x => Entry.read x.1 x.2 := by
    intro log
    unfold entries
    rw [List.filterMap_map]
    rfl
  unfold ApprovalQueue.events at h
  unfold replay
  rw [hentries, hentries, h]

theorem passed_of_mem (h0 : q₀.Created allowlist) (hrun : (approvalQueue printable).Reach q₀ h q)
    (hfollows : Follows passed h) {p : Proposal} (hp : p ∈ q.proposals) :
    passed p.action p.arguments ∧ ∃ spec, allowlist.lookup p.action = some spec ∧
      spec.requiredArgs ⊆ p.arguments.keys.toFinset := by
  have hr := recorded h0.toEmpty hrun
  have hmem : p.intent ∈ h.filterMap created := by
    rw [hr.carried]
    exact List.mem_map_of_mem hp
  constructor
  · obtain ⟨⟨op, res⟩, hx, hcreated⟩ := List.mem_filterMap.mp hmem
    unfold created at hcreated
    split at hcreated
    · next action arguments rationale now clock p' heq =>
      obtain ⟨rfl, rfl⟩ := Prod.mk.inj heq
      have hpassed := hfollows _ hx action arguments rationale now clock rfl
      obtain ⟨-, haction, harguments, -⟩ := Intent.mk.inj (Option.some.inj hcreated)
      rw [← haction, ← harguments]
      exact hpassed
    · cases hcreated
  · obtain ⟨spec, hspec, hsub, -⟩ := hr.admissible _ hmem
    rw [h0.allowlist] at hspec
    exact ⟨spec, hspec, hsub⟩

theorem approved_forall₂ {R : Proposal → Proposal → Prop} {l l' : List Proposal}
    (hl : l.map Proposal.account = l'.map Proposal.account)
    (hR : ∀ p ∈ l, ∀ p' ∈ l', p.account = p'.account → R p p') :
    List.Forall₂ R (l.filter (·.state = .approved)) (l'.filter (·.state = .approved)) := by
  induction l generalizing l' with
  | nil =>
    obtain rfl := List.map_eq_nil_iff.mp hl.symm
    exact .nil
  | cons p l ih =>
    obtain ⟨p', l', rfl, hp, hl⟩ := List.map_eq_cons_iff.mp hl.symm
    have hrest := ih hl.symm fun x hx x' hx' =>
      hR x (List.mem_cons_of_mem _ hx) x' (List.mem_cons_of_mem _ hx')
    have hstate : p'.state = p.state := congrArg Account.state hp
    rw [List.filter_cons, List.filter_cons, hstate]
    split
    · exact .cons (hR p List.mem_cons_self p' List.mem_cons_self hp.symm) hrest
    · exact hrest

/-- Where the actions fix the arguments, runs with the same log agree. -/
theorem determines_of_fixes (hfix : ActionFixes allowlist passed) :
    Determines printable allowlist passed := by
  intro q₀ q₀' h h' q q' h0 h0' hrun hrun' hfollows hfollows' hevents
  have haccounts : q.proposals.map Proposal.account = q'.proposals.map Proposal.account := by
    rw [← replay_accounts h0 hrun, ← replay_accounts h0' hrun', replay_events hevents]
  refine approved_forall₂ haccounts fun p hp p' hp' haccount => ?_
  obtain ⟨hid, haction, -⟩ := Account.mk.inj haccount
  obtain ⟨hpassed, spec, hspec, hsub⟩ := passed_of_mem h0 hrun hfollows hp
  obtain ⟨hpassed', spec', hspec', hsub'⟩ := passed_of_mem h0' hrun' hfollows' hp'
  rw [← haction] at hpassed' hspec'
  obtain rfl := Option.some.inj (hspec.symm.trans hspec')
  exact ⟨hid, haction, hfix _ _ hspec _ _ hsub hsub' hpassed hpassed'⟩

/-! ## What it does not tell -/

/-- A queue with the limits it has by default. -/
def newQueue (allowlist : Mapping ActionSpec) : ApprovalQueue :=
  ⟨allowlist, 20, 30, false, [], 1, []⟩

def firstProposal (action : Str) (args : Mapping Str) : Proposal :=
  ⟨1, action, args, lit "unpaid", utc 0, .pending, none⟩

/-- One proposal, which is approved. -/
def approving (action : Str) (args : Mapping Str) : List Op :=
  [.propose action args (lit "unpaid") none fun _ => 0, .decide 1 true (lit "operator7") fun _ => 1]

/-- The queue the proposal leaves. -/
def proposedQueue (allowlist : Mapping ActionSpec) (action : Str) (args : Mapping Str) :
    ApprovalQueue :=
  (newQueue allowlist).create (firstProposal action args) 0

/-- The queue its approval leaves. -/
def approvedQueue (allowlist : Mapping ActionSpec) (spec : ActionSpec) (action : Str)
    (args : Mapping Str) : ApprovalQueue :=
  (proposedQueue allowlist action args).settle 0 (firstProposal action args) spec true
    (lit "operator7") fun _ => 1

theorem created_newQueue (allowlist : Mapping ActionSpec) :
    (newQueue allowlist).Created allowlist :=
  ⟨⟨rfl, rfl⟩, rfl, rfl⟩

section Approving

variable {action : Str} {spec : ActionSpec} {args args' : Mapping Str}

theorem propose_newQueue (hs : allowlist.lookup action = some spec)
    (hsub : spec.requiredArgs ⊆ args.keys.toFinset) :
    (newQueue allowlist).propose printable action args (lit "unpaid") none (fun _ => 0) =
      (.ok (firstProposal action args), proposedQueue allowlist action args) := by
  have hmissing : ¬ (spec.requiredArgs \ args.keys.toFinset).Nonempty := by
    rwa [Finset.not_nonempty_iff_eq_empty, Finset.sdiff_eq_empty_iff_subset]
  have hrationale : strip (lit "unpaid") ≠ [] := by decide
  unfold ApprovalQueue.propose newQueue
  simp only [hs, hmissing, hrationale, if_false, recent]
  rfl

theorem decide_proposedQueue (hs : allowlist.lookup action = some spec) :
    (proposedQueue allowlist action args).decide 1 true (lit "operator7") (fun _ => 1) =
      (.ok ((firstProposal action args).decided true (lit "operator7")),
        approvedQueue allowlist spec action args) := by
  have hrequire : (proposedQueue allowlist action args).require 1 = some ⟨0, Nat.one_pos⟩ := rfl
  have hfirst : (proposedQueue allowlist action args).proposals[
      (⟨0, Nat.one_pos⟩ : Fin (proposedQueue allowlist action args).proposals.length)] =
        firstProposal action args := rfl
  have hspec : AList.lookup (firstProposal action args).action
      (proposedQueue allowlist action args).allowlist = some spec := hs
  have hpending : ¬ (firstProposal action args).state ≠ .pending := fun hne => hne rfl
  unfold ApprovalQueue.decide
  rw [hrequire]
  dsimp only
  rw [hfirst, if_neg hpending, hspec]
  rfl

theorem approving_run (hs : allowlist.lookup action = some spec)
    (hsub : spec.requiredArgs ⊆ args.keys.toFinset) :
    ((approvalQueue printable).run (newQueue allowlist) (approving action args)).2 =
      approvedQueue allowlist spec action args := by
  show (((newQueue allowlist).propose printable action args (lit "unpaid") none
    fun _ => 0).2.decide 1 true (lit "operator7") fun _ => 1).2 = _
  rw [propose_newQueue hs hsub, decide_proposedQueue hs]

theorem approvedQueue_events (allowlist : Mapping ActionSpec) (spec : ActionSpec) (action : Str)
    (args args' : Mapping Str) : (approvedQueue allowlist spec action args).events =
      (approvedQueue allowlist spec action args').events := by
  unfold ApprovalQueue.events approvedQueue
  rw [settle_log, settle_log]
  rfl

theorem approvedQueue_approved (allowlist : Mapping ActionSpec) (spec : ActionSpec) (action : Str)
    (args : Mapping Str) : (approvedQueue allowlist spec action args).approved =
      [(firstProposal action args).decided true (lit "operator7")] := by
  unfold approvedQueue
  obtain ⟨log, hq⟩ := ApprovalQueue.settle_eq (proposedQueue allowlist action args) 0
    (firstProposal action args) spec true (lit "operator7") fun _ => 1
  rw [hq]
  rfl

theorem follows_approving (hpassed : passed action args) :
    Follows passed ((approvalQueue printable).run (newQueue allowlist)
      (approving action args)).1 := by
  intro x hx action' arguments rationale now clock hop
  simp only [approving, Machine.run, List.mem_cons, List.not_mem_nil, or_false] at hx
  rcases hx with rfl | rfl
  · obtain ⟨rfl, rfl, -⟩ := Op.propose.inj hop
    exact hpassed
  · cases hop

end Approving

theorem fixes_of_determines (hdet : Determines printable allowlist passed) :
    ActionFixes allowlist passed := by
  intro action spec hs args args' hsub hsub' hpassed hpassed'
  have hrun : ∀ args, (approvalQueue printable).Reach (newQueue allowlist)
      ((approvalQueue printable).run (newQueue allowlist) (approving action args)).1
      ((approvalQueue printable).run (newQueue allowlist) (approving action args)).2 :=
    fun args => Machine.Reach.init.run (approving action args)
  have hevents := approvedQueue_events allowlist spec action args args'
  rw [← approving_run hs hsub, ← approving_run hs hsub'] at hevents
  have hsame := hdet _ _ _ _ _ _ (created_newQueue allowlist) (created_newQueue allowlist)
    (hrun args) (hrun args') (follows_approving hpassed) (follows_approving hpassed') hevents
  rw [approving_run hs hsub, approving_run hs hsub', approvedQueue_approved,
    approvedQueue_approved] at hsame
  cases hsame with
  | cons hp _ => exact hp.arguments

/-- **What was approved.** The log of a run tells what was approved exactly where every allowed
action fixes the arguments that are passed with it. -/
theorem determines_iff : Determines printable allowlist passed ↔ ActionFixes allowlist passed :=
  ⟨fixes_of_determines, determines_of_fixes⟩

/-- The suspension of one account, proposed and approved. -/
def suspended (account : String) : ApprovalQueue :=
  ((approvalQueue fun _ => false).run gate
    (approving (lit "suspend") (AList.singleton (lit "account_ref") (lit account)))).2

/-- The accounts that are up for suspension, by the ids of their proposals. -/
def accounts (q : ApprovalQueue) : List (Int × Option Str) :=
  q.approved.map fun p => (p.proposalId, p.arguments.lookup (lit "account_ref"))

/-- Two accounts are suspended under the same log. -/
theorem account_not_logged : gate.Created gate.allowlist ∧
    (suspended "ACC7").events = (suspended "ACC8").events ∧
    accounts (suspended "ACC7") = [(1, some (lit "ACC7"))] ∧
    accounts (suspended "ACC8") = [(1, some (lit "ACC8"))] :=
  ⟨⟨⟨rfl, rfl⟩, rfl, rfl⟩, by decide, by decide, by decide⟩

end IspPlatform.Ai
