import IspPlatform.Ai.ApprovalRuns
import IspPlatform.Py.Numerals

/-!
# The audit log of the approval queue

`Entry.read` decodes the event and detail strings of one log line, `replay` folds a log
into what it says about the queue. `Audited` says that the replay of the log is the queue
and that each proposal's decision is on record once; `Audited.call` keeps it over one call.
-/

namespace IspPlatform.Ai

open Py

/-- What one line of the log says. -/
inductive Entry where
  | created (action : Str) (id : Int)
  | irreversible (id : Int) (operator : Str)
  | decided (id : Int) (state : ProposalState) (operator : Str)
  | killed (reason : Str)
  deriving DecidableEq

namespace Entry

def event : Entry → Str
  | .created .. => lit "proposal.created"
  | .irreversible .. => lit "proposal.irreversible_approved"
  | .decided .. => lit "proposal.decided"
  | .killed _ => lit "queue.killed"

def detail : Entry → Str
  | .created action id => action ++ lit " #" ++ intStr id
  | .irreversible id operator => lit "#" ++ intStr id ++ lit " by " ++ operator
  | .decided id state operator =>
    lit "#" ++ intStr id ++ lit " " ++ state.str ++ lit " by " ++ operator
  | .killed reason => reason

end Entry

/-- `int(text)` of the rendering of an integer. -/
def readInt (text : Str) : Int :=
  if text.head? = some '-' then -Nat.ofDigitChars 10 text.tail 0 else Nat.ofDigitChars 10 text 0

def ProposalState.read (text : Str) : Option ProposalState :=
  [.pending, .approved, .rejected, .executed, .failed].find? (·.str = text)

/-- An action and an id, which stands after the last `#`. -/
def readCreated (detail : Str) : Entry :=
  let p := partition '#' detail.reverse
  .created (p.2.drop 1).reverse (readInt p.1.reverse)

/-- An id, which ends at the first blank, and an operator. -/
def readIrreversible (detail : Str) : Entry :=
  let p := partition ' ' (detail.drop 1)
  .irreversible (readInt p.1) (p.2.drop 3)

/-- An id and a state, which end at the first two blanks, and an operator. -/
def readDecided (detail : Str) : Option Entry :=
  let p := partition ' ' (detail.drop 1)
  let r := partition ' ' p.2
  (ProposalState.read r.1).map fun state => .decided (readInt p.1) state (r.2.drop 3)

/-- Decode a line of the log from its two strings. -/
def Entry.read (event detail : Str) : Option Entry :=
  if event = lit "proposal.created" then some (readCreated detail)
  else if event = lit "proposal.irreversible_approved" then some (readIrreversible detail)
  else if event = lit "proposal.decided" then readDecided detail
  else if event = lit "queue.killed" then some (.killed detail)
  else none

/-! ## Decoding -/

theorem readInt_intStr (n : Int) : readInt (intStr n) = n := by
  unfold readInt
  cases n with
  | ofNat n =>
    have hne : (intStr (.ofNat n)).head? ≠ some '-' := by
      intro h
      exact not_mem_natStr (by decide) (List.mem_of_mem_head? h)
    rw [if_neg hne]
    show (Nat.ofDigitChars 10 (natStr n) 0 : Int) = n
    rw [ofDigitChars_natStr]
  | negSucc n =>
    have hhead : (intStr (.negSucc n)).head? = some '-' := rfl
    rw [if_pos hhead]
    show -(Nat.ofDigitChars 10 (natStr (n + 1)) 0 : Int) = _
    rw [ofDigitChars_natStr]
    omega

theorem ProposalState.read_str (s : ProposalState) : ProposalState.read s.str = some s := by
  cases s <;> decide

theorem ProposalState.blank_not_mem (s : ProposalState) : ' ' ∉ s.str := by
  cases s <;> decide

theorem readCreated_detail (action : Str) (id : Int) :
    readCreated (Entry.created action id).detail = .created action id := by
  have hid : '#' ∉ (intStr id).reverse := by
    rw [List.mem_reverse]
    exact not_mem_intStr (by decide) (by decide)
  have hrev : (Entry.created action id).detail.reverse =
      (intStr id).reverse ++ '#' :: ' ' :: action.reverse := by
    simp [Entry.detail, lit]
  unfold readCreated
  rw [hrev, partition_append _ hid]
  simp [readInt_intStr]

theorem readIrreversible_detail (id : Int) (operator : Str) :
    readIrreversible (Entry.irreversible id operator).detail = .irreversible id operator := by
  have hid : ' ' ∉ intStr id := not_mem_intStr (by decide) (by decide)
  have hdrop : (Entry.irreversible id operator).detail.drop 1 =
      intStr id ++ ' ' :: (lit "by " ++ operator) := by
    simp [Entry.detail, lit]
  unfold readIrreversible
  rw [hdrop, partition_append _ hid]
  simp [readInt_intStr, lit]

theorem readDecided_detail (id : Int) (state : ProposalState) (operator : Str) :
    readDecided (Entry.decided id state operator).detail = some (.decided id state operator) := by
  have hid : ' ' ∉ intStr id := not_mem_intStr (by decide) (by decide)
  have hdrop : (Entry.decided id state operator).detail.drop 1 =
      intStr id ++ ' ' :: (state.str ++ ' ' :: (lit "by " ++ operator)) := by
    simp [Entry.detail, lit]
  unfold readDecided
  rw [hdrop, partition_append _ hid]
  dsimp only
  rw [partition_append _ state.blank_not_mem, ProposalState.read_str]
  simp [readInt_intStr, lit]

/-- **Decoding.** The strings of an entry decode to it, whatever the action, the operator or
the reason. -/
theorem Entry.read_render (e : Entry) : Entry.read e.event e.detail = some e := by
  cases e with
  | created action id =>
    show some (readCreated _) = _
    rw [readCreated_detail]
  | irreversible id operator =>
    show some (readIrreversible _) = _
    rw [readIrreversible_detail]
  | decided id state operator =>
    show readDecided _ = _
    rw [readDecided_detail]
  | killed reason => rfl

/-! ## Replay -/

/-- What the log tells of a proposal. -/
structure Account where
  proposalId : Int
  action : Str
  state : ProposalState
  decidedBy : Option Str
  deriving DecidableEq

def Proposal.account (p : Proposal) : Account := ⟨p.proposalId, p.action, p.state, p.decidedBy⟩

/-- What the log tells of the queue. -/
structure View where
  proposals : List Account
  killed : Bool
  deriving DecidableEq

def ApprovalQueue.view (q : ApprovalQueue) : View := ⟨q.proposals.map Proposal.account, q.killed⟩

/-- A decision on the proposal with this id. -/
def Account.decide (id : Int) (state : ProposalState) (operator : Str) (a : Account) : Account :=
  if a.proposalId = id then { a with state := state, decidedBy := some operator } else a

def View.apply (v : View) : Entry → View
  | .created action id => { v with proposals := v.proposals ++ [⟨id, action, .pending, none⟩] }
  | .irreversible .. => v
  | .decided id state operator =>
    { v with proposals := v.proposals.map (Account.decide id state operator) }
  | .killed _ => { v with killed := true }

/-- The lines of a log, decoded. -/
def entries (log : List (Datetime × Str × Str)) : List Entry :=
  log.filterMap fun x => Entry.read x.2.1 x.2.2

/-- Fold the strings of a log into what they tell. -/
def replay (log : List (Datetime × Str × Str)) : View :=
  (entries log).foldl View.apply ⟨[], false⟩

/-- The entry is a decision on the proposal `id`, or the approval of its irreversible action. -/
def Entry.settles (id : Int) : Entry → Bool
  | .irreversible id' _ | .decided id' _ _ => id' = id
  | _ => false

def ApprovalQueue.irreversible (q : ApprovalQueue) (action : Str) : Bool :=
  (q.allowlist.lookup action).any fun spec => !spec.reversible

/-- What the log has on the decision of `p`: nothing while it is pending, and before the
decision itself one more entry when an irreversible action was approved. -/
def ApprovalQueue.trail (q : ApprovalQueue) (p : Proposal) : List Entry :=
  match p.decidedBy with
  | none => []
  | some operator =>
    (if p.state = .approved ∧ q.irreversible p.action then [.irreversible p.proposalId operator]
      else []) ++ [.decided p.proposalId p.state operator]

/-- The log and the queue agree. -/
structure Audited (q : ApprovalQueue) : Prop where
  /-- Every line is the rendering of an entry. -/
  legible : ∀ x ∈ q.auditLog, ∃ e : Entry, x.2 = (e.event, e.detail)
  replays : replay q.auditLog = q.view
  trails : ∀ p ∈ q.proposals, (entries q.auditLog).filter (Entry.settles p.proposalId) = q.trail p
  strays : ∀ id ∉ q.proposals.map (·.proposalId), (entries q.auditLog).filter (Entry.settles id) = []

/-- The lines of dated entries. -/
def lines (new : List (Datetime × Entry)) : List (Datetime × Str × Str) :=
  new.map fun x => (x.1, x.2.event, x.2.detail)

theorem entries_append (log : List (Datetime × Str × Str)) (new : List (Datetime × Entry)) :
    entries (log ++ lines new) = entries log ++ new.map (·.2) := by
  unfold entries lines
  have hread : ((fun x : Datetime × Str × Str => Entry.read x.2.1 x.2.2) ∘
      fun x : Datetime × Entry => (x.1, x.2.event, x.2.detail)) = some ∘ (·.2) :=
    funext fun x => Entry.read_render x.2
  rw [List.filterMap_append, List.filterMap_map, hread, List.filterMap_eq_map]

theorem replay_append (log : List (Datetime × Str × Str)) (new : List (Datetime × Entry)) :
    replay (log ++ lines new) = (new.map (·.2)).foldl View.apply (replay log) := by
  unfold replay
  rw [entries_append, List.foldl_append]

variable {q q' : ApprovalQueue}

theorem Audited.extend (h : Audited q) (new : List (Datetime × Entry))
    (hlog : q'.auditLog = q.auditLog ++ lines new)
    (hview : (new.map (·.2)).foldl View.apply q.view = q'.view)
    (htrail : ∀ p ∈ q'.proposals, (entries q.auditLog).filter (Entry.settles p.proposalId) ++
      (new.map (·.2)).filter (Entry.settles p.proposalId) = q'.trail p)
    (hstray : ∀ id ∉ q'.proposals.map (·.proposalId),
      (entries q.auditLog).filter (Entry.settles id) ++
        (new.map (·.2)).filter (Entry.settles id) = []) : Audited q' where
  legible := by
    rw [hlog]
    intro x hx
    rcases List.mem_append.mp hx with hx | hx
    · exact h.legible x hx
    · obtain ⟨y, -, rfl⟩ := List.mem_map.mp hx
      exact ⟨y.2, rfl⟩
  replays := by rw [hlog, replay_append, h.replays, hview]
  trails p hp := by rw [hlog, entries_append, List.filter_append, htrail p hp]
  strays id hid := by rw [hlog, entries_append, List.filter_append, hstray id hid]

theorem Audited.kill (h : Audited q) (reason : Str) (clock : Int) :
    Audited (q.kill reason clock) := by
  refine h.extend [(utc clock, .killed reason)] rfl rfl ?_ ?_
  · intro p hp
    exact (List.append_nil _).trans (h.trails p hp)
  · intro id hid
    exact (List.append_nil _).trans (h.strays id hid)

theorem Audited.create (h : Audited q) {p : Proposal} {clock : Int} (hid : p.proposalId = q.nextId)
    (hs : p.state = .pending) (hd : p.decidedBy = none)
    (hnew : q.nextId ∉ q.proposals.map (·.proposalId)) : Audited (q.create p clock) := by
  refine h.extend [(utc clock, .created p.action q.nextId)] rfl ?_ ?_ ?_
  · show View.apply q.view (.created p.action q.nextId) = ⟨(q.proposals ++ [p]).map _, q.killed⟩
    rw [List.map_append, ← hid]
    show _ = View.mk (_ ++ [Account.mk p.proposalId p.action p.state p.decidedBy]) _
    rw [hs, hd]
    rfl
  · intro p' hp'
    show (entries q.auditLog).filter _ ++ [] = _
    rw [List.append_nil]
    rcases List.mem_append.mp hp' with hp' | hp'
    · exact h.trails p' hp'
    · rw [List.mem_singleton.mp hp', hid, h.strays q.nextId hnew]
      unfold ApprovalQueue.trail
      rw [hd]
  · intro id hid'
    show (entries q.auditLog).filter _ ++ [] = _
    rw [List.append_nil]
    apply h.strays
    intro hmem
    apply hid'
    show id ∈ (q.proposals ++ [p]).map (·.proposalId)
    rw [List.map_append]
    exact List.mem_append_left _ hmem

/-- The entries of a decision. -/
def decisionEntries (p : Proposal) (spec : ActionSpec) (approve : Bool) (operator : Str)
    (clock : Nat → Int) : List (Datetime × Entry) :=
  (if approve ∧ ¬ spec.reversible then [(utc (clock 0), .irreversible p.proposalId operator)]
    else []) ++
    [(utc (clock 1), .decided p.proposalId (p.decided approve operator).state operator)]

theorem settle_log (q : ApprovalQueue) (i : Nat) (p : Proposal) (spec : ActionSpec)
    (approve : Bool) (operator : Str) (clock : Nat → Int) :
    (q.settle i p spec approve operator clock).auditLog =
      q.auditLog ++ lines (decisionEntries p spec approve operator clock) := by
  unfold ApprovalQueue.settle decisionEntries
  by_cases hirr : approve = true ∧ ¬ spec.reversible = true
  · simp only [if_pos hirr]
    exact List.append_assoc ..
  · simp only [if_neg hirr]
    rfl

theorem decisionEntries_fold (p : Proposal) (spec : ActionSpec) (approve : Bool) (operator : Str)
    (clock : Nat → Int) (v : View) :
    ((decisionEntries p spec approve operator clock).map (·.2)).foldl View.apply v =
      v.apply (.decided p.proposalId (p.decided approve operator).state operator) := by
  unfold decisionEntries
  split <;> rfl

theorem decisionEntries_filter (p : Proposal) (spec : ActionSpec) (approve : Bool)
    (operator : Str) (clock : Nat → Int) (id : Int) :
    ((decisionEntries p spec approve operator clock).map (·.2)).filter (Entry.settles id) =
      if p.proposalId = id then (decisionEntries p spec approve operator clock).map (·.2)
      else [] := by
  unfold decisionEntries
  by_cases hid : p.proposalId = id
  · split <;> simp [Entry.settles, hid]
  · split <;> simp [Entry.settles, hid]

/-- The entries of a decision are the trail of the decided proposal. -/
theorem decisionEntries_trail {p : Proposal} {spec : ActionSpec}
    (hs : q.allowlist.lookup p.action = some spec) (approve : Bool) (operator : Str)
    (clock : Nat → Int) :
    (decisionEntries p spec approve operator clock).map (·.2) =
      q.trail (p.decided approve operator) := by
  have hirr : q.irreversible p.action = !spec.reversible := by
    unfold ApprovalQueue.irreversible
    rw [hs]
    rfl
  unfold decisionEntries ApprovalQueue.trail Proposal.decided
  dsimp only
  rw [hirr]
  cases approve <;> cases spec.reversible <;> rfl

theorem map_account_set {l : List Proposal} {i : Nat} {p : Proposal} (hi : l[i]? = some p)
    (huniq : ∀ (k : Nat) p', l[k]? = some p' → k ≠ i → p'.proposalId ≠ p.proposalId)
    (approve : Bool) (operator : Str) :
    (l.map Proposal.account).map
        (Account.decide p.proposalId (p.decided approve operator).state operator) =
      (l.set i (p.decided approve operator)).map Proposal.account := by
  apply List.ext_getElem?
  intro k
  rw [List.getElem?_map, List.getElem?_map, List.getElem?_map]
  by_cases hk : k = i
  · subst hk
    have hlt := (List.getElem?_eq_some_iff.mp hi).1
    rw [hi, List.getElem?_set_self hlt]
    simp [Account.decide, Proposal.account, Proposal.decided]
  · rw [List.getElem?_set_ne (Ne.symm hk)]
    cases hp' : l[k]? with
    | none => rfl
    | some p' =>
      have hne := huniq k p' hp' hk
      simp [Account.decide, Proposal.account, hne]

theorem Audited.settle (h : Audited q) {i : Nat} {p : Proposal} {spec : ActionSpec}
    {approve : Bool} {operator : Str} {clock : Nat → Int} (hi : q.proposals[i]? = some p)
    (huniq : ∀ (k : Nat) p', q.proposals[k]? = some p' → k ≠ i → p'.proposalId ≠ p.proposalId)
    (hd : p.decidedBy = none) (hs : q.allowlist.lookup p.action = some spec) :
    Audited (q.settle i p spec approve operator clock) := by
  obtain ⟨log, hq⟩ := q.settle_eq i p spec approve operator clock
  have hlog := settle_log q i p spec approve operator clock
  have hother : ∀ id, p.proposalId ≠ id →
      (entries q.auditLog).filter (Entry.settles id) ++
        ((decisionEntries p spec approve operator clock).map (·.2)).filter (Entry.settles id) =
      (entries q.auditLog).filter (Entry.settles id) := by
    intro id hid
    rw [decisionEntries_filter, if_neg hid, List.append_nil]
  refine h.extend _ hlog ?_ ?_ ?_
  · rw [decisionEntries_fold, hq]
    show View.mk _ _ = View.mk _ _
    rw [← map_account_set hi huniq]
    rfl
  · rw [hq]
    intro p' hp'
    obtain ⟨k, hk⟩ := List.mem_iff_getElem?.mp hp'
    rcases getElem?_set_cases hk with ⟨rfl, rfl⟩ | ⟨hki, hk⟩
    · -- decided for the first time
      have hold := h.trails p (List.mem_of_getElem? hi)
      unfold ApprovalQueue.trail at hold
      rw [hd] at hold
      show (entries q.auditLog).filter (Entry.settles p.proposalId) ++ List.filter _ _ = _
      rw [hold, decisionEntries_filter, decisionEntries_trail hs]
      exact if_pos rfl
    · rw [hother _ (huniq k p' hk hki).symm]
      exact h.trails p' (List.mem_of_getElem? hk)
  · rw [hq]
    intro id hid
    have hid' : id ∉ q.proposals.map (·.proposalId) := by
      rwa [map_set_of_eq hi (by rfl)] at hid
    have hne : p.proposalId ≠ id := by
      rintro rfl
      exact hid' (List.mem_map_of_mem (List.mem_of_getElem? hi))
    rw [hother id hne]
    exact h.strays id hid'

/-! ## Runs -/

/-- A queue that starts with an empty log and accepts proposals. -/
structure ApprovalQueue.Fresh (q : ApprovalQueue) : Prop extends q.Empty where
  killed : q.killed = false
  auditLog : q.auditLog = []

theorem audited_init {q₀ : ApprovalQueue} (h0 : q₀.Fresh) : Audited q₀ where
  legible := by rw [h0.auditLog]; simp
  replays := by
    rw [h0.auditLog, ApprovalQueue.view, h0.proposals, h0.killed]
    rfl
  trails := by rw [h0.proposals]; simp
  strays id _ := by rw [h0.auditLog]; rfl

theorem Standing.undecided {d : Option Str} {l : List (Bool × Str)} (h : Standing .pending d l) :
    d = none := by
  cases h
  rfl

theorem Audited.call {q₀ : ApprovalQueue} {h : List (Op × Result)} (hr : Recorded q₀ h q)
    (ha : Audited q) (op : Op) : Audited ((approvalQueue printable).step q op).2 := by
  have hstep := call_step printable q op
  generalize (approvalQueue printable).step q op = res at hstep
  cases hstep with
  | refused _ => exact ha
  | halted e reason => exact ha.kill reason _
  | @created action arguments rationale now clock spec n p _ _ _ _ _ _ _ hp =>
    subst hp
    refine ha.create rfl rfl rfl ?_
    intro hmem
    obtain ⟨p', hp', heq⟩ := List.mem_map.mp hmem
    obtain ⟨k, hk⟩ := List.mem_iff_getElem?.mp hp'
    have hlt := (List.getElem?_eq_some_iff.mp hk).1
    have := hr.numbered k p' hk
    have := hr.next
    omega
  | undecided e => exact ha
  | @decided id approve operator clock i p spec hi _ _ hp hs =>
    have hstand := hr.standing p (List.mem_of_getElem? hi)
    rw [hp] at hstand
    refine ha.settle hi ?_ hstand.undecided hs
    intro k p' hk hne
    have := hr.numbered i p hi
    have := hr.numbered k p' hk
    omega
  | killed reason c => exact ha.kill reason c

theorem log_appends (q : ApprovalQueue) (op : Op) :
    q.auditLog <+: ((approvalQueue printable).step q op).2.auditLog := by
  have hstep := call_step printable q op
  generalize (approvalQueue printable).step q op = res at hstep
  cases hstep with
  | refused _ => exact List.prefix_refl _
  | halted e reason => exact List.prefix_append _ _
  | created => exact List.prefix_append _ _
  | undecided e => exact List.prefix_refl _
  | @decided id approve operator clock i p spec hi _ _ hp hs =>
    rw [settle_log]
    exact List.prefix_append _ _
  | killed reason c => exact List.prefix_append _ _

/-- **The log replays to the queue.** -/
theorem log_replays {q₀ : ApprovalQueue} {h : List (Op × Result)} (h0 : q₀.Fresh)
    (hrun : (approvalQueue printable).Reach q₀ h q) :
    Audited q ∧ ∀ op, q.auditLog <+: ((approvalQueue printable).step q op).2.auditLog := by
  refine ⟨?_, log_appends q⟩
  induction hrun with
  | init => exact audited_init h0
  | call op hr ih => exact ih.call (recorded h0.toEmpty hr) op

/-- The gate with an irreversible action, and the session on it. -/
def irreversibleGate : ApprovalQueue :=
  { gate with allowlist := AList.singleton (lit "suspend") ⟨{lit "account_ref"}, false⟩ }

def irreversibleRan : List (Op × Result) × ApprovalQueue :=
  (approvalQueue fun _ => false).run irreversibleGate session

theorem log_replays_ran :
    (entries irreversibleRan.2.auditLog = [.created (lit "suspend") 1,
      .irreversible 1 (lit "operator7"), .decided 1 .approved (lit "operator7"),
      .killed (lit "drill")]) ∧ Audited irreversibleRan.2 :=
  ⟨by decide, (log_replays ⟨⟨rfl, rfl⟩, rfl, rfl⟩ (Machine.Reach.init.run session)).1⟩

end IspPlatform.Ai
