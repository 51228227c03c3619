import IspPlatform.Ai.ApprovalSteps
import IspPlatform.Py.Numerals
import IspPlatform.Py.Repr

/-!
# Why a call of the queue was halted

`QueueHalted` carries a text alone. `Halt` lists what the texts say, and `HaltsFor` when each is
said, in the order of the checks; whatever the action's name is, a text tells which it is.
-/

namespace IspPlatform.Ai

open Py Lib

inductive Halt where
  | killed
  | notListed (action : Str)
  | missingArguments (action : Str) (missing : Finset Str)
  | noRationale
  | backlog (pending : Nat) (maxPending : Int)
  | rate (maxPerHour : Int)
  | noProposal (proposalId : Int)
  | notPending (proposalId : Int) (state : ProposalState)

/-- `str(exc)`. -/
def Halt.text (printable : Char → Bool) : Halt → Str
  | .killed => lit "kill switch engaged; no proposals accepted"
  | .notListed action =>
    lit "action " ++ reprStr printable action ++ lit " is not on the allowlist; refused"
  | .missingArguments action missing => missingText printable action missing
  | .noRationale => lit "a proposal must carry a rationale for the reviewer"
  | .backlog pending maxPending => backlogText pending maxPending
  | .rate maxPerHour => rateText maxPerHour
  | .noProposal proposalId => lit "no proposal " ++ (lit "#" ++ intStr proposalId)
  | .notPending proposalId state => lit "proposal " ++ (lit "#" ++ intStr proposalId) ++
      lit " is " ++ state.str ++ lit ", not pending"

/-- When a call is halted, and why. -/
inductive HaltsFor (q : ApprovalQueue) : Op → Halt → Prop where
  | killed {action : Str} {arguments : Mapping Str} {rationale : Str} {now : Option Datetime}
      {clock : Nat → Int} : q.killed = true →
      HaltsFor q (.propose action arguments rationale now clock) .killed
  | notListed {action : Str} {arguments : Mapping Str} {rationale : Str} {now : Option Datetime}
      {clock : Nat → Int} : q.killed = false → q.allowlist.lookup action = none →
      HaltsFor q (.propose action arguments rationale now clock) (.notListed action)
  | missingArguments {action : Str} {arguments : Mapping Str} {rationale : Str}
      {now : Option Datetime} {clock : Nat → Int} {spec : ActionSpec} : q.killed = false →
      q.allowlist.lookup action = some spec →
      (spec.requiredArgs \ arguments.keys.toFinset).Nonempty →
      HaltsFor q (.propose action arguments rationale now clock)
        (.missingArguments action (spec.requiredArgs \ arguments.keys.toFinset))
  | noRationale {action : Str} {arguments : Mapping Str} {rationale : Str} {now : Option Datetime}
      {clock : Nat → Int} {spec : ActionSpec} : q.killed = false →
      q.allowlist.lookup action = some spec → spec.requiredArgs ⊆ arguments.keys.toFinset →
      strip rationale = [] →
      HaltsFor q (.propose action arguments rationale now clock) .noRationale
  | backlog {action : Str} {arguments : Mapping Str} {rationale : Str} {now : Option Datetime}
      {clock : Nat → Int} {spec : ActionSpec} : q.killed = false →
      q.allowlist.lookup action = some spec → spec.requiredArgs ⊆ arguments.keys.toFinset →
      strip rationale ≠ [] → q.maxPending ≤ q.proposals.countP (·.state = .pending) →
      HaltsFor q (.propose action arguments rationale now clock)
        (.backlog (q.proposals.countP (·.state = .pending)) q.maxPending)
  | rate {action : Str} {arguments : Mapping Str} {rationale : Str} {now : Option Datetime}
      {clock : Nat → Int} {spec : ActionSpec} {n : Nat} : q.killed = false →
      q.allowlist.lookup action = some spec → spec.requiredArgs ⊆ arguments.keys.toFinset →
      strip rationale ≠ [] → (q.proposals.countP (·.state = .pending) : Int) < q.maxPending →
      recent (now.getD (utc (clock 0))) q.proposals = .ok n → q.maxPerHour ≤ n →
      HaltsFor q (.propose action arguments rationale now clock) (.rate q.maxPerHour)
  | noProposal {proposalId : Int} {approve : Bool} {operator : Str} {clock : Nat → Int} :
      q.require proposalId = none →
      HaltsFor q (.decide proposalId approve operator clock) (.noProposal proposalId)
  | notPending {proposalId : Int} {approve : Bool} {operator : Str} {clock : Nat → Int}
      {i : Fin q.proposals.length} : q.require proposalId = some i →
      (q.proposals.get i).state ≠ .pending →
      HaltsFor q (.decide proposalId approve operator clock)
        (.notPending proposalId (q.proposals.get i).state)

section
variable {printable : Char → Bool} {q : ApprovalQueue} {op : Op} {text : Str}

theorem propose_halts {action : Str} {arguments : Mapping Str} {rationale : Str}
    {now : Option Datetime} {clock : Nat → Int}
    (h : (q.propose printable action arguments rationale now clock).1 =
      .error (.queueHalted text)) :
    ∃ r, text = r.text printable ∧
      HaltsFor q (.propose action arguments rationale now clock) r := by
  unfold ApprovalQueue.propose at h
  dsimp only at h
  by_cases hk : q.killed = true
  · rw [if_pos hk] at h
    cases h
    exact ⟨.killed, rfl, .killed hk⟩
  have hlive : q.killed = false := by simpa using hk
  rw [if_neg hk] at h
  cases hs : q.allowlist.lookup action with
  | none =>
    rw [hs] at h
    cases h
    exact ⟨.notListed action, rfl, .notListed hlive hs⟩
  | some spec =>
    rw [hs] at h
    dsimp only at h
    by_cases hm : (spec.requiredArgs \ arguments.keys.toFinset).Nonempty
    · rw [if_pos hm] at h
      cases h
      exact ⟨_, rfl, .missingArguments hlive hs hm⟩
    rw [if_neg hm] at h
    rw [Finset.not_nonempty_iff_eq_empty, Finset.sdiff_eq_empty_iff_subset] at hm
    by_cases hr : strip rationale = []
    · rw [if_pos hr] at h
      cases h
      exact ⟨.noRationale, rfl, .noRationale hlive hs hm hr⟩
    rw [if_neg hr] at h
    by_cases hp : q.maxPending ≤ q.proposals.countP (·.state = .pending)
    · rw [if_pos hp] at h
      cases h
      exact ⟨.backlog _ _, rfl, .backlog hlive hs hm hr hp⟩
    rw [if_neg hp] at h
    cases hn : recent (now.getD (utc (clock 0))) q.proposals with
    | error e =>
      obtain ⟨m, rfl⟩ := recent_typeError hn
      rw [hn] at h
      cases h
    | ok n =>
      rw [hn] at h
      dsimp only at h
      by_cases hmax : q.maxPerHour ≤ n
      · rw [if_pos hmax] at h
        cases h
        exact ⟨.rate _, rfl, .rate hlive hs hm hr (by omega) hn hmax⟩
      · rw [if_neg hmax] at h
        cases h

theorem decide_halts {proposalId : Int} {approve : Bool} {operator : Str} {clock : Nat → Int}
    (h : (q.decide proposalId approve operator clock).1 = .error (.queueHalted text)) :
    ∃ r, text = r.text printable ∧ HaltsFor q (.decide proposalId approve operator clock) r := by
  unfold ApprovalQueue.decide at h
  dsimp only at h
  cases hi : q.require proposalId with
  | none =>
    rw [hi] at h
    cases h
    exact ⟨.noProposal proposalId, rfl, .noProposal hi⟩
  | some i =>
    rw [hi] at h
    dsimp only at h
    by_cases hp : q.proposals[i].state = .pending
    · rw [if_neg (by simpa using hp)] at h
      cases hs : q.allowlist.lookup q.proposals[i].action with
      | none =>
        rw [hs] at h
        cases h
      | some spec =>
        rw [hs] at h
        cases h
    · rw [if_pos hp] at h
      cases h
      exact ⟨.notPending proposalId _, rfl, .notPending hi hp⟩

theorem halted_reason
    (h : ((approvalQueue printable).step q op).1 = .error (.queueHalted text)) :
    ∃ r, text = r.text printable ∧ HaltsFor q op r := by
  have hmap : ∀ {x : Except Exn Proposal}, x.map some = .error (.queueHalted text) →
      x = .error (.queueHalted text) := by
    intro x hx
    cases x with
    | error e => rw [Except.error.inj hx]
    | ok p => cases hx
  cases op with
  | propose action arguments rationale now clock => exact propose_halts (hmap h)
  | decide proposalId approve operator clock => exact decide_halts (hmap h)
  | kill reason clock => cases h

theorem HaltsFor.halted {r : Halt} (h : HaltsFor q op r) :
    ((approvalQueue printable).step q op).1 = .error (.queueHalted (r.text printable)) := by
  unfold approvalQueue
  cases h with
  | killed hk =>
    dsimp only
    rw [ApprovalQueue.propose, if_pos hk]
    rfl
  | notListed hk hs =>
    dsimp only
    rw [ApprovalQueue.propose, if_neg (by simp [hk]), hs]
    rfl
  | missingArguments hk hs hm =>
    dsimp only
    rw [ApprovalQueue.propose, if_neg (by simp [hk]), hs]
    dsimp only
    rw [if_pos hm]
    rfl
  | noRationale hk hs hm hr =>
    rw [← Finset.sdiff_eq_empty_iff_subset, ← Finset.not_nonempty_iff_eq_empty] at hm
    dsimp only
    rw [ApprovalQueue.propose, if_neg (by simp [hk]), hs]
    dsimp only
    rw [if_neg hm, if_pos hr]
    rfl
  | backlog hk hs hm hr hp =>
    rw [← Finset.sdiff_eq_empty_iff_subset, ← Finset.not_nonempty_iff_eq_empty] at hm
    dsimp only
    rw [ApprovalQueue.propose, if_neg (by simp [hk]), hs]
    dsimp only
    rw [if_neg hm, if_neg hr, if_pos hp]
    rfl
  | rate hk hs hm hr hp hn hmax =>
    rw [← Finset.sdiff_eq_empty_iff_subset, ← Finset.not_nonempty_iff_eq_empty] at hm
    dsimp only
    rw [ApprovalQueue.propose, if_neg (by simp [hk]), hs]
    dsimp only
    rw [if_neg hm, if_neg hr, if_neg (by omega), hn]
    dsimp only
    rw [if_pos hmax]
    rfl
  | noProposal hi =>
    dsimp only
    rw [ApprovalQueue.decide, hi]
    rfl
  | notPending hi hp =>
    rw [List.get_eq_getElem] at hp
    dsimp only
    rw [ApprovalQueue.decide, hi]
    dsimp only
    rw [Fin.getElem_fin, if_pos hp]
    rfl

end

section
variable {printable : Char → Bool}

theorem state_str_injective : Function.Injective ProposalState.str := by
  intro s s' h
  cases s <;> cases s' <;> first | rfl | (revert h; decide)

theorem action_texts {action action' : Str} {missing : Finset Str} :
    Halt.text printable (.notListed action) ≠
      Halt.text printable (.missingArguments action' missing) := by
  intro h
  have hsplit : lit "action " ++ (reprStr printable action ++
      lit " is not on the allowlist; refused") =
      lit "action " ++ (reprStr printable action' ++ (lit " missing required arguments: " ++
        reprList printable (sorted missing))) := by
    simpa [Halt.text, missingText] using h
  obtain ⟨-, htail⟩ := reprStr_selfDelimiting printable (List.append_cancel_left hsplit)
  simp [lit] at htail

theorem missing_text {action action' : Str} {missing missing' : Finset Str}
    (h : missingText printable action missing = missingText printable action' missing') :
    action = action' ∧ missing = missing' := by
  unfold missingText at h
  simp only [List.append_assoc] at h
  obtain ⟨haction, hlist⟩ := reprStr_selfDelimiting printable (List.append_cancel_left h)
  have hsorted := (reprList_selfDelimiting printable).injective (List.append_cancel_left hlist)
  refine ⟨haction, ?_⟩
  rw [← sorted_toFinset missing, hsorted, sorted_toFinset]

theorem backlog_text {pending pending' : Nat} {maxPending maxPending' : Int}
    (h : backlogText pending maxPending = backlogText pending' maxPending') :
    pending = pending' ∧ maxPending = maxPending' := by
  have hnat : ∀ n : Nat, ' ' ∉ natStr n := fun n => not_mem_natStr (by decide)
  have hint : ∀ n : Int, ';' ∉ intStr n := fun n => not_mem_intStr (by decide) (by decide)
  have hbound : lit " >= " = ' ' :: lit ">= " := rfl
  have hend :
      lit "; queue halted. A backlog this size means the agent is proposing faster than a " =
        ';' :: lit " queue halted. A backlog this size means the agent is proposing faster than a " :=
    rfl
  unfold backlogText at h
  simp only [List.append_assoc, hbound, hend, List.cons_append] at h
  obtain ⟨hpending, hmax⟩ := eq_before_mark natStr_injective hnat (List.append_cancel_left h)
  exact ⟨hpending, (eq_before_mark intStr_injective hint (List.append_cancel_left hmax)).1⟩

theorem rate_text {maxPerHour maxPerHour' : Int} (h : rateText maxPerHour = rateText maxPerHour') :
    maxPerHour = maxPerHour' := by
  unfold rateText at h
  exact intStr_injective (List.append_cancel_left (List.append_cancel_right h))

theorem notPending_text {id id' : Int} {state state' : ProposalState}
    (h : Halt.text printable (.notPending id state) =
      Halt.text printable (.notPending id' state')) : id = id' ∧ state = state' := by
  have hint : ∀ n : Int, ' ' ∉ intStr n := fun n => not_mem_intStr (by decide) (by decide)
  have his : lit " is " = ' ' :: lit "is " := rfl
  unfold Halt.text at h
  simp only [List.append_assoc, his, List.cons_append] at h
  obtain ⟨hid, hrest⟩ := eq_before_mark intStr_injective hint
    (List.append_cancel_left (List.append_cancel_left h))
  exact ⟨hid, state_str_injective (List.append_cancel_right (List.append_cancel_left hrest))⟩

theorem halt_injective : Function.Injective (Halt.text printable) := by
  intro r r' h
  cases r with
  | killed =>
    cases r' with
    | killed => rfl
    | _ => simp [Halt.text, missingText, backlogText, rateText, lit] at h
  | notListed action =>
    cases r' with
    | notListed action' => rw [((reprStr_selfDelimiting printable).framed _ _).injective h]
    | missingArguments action' missing => exact absurd h action_texts
    | _ => simp [Halt.text, backlogText, rateText, lit] at h
  | missingArguments action missing =>
    cases r' with
    | notListed action' => exact absurd h.symm action_texts
    | missingArguments action' missing' =>
      obtain ⟨rfl, rfl⟩ := missing_text h
      rfl
    | _ => simp [Halt.text, missingText, backlogText, rateText, lit] at h
  | noRationale =>
    cases r' with
    | noRationale => rfl
    | _ => simp [Halt.text, missingText, backlogText, rateText, lit] at h
  | backlog pending maxPending =>
    cases r' with
    | backlog pending' maxPending' =>
      obtain ⟨rfl, rfl⟩ := backlog_text h
      rfl
    | _ => simp [Halt.text, missingText, backlogText, rateText, lit] at h
  | rate maxPerHour =>
    cases r' with
    | rate maxPerHour' => rw [rate_text h]
    | _ => simp [Halt.text, missingText, backlogText, rateText, lit] at h
  | noProposal id =>
    cases r' with
    | noProposal id' =>
      rw [intStr_injective (List.append_cancel_left (List.append_cancel_left h))]
    | _ => simp [Halt.text, missingText, backlogText, rateText, lit] at h
  | notPending id state =>
    cases r' with
    | notPending id' state' =>
      obtain ⟨rfl, rfl⟩ := notPending_text h
      rfl
    | _ => simp [Halt.text, missingText, backlogText, rateText, lit] at h

end

/-- **The text tells the halt.** A call raises `QueueHalted` with the text of a reason exactly if
that is the reason, and with no other text. -/
theorem halt_tells (printable : Char → Bool) (q : ApprovalQueue) (op : Op) :
    (∀ r : Halt,
      ((approvalQueue printable).step q op).1 = .error (.queueHalted (r.text printable)) ↔
        HaltsFor q op r) ∧
    ∀ text, ((approvalQueue printable).step q op).1 = .error (.queueHalted text) →
      ∃ r : Halt, text = r.text printable := by
  refine ⟨fun r => ⟨fun h => ?_, HaltsFor.halted⟩, fun text h => ?_⟩
  · obtain ⟨r', htext, hreason⟩ := halted_reason h
    rwa [halt_injective htext]
  · obtain ⟨r, htext, -⟩ := halted_reason h
    exact ⟨r, htext⟩

end IspPlatform.Ai
