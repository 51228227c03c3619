import Mathlib.Data.List.AList
import IspPlatform.Py.Text
import IspPlatform.Py.Machine

/-!
# The approval queue

`propose`, `decide` and `kill`, each with what it gives back and the queue it leaves. A
refused `propose` may leave a killed queue, so the queue comes back with an exception
too. A call reads `datetime.now(UTC)` through its argument `clock`, the readings in
order; `printable` is the interpreter's table for `repr`.
-/

namespace IspPlatform.Ai

open Py

inductive ProposalState where
  | pending
  | approved
  | rejected
  | executed
  | failed
  deriving DecidableEq, Repr

def ProposalState.str : ProposalState → Str
  | .pending => lit "pending"
  | .approved => lit "approved"
  | .rejected => lit "rejected"
  | .executed => lit "executed"
  | .failed => lit "failed"

/-- `Mapping[str, α]`. -/
abbrev Mapping (α : Type) := AList fun _ : Str => α

/-- The `tzinfo` of a `datetime`: `UTC`, or another object with the `utcoffset` it gives there,
in microseconds, if it gives one. -/
inductive Tzinfo where
  | utc
  | object (id : Nat) (utcoffset : Option Int)
  deriving DecidableEq, Repr

/-- What a wall clock shows, in microseconds, and its time zone if it has one. -/
structure Datetime where
  wall : Int
  tzinfo : Option Tzinfo
  deriving DecidableEq, Repr

/-- What `datetime.now(UTC)` gives at a reading of the clock. -/
def utc (micros : Int) : Datetime := ⟨micros, some .utc⟩

structure ActionSpec where
  requiredArgs : Finset Str
  reversible : Bool

structure Proposal where
  proposalId : Int
  action : Str
  arguments : Mapping Str
  rationale : Str
  proposedAt : Datetime
  state : ProposalState
  decidedBy : Option Str
  deriving DecidableEq

structure ApprovalQueue where
  allowlist : Mapping ActionSpec
  maxPending : Int
  maxPerHour : Int
  killed : Bool
  proposals : List Proposal
  nextId : Int
  auditLog : List (Datetime × Str × Str)

inductive Exn where
  | queueHalted (msg : Str)
  | keyError (key : Str)
  | typeError (msg : Str)
  deriving DecidableEq, Repr

/-- `z is z'`. -/
def Tzinfo.same : Tzinfo → Tzinfo → Bool
  | .utc, .utc => true
  | .object id _, .object id' _ => id = id'
  | _, _ => false

def Tzinfo.utcoffset : Tzinfo → Option Int
  | .utc => some 0
  | .object _ utcoffset => utcoffset

/-- `a.tzinfo is b.tzinfo`. -/
def Datetime.sameZone (a b : Datetime) : Bool :=
  match a.tzinfo, b.tzinfo with
  | none, none => true
  | some z, some z' => z.same z'
  | _, _ => false

/-- `None` for a naive one. -/
def Datetime.utcoffset (d : Datetime) : Option Int := d.tzinfo.bind Tzinfo.utcoffset

/-- `a - b`, in microseconds. Within one time zone, or none, it is the difference of the wall
clocks, whatever happened to them in between. -/
def Datetime.sub (a b : Datetime) : Except Exn Int :=
  if a.sameZone b then .ok (a.wall - b.wall)
  else
    match a.utcoffset, b.utcoffset with
    | none, none => .ok (a.wall - b.wall)
    | some o, some o' => .ok (a.wall - o - (b.wall - o'))
    | _, _ => .error (.typeError (lit "can't subtract offset-naive and offset-aware datetimes"))

/-- 3600 seconds. -/
def hour : Int := 3600 * 10 ^ 6

/-- How many proposals lie less than an hour before `moment`, or after it. -/
def recent (moment : Datetime) : List Proposal → Except Exn Nat
  | [] => .ok 0
  | p :: ps => do
    let age ← moment.sub p.proposedAt
    let n ← recent moment ps
    return if age < hour then n + 1 else n

def backlogText (pending : Nat) (maxPending : Int) : Str :=
  lit "pending backlog " ++ natStr pending ++ lit " >= " ++ intStr maxPending ++
    lit "; queue halted. A backlog this size means the agent is proposing faster than a " ++
    lit "human can review, which is indistinguishable from a loop."

def rateText (maxPerHour : Int) : Str :=
  lit "rate limit " ++ intStr maxPerHour ++ lit "/h exceeded; halted"

def missingText (printable : Char → Bool) (action : Str) (missing : Finset Str) : Str :=
  lit "action " ++ reprStr printable action ++ lit " missing required arguments: " ++
    reprList printable (sorted missing)

namespace ApprovalQueue

/-- `_audit`. -/
def audit (q : ApprovalQueue) (at' : Datetime) (event detail : Str) : ApprovalQueue :=
  { q with auditLog := q.auditLog ++ [(at', event, detail)] }

def kill (q : ApprovalQueue) (reason : Str) (clock : Int) : ApprovalQueue :=
  { q with killed := true }.audit (utc clock) (lit "queue.killed") reason

def propose (printable : Char → Bool) (q : ApprovalQueue) (action : Str)
    (arguments : Mapping Str) (rationale : Str) (now : Option Datetime) (clock : Nat → Int) :
    Except Exn Proposal × ApprovalQueue :=
  let moment := now.getD (utc (clock 0))
  if q.killed then
    (.error (.queueHalted (lit "kill switch engaged; no proposals accepted")), q)
  else match q.allowlist.lookup action with
  | none =>
    (.error (.queueHalted
      (lit "action " ++ reprStr printable action ++ lit " is not on the allowlist; refused")), q)
  | some spec =>
    let missing := spec.requiredArgs \ arguments.keys.toFinset
    if missing.Nonempty then
      (.error (.queueHalted (missingText printable action missing)), q)
    else if strip rationale = [] then
      (.error (.queueHalted (lit "a proposal must carry a rationale for the reviewer")), q)
    else
      let pending := q.proposals.countP (·.state = .pending)
      if q.maxPending ≤ pending then
        (.error (.queueHalted (backlogText pending q.maxPending)),
          q.kill (lit "pending backlog reached " ++ natStr pending) (clock 1))
      else match recent moment q.proposals with
      | .error e => (.error e, q)
      | .ok n =>
        if q.maxPerHour ≤ n then
          (.error (.queueHalted (rateText q.maxPerHour)),
            q.kill (lit "rate limit: " ++ natStr n ++ lit " proposals in the last hour") (clock 1))
        else
          let proposal : Proposal :=
            ⟨q.nextId, action, arguments, rationale, moment, .pending, none⟩
          (.ok proposal,
            { q with nextId := q.nextId + 1, proposals := q.proposals ++ [proposal] }.audit
              (utc (clock 1)) (lit "proposal.created") (action ++ lit " #" ++ intStr q.nextId))

/-- `_require`: the place of the first proposal with this id. -/
def require (q : ApprovalQueue) (proposalId : Int) : Option (Fin q.proposals.length) :=
  q.proposals.findFinIdx? (·.proposalId = proposalId)

def decide (q : ApprovalQueue) (proposalId : Int) (approve : Bool) (operator : Str)
    (clock : Nat → Int) : Except Exn Proposal × ApprovalQueue :=
  let number := lit "#" ++ intStr proposalId
  match q.require proposalId with
  | none => (.error (.queueHalted (lit "no proposal " ++ number)), q)
  | some i =>
    let proposal := q.proposals[i]
    if proposal.state ≠ .pending then
      (.error (.queueHalted (lit "proposal " ++ number ++ lit " is " ++ proposal.state.str ++
        lit ", not pending")), q)
    else match q.allowlist.lookup proposal.action with
    | none => (.error (.keyError proposal.action), q)
    | some spec =>
      let recorded := if approve ∧ ¬ spec.reversible then
          q.audit (utc (clock 0)) (lit "proposal.irreversible_approved")
            (number ++ lit " by " ++ operator)
        else q
      let state : ProposalState := if approve then .approved else .rejected
      let decided := { proposal with state := state, decidedBy := some operator }
      (.ok decided,
        { recorded with proposals := q.proposals.set i decided }.audit (utc (clock 1))
          (lit "proposal.decided") (number ++ lit " " ++ state.str ++ lit " by " ++ operator))

def approved (q : ApprovalQueue) : List Proposal := q.proposals.filter (·.state = .approved)

def pending (q : ApprovalQueue) : List Proposal := q.proposals.filter (·.state = .pending)

end ApprovalQueue

/-! ## Calls -/

inductive Op where
  | propose (action : Str) (arguments : Mapping Str) (rationale : Str) (now : Option Datetime)
      (clock : Nat → Int)
  | decide (proposalId : Int) (approve : Bool) (operator : Str) (clock : Nat → Int)
  | kill (reason : Str) (clock : Int)

/-- What a call gives back; `kill` gives back nothing. -/
abbrev Result := Except Exn (Option Proposal)

def approvalQueue (printable : Char → Bool) : Machine ApprovalQueue Op Result where
  step q
    | .propose action arguments rationale now clock =>
      let r := q.propose printable action arguments rationale now clock
      (r.1.map some, r.2)
    | .decide proposalId approve operator clock =>
      let r := q.decide proposalId approve operator clock
      (r.1.map some, r.2)
    | .kill reason clock => (.ok none, q.kill reason clock)

end IspPlatform.Ai
