import IspPlatform.Lib.Rolling
import IspPlatform.Ai.ApprovalRuns

/-!
# The limits of the approval queue

The moments of the proposals are those a rolling limiter has let in, so every hour holds
at most `maxPerHour` of them, in whatever order they come. This needs clocks that are not put
forward between two moments of one time zone: across such a change the queue takes less than
an hour for more. A limit that refuses a proposal kills the queue, and a killed queue stays
killed.
-/

namespace IspPlatform.Ai

open Py Lib

/-! ## Moments -/

/-- When it is; a naive one is taken by its clock. -/
def Datetime.instant (d : Datetime) : Int := d.wall - d.utcoffset.getD 0

/-- The clock of a time zone was put forward from `a` to `b`: it shows an hour or more between
them, and less than an hour has gone by. -/
def Skipped (a b : Datetime) : Prop :=
  a.tzinfo ≠ none ∧ b.sameZone a = true ∧ b.instant - a.instant < hour ∧ hour ≤ b.wall - a.wall

theorem sub_sameZone {a b : Datetime} {age : Int} (hsame : b.sameZone a = true)
    (hsub : b.sub a = .ok age) : age = b.wall - a.wall := by
  unfold Datetime.sub at hsub
  rw [if_pos hsame] at hsub
  exact (Except.ok.inj hsub).symm

theorem sub_zones {a b : Datetime} {age : Int} (hother : b.sameZone a ≠ true)
    (hsub : b.sub a = .ok age) : age = b.instant - a.instant := by
  unfold Datetime.sub at hsub
  rw [if_neg hother] at hsub
  unfold Datetime.instant
  cases hb : b.utcoffset with
  | none =>
    cases ha : a.utcoffset with
    | none =>
      rw [hb, ha] at hsub
      simpa using (Except.ok.inj hsub).symm
    | some o' =>
      rw [hb, ha] at hsub
      cases hsub
  | some o =>
    cases ha : a.utcoffset with
    | none =>
      rw [hb, ha] at hsub
      cases hsub
    | some o' =>
      rw [hb, ha] at hsub
      exact (Except.ok.inj hsub).symm

/-- Unless a clock was put forward, less than an hour is a difference of less than an hour. -/
theorem sub_lt_hour {a b : Datetime} {age : Int} (hsub : b.sub a = .ok age)
    (hsteady : ¬ Skipped a b) (hnear : b.instant - a.instant < hour) : age < hour := by
  by_cases hsame : b.sameZone a = true
  · rw [sub_sameZone hsame hsub]
    by_contra hfar
    refine hsteady ⟨?_, hsame, hnear, Int.not_lt.mp hfar⟩
    intro hnaive
    -- two naive moments are their wall clocks
    have hnaive' : b.tzinfo = none := by
      unfold Datetime.sameZone at hsame
      rw [hnaive] at hsame
      cases hb : b.tzinfo with
      | none => rfl
      | some z =>
        rw [hb] at hsame
        cases hsame
    refine hfar ?_
    unfold Datetime.instant Datetime.utcoffset at hnear
    rw [hnaive, hnaive'] at hnear
    simpa using hnear
  · rw [sub_zones hsame hsub]
    exact hnear

/-- The moment that a `propose` call stands for. -/
def moment (now : Option Datetime) (clock : Nat → Int) : Datetime := now.getD (utc (clock 0))

/-- The call does not propose after a clock was put forward. -/
def Steady (q : ApprovalQueue) : Op → Prop
  | .propose _ _ _ now clock => ∀ p ∈ q.proposals, ¬ Skipped p.proposedAt (moment now clock)
  | _ => True

/-! ## What the limits keep -/

/-- The backlog has been kept so far. -/
structure Limited (q₀ q : ApprovalQueue) : Prop where
  maxPending : q.maxPending = q₀.maxPending
  maxPerHour : q.maxPerHour = q₀.maxPerHour
  backlog : (q.proposals.countP (·.state = .pending) : Int) ≤ q₀.maxPending

/-- The rate has been kept so far. -/
structure Rated (q₀ q : ApprovalQueue) : Prop extends Limited q₀ q where
  rate : Rolling hour q₀.maxPerHour.toNat (q.proposals.map (·.proposedAt.instant))

theorem Limited.create (hl : Limited q₀ q) {p : Proposal} {c : Int}
    (hp : (q.proposals.countP (·.state = .pending) : Int) < q.maxPending) :
    Limited q₀ (q.create p c) := by
  refine ⟨hl.maxPending, hl.maxPerHour, ?_⟩
  have hle : [p].countP (·.state = .pending) ≤ 1 := List.countP_le_length
  show ((q.proposals ++ [p]).countP (·.state = .pending) : Int) ≤ _
  rw [List.countP_append, ← hl.maxPending]
  omega

theorem Rated.create (hr : Rated q₀ q) {p : Proposal} {c : Int} {n : Nat}
    (hp : (q.proposals.countP (·.state = .pending) : Int) < q.maxPending)
    (hn : recent p.proposedAt q.proposals = .ok n) (hmax : n < q.maxPerHour)
    (hsteady : ∀ p' ∈ q.proposals, ¬ Skipped p'.proposedAt p.proposedAt) :
    Rated q₀ (q.create p c) := by
  refine ⟨hr.toLimited.create hp, ?_⟩
  show Rolling _ _ ((q.proposals ++ [p]).map (·.proposedAt.instant))
  rw [List.map_append]
  apply hr.rate.snoc
  rw [List.countP_map, ← hr.maxPerHour]
  have hcount := recent_ok hn (fun p' => p.proposedAt.instant - p'.proposedAt.instant < hour)
    fun p' hp' hnear age hage => sub_lt_hour hage (hsteady p' hp') (of_decide_eq_true hnear)
  show q.proposals.countP (fun p' => p.proposedAt.instant - p'.proposedAt.instant < hour) < _
  omega

theorem Limited.settle (hl : Limited q₀ q) {i : Nat} {p : Proposal} {spec : ActionSpec}
    {approve : Bool} {operator : Str} {clock : Nat → Int} (hi : q.proposals[i]? = some p)
    (hp : p.state = .pending) : Limited q₀ (q.settle i p spec approve operator clock) := by
  obtain ⟨log, hq⟩ := q.settle_eq i p spec approve operator clock
  obtain ⟨hlt, hget⟩ := List.getElem?_eq_some_iff.mp hi
  rw [hq]
  constructor
  · exact hl.maxPending
  · exact hl.maxPerHour
  · have hback := hl.backlog
    show ((q.proposals.set i (p.decided approve operator)).countP (·.state = .pending) : Int) ≤ _
    rw [List.countP_set hlt, hget]
    have hdone : (p.decided approve operator).state ≠ .pending := by
      unfold Proposal.decided
      cases approve <;> simp
    simp only [hp, hdone, decide_true, decide_false, if_true, Bool.false_eq_true, if_false]
    omega

theorem Rated.settle (hr : Rated q₀ q) {i : Nat} {p : Proposal} {spec : ActionSpec}
    {approve : Bool} {operator : Str} {clock : Nat → Int} (hi : q.proposals[i]? = some p)
    (hp : p.state = .pending) : Rated q₀ (q.settle i p spec approve operator clock) := by
  refine ⟨hr.toLimited.settle hi hp, ?_⟩
  obtain ⟨log, hq⟩ := q.settle_eq i p spec approve operator clock
  rw [hq]
  show Rolling _ _ ((q.proposals.set i (p.decided approve operator)).map (·.proposedAt.instant))
  rw [map_set_of_eq hi (by rfl)]
  exact hr.rate

theorem Limited.call (hl : Limited q₀ q) (op : Op) :
    Limited q₀ ((approvalQueue printable).step q op).2 := by
  have hstep := call_step printable q op
  generalize (approvalQueue printable).step q op = res at hstep
  cases hstep with
  | refused _ => exact hl
  | halted e reason => exact ⟨hl.maxPending, hl.maxPerHour, hl.backlog⟩
  | created _ _ _ _ hpend _ _ _ => exact hl.create hpend
  | undecided e => exact hl
  | decided hi _ _ hp _ => exact hl.settle hi hp
  | killed reason c => exact ⟨hl.maxPending, hl.maxPerHour, hl.backlog⟩

theorem Rated.call (hr : Rated q₀ q) {op : Op} (hsteady : Steady q op) :
    Rated q₀ ((approvalQueue printable).step q op).2 := by
  have hl : Limited q₀ ((approvalQueue printable).step q op).2 := hr.toLimited.call op
  have hstep := call_step printable q op
  generalize (approvalQueue printable).step q op = res at hstep hl
  cases hstep with
  | refused _ => exact hr
  | halted e reason => exact ⟨hl, hr.rate⟩
  | created _ _ _ _ hpend hn hmax hp =>
    subst hp
    exact hr.create hpend hn hmax hsteady
  | undecided e => exact hr
  | decided hi _ _ hp _ => exact hr.settle hi hp
  | killed reason c => exact ⟨hl, hr.rate⟩

theorem limited (h0 : q₀.proposals = []) (hp : 0 ≤ q₀.maxPending)
    (hrun : (approvalQueue printable).Reach q₀ h q) : Limited q₀ q := by
  refine hrun.keeps ⟨rfl, rfl, ?_⟩ fun q op hl => hl.call op
  rw [h0]
  exact hp

theorem rated (h0 : q₀.proposals = []) (hp : 0 ≤ q₀.maxPending)
    (hrun : (approvalQueue printable).Reach q₀ h q)
    (hsteady : (approvalQueue printable).Each Steady q₀ h) : Rated q₀ q := by
  refine hrun.keepsOn hsteady ⟨⟨rfl, rfl, ?_⟩, ?_⟩ fun q op hop hr => hr.call hop
  · rw [h0]
    exact hp
  · rw [h0]
    exact .nil

/-- A call of `kill`, or a `propose` that a limit refused. -/
def Halting : Op × Result → Prop
  | (.kill .., _) => True
  | (.propose .., .error e) => LimitRefusal e
  | _ => False

/-- A `propose` call raised. -/
def Refused : Op × Result → Prop
  | (.propose .., r) => ∃ e, r = .error e
  | _ => True

theorem halting_kills (op : Op) (hh : Halting (op, ((approvalQueue printable).step q op).1)) :
    ((approvalQueue printable).step q op).2.killed = true := by
  have hstep := call_step printable q op
  generalize (approvalQueue printable).step q op = res at hstep hh
  cases hstep with
  | refused hno => exact absurd hh hno
  | halted e reason => rfl
  | created => exact hh.elim
  | undecided e => exact hh.elim
  | decided => exact hh.elim
  | killed reason c => rfl

theorem killed_keeps (op : Op) (hk : q.killed = true) :
    ((approvalQueue printable).step q op).2.killed = true ∧
      Refused (op, ((approvalQueue printable).step q op).1) := by
  have hstep := call_step printable q op
  generalize (approvalQueue printable).step q op = res at hstep
  cases hstep with
  | refused _ => exact ⟨hk, _, rfl⟩
  | halted e reason => exact ⟨rfl, _, rfl⟩
  | created hno =>
    rw [hk] at hno
    cases hno
  | undecided e => exact ⟨hk, trivial⟩
  | @decided id approve operator clock i p spec =>
    obtain ⟨log, hq⟩ := q.settle_eq i p spec approve operator clock
    rw [hq]
    exact ⟨hk, trivial⟩
  | killed reason c => exact ⟨rfl, trivial⟩

/-- How many proposals were made in `[t, t + 1h)`. -/
def madeFrom (q : ApprovalQueue) (t : Int) : Nat :=
  q.proposals.countP fun p => t ≤ p.proposedAt.instant ∧ p.proposedAt.instant < t + hour

/-- How many proposals were made in `(t, t + 1h]`. -/
def madeAfter (q : ApprovalQueue) (t : Int) : Nat :=
  q.proposals.countP fun p => t < p.proposedAt.instant ∧ p.proposedAt.instant ≤ t + hour

structure Throttled (printable : Char → Bool) (q₀ : ApprovalQueue) (h : List (Op × Result))
    (q : ApprovalQueue) : Prop where
  backlog : (q.pending.length : Int) ≤ q₀.maxPending
  halted : ∀ pre x post, h = pre ++ x :: post → Halting x → ∀ y ∈ post, Refused y
  /-- If no call proposed after a clock was put forward. -/
  rate : (approvalQueue printable).Each Steady q₀ h →
    ∀ t, madeFrom q t ≤ q₀.maxPerHour ∧ madeAfter q t ≤ q₀.maxPerHour

/-- **Limits.** Whatever moments the callers give, the backlog stays within its limit and after a
halt nothing more is proposed; and every hour stays within its limit if no time zone's clock is
put forward between two proposals. -/
theorem throttled (h0 : q₀.proposals = []) (hp : 0 ≤ q₀.maxPending) (hh : 0 ≤ q₀.maxPerHour)
    (hrun : (approvalQueue printable).Reach q₀ h q) : Throttled printable q₀ h q := by
  constructor
  · unfold ApprovalQueue.pending
    rw [← List.countP_eq_length_filter]
    exact (limited h0 hp hrun).backlog
  · intro pre x post hx ht
    exact hrun.latched (fun _ op => halting_kills op) (fun _ op hk => (killed_keeps op hk).1)
      (fun _ op hk => (killed_keeps op hk).2) hx ht
  · intro hsteady t
    have hr := (rated h0 hp hrun hsteady).rate
    have hfrom := hr.window (w := fun m => t ≤ m ∧ m < t + hour) (by omega)
    have hafter := hr.window (w := fun m => t < m ∧ m ≤ t + hour) (by omega)
    rw [List.countP_map] at hfrom hafter
    have hfrom' : madeFrom q t ≤ q₀.maxPerHour.toNat := hfrom
    have hafter' : madeAfter q t ≤ q₀.maxPerHour.toNat := hafter
    omega

theorem steady_clock {action : Str} {arguments : Mapping Str} {rationale : Str}
    {clock : Nat → Int} : Steady q (.propose action arguments rationale none clock) := by
  rintro p - ⟨-, hsame, hnear, hfar⟩
  have hutc : p.proposedAt.tzinfo = some .utc := by
    cases hz : p.proposedAt.tzinfo with
    | none =>
      simp only [Datetime.sameZone, moment, Option.getD_none, utc, hz] at hsame
      cases hsame
    | some z =>
      simp only [Datetime.sameZone, moment, Option.getD_none, utc, hz] at hsame
      cases z with
      | utc => rfl
      | object => cases hsame
  simp only [Datetime.instant, Datetime.utcoffset, hutc, moment, Option.getD_none, utc,
    Option.bind_some, Tzinfo.utcoffset, Option.getD_some] at hnear hfar
  omega

theorem throttled_ran : ran.2.killed = true ∧
    (approvalQueue fun _ => false).Each Steady gate ran.1 ∧
    Throttled (fun _ => false) gate ran.1 ran.2 := by
  refine ⟨by decide, fun pre x post q hx _ => ?_, throttled rfl (by decide) (by decide) reach_ran⟩
  have hmem : x.1 ∈ ran.1.map Prod.fst := by
    rw [hx]
    simp
  have hops : x.1 ∈ session := hmem
  simp only [session, List.mem_cons, List.not_mem_nil, or_false] at hops
  rcases hops with hop | hop | hop | hop
  all_goals rw [hop]
  · exact steady_clock
  · trivial
  · trivial
  · exact steady_clock

/-- A queue that takes one proposal an hour. -/
def hourly : ApprovalQueue := { gate with maxPerHour := 1 }

/-- A moment in Berlin, by its clock and in microseconds after 31 March 2024, 01:00, with the
offset in hours. -/
def berlin (micros offset : Int) : Datetime :=
  ⟨1711846800 * 10 ^ 6 + micros, some (.object 1 (some (offset * hour)))⟩

/-- A proposal one second before the clock of Berlin is put forward to 03:00, and one then. -/
def spring : List Op :=
  [.propose (lit "suspend") (AList.singleton (lit "account_ref") (lit "ACC7")) (lit "unpaid")
    (some (berlin (hour - 10 ^ 6) 1)) fun _ => 0,
    .propose (lit "suspend") (AList.singleton (lit "account_ref") (lit "ACC8")) (lit "unpaid")
    (some (berlin (2 * hour) 2)) fun _ => 0]

/-- Two proposals a second apart where one an hour is the limit. -/
theorem clock_forward_overruns :
    (approvalQueue fun _ => false).Reach hourly ((approvalQueue fun _ => false).run hourly spring).1
        ((approvalQueue fun _ => false).run hourly spring).2 ∧
      hourly.proposals = [] ∧ 0 ≤ hourly.maxPending ∧ 0 ≤ hourly.maxPerHour ∧
      ¬ madeFrom ((approvalQueue fun _ => false).run hourly spring).2
        (berlin (hour - 10 ^ 6) 1).instant ≤ hourly.maxPerHour :=
  ⟨Machine.Reach.init.run spring, rfl, by decide, by decide, by decide⟩

end IspPlatform.Ai
