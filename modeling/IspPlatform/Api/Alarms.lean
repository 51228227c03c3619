import IspPlatform.Api.Settled
import IspPlatform.Domain.ParseErrors

/-!
# What the alerts tell

An alert is an event and a text, and the transaction id in it may be any text at all. Yet the
alerts of a settled run, in whatever order, tell an operator each payment to look at: every
transaction whose amount was refused, with the amount and the check that it failed, and every
transaction that matched no account.
-/

namespace IspPlatform.Api

open Py Lib Domain System

/-- A genuine request that is refused for its amount: its transaction, and why. -/
def refusedAmount (site : Site) (req : Request) : Option (Str × MoneyParseError) :=
  match validate req.body with
  | none => none
  | some p =>
    if req.token ≠ site.webhookToken then none
    else match parseMinorUnits p.amount 2 with
      | .error (.money exc) => some (p.providerTxnId, exc)
      | _ => none

/-- The transactions that matched no account. -/
def Books.unmatched (b : Books) : List Str :=
  (b.ledger.filter fun row => !row.credited).map Row.providerTxnId

/-- The alerts on these. -/
def refusalAlert (printable : Char → Bool) (x : Str × MoneyParseError) : Alert :=
  ⟨lit "payment.amount_unparseable",
    lit "txn=" ++ x.1 ++ lit " reason=" ++ x.2.str printable⟩

def unmatchedAlert (txn : Str) : Alert := ⟨lit "payment.unmatched", lit "txn=" ++ txn⟩

variable {site : Site} {s s' : Deliveries}

theorem amountAlarm_eq (req : Request) :
    amountAlarm site req = (refusedAmount site req).map (refusalAlert site.printable) := by
  unfold amountAlarm refusedAmount
  cases validate req.body with
  | none => rfl
  | some p =>
    dsimp only
    split_ifs
    · rfl
    · rcases parseMinorUnits p.amount 2 with (_ | _) | _ <;> rfl

theorem unmatched_eq (b : Books) :
    b.ledger.filterMap Row.unmatched = b.unmatched.map unmatchedAlert := by
  unfold Books.unmatched
  induction b.ledger with
  | nil => rfl
  | cons row rows ih =>
    obtain ⟨txn, ref, amt, credited⟩ := row
    cases credited with
    | true => simpa [Row.unmatched] using ih
    | false => simpa [Row.unmatched, unmatchedAlert] using ih

/-- The transaction id is any text, and the message after it still tells where it ends. -/
theorem refusalAlert_injective (printable : Char → Bool) :
    Function.Injective (refusalAlert printable) := by
  rintro ⟨txn, e⟩ ⟨txn', e'⟩ h
  have hdetail : (lit "txn=" ++ txn ++ lit " reason") ++ '=' :: e.str printable =
      (lit "txn=" ++ txn' ++ lit " reason") ++ '=' :: e'.str printable := by
    simpa [refusalAlert, lit] using h
  obtain ⟨hbefore, rfl⟩ := str_end hdetail
  rw [List.append_cancel_left (List.append_cancel_right hbefore)]

theorem unmatchedAlert_injective : Function.Injective unmatchedAlert := by
  intro txn txn' h
  exact List.append_cancel_left (Alert.mk.inj h).2

/-- What two runs leave to an operator is the same, up to order. -/
structure SameConcerns (site : Site) (s s' : Deliveries) : Prop where
  refused : (s.threads.filterMap fun t => refusedAmount site t.job).Perm
    (s'.threads.filterMap fun t => refusedAmount site t.job)
  unmatched : s.shared.unmatched.Perm s'.shared.unmatched

theorem settled_alerts {ok : Deliveries → Label calls Request Empty → Books → Prop}
    (h : (webhook site noCall).Reach .empty ok s) (hs : Settled s) :
    (s.shared.alerts.filter (·.event = lit "payment.unmatched")).Perm
        (s.shared.unmatched.map unmatchedAlert) ∧
      (s.shared.alerts.filter (·.event ≠ lit "payment.unmatched")).Perm
        ((s.threads.filterMap fun t => refusedAmount site t.job).map
          (refusalAlert site.printable)) := by
  have hb := balanced h hs
  refine ⟨unmatched_eq s.shared ▸ hb.unmatched, hb.alarms.trans ?_⟩
  simp only [amountAlarm_eq]
  rw [List.map_filterMap]

/-- **The alerts tell.** Two settled runs, of any deliveries, raised the same alerts exactly if they
left the same transactions to look at, with the same refused amounts. -/
theorem alerts_tell {ok ok' : Deliveries → Label calls Request Empty → Books → Prop}
    (h : (webhook site noCall).Reach .empty ok s) (h' : (webhook site noCall).Reach .empty ok' s')
    (hs : Settled s) (hs' : Settled s') :
    s.shared.alerts.Perm s'.shared.alerts ↔ SameConcerns site s s' := by
  obtain ⟨hun, href⟩ := settled_alerts h hs
  obtain ⟨hun', href'⟩ := settled_alerts h' hs'
  have hunmatched := (hun.congr_left _).trans
    ((hun'.congr_right _).trans (List.map_perm_map_iff unmatchedAlert_injective))
  have hrefused := (href.congr_left _).trans
    ((href'.congr_right _).trans (List.map_perm_map_iff (refusalAlert_injective site.printable)))
  rw [perm_iff_filter (·.event = lit "payment.unmatched")]
  constructor
  · rintro ⟨h, h'⟩
    exact ⟨hrefused.mp h', hunmatched.mp h⟩
  · exact fun hsame => ⟨hunmatched.mpr hsame.unmatched, hrefused.mpr hsame.refused⟩

/-- The signed amount was delivered after a payment that was credited. -/
def refusedLater : Deliveries :=
  ⟨{ (delivered payment fiveHundred 50000).shared with alerts := refused.shared.alerts },
    (delivered payment fiveHundred 50000).threads ++ refused.threads,
    (delivered payment fiveHundred 50000).trace ++
      [(1, ⟨unparseable shop signedAmount (.unexpectedCharacters (lit "-5")), .ret ()⟩)]⟩

theorem alerts_tell_refused : SameConcerns shop refused refusedLater := by
  have hcalm : Calm anyStep := fun _ _ _ _ => True.intro
  have start : (webhook shop noCall).Reach .empty anyStep
      ⟨.empty, [⟨refusedPayment, paymentRoute shop refusedPayment, false⟩], []⟩ :=
    Reach.init.start refusedPayment True.intro True.intro
  have first : (webhook shop noCall).Reach .empty anyStep refused :=
    reach_returns start hcalm (i := 0)
      (unparseable shop signedAmount (.unexpectedCharacters (lit "-5"))) () rfl .alerted
  have paid : (webhook shop noCall).Reach .empty anyStep (delivered payment fiveHundred 50000) :=
    reach_delivered payment_genuine fiveHundred_amount hcalm
  have later : (webhook shop noCall).Reach .empty anyStep refusedLater :=
    reach_returns (paid.start refusedPayment True.intro True.intro) hcalm (i := 1)
      (unparseable shop signedAmount (.unexpectedCharacters (lit "-5"))) () rfl .alerted
  have hsettled : Settled refused := by
    intro t ht
    exact ⟨_, congrArg Thread.code (List.mem_singleton.mp ht)⟩
  have hlater : Settled refusedLater := by
    intro t ht
    rcases List.mem_pair.mp ht with rfl | rfl <;> exact ⟨_, rfl⟩
  exact (alerts_tell first later hsettled hlater).mp (.refl _)

end IspPlatform.Api
