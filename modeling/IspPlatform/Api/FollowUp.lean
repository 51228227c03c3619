import IspPlatform.Api.Deliveries

/-!
# The follow-up of a credit

The credit and its follow-up are two calls. A follow-up that raises is answered 500, and
the redelivery that follows is a duplicate: 200, with the activation never enqueued. The
follow-up happens in every run in which it never raises without having taken effect.
-/

namespace IspPlatform.Api

open Py Prog Domain System

/-- The activation is enqueued if the transaction was credited, and the unmatched
payment alerted on if it was not. -/
def FollowedUp (b : Books) (txn : Str) : Prop :=
  ∃ row ∈ b.ledger, row.providerTxnId = txn ∧
    if row.credited then ⟨row.accountRef, txn⟩ ∈ b.queue
    else ⟨lit "payment.unmatched", lit "txn=" ++ txn⟩ ∈ b.alerts

/-- The calls that follow a credit of `txn`. -/
def FollowUpOf (txn : Str) : Call → Prop
  | .credit .. => False
  | .enqueue _ txn' => txn' = txn
  | .critical event detail => event = lit "payment.unmatched" ∧ detail = lit "txn=" ++ txn

/-- Steps in which no follow-up of `txn` raises without having taken effect. -/
def keepsFollowUp (txn : Str) (s : Deliveries) (l : Label calls Request Empty) (b : Books) : Prop :=
  ∀ i op e, l = .answer i ⟨op, .raised e⟩ → FollowUpOf txn op → b ≠ s.shared

theorem followUp_of (p : PaymentNotification) (acc : Bool) :
    FollowUpOf p.providerTxnId (followUp p acc) := by
  cases acc with
  | false => exact ⟨rfl, rfl⟩
  | true => exact rfl

theorem HandlerPoint.fresh_cases {site : Site} {req : Request} {t : List (Event calls)}
    {q : Head calls Json} {txn ref : Str} {amt : Int} {acc : Bool}
    (h : HandlerPoint site req t q)
    (he : (⟨.credit txn ref amt, .ret ⟨acc, false⟩⟩ : Event calls) ∈ t) :
    ∃ p, p.providerTxnId = txn ∧ p.accountRef = ref ∧
      ((∃ op, q = .call op) ∨ ∃ x ∈ t, x.op = followUp p acc) := by
  cases h with
  | rejected | trapped | alarming | crediting => cases he
  | alarmed | alarmHalted => cases List.mem_singleton.mp he
  | creditHalted _ _ hr =>
    cases List.mem_singleton.mp he
    cases hr
  | duplicate => cases List.mem_singleton.mp he
  | following =>
    cases List.mem_singleton.mp he
    exact ⟨_, rfl, rfl, .inl ⟨_, rfl⟩⟩
  | @followed p _ acc' =>
    rcases List.mem_cons.mp he with he | he
    · cases he
      refine ⟨p, rfl, rfl, .inr ⟨followedUp p acc, by simp, ?_⟩⟩
      cases acc <;> rfl
    · have hop := congrArg Event.op (List.mem_singleton.mp he)
      cases acc' <;> cases hop
  | @followHalted p _ acc' =>
    rcases List.mem_cons.mp he with he | he
    · cases he
      exact ⟨p, rfl, rfl, .inr ⟨_, List.mem_cons_of_mem _ List.mem_cons_self, rfl⟩⟩
    · have hop := congrArg Event.op (List.mem_singleton.mp he)
      cases acc' <;> cases hop

variable {site : Site} {s : Deliveries} {txn : Str}

theorem followUp_shows (h : (webhook site notCredit).Reach .empty (keepsFollowUp txn) s) :
    ∀ x ∈ s.trace, FollowUpOf txn x.2.op → s.shared.Shows x.2.op := by
  refine h.inv (P := fun b tr => ∀ x ∈ tr, FollowUpOf txn x.2.op → b.Shows x.2.op) (by simp) ?_
    (fun {_ m} => m.elim)
  intro s i d op k r b _ ih _ ha hok x hx hop
  rcases answer_effect ha with ⟨rfl, hr⟩ | ⟨a, he, -⟩
  · rcases List.mem_append.mp hx with hx | hx
    · exact ih x hx hop
    · obtain rfl := List.mem_singleton.mp hx
      cases r with
      | ret a => exact absurd rfl (hr a)
      | raised e => exact absurd rfl (hok i op e rfl hop)
      | cancelled => exact absurd ha.1 id
  · rcases List.mem_append.mp hx with hx | hx
    · exact he.keeps (ih x hx hop)
    · rw [List.mem_singleton.mp hx]
      exact he.shows

theorem fresh_followed (h : (webhook site notCredit).Reach .empty (keepsFollowUp txn) s)
    (hquiet : ∀ t ∈ s.threads, ¬ t.InFlight) {i : Nat} {ref : Str} {amt : Int} {acc : Bool}
    (hx : (i, (⟨.credit txn ref amt, .ret ⟨acc, false⟩⟩ : Event calls)) ∈ s.trace) :
    FollowedUp s.shared txn := by
  obtain ⟨t, ht, hlog, hpoint⟩ := trace_point h hx
  obtain ⟨p, rfl, rfl, hcall | ⟨x, hx', hop⟩⟩ := hpoint.fresh_cases hlog
  · exact absurd ⟨h.alive id i t ht, hcall⟩ (hquiet t (List.mem_of_getElem? ht))
  · have hshow := followUp_shows h (i, x) (mem_logOf.mp hx') (by rw [hop]; exact followUp_of p acc)
    rw [hop] at hshow
    refine ⟨_, (booked h).fresh i _ _ amt acc hx, rfl, ?_⟩
    cases acc with
    | false => exact hshow
    | true => exact hshow

/-- **No lost follow-up.** In a run in which no follow-up of the transaction raises
without having taken effect, a transaction answered 200 has been followed up once
nothing is in flight. -/
theorem followed_up (h : (webhook site notCredit).Reach .empty (keepsFollowUp txn) s)
    (hquiet : ∀ t ∈ s.threads, ¬ t.InFlight) {t : Thread calls Request Json} (ht : t ∈ s.threads)
    {p : PaymentNotification} (hp : validate t.job.body = some p) (hid : p.providerTxnId = txn)
    (hc : Answered t 200) : FollowedUp s.shared txn := by
  obtain ⟨i, hi⟩ := List.getElem?_of_mem ht
  obtain ⟨p', amt, acc, hp', -, hlog⟩ := answered_success h hi hc (by decide)
  obtain rfl : p = p' := Option.some.inj (hp.symm.trans hp'.1)
  subst hid
  rcases hlog with hlog | hlog
  · -- a duplicate: the row has its own fresh credit
    have hdup : credited p amt acc true ∈ s.log i := by rw [hlog]; exact List.mem_cons_self
    obtain ⟨row, hrow, hid⟩ := returned_shows h i _ _ (mem_logOf.mp hdup)
    obtain ⟨pre, j, post, htr, -⟩ := (booked h).first row hrow
    rw [hid] at htr
    have hfresh : (j, _) ∈ s.trace := htr ▸ List.mem_append_right _ List.mem_cons_self
    exact fresh_followed h hquiet hfresh
  · have hfresh : credited p amt acc false ∈ s.log i := by rw [hlog]; exact List.mem_cons_self
    exact fresh_followed h hquiet (mem_logOf.mp hfresh)

theorem calm_keepsFollowUp : Calm (keepsFollowUp txn) := by
  intro s l b hl i op e h
  exact absurd h (hl i op e)

/-- The enqueue raises and leaves this queue, and the redelivery is a duplicate. -/
def redelivered (queue : List Activation) : Deliveries :=
  ⟨⟨[⟨lit "TX1", lit "ACC7", 50000, true⟩], queue, []⟩,
    [⟨payment, .done (.raised (.other (lit "queue down"))), false⟩,
      ⟨payment, .done (.ret (status "duplicate")), false⟩],
    [(0, credited fiveHundred 50000 true false),
      (0, ⟨.enqueue (lit "ACC7") (lit "TX1"), .raised (.other (lit "queue down"))⟩),
      (1, credited fiveHundred 50000 true true)]⟩

def activated : List Activation := [⟨lit "ACC7", lit "TX1"⟩]

theorem reach_redelivered {ok : Deliveries → Label calls Request Empty → Books → Prop}
    (hok : Calm ok) {queue : List Activation} (hqueue : queue = [] ∨ queue = activated)
    (hraises : ∀ s e, s.shared = ⟨[⟨lit "TX1", lit "ACC7", 50000, true⟩], [], []⟩ →
      ok s (.answer 0 e) ⟨[⟨lit "TX1", lit "ACC7", 50000, true⟩], queue, []⟩) :
    (webhook shop notCredit).Reach .empty ok (redelivered queue) := by
  have credited : (webhook shop notCredit).Reach .empty ok
      (undelivered payment fiveHundred 50000) :=
    reach_undelivered payment_genuine fiveHundred_amount hok
  have raised := credited.answer (i := 0) (.raised (.other (lit "queue down")))
    ⟨[⟨lit "TX1", lit "ACC7", 50000, true⟩], queue, []⟩ rfl ⟨⟨True.intro, True.intro⟩, ?_⟩
    (hraises _ _ rfl)
  · exact reach_duplicate raised hok payment_genuine fiveHundred_amount
      ⟨_, List.mem_singleton.mpr rfl, rfl⟩
  · rcases hqueue with rfl | rfl
    · exact .inl rfl
    · exact .inr ⟨(), .enqueued⟩

/-- The activation is enqueued by the call that raises. -/
theorem followed_up_redelivered : FollowedUp (redelivered activated).shared (lit "TX1") := by
  have hreach : (webhook shop notCredit).Reach .empty (keepsFollowUp (lit "TX1"))
      (redelivered activated) := by
    refine reach_redelivered calm_keepsFollowUp (.inr rfl) ?_
    rintro s e hs i op e' - - heq
    rw [hs] at heq
    cases heq
  refine followed_up hreach ?_ (List.mem_cons_of_mem _ List.mem_cons_self) payment_genuine.1 rfl
    ⟨_, rfl, rfl⟩
  rintro t ht ⟨-, op, hop⟩
  rcases List.mem_pair.mp ht with rfl | rfl <;> cases hop

/-- The transaction was credited and answered 200, nothing is in flight, and no
activation was ever enqueued. -/
theorem activation_lost : ∃ s, (webhook shop notCredit).Reach .empty anyStep s ∧
    (∀ t ∈ s.threads, ¬ t.InFlight) ∧
    (∃ t ∈ s.threads, validate t.job.body = some fiveHundred ∧ Answered t 200) ∧
    ¬ FollowedUp s.shared fiveHundred.providerTxnId := by
  refine ⟨redelivered [], reach_redelivered (fun _ _ _ _ => True.intro) (.inl rfl)
    (fun _ _ _ => True.intro), ?_, ?_, ?_⟩
  · rintro t ht ⟨-, op, hop⟩
    rcases List.mem_pair.mp ht with rfl | rfl <;> cases hop
  · exact ⟨_, List.mem_cons_of_mem _ (List.mem_singleton.mpr rfl), payment_genuine.1, _, rfl, rfl⟩
  · rintro ⟨row, hrow, -, hin⟩
    cases List.mem_singleton.mp hrow
    cases hin

end IspPlatform.Api
