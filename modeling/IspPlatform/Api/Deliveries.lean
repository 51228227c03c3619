import Mathlib.Data.List.Nodup
import IspPlatform.Api.Webhook

/-!
# Deliveries

Runs of the webhook: any number of deliveries, redeliveries and forged ones included,
interleaved at their calls. `Shown` ties the calls that returned to the books and holds
whatever raises; `Booked` ties the ledger to the credit calls, for a ledger that never
raises.
-/

namespace IspPlatform.Api

open Py Prog Domain System

/-- A pool of deliveries. -/
abbrev Deliveries := Pool calls Request Json Books

/-- The delivery was answered with status code `c`. -/
def Answered (t : Thread calls Request Json) (c : Nat) : Prop :=
  ∃ o, t.code = .done o ∧ statusCode o = some c

/-- Every call but the credit: the ledger keeps its contract, the rest may raise. -/
def notCredit : Call → Prop
  | .credit .. => False
  | _ => True

def anyCall (_ : Call) : Prop := True

/-! ## What a delivery has called -/

section
variable {site : Site} {req : Request} {t : List (Event calls)} {q : Head calls Json}

/-- What a delivery has called so far: nothing, the alarm, the credit, or a fresh credit
and its follow-up. -/
theorem HandlerPoint.shape (h : HandlerPoint site req t q) :
    t = [] ∨
    (∃ p exc r, Genuine site req p ∧ parseMinorUnits p.amount 2 = .error (.money exc) ∧
      t = [⟨unparseable site p exc, r⟩]) ∨
    (∃ p amt r, Genuine site req p ∧ parseMinorUnits p.amount 2 = .ok amt ∧
      t = [⟨credit p amt, r⟩]) ∨
    ∃ p amt accepted r, Genuine site req p ∧ parseMinorUnits p.amount 2 = .ok amt ∧
      t = [credited p amt accepted false, ⟨followUp p accepted, r⟩] := by
  cases h with
  | rejected _ _ | trapped _ _ | alarming _ _ | crediting _ _ => exact .inl rfl
  | alarmed hp ha => exact .inr (.inl ⟨_, _, _, hp, ha, rfl⟩)
  | alarmHalted hp ha _ => exact .inr (.inl ⟨_, _, _, hp, ha, rfl⟩)
  | creditHalted hp ha _ => exact .inr (.inr (.inl ⟨_, _, _, hp, ha, rfl⟩))
  | duplicate _ hp ha => exact .inr (.inr (.inl ⟨_, _, _, hp, ha, rfl⟩))
  | following _ hp ha => exact .inr (.inr (.inl ⟨_, _, _, hp, ha, rfl⟩))
  | followed acc hp ha =>
    cases acc with
    | false => exact .inr (.inr (.inr ⟨_, _, false, _, hp, ha, rfl⟩))
    | true => exact .inr (.inr (.inr ⟨_, _, true, _, hp, ha, rfl⟩))
  | followHalted hp ha _ => exact .inr (.inr (.inr ⟨_, _, _, _, hp, ha, rfl⟩))

theorem HandlerPoint.at_enqueue {ref txn : Str}
    (h : HandlerPoint site req t (.call (.enqueue ref txn))) :
    ∃ amt, (⟨.credit txn ref amt, .ret ⟨true, false⟩⟩ : Event calls) ∈ t ∧
      ∀ x ∈ t, ∀ ref' txn', x.op ≠ .enqueue ref' txn' := by
  generalize hq : Head.call (I := calls) (Call.enqueue ref txn) = q at h
  cases h with
  | @following p amt acc _ _ =>
    cases acc with
    | false => simp [followUp] at hq
    | true =>
      obtain ⟨rfl, rfl⟩ : ref = p.accountRef ∧ txn = p.providerTxnId := by
        simpa [followUp] using hq
      exact ⟨amt, by simp [credited], by simp [credited]⟩
  | alarming | crediting => simp [unparseable, credit] at hq
  | _ => cases hq

theorem HandlerPoint.mem_enqueue {ref txn : Str} {x : Event calls}
    (h : HandlerPoint site req t q) (hx : x ∈ t) (he : x.op = .enqueue ref txn) :
    ∃ amt, (⟨.credit txn ref amt, .ret ⟨true, false⟩⟩ : Event calls) ∈ t := by
  rcases h.shape with rfl | ⟨p, exc, r, -, -, rfl⟩ | ⟨p, amt, r, -, -, rfl⟩ |
    ⟨p, amt, acc, r, -, -, rfl⟩
  · cases hx
  · simp [List.mem_singleton.mp hx, unparseable] at he
  · simp [List.mem_singleton.mp hx, credit] at he
  · simp only [List.mem_cons, List.not_mem_nil, or_false] at hx
    rcases hx with rfl | rfl
    · simp [credited] at he
    · cases acc with
      | false => simp [followUp] at he
      | true =>
        obtain ⟨rfl, rfl⟩ : p.accountRef = ref ∧ p.providerTxnId = txn := by
          simpa [followUp] using he
        exact ⟨amt, by simp [credited]⟩

theorem HandlerPoint.mem_credit {txn ref : Str} {amt : Int} {x : Event calls}
    (h : HandlerPoint site req t q) (hx : x ∈ t) (he : x.op = .credit txn ref amt) :
    ∃ p, Genuine site req p ∧ parseMinorUnits p.amount 2 = .ok amt ∧
      p.providerTxnId = txn ∧ p.accountRef = ref := by
  rcases h.shape with rfl | ⟨p, exc, r, -, -, rfl⟩ | ⟨p, amt', r, hp, ha, rfl⟩ |
    ⟨p, amt', acc, r, hp, ha, rfl⟩
  · cases hx
  · simp [List.mem_singleton.mp hx, unparseable] at he
  · obtain ⟨rfl, rfl, rfl⟩ : p.providerTxnId = txn ∧ p.accountRef = ref ∧ amt' = amt := by
      simpa [List.mem_singleton.mp hx, credit] using he
    exact ⟨p, hp, ha, rfl, rfl⟩
  · simp only [List.mem_cons, List.not_mem_nil, or_false] at hx
    rcases hx with rfl | rfl
    · obtain ⟨rfl, rfl, rfl⟩ : p.providerTxnId = txn ∧ p.accountRef = ref ∧ amt' = amt := by
        simpa [credited] using he
      exact ⟨p, hp, ha, rfl, rfl⟩
    · cases acc <;> simp [followUp] at he

/-- The request carries no payment: it is forged, malformed or unparseable. -/
def NoPayment (site : Site) (req : Request) : Prop :=
  ∀ p amt, Genuine site req p → parseMinorUnits p.amount 2 ≠ .ok amt

theorem HandlerPoint.at_call {op : Call} (h : HandlerPoint site req t (.call op))
    (hno : NoPayment site req) : ∃ p exc, op = unparseable site p exc := by
  generalize hq : Head.call (I := calls) op = q at h
  cases h with
  | alarming => exact ⟨_, _, Head.call.inj hq⟩
  | crediting hp ha | following _ hp ha => exact absurd ha (hno _ _ hp)
  | _ => cases hq

theorem HandlerPoint.alarm {o : Outcome Exn Json} {p : PaymentNotification}
    {exc : MoneyParseError} (h : HandlerPoint site req t (.ended o)) (hp : Genuine site req p)
    (ha : parseMinorUnits p.amount 2 = .error (.money exc)) :
    ∃ r, t = [⟨unparseable site p exc, r⟩] := by
  have hsame : ∀ {p'}, Genuine site req p' → p' = p := fun hp' =>
    Option.some.inj (hp'.1.symm.trans hp.1)
  cases h with
  | rejected hno _ => exact absurd hp (hno p)
  | alarmed hp' ha' | alarmHalted hp' ha' _ =>
    obtain rfl := hsame hp'
    cases ha.symm.trans ha'
    exact ⟨_, rfl⟩
  | trapped hp' ha' | creditHalted hp' ha' _ | duplicate _ hp' ha'
  | followed _ hp' ha' | followHalted hp' ha' _ =>
    obtain rfl := hsame hp'
    cases ha.symm.trans ha'

end

/-! ## Books and trace -/

variable {site : Site} {mayRaise : Call → Prop} {s : Deliveries}
  {ok : Deliveries → Label calls Request Empty → Books → Prop}

theorem delivery_point (h : (webhook site mayRaise).Reach .empty ok s) {i : Nat}
    {t : Thread calls Request Json} (ht : s.threads[i]? = some t) :
    HandlerPoint site t.job (s.log i) t.code.head :=
  paymentRoute_point (h.after ht)

/-- An answered call had its effect, or failed and left the books alone. -/
theorem answer_effect {i : Nat} {b b' : Books} {op : Call} {r : Reply calls op}
    (h : (webhook site mayRaise).answer i b op r b') :
    (b' = b ∧ ∀ a, r ≠ .ret a) ∨ ∃ a, Effect b op a b' ∧ ∀ a', r = .ret a' → a' = a := by
  dsimp only [webhook] at h
  exact answers_effect h

/-- The books show that the call took effect. -/
def Books.Shows (b : Books) : Call → Prop
  | .credit txn _ _ => b.Recorded txn
  | .enqueue ref txn => ⟨ref, txn⟩ ∈ b.queue
  | .critical event detail => ⟨event, detail⟩ ∈ b.alerts

theorem Effect.shows {b b' : Books} {op : Call} {a : op.Res} (h : Effect b op a b') :
    b'.Shows op := by
  cases h with
  | duplicate _ hr => exact hr
  | recorded acc _ => exact ⟨_, List.mem_append_right _ (List.mem_singleton.mpr rfl), rfl⟩
  | enqueued | alerted => exact List.mem_append_right _ (List.mem_singleton.mpr rfl)

theorem Effect.keeps {b b' : Books} {op op' : Call} {a : op.Res} (h : Effect b op a b')
    (h' : b.Shows op') : b'.Shows op' := by
  cases h with
  | duplicate => exact h'
  | recorded | enqueued | alerted =>
    cases op' with
    | credit txn ref amt =>
      obtain ⟨row, hrow, hid⟩ := h'
      exact ⟨row, by simp [hrow], hid⟩
    | enqueue | critical => simp_all [Books.Shows]

theorem returned_shows (h : (webhook site mayRaise).Reach .empty ok s) :
    ∀ i op a, (i, (⟨op, .ret a⟩ : Event calls)) ∈ s.trace → s.shared.Shows op := by
  refine h.inv (P := fun b tr => ∀ i op a, (i, (⟨op, .ret a⟩ : Event calls)) ∈ tr → b.Shows op)
    (by simp) ?_ (fun {_ m} => m.elim)
  intro s i d op k r b _ ih _ ha _ j op' a' hx
  rcases List.mem_append.mp hx with hx | hx
  · have hs := ih j op' a' hx
    rcases answer_effect ha with ⟨rfl, -⟩ | ⟨a, he, -⟩
    · exact hs
    · exact he.keeps hs
  · cases List.mem_singleton.mp hx
    exact ha.shows

theorem ledger_nodup (h : (webhook site mayRaise).Reach .empty ok s) :
    (s.shared.ledger.map Row.providerTxnId).Nodup := by
  refine h.inv (P := fun b _ => (b.ledger.map Row.providerTxnId).Nodup) (by simp [Books.empty])
    ?_ (fun {_ m} => m.elim)
  intro s i d op k r b _ ih _ ha _
  rcases answer_effect ha with ⟨rfl, -⟩ | ⟨a, he, -⟩
  · exact ih
  cases he with
  | duplicate | enqueued | alerted => exact ih
  | recorded acc hnew =>
    rw [List.map_append, List.nodup_append]
    refine ⟨ih, by simp, ?_⟩
    intro x hx y hy hxy
    obtain ⟨row, hrow, rfl⟩ := List.mem_map.mp hx
    exact hnew ⟨row, hrow, by simpa [hxy] using hy⟩

/-- For a ledger that never raises, the rows are the fresh credits of the trace, and a
row's credit is the first one called for its id. -/
structure Booked (b : Books) (tr : List (Nat × Event calls)) : Prop where
  called : ∀ x ∈ tr, ∀ txn ref amt, x.2.op = .credit txn ref amt → b.Recorded txn
  first : ∀ row ∈ b.ledger, ∃ pre i post,
    tr = pre ++ (i, ⟨.credit row.providerTxnId row.accountRef row.amountMinor,
      .ret ⟨row.credited, false⟩⟩) :: post ∧
    ∀ x ∈ pre, ∀ ref amt, x.2.op ≠ .credit row.providerTxnId ref amt
  fresh : ∀ i txn ref amt acc,
    (i, (⟨.credit txn ref amt, .ret ⟨acc, false⟩⟩ : Event calls)) ∈ tr →
      ⟨txn, ref, amt, acc⟩ ∈ b.ledger
  one : ∀ i j txn ref ref' amt amt' acc acc',
    (i, (⟨.credit txn ref amt, .ret ⟨acc, false⟩⟩ : Event calls)) ∈ tr →
    (j, (⟨.credit txn ref' amt', .ret ⟨acc', false⟩⟩ : Event calls)) ∈ tr → i = j

theorem Booked.extend {b b' : Books} {tr : List (Nat × Event calls)} {x : Nat × Event calls}
    (h : Booked b tr) (hl : b'.ledger = b.ledger)
    (hc : ∀ txn ref amt, x.2.op = .credit txn ref amt → b.Recorded txn)
    (hf : ∀ txn ref amt acc, x.2 ≠ ⟨.credit txn ref amt, .ret ⟨acc, false⟩⟩) :
    Booked b' (tr ++ [x]) := by
  have hold : ∀ i txn ref amt acc,
      (i, (⟨.credit txn ref amt, .ret ⟨acc, false⟩⟩ : Event calls)) ∈ tr ++ [x] →
      (i, (⟨.credit txn ref amt, .ret ⟨acc, false⟩⟩ : Event calls)) ∈ tr := by
    intro i txn ref amt acc hx
    rcases List.mem_append.mp hx with hx | hx
    · exact hx
    · exact absurd (congrArg (·.2) (List.mem_singleton.mp hx)).symm (hf txn ref amt acc)
  refine ⟨?_, ?_, ?_, ?_⟩
  · intro y hy txn ref amt hop
    unfold Books.Recorded
    rw [hl]
    rcases List.mem_append.mp hy with hy | hy
    · exact h.called y hy txn ref amt hop
    · exact hc txn ref amt (List.mem_singleton.mp hy ▸ hop)
  · intro row hrow
    obtain ⟨pre, i, post, rfl, hpre⟩ := h.first row (hl ▸ hrow)
    exact ⟨pre, i, post ++ [x], by simp, hpre⟩
  · intro i txn ref amt acc hx
    exact hl ▸ h.fresh i txn ref amt acc (hold i txn ref amt acc hx)
  · intro i j txn ref ref' amt amt' acc acc' hi hj
    exact h.one i j txn ref ref' amt amt' acc acc' (hold _ _ _ _ _ hi) (hold _ _ _ _ _ hj)

theorem Booked.credit {b : Books} {tr : List (Nat × Event calls)} {i : Nat} {txn ref : Str}
    {amt : Int} {acc : Bool} (h : Booked b tr) (hnew : ¬ b.Recorded txn) :
    Booked { b with ledger := b.ledger ++ [⟨txn, ref, amt, acc⟩] }
      (tr ++ [(i, ⟨.credit txn ref amt, .ret ⟨acc, false⟩⟩)]) := by
  have hnone : ∀ x ∈ tr, ∀ ref' amt', x.2.op ≠ .credit txn ref' amt' := fun x hx ref' amt' hop =>
    hnew (h.called x hx txn ref' amt' hop)
  refine ⟨?_, ?_, ?_, ?_⟩
  · intro x hx txn' ref' amt' hop
    rcases List.mem_append.mp hx with hx | hx
    · obtain ⟨row, hrow, hid⟩ := h.called x hx txn' ref' amt' hop
      exact ⟨row, List.mem_append_left _ hrow, hid⟩
    · obtain ⟨rfl, -, -⟩ : txn = txn' ∧ ref = ref' ∧ amt = amt' := by
        simpa [List.mem_singleton.mp hx] using hop
      exact ⟨_, List.mem_append_right _ (List.mem_singleton.mpr rfl), rfl⟩
  · intro row hrow
    rcases List.mem_append.mp hrow with hrow | hrow
    · obtain ⟨pre, j, post, rfl, hpre⟩ := h.first row hrow
      exact ⟨pre, j, _, by rw [List.append_assoc, List.cons_append], hpre⟩
    · obtain rfl := List.mem_singleton.mp hrow
      exact ⟨tr, i, [], rfl, hnone⟩
  · intro j txn' ref' amt' acc' hx
    rcases List.mem_append.mp hx with hx | hx
    · exact List.mem_append_left _ (h.fresh j txn' ref' amt' acc' hx)
    · cases List.mem_singleton.mp hx
      exact List.mem_append_right _ (List.mem_singleton.mpr rfl)
  · intro j j' txn' ref₁ ref₂ amt₁ amt₂ acc₁ acc₂ hj hj'
    rcases List.mem_append.mp hj with hj | hj <;> rcases List.mem_append.mp hj' with hj' | hj'
    · exact h.one j j' txn' ref₁ ref₂ amt₁ amt₂ acc₁ acc₂ hj hj'
    · cases List.mem_singleton.mp hj'
      exact absurd rfl (hnone _ hj _ _)
    · cases List.mem_singleton.mp hj
      exact absurd rfl (hnone _ hj' _ _)
    · cases List.mem_singleton.mp hj
      cases List.mem_singleton.mp hj'
      rfl

theorem booked (h : (webhook site notCredit).Reach .empty ok s) : Booked s.shared s.trace := by
  refine h.inv (P := Booked) ⟨by simp, by simp [Books.empty], by simp, by simp⟩ ?_
    (fun {_ m} => m.elim)
  intro s i d op k r b _ ih _ ha _
  cases op with
  | credit txn ref amt =>
    cases r with
    | raised e => exact absurd ha.1.1 id
    | cancelled => exact absurd ha.1 id
    | ret a =>
      generalize hb : s.shared = b₀ at ha ih
      cases ha with
      | duplicate acc hr =>
        refine ih.extend rfl ?_ (by simp)
        intro txn' ref' amt' hop
        obtain ⟨rfl, -, -⟩ : txn = txn' ∧ ref = ref' ∧ amt = amt' := by simpa using hop
        exact hr
      | recorded acc hnew => exact ih.credit hnew
  | enqueue | critical =>
    refine ih.extend ?_ (by simp) ?_
    · rcases answer_effect ha with ⟨rfl, -⟩ | ⟨a, he, -⟩
      · rfl
      · cases he; rfl
    · intro txn ref amt acc hx
      exact absurd (congrArg Event.op hx) (by simp)

theorem queue_enqueued (h : (webhook site mayRaise).Reach .empty ok s) :
    ∀ a ∈ s.shared.queue, ∃ x ∈ s.trace, x.2.op = .enqueue a.accountRef a.providerTxnId := by
  refine h.inv (P := fun b tr => ∀ a ∈ b.queue, ∃ x ∈ tr,
    x.2.op = Call.enqueue a.accountRef a.providerTxnId) (by simp [Books.empty]) ?_
    (fun {_ m} => m.elim)
  intro s i d op k r b _ ih _ ha _ a hin
  have hold : a ∈ s.shared.queue → ∃ x ∈ s.trace ++ [(i, (⟨op, r⟩ : Event calls))],
      x.2.op = .enqueue a.accountRef a.providerTxnId := by
    intro hin
    obtain ⟨x, hx, hop⟩ := ih a hin
    exact ⟨x, List.mem_append_left _ hx, hop⟩
  rcases answer_effect ha with ⟨rfl, -⟩ | ⟨a', he, -⟩
  · exact hold hin
  cases he with
  | duplicate | recorded | alerted => exact hold hin
  | enqueued =>
    rcases List.mem_append.mp hin with hin | hin
    · exact hold hin
    · rw [List.mem_singleton.mp hin]
      exact ⟨_, List.mem_append_right _ (List.mem_singleton.mpr rfl), rfl⟩

theorem trace_point (h : (webhook site mayRaise).Reach .empty ok s) {x : Nat × Event calls}
    (hx : x ∈ s.trace) : ∃ t, s.threads[x.1]? = some t ∧ x.2 ∈ s.log x.1 ∧
      HandlerPoint site t.job (s.log x.1) t.code.head :=
  have hlt := h.trace_lt x hx
  ⟨_, List.getElem?_eq_getElem hlt, mem_logOf.mpr hx,
    delivery_point h (List.getElem?_eq_getElem hlt)⟩

/-- One delivery is past the fresh credit of an id, so one delivery enqueues it, once. -/
theorem queue_nodup (h : (webhook site notCredit).Reach .empty ok s) :
    (s.shared.queue.map Activation.providerTxnId).Nodup := by
  refine h.inv (P := fun b _ => (b.queue.map Activation.providerTxnId).Nodup)
    (by simp [Books.empty]) ?_ (fun {_ m} => m.elim)
  intro s i d op k r b hr ih hj ha _
  rcases answer_effect ha with ⟨rfl, -⟩ | ⟨a, he, -⟩
  · exact ih
  generalize hb : s.shared = b₀ at he ih
  cases he with
  | duplicate | recorded | alerted => exact ih
  | @enqueued ref txn =>
    rw [List.map_append, List.nodup_append]
    refine ⟨ih, by simp, ?_⟩
    intro y hy z hz hyz
    obtain ⟨act, hact, rfl⟩ := List.mem_map.mp hy
    obtain rfl : txn = act.providerTxnId := by simpa [← hyz, eq_comm] using hz
    obtain ⟨amt, hmine, hnone⟩ := (delivery_point hr hj).at_enqueue
    obtain ⟨x, hx, hop⟩ := queue_enqueued hr act (by rw [hb]; exact hact)
    obtain ⟨t, -, hlog, hpoint⟩ := trace_point hr hx
    obtain ⟨amt', htheirs⟩ := hpoint.mem_enqueue hlog hop
    obtain rfl := (booked hr).one i x.1 _ _ _ _ _ _ _ (mem_logOf.mp hmine) (mem_logOf.mp htheirs)
    exact hnone x.2 hlog _ _ hop

/-- What is left of a delivery whose amount was parsed. -/
def settle (p : PaymentNotification) (result : CreditResult) : Prog calls Json := do
  if result.duplicate then
    return status "duplicate"
  if ¬ result.accepted then
    call (.critical (lit "payment.unmatched") (lit "txn=" ++ p.providerTxnId))
    return status "unmatched"
  call (.enqueue p.accountRef p.providerTxnId)
  return status "accepted"

theorem paymentRoute_genuine {req : Request} {p : PaymentNotification} {amt : Int}
    (hp : Genuine site req p) (ha : parseMinorUnits p.amount 2 = .ok amt) :
    paymentRoute site req = .await (credit p amt) fun r => onRet (settle p) r := by
  simp only [paymentRoute, hp.1, receivePayment, hp.2, ha, ne_eq, not_true_eq_false, if_false]
  rfl

/-- The state after one delivery was accepted. -/
def delivered (req : Request) (p : PaymentNotification) (amt : Int) : Deliveries :=
  ⟨⟨[⟨p.providerTxnId, p.accountRef, amt, true⟩], [⟨p.accountRef, p.providerTxnId⟩], []⟩,
    [⟨req, .done (.ret (status "accepted")), false⟩],
    [(0, credited p amt true false), (0, followedUp p true)]⟩

/-- The state after a delivery was credited and before its activation is enqueued. -/
def undelivered (req : Request) (p : PaymentNotification) (amt : Int) : Deliveries :=
  ⟨⟨[⟨p.providerTxnId, p.accountRef, amt, true⟩], [], []⟩,
    [⟨req, settle p ⟨true, false⟩, false⟩], [(0, credited p amt true false)]⟩

/-- Steps that raise nothing are allowed. -/
def Calm (ok : Deliveries → Label calls Request Empty → Books → Prop) : Prop :=
  ∀ s l b, (∀ i op e, l ≠ .answer i ⟨op, .raised e⟩) → ok s l b

theorem reach_returns (h : (webhook site mayRaise).Reach .empty ok s) (hok : Calm ok) {i : Nat}
    {d : Request} (op : Call) {k : Reply calls op → Prog calls Json} (a : op.Res) {b : Books}
    (hj : s.threads[i]? = some ⟨d, .await op k, false⟩) (he : Effect s.shared op a b) :
    (webhook site mayRaise).Reach .empty ok
      ⟨b, s.threads.set i ⟨d, k (.ret a), false⟩, s.trace ++ [(i, ⟨op, .ret a⟩)]⟩ :=
  h.answer (.ret a) b hj he (hok _ _ _ fun _ _ _ h => by cases h)

theorem reach_undelivered {req : Request} {p : PaymentNotification} {amt : Int}
    (hp : Genuine site req p) (ha : parseMinorUnits p.amount 2 = .ok amt) (hok : Calm ok) :
    (webhook site mayRaise).Reach .empty ok (undelivered req p amt) := by
  have start : (webhook site mayRaise).Reach .empty ok
      ⟨.empty, [⟨req, paymentRoute site req, false⟩], []⟩ :=
    Reach.init.start req True.intro (hok _ _ _ (by simp))
  rw [paymentRoute_genuine hp ha] at start
  have hnew : ¬ Books.empty.Recorded p.providerTxnId := by
    rintro ⟨row, hrow, -⟩
    cases hrow
  exact reach_returns start hok (i := 0) (credit p amt) ⟨true, false⟩ rfl (.recorded true hnew)

theorem reach_delivered {req : Request} {p : PaymentNotification} {amt : Int}
    (hp : Genuine site req p) (ha : parseMinorUnits p.amount 2 = .ok amt) (hok : Calm ok) :
    (webhook site mayRaise).Reach .empty ok (delivered req p amt) :=
  reach_returns (reach_undelivered hp ha hok) hok (i := 0)
    (.enqueue p.accountRef p.providerTxnId) () rfl .enqueued

/-- A delivery of a transaction that is known is a duplicate. -/
theorem reach_duplicate (h : (webhook site mayRaise).Reach .empty ok s) (hok : Calm ok)
    {req : Request} {p : PaymentNotification} {amt : Int} (hp : Genuine site req p)
    (ha : parseMinorUnits p.amount 2 = .ok amt) (hknown : s.shared.Recorded p.providerTxnId) :
    (webhook site mayRaise).Reach .empty ok
      ⟨s.shared, s.threads ++ [⟨req, .done (.ret (status "duplicate")), false⟩],
        s.trace ++ [(s.threads.length, credited p amt true true)]⟩ := by
  have start : (webhook site mayRaise).Reach .empty ok
      { s with threads := s.threads ++ [⟨req, paymentRoute site req, false⟩] } :=
    h.start req True.intro (hok _ _ _ (by simp))
  rw [paymentRoute_genuine hp ha] at start
  have hnext := reach_returns start hok (credit p amt) ⟨true, true⟩ List.getElem?_concat_length
    (.duplicate true hknown)
  rw [List.set_append_right _ _ (Nat.le_refl _), Nat.sub_self] at hnext
  exact hnext

/-- A deployment, and a payment of 500.00 to it. -/
def shop : Site := ⟨lit "k3", fun _ => true⟩

def fiveHundred : PaymentNotification :=
  ⟨lit "TX1", lit "ACC7", lit "500.00", by decide, by decide, by decide⟩

def payment : Request := ⟨lit "k3", some ⟨some (lit "TX1"), some (lit "ACC7"), some (lit "500.00")⟩⟩

theorem payment_genuine : Genuine shop payment fiveHundred := ⟨rfl, rfl⟩

theorem fiveHundred_amount : parseMinorUnits fiveHundred.amount 2 = .ok 50000 := by rfl

/-- The same id with another payload. -/
def sevenHundred : PaymentNotification :=
  ⟨lit "TX1", lit "ACC8", lit "700.00", by decide, by decide, by decide⟩

def replay : Request := ⟨lit "k3", some ⟨some (lit "TX1"), some (lit "ACC8"), some (lit "700.00")⟩⟩

/-! ## At most once -/

/-- What the books of a reachable state say about each transaction id. -/
structure AtMostOnce (site : Site) (s : Deliveries) : Prop where
  credits : (s.shared.ledger.map Row.providerTxnId).Nodup
  activations : (s.shared.queue.map Activation.providerTxnId).Nodup
  /-- A row carries the payload of the delivery whose credit call came first. -/
  first : ∀ row ∈ s.shared.ledger, ∃ pre i post t p,
    s.trace = pre ++ (i, ⟨.credit row.providerTxnId row.accountRef row.amountMinor,
      .ret ⟨row.credited, false⟩⟩) :: post ∧
    (∀ x ∈ pre, ∀ ref amt, x.2.op ≠ .credit row.providerTxnId ref amt) ∧
    s.threads[i]? = some t ∧ Genuine site t.job p ∧ p.providerTxnId = row.providerTxnId ∧
    p.accountRef = row.accountRef ∧ parseMinorUnits p.amount 2 = .ok row.amountMinor
  backed : ∀ a ∈ s.shared.queue, ∃ row ∈ s.shared.ledger, row.credited = true ∧
    row.providerTxnId = a.providerTxnId ∧ row.accountRef = a.accountRef
  afterCredit : ∀ pre i e post, s.trace = pre ++ (i, e) :: post → ∀ ref txn,
    e.op = .enqueue ref txn →
    ∃ amt, (i, (⟨.credit txn ref amt, .ret ⟨true, false⟩⟩ : Event calls)) ∈ pre
  inert : ∀ i t e s', s.threads[i]? = some t → NoPayment site t.job →
    (webhook site notCredit).Step s (.answer i e) s' →
    s'.shared.ledger = s.shared.ledger ∧ s'.shared.queue = s.shared.queue

theorem noPayment_inert (h : (webhook site mayRaise).Reach .empty ok s) {i : Nat}
    {t : Thread calls Request Json} {e : Event calls} {s' : Deliveries}
    (ht : s.threads[i]? = some t) (hno : NoPayment site t.job)
    (hs : (webhook site mayRaise).Step s (.answer i e) s') :
    s'.shared.ledger = s.shared.ledger ∧ s'.shared.queue = s.shared.queue := by
  cases hs with
  | answer hj ha =>
    obtain rfl := Option.some.inj (ht.symm.trans hj)
    obtain ⟨p, exc, rfl⟩ := (delivery_point h hj).at_call hno
    rcases answer_effect ha with ⟨rfl, -⟩ | ⟨a, he, -⟩
    · exact ⟨rfl, rfl⟩
    · unfold unparseable at he
      cases he
      exact ⟨rfl, rfl⟩

/-- **At most one credit and one activation for each transaction id**, in every
interleaving of deliveries over a ledger that keeps its contract. -/
theorem at_most_once (h : (webhook site notCredit).Reach .empty anyStep s) :
    AtMostOnce site s where
  credits := ledger_nodup h
  activations := queue_nodup h
  first := by
    intro row hrow
    obtain ⟨pre, i, post, htr, hpre⟩ := (booked h).first row hrow
    have hx : (i, _) ∈ s.trace := htr ▸ List.mem_append_right _ List.mem_cons_self
    obtain ⟨t, ht, hlog, hpoint⟩ := trace_point h hx
    obtain ⟨p, hp, ha, hid, href⟩ := hpoint.mem_credit hlog rfl
    exact ⟨pre, i, post, t, p, htr, hpre, ht, hp, hid, href, ha⟩
  backed := by
    intro a hin
    obtain ⟨x, hx, hop⟩ := queue_enqueued h a hin
    obtain ⟨t, -, hlog, hpoint⟩ := trace_point h hx
    obtain ⟨amt, hfresh⟩ := hpoint.mem_enqueue hlog hop
    exact ⟨_, (booked h).fresh x.1 _ _ amt true (mem_logOf.mp hfresh), rfl, rfl, rfl⟩
  afterCredit := by
    refine h.history (Q := fun pre i e => ∀ ref txn, e.op = Call.enqueue ref txn →
      ∃ amt, (i, (⟨.credit txn ref amt, .ret ⟨true, false⟩⟩ : Event calls)) ∈ pre) ?_
    intro s i d op k r b hr hj _ _ ref txn hop
    obtain rfl : op = Call.enqueue ref txn := hop
    obtain ⟨amt, hmine, -⟩ := (delivery_point hr hj).at_enqueue
    exact ⟨amt, mem_logOf.mp hmine⟩
  inert _ _ _ _ ht hno hs := noPayment_inert h ht hno hs

/-- The replay comes before the activation is enqueued. -/
def replayed : Deliveries :=
  ⟨⟨[⟨lit "TX1", lit "ACC7", 50000, true⟩], [⟨lit "ACC7", lit "TX1"⟩], []⟩,
    [⟨payment, .done (.ret (status "accepted")), false⟩,
      ⟨replay, .done (.ret (status "duplicate")), false⟩],
    [(0, credited fiveHundred 50000 true false), (1, credited sevenHundred 70000 true true),
      (0, followedUp fiveHundred true)]⟩

theorem reach_replayed : (webhook shop notCredit).Reach .empty anyStep replayed := by
  have hok : Calm anyStep := fun _ _ _ _ => True.intro
  have credited : (webhook shop notCredit).Reach .empty anyStep
      (undelivered payment fiveHundred 50000) :=
    reach_undelivered payment_genuine fiveHundred_amount hok
  have hreplay : Genuine shop replay sevenHundred := ⟨rfl, rfl⟩
  have again := reach_duplicate credited hok hreplay rfl ⟨_, List.mem_singleton.mpr rfl, rfl⟩
  exact reach_returns again hok (i := 0) (followUp fiveHundred true) () rfl .enqueued

theorem at_most_once_replayed : AtMostOnce shop replayed :=
  at_most_once reach_replayed

/-! ## Status codes -/

theorem raised_error (h : (webhook site mayRaise).Reach .empty ok s) (i : Nat) :
    ∀ e ∈ s.log i, ∀ x, e.reply = .raised x → Exn.Error x := by
  refine h.history_mem (Q := fun _ e => ∀ x, e.reply = .raised x → Exn.Error x) ?_ i
  intro s i d op k r b _ _ ha _ x hx
  obtain rfl : r = .raised x := hx
  exact ha.1.2

theorem Exn.Error.status {e : Exn} (h : e.Error) {c : Nat}
    (hc : statusCode (.raised e) = some c) : 400 ≤ c := by
  cases e with
  | http c' m =>
    obtain rfl : c' = c := Option.some.inj hc
    exact h
  | decimal | other =>
    obtain rfl : 500 = c := Option.some.inj hc
    omega

/-- A delivery that got no error credited its payment, or learned that it was known. -/
theorem answered_success (h : (webhook site mayRaise).Reach .empty ok s) {i : Nat}
    {t : Thread calls Request Json} (ht : s.threads[i]? = some t) {c : Nat} (hc : Answered t c)
    (hlt : c < 400) : ∃ p amt acc, Genuine site t.job p ∧ parseMinorUnits p.amount 2 = .ok amt ∧
      (s.log i = [credited p amt acc true] ∨
        s.log i = [credited p amt acc false, followedUp p acc]) := by
  obtain ⟨o, ho, hst⟩ := hc
  -- an exception of a collaborator is answered with an error
  have hhalts : ∀ {α : Type} {r : Outcome Exn α}, Halts r o →
      (∀ x, r = .raised x → Exn.Error x) → False := by
    intro α r hr hx
    cases hr with
    | raised e => exact absurd ((hx e rfl).status hst) (by omega)
    | cancelled => cases hst
  have hlog := raised_error h i
  have hp : HandlerPoint site t.job (s.log i) (.ended o) := paymentRoute_point (h.ended ht ho)
  generalize s.log i = log at hp hlog
  cases hp with
  | rejected _ hcode =>
    cases hst
    omega
  | trapped =>
    cases hst
    omega
  | alarmed =>
    cases hst
    omega
  | alarmHalted _ _ hr | creditHalted _ _ hr =>
    exact (hhalts hr (hlog _ List.mem_cons_self)).elim
  | followHalted _ _ hr =>
    exact (hhalts hr (hlog _ (List.mem_cons_of_mem _ List.mem_cons_self))).elim
  | duplicate acc hp ha => exact ⟨_, _, acc, hp, ha, .inl rfl⟩
  | followed acc hp ha => exact ⟨_, _, acc, hp, ha, .inr rfl⟩

/-- **Honest status codes.** Whatever raises, a success answers a recorded payment; an
amount that is no plain decimal gets an alert and an error, and touches nothing. -/
theorem honest_status (h : (webhook site anyCall).Reach .empty anyStep s) {i : Nat}
    {t : Thread calls Request Json} (ht : s.threads[i]? = some t) :
    (∀ c, Answered t c → 200 ≤ c → c < 300 →
      ∃ p, validate t.job.body = some p ∧ s.shared.Recorded p.providerTxnId) ∧
    ∀ p, Genuine site t.job p → ¬ IsAmount 2 p.amount →
      (∀ c, Answered t c → ¬ (200 ≤ c ∧ c < 300)) ∧
      (∀ e s', (webhook site anyCall).Step s (.answer i e) s' →
        s'.shared.ledger = s.shared.ledger ∧ s'.shared.queue = s.shared.queue) ∧
      ∀ o, t.code = .done o → ∃ reason r, (i, (⟨.critical (lit "payment.amount_unparseable")
        (lit "txn=" ++ p.providerTxnId ++ lit " reason=" ++ reason), r⟩ : Event calls)) ∈
          s.trace := by
  refine ⟨?_, ?_⟩
  · intro c hc _ hlt
    obtain ⟨p, amt, acc, hp, -, hlog⟩ := answered_success h ht hc (by omega)
    have hmem : ∃ dup, credited p amt acc dup ∈ s.log i := by
      rcases hlog with hlog | hlog <;> rw [hlog]
      · exact ⟨true, List.mem_cons_self⟩
      · exact ⟨false, List.mem_cons_self⟩
    obtain ⟨dup, hmem⟩ := hmem
    exact ⟨p, hp.1, returned_shows h i _ _ (mem_logOf.mp hmem)⟩
  · intro p hp hno
    obtain ⟨exc, hexc⟩ := parseMinorUnits_not_amount hno
    have hnone : NoPayment site t.job := by
      intro p' amt hp' ha
      obtain rfl : p = p' := Option.some.inj (hp.1.symm.trans hp'.1)
      cases hexc.symm.trans ha
    refine ⟨?_, ?_, ?_⟩
    · rintro c hc ⟨-, hlt⟩
      obtain ⟨p', amt, acc, hp', ha, -⟩ := answered_success h ht hc (by omega)
      exact hnone p' amt hp' ha
    · intro e s' hs
      exact noPayment_inert h ht hnone hs
    · intro o ho
      have hpoint := delivery_point h ht
      rw [ho] at hpoint
      obtain ⟨r, hlog⟩ := hpoint.alarm hp hexc
      have hmem : (⟨unparseable site p exc, r⟩ : Event calls) ∈ s.log i := by
        rw [hlog]
        exact List.mem_cons_self
      exact ⟨exc.str site.printable, r, mem_logOf.mp hmem⟩

/-- A payment whose amount is signed, answered 422 after its alert. -/
def signedAmount : PaymentNotification :=
  ⟨lit "TX2", lit "ACC7", lit "-5", by decide, by decide, by decide⟩

def refusedPayment : Request :=
  ⟨lit "k3", some ⟨some (lit "TX2"), some (lit "ACC7"), some (lit "-5")⟩⟩

def refused : Deliveries :=
  ⟨⟨[], [], [⟨lit "payment.amount_unparseable",
      lit "txn=TX2 reason=amount has unexpected characters: '-5'"⟩]⟩,
    [⟨refusedPayment, .done (.raised (.http 422 (lit "amount not parseable"))), false⟩],
    [(0, ⟨unparseable shop signedAmount (.unexpectedCharacters (lit "-5")), .ret ()⟩)]⟩

theorem reach_refused : (webhook shop anyCall).Reach .empty anyStep refused := by
  have start : (webhook shop anyCall).Reach .empty anyStep
      ⟨.empty, [⟨refusedPayment, paymentRoute shop refusedPayment, false⟩], []⟩ :=
    Reach.init.start refusedPayment True.intro True.intro
  exact reach_returns start (fun _ _ _ _ => True.intro) (i := 0)
    (unparseable shop signedAmount (.unexpectedCharacters (lit "-5"))) () rfl .alerted

theorem honest_status_samples :
    (delivered payment fiveHundred 50000).shared.Recorded (lit "TX1") ∧
    (∀ c, Answered ⟨refusedPayment, .done (.raised (.http 422 (lit "amount not parseable"))), false⟩
      c → ¬ (200 ≤ c ∧ c < 300)) ∧
    ∃ reason r, (0, ⟨.critical (lit "payment.amount_unparseable")
      (lit "txn=TX2 reason=" ++ reason), r⟩) ∈ refused.trace := by
  have hno : ¬ IsAmount 2 signedAmount.amount := by
    rintro ⟨ip, fp, h, -⟩
    have hallowed := h.allowed
    revert hallowed
    decide
  have hrefused := (honest_status reach_refused (i := 0) rfl).2 signedAmount ⟨rfl, rfl⟩ hno
  refine ⟨?_, hrefused.1, hrefused.2.2 _ rfl⟩
  · have h : (webhook shop anyCall).Reach .empty anyStep (delivered payment fiveHundred 50000) :=
      reach_delivered payment_genuine fiveHundred_amount fun _ _ _ _ => True.intro
    obtain ⟨p, hp, hr⟩ := (honest_status h (i := 0) rfl).1 200 ⟨_, rfl, rfl⟩ (by decide) (by decide)
    obtain rfl : fiveHundred = p := Option.some.inj (payment_genuine.1.symm.trans hp)
    exact hr

end IspPlatform.Api
