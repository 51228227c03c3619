import IspPlatform.Domain.Money
import IspPlatform.Py.Pool

/-!
# The payment webhook

`receivePayment` is the endpoint, `paymentRoute` the route around it: the framework
validates the body before the endpoint runs. `webhook site mayRaise` is the system of
all deliveries over one ledger, queue and alerter that keep their contracts; the calls
in `mayRaise` may raise. `HandlerPoint` lists the program points of one delivery.
-/

namespace IspPlatform.Api

open Py Prog Domain

/-- `PaymentNotification`, with the bounds of its fields. -/
structure PaymentNotification where
  providerTxnId : Str
  accountRef : Str
  amount : Str
  txn_len : 1 ≤ providerTxnId.length ∧ providerTxnId.length ≤ 64
  ref_len : 1 ≤ accountRef.length ∧ accountRef.length ≤ 32
  amount_len : 1 ≤ amount.length ∧ amount.length ≤ 32
  deriving DecidableEq

/-- A JSON object's fields that are strings. -/
structure RawBody where
  providerTxnId : Option Str
  accountRef : Option Str
  amount : Option Str
  deriving DecidableEq

/-- A POST to `/webhook/payments/{token}`; no body when it is not a JSON object. -/
structure Request where
  token : Str
  body : Option RawBody
  deriving DecidableEq

/-- The framework's validation of the body. -/
def validate (body : Option RawBody) : Option PaymentNotification := do
  let b ← body
  let txn ← b.providerTxnId
  let ref ← b.accountRef
  let amount ← b.amount
  if h : (1 ≤ txn.length ∧ txn.length ≤ 64) ∧ (1 ≤ ref.length ∧ ref.length ≤ 32) ∧
      (1 ≤ amount.length ∧ amount.length ≤ 32) then
    some ⟨txn, ref, amount, h.1, h.2.1, h.2.2⟩
  else none

/-- `CreditResult`. -/
structure CreditResult where
  accepted : Bool
  duplicate : Bool
  deriving DecidableEq, Repr

/-- The calls of `Ledger`, `ActivationQueue` and `Alerter`. -/
inductive Call where
  | credit (providerTxnId accountRef : Str) (amountMinor : Int)
  | enqueue (accountRef providerTxnId : Str)
  | critical (event detail : Str)
  deriving DecidableEq, Repr

@[reducible] def Call.Res : Call → Type
  | .credit .. => CreditResult
  | _ => Unit

inductive Exn where
  | http (statusCode : Nat) (detail : Str)
  | decimal (s : Signal)
  | other (msg : Str)
  deriving DecidableEq, Repr

@[reducible] def calls : Iface := { Op := Call, Res := Call.Res, Exn := Exn }

abbrev call (c : Call) : Prog calls c.Res := Prog.call (I := calls) c

/-- A JSON object of strings. -/
abbrev Json := List (Str × Str)

/-- What a deployment fixes: `deps.webhook_token`, and the interpreter's table of
printable characters. -/
structure Site where
  webhookToken : Str
  printable : Char → Bool

/-- `receive_payment`. The tokens are compared as bytes, and UTF-8 is injective. -/
def receivePayment (site : Site) (token : Str) (payload : PaymentNotification) :
    Prog calls Json :=
  if token ≠ site.webhookToken then raise (.http 404 (lit "Not Found"))
  else
    match parseMinorUnits payload.amount 2 with
    | .error (.money exc) => do
      call (.critical (lit "payment.amount_unparseable")
        (lit "txn=" ++ payload.providerTxnId ++ lit " reason=" ++ exc.str site.printable))
      raise (.http 422 (lit "amount not parseable"))
    | .error (.decimal s) => raise (.decimal s)
    | .ok amountMinor => do
      let result ← call (.credit payload.providerTxnId payload.accountRef amountMinor)
      if result.duplicate then
        return [(lit "status", lit "duplicate")]
      if ¬ result.accepted then
        call (.critical (lit "payment.unmatched") (lit "txn=" ++ payload.providerTxnId))
        return [(lit "status", lit "unmatched")]
      call (.enqueue payload.accountRef payload.providerTxnId)
      return [(lit "status", lit "accepted")]

/-- The route: a body that fails validation is answered 422 without running the endpoint. -/
def paymentRoute (site : Site) (req : Request) : Prog calls Json :=
  match validate req.body with
  | none => raise (.http 422 (lit "validation error"))
  | some payload => receivePayment site req.token payload

/-- The status code of the response; a cancelled request gets none. -/
def statusCode : Outcome Exn Json → Option Nat
  | .ret _ => some 200
  | .raised (.http c _) => some c
  | .raised _ => some 500
  | .cancelled => none

/-- A row of the ledger; an uncredited one is recorded as unmatched. -/
structure Row where
  providerTxnId : Str
  accountRef : Str
  amountMinor : Int
  credited : Bool
  deriving DecidableEq, Repr

structure Activation where
  accountRef : Str
  providerTxnId : Str
  deriving DecidableEq, Repr

structure Alert where
  event : Str
  detail : Str
  deriving DecidableEq, Repr

/-- The state behind the collaborators. -/
structure Books where
  ledger : List Row
  queue : List Activation
  alerts : List Alert
  deriving DecidableEq, Repr

def Books.empty : Books := ⟨[], [], []⟩

/-- The ledger has recorded the transaction, credited or not. -/
def Books.Recorded (b : Books) (txn : Str) : Prop := ∃ row ∈ b.ledger, row.providerTxnId = txn

/-- What a call that returns does. The credit is atomic and keyed on the transaction id:
an id already present is a duplicate and changes nothing. -/
inductive Effect : Books → (op : Call) → op.Res → Books → Prop where
  | duplicate {b : Books} {txn ref : Str} {amt : Int} (accepted : Bool) : b.Recorded txn →
      Effect b (.credit txn ref amt) ⟨accepted, true⟩ b
  | recorded {b : Books} {txn ref : Str} {amt : Int} (accepted : Bool) : ¬ b.Recorded txn →
      Effect b (.credit txn ref amt) ⟨accepted, false⟩
        { b with ledger := b.ledger ++ [⟨txn, ref, amt, accepted⟩] }
  | enqueued {b : Books} {ref txn : Str} :
      Effect b (.enqueue ref txn) () { b with queue := b.queue ++ [⟨ref, txn⟩] }
  | alerted {b : Books} {event detail : Str} :
      Effect b (.critical event detail) () { b with alerts := b.alerts ++ [⟨event, detail⟩] }

/-- A collaborator's exception: anything but an `HTTPException` with a status below 400,
which would be a response and no error. -/
def Exn.Error : Exn → Prop
  | .http c _ => 400 ≤ c
  | _ => True

/-- All deliveries over one set of books, where the calls in `mayRaise` may raise.
Deliveries start at any time, redeliveries included; nothing is killed, and the books
change through the calls only. -/
def webhook (site : Site) (mayRaise : Call → Prop) : System calls Request Json Books Empty where
  main := paymentRoute site
  answer := answers (fun _ => Effect) (fun op e => mayRaise op ∧ e.Error) fun _ => False
  tick m := m.elim
  mayStart _ _ := True
  mortal := False

/-! ## Program points -/

section
variable (site : Site) (req : Request)

/-- The request passes validation and the token check with payload `p`. -/
def Genuine (p : PaymentNotification) : Prop :=
  validate req.body = some p ∧ req.token = site.webhookToken

/-- The alert for an amount the parser refused with `exc`. -/
def unparseable (p : PaymentNotification) (exc : MoneyParseError) : Call :=
  .critical (lit "payment.amount_unparseable")
    (lit "txn=" ++ p.providerTxnId ++ lit " reason=" ++ exc.str site.printable)

/-- What must follow the credit: an activation, or an alert for an unmatched payment. -/
def followUp (p : PaymentNotification) : Bool → Call
  | true => .enqueue p.accountRef p.providerTxnId
  | false => .critical (lit "payment.unmatched") (lit "txn=" ++ p.providerTxnId)

def followedUp (p : PaymentNotification) : Bool → Event calls
  | true => ⟨.enqueue p.accountRef p.providerTxnId, .ret ()⟩
  | false => ⟨.critical (lit "payment.unmatched") (lit "txn=" ++ p.providerTxnId), .ret ()⟩

def credit (p : PaymentNotification) (amt : Int) : Call :=
  .credit p.providerTxnId p.accountRef amt

def credited (p : PaymentNotification) (amt : Int) (accepted duplicate : Bool) : Event calls :=
  ⟨.credit p.providerTxnId p.accountRef amt, .ret ⟨accepted, duplicate⟩⟩

def status (s : String) : Json := [(lit "status", lit s)]

/-- The program points of one delivery. -/
inductive HandlerPoint : List (Event calls) → Head calls Json → Prop where
  | rejected {c : Nat} {detail : Str} : (∀ p, ¬ Genuine site req p) → (c = 404 ∨ c = 422) →
      HandlerPoint [] (.ended (.raised (.http c detail)))
  | trapped {p : PaymentNotification} {s : Signal} : Genuine site req p →
      parseMinorUnits p.amount 2 = .error (.decimal s) →
      HandlerPoint [] (.ended (.raised (.decimal s)))
  | alarming {p : PaymentNotification} {exc : MoneyParseError} : Genuine site req p →
      parseMinorUnits p.amount 2 = .error (.money exc) →
      HandlerPoint [] (.call (unparseable site p exc))
  | alarmed {p : PaymentNotification} {exc : MoneyParseError} : Genuine site req p →
      parseMinorUnits p.amount 2 = .error (.money exc) →
      HandlerPoint [⟨unparseable site p exc, .ret ()⟩]
        (.ended (.raised (.http 422 (lit "amount not parseable"))))
  | alarmHalted {p : PaymentNotification} {exc : MoneyParseError}
      {r : Reply calls (unparseable site p exc)} {o : Outcome Exn Json} : Genuine site req p →
      parseMinorUnits p.amount 2 = .error (.money exc) → Halts r o →
      HandlerPoint [⟨unparseable site p exc, r⟩] (.ended o)
  | crediting {p : PaymentNotification} {amt : Int} : Genuine site req p →
      parseMinorUnits p.amount 2 = .ok amt → HandlerPoint [] (.call (credit p amt))
  | creditHalted {p : PaymentNotification} {amt : Int} {r : Outcome Exn CreditResult}
      {o : Outcome Exn Json} : Genuine site req p → parseMinorUnits p.amount 2 = .ok amt →
      Halts r o → HandlerPoint [⟨credit p amt, r⟩] (.ended o)
  | duplicate {p : PaymentNotification} {amt : Int} (accepted : Bool) : Genuine site req p →
      parseMinorUnits p.amount 2 = .ok amt →
      HandlerPoint [credited p amt accepted true] (.ended (.ret (status "duplicate")))
  | following {p : PaymentNotification} {amt : Int} (accepted : Bool) : Genuine site req p →
      parseMinorUnits p.amount 2 = .ok amt →
      HandlerPoint [credited p amt accepted false] (.call (followUp p accepted))
  | followed {p : PaymentNotification} {amt : Int} (accepted : Bool) : Genuine site req p →
      parseMinorUnits p.amount 2 = .ok amt →
      HandlerPoint [credited p amt accepted false, followedUp p accepted]
        (.ended (.ret (status (if accepted then "accepted" else "unmatched"))))
  | followHalted {p : PaymentNotification} {amt : Int} {accepted : Bool}
      {r : Reply calls (followUp p accepted)} {o : Outcome Exn Json} : Genuine site req p →
      parseMinorUnits p.amount 2 = .ok amt → Halts r o →
      HandlerPoint [credited p amt accepted false, ⟨followUp p accepted, r⟩] (.ended o)

end

variable {site : Site} {req : Request} {t : List (Event calls)} {q : Prog calls Json}

/-- **Program points.** Every point a delivery can be at. -/
theorem paymentRoute_point (h : After (paymentRoute site req) t q) :
    HandlerPoint site req t q.head := by
  unfold paymentRoute at h
  split at h
  · next hv =>
    obtain ⟨rfl, rfl⟩ := After.done_iff.mp h
    exact .rejected (fun p hp => by simp [Genuine, hv] at hp) (.inr rfl)
  next p hv =>
  unfold receivePayment at h
  split at h
  · next htok =>
    obtain ⟨rfl, rfl⟩ := After.done_iff.mp h
    exact .rejected (fun p' hp => htok hp.2) (.inl rfl)
  next htok =>
  have hp : Genuine site req p := ⟨hv, not_not.mp htok⟩
  split at h
  · next exc hexc =>
    rcases After.call_cases h with ⟨rfl, hq⟩ | ⟨-, t₁, rfl, h₁⟩ | ⟨r, o, hr, rfl, rfl⟩
    · rw [hq]; exact .alarming hp hexc
    · obtain ⟨rfl, rfl⟩ := After.done_iff.mp h₁
      exact .alarmed hp hexc
    · exact .alarmHalted hp hexc hr
  · next s hs =>
    obtain ⟨rfl, rfl⟩ := After.done_iff.mp h
    exact .trapped hp hs
  next amt hamt =>
  rcases After.call_cases h with ⟨rfl, hq⟩ | ⟨⟨acc, dup⟩, t₁, rfl, h₁⟩ | ⟨r, o, hr, rfl, rfl⟩
  · rw [hq]; exact .crediting hp hamt
  · cases dup with
    | true =>
      obtain ⟨rfl, rfl⟩ := After.done_iff.mp h₁
      exact .duplicate acc hp hamt
    | false =>
      cases acc with
      | false =>
        rcases After.call_cases h₁ with ⟨rfl, hq⟩ | ⟨-, t₂, rfl, h₂⟩ | ⟨r, o, hr, rfl, rfl⟩
        · rw [hq]; exact .following false hp hamt
        · obtain ⟨rfl, rfl⟩ := After.done_iff.mp h₂
          exact .followed false hp hamt
        · exact .followHalted hp hamt hr
      | true =>
        rcases After.call_cases h₁ with ⟨rfl, hq⟩ | ⟨-, t₂, rfl, h₂⟩ | ⟨r, o, hr, rfl, rfl⟩
        · rw [hq]; exact .following true hp hamt
        · obtain ⟨rfl, rfl⟩ := After.done_iff.mp h₂
          exact .followed true hp hamt
        · exact .followHalted hp hamt hr
  · exact .creditHalted hp hamt hr

end IspPlatform.Api
