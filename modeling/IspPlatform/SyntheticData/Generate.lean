import IspPlatform.Py.Numerals

/-!
# Synthetic payments

`generatePayments` turns subscribers into payments, some of them sent twice.
The draws of the random generator are a parameter.
-/

namespace IspPlatform.SyntheticData

open Py

/-- `SyntheticSubscriber`: the fields a payment is made from. -/
structure SyntheticSubscriber where
  accountRef : Str
  chargeMinor : Int
  deriving DecidableEq, Repr

structure SyntheticPayment where
  providerTxnId : Str
  accountRef : Str
  amount : Str
  /-- A date, as its ordinal. -/
  receivedOn : Nat
  deriving DecidableEq, Repr

/-- `date(2026, 1, 10)`. -/
def firstPaymentDay : Nat := 739626

/-- The transaction id of the `i`-th subscriber, counted from `0`. -/
def txnId (i : Nat) : Str := lit "TEST-TXN-" ++ zeroPad 6 (i + 1)

/-- A charge as a decimal string. -/
def chargeAmount (chargeMinor : Int) : Str :=
  intStr (chargeMinor / 100) ++ '.' :: zeroPad 2 (chargeMinor % 100).toNat

/-- The payment of the `i`-th subscriber. -/
def paymentOf (sub : SyntheticSubscriber) (i : Nat) : SyntheticPayment where
  providerTxnId := txnId i
  accountRef := sub.accountRef
  amount := chargeAmount sub.chargeMinor
  receivedOn := firstPaymentDay + i % 28

/-- `generate_payments`. `random i` is the generator's `i`-th draw; of Python's floats the
function uses `<` only. -/
def generatePayments {F : Type} [LT F] [DecidableLT F] (subscribers : List SyntheticSubscriber)
    (random : Nat → F) (duplicateRate : F) : List SyntheticPayment :=
  subscribers.zipIdx.flatMap fun (sub, i) =>
    let payment := paymentOf sub i
    if random i < duplicateRate then [payment, payment] else [payment]

example : (generatePayments [⟨lit "ACC-0001", 250005⟩, ⟨lit "ACC-0002", 7⟩] id 1).map
      (fun p => (p.providerTxnId, p.amount)) =
    [(lit "TEST-TXN-000001", lit "2500.05"), (lit "TEST-TXN-000001", lit "2500.05"),
      (lit "TEST-TXN-000002", lit "0.07")] := by decide

theorem txnId_injective : Function.Injective txnId := by
  intro i j h
  have hpad : zeroPad 6 (i + 1) = zeroPad 6 (j + 1) := List.append_cancel_left h
  have := zeroPad_injective 6 hpad
  omega

end IspPlatform.SyntheticData
