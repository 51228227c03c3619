import IspPlatform.Api.Deliveries
import IspPlatform.Domain.Display
import IspPlatform.SyntheticData.Generate

/-!
# The fixtures through the webhook

The payments of `generatePayments`, delivered one after the other. `runs_payment` is one
delivery over collaborators that serve it, `deliver_from` a run of them by induction on
the subscribers: the ids to come are not recorded yet, and the ids of what was delivered
do not come again.
-/

namespace IspPlatform.Api

open Py Prog Domain SyntheticData

/-- A credit that is not a duplicate is accepted for a known account. -/
def Accepts (known : Str → Prop) : (op : Call) → op.Res → Prop
  | .credit _ ref _, result => known ref → result.duplicate = false → result.accepted = true
  | .enqueue .., _ | .critical .., _ => True

/-- The collaborators keep their contracts, the ledger knows the accounts in `known`, and
every call returns. -/
def serving (known : Str → Prop) (b : Books) (op : Call) : Reply calls op → Books → Prop
  | .ret a, b' => Effect b op a b' ∧ Accepts known op a
  | _, _ => False

/-- The delivery of a generated payment, with the correct token. -/
def deliveryOf (site : Site) (p : SyntheticPayment) : Request :=
  ⟨site.webhookToken, some ⟨some p.providerTxnId, some p.accountRef, some p.amount⟩⟩

/-- Each of the requests is handled to its end before the next one comes. -/
abbrev DeliveredInOrder (site : Site) (known : Str → Prop) :
    Books → List Request → List (Outcome Exn Json) → Books → Prop :=
  Sequential (paymentRoute site) (serving known)

/-- The books after an accepted payment. -/
def Books.accept (b : Books) (txn ref : Str) (amt : Int) : Books :=
  { b with ledger := b.ledger ++ [⟨txn, ref, amt, true⟩], queue := b.queue ++ [⟨ref, txn⟩] }

/-- The responses to a list of payments after those in `seen`: a repeated entry is a
duplicate, every other one is accepted. -/
def responses : List SyntheticPayment → List SyntheticPayment → List (Outcome Exn Json)
  | _, [] => []
  | seen, p :: ps =>
    .ret (status (if p ∈ seen then "duplicate" else "accepted")) :: responses (p :: seen) ps

variable {site : Site} {known : Str → Prop}

/-! ## One delivery -/

theorem runs_payment {req : Request} {p : PaymentNotification} {amt : Int}
    (hp : Genuine site req p) (ha : parseMinorUnits p.amount 2 = .ok amt)
    (hk : known p.accountRef) {b b' : Books} {o : Outcome Exn Json} :
    Runs (serving known) b (paymentRoute site req) o b' ↔
      (b.Recorded p.providerTxnId ∧ o = .ret (status "duplicate") ∧ b' = b) ∨
      (¬ b.Recorded p.providerTxnId ∧ o = .ret (status "accepted") ∧
        b' = b.accept p.providerTxnId p.accountRef amt) := by
  rw [paymentRoute_genuine hp ha, runs_await]
  constructor
  · rintro ⟨r, b₁, hans, hrun⟩
    cases r with
    | raised e => exact hans.elim
    | cancelled => exact hans.elim
    | ret a =>
      obtain ⟨heff, hacc⟩ := hans
      cases heff with
      | duplicate acc hrec =>
        obtain ⟨rfl, rfl⟩ := runs_done.mp hrun
        exact .inl ⟨hrec, rfl, rfl⟩
      | recorded acc hnew =>
        obtain rfl : acc = true := hacc hk rfl
        obtain ⟨r, b₂, hans, hrun⟩ := runs_await.mp hrun
        cases r with
        | raised e => exact hans.elim
        | cancelled => exact hans.elim
        | ret u =>
          obtain ⟨heff, -⟩ := hans
          cases heff
          obtain ⟨rfl, rfl⟩ := runs_done.mp hrun
          exact .inr ⟨hnew, rfl, rfl⟩
  · rintro (⟨hrec, rfl, rfl⟩ | ⟨hnew, rfl, rfl⟩)
    · exact ⟨.ret ⟨true, true⟩, _, ⟨.duplicate true hrec, fun _ _ => rfl⟩, .done _⟩
    · refine ⟨.ret ⟨true, false⟩, _, ⟨.recorded true hnew, fun _ _ => rfl⟩, ?_⟩
      exact .await (r := .ret ()) ⟨.enqueued, True.intro⟩ (.done _)

/-- The parser undoes the generator's encoding of a charge. -/
theorem parse_chargeAmount {c : Int} (h0 : 0 ≤ c) (hmax : c < 10 ^ 28) :
    parseMinorUnits (chargeAmount c) 2 = .ok c := by
  obtain ⟨n, rfl⟩ := Int.eq_ofNat_of_zero_le h0
  have hn : n < 10 ^ 28 := by exact_mod_cast hmax
  have hsplit : 10 ^ 2 * (n / 100) + n % 100 = n := by omega
  have hparse := parse_written (d := 2) (w := n / 100) (f := n % 100) (by omega) (by omega)
    (by omega) (by omega)
  rw [hsplit] at hparse
  exact hparse

theorem length_chargeAmount {c : Int} (h0 : 0 ≤ c) (hmax : c < 10 ^ 28) :
    1 ≤ (chargeAmount c).length ∧ (chargeAmount c).length ≤ 32 := by
  obtain ⟨n, rfl⟩ := Int.eq_ofNat_of_zero_le h0
  have hn : n < 10 ^ 28 := by exact_mod_cast hmax
  have hwhole : numDigits (n / 100) ≤ 26 := (numDigits_le_iff (by omega)).mpr (by omega)
  have hpad : (zeroPad 2 (n % 100)).length = 2 := length_zeroPad_of_lt (by omega) (by omega)
  have hlen : (chargeAmount n).length = numDigits (n / 100) + ((zeroPad 2 (n % 100)).length + 1) :=
    List.length_append
  omega

theorem length_txnId {i : Nat} (hi : i < 10 ^ 9) :
    1 ≤ (txnId i).length ∧ (txnId i).length ≤ 64 := by
  have hdig : numDigits (i + 1) ≤ 10 := (numDigits_le_iff (by omega)).mpr (by omega)
  have hlen : (txnId i).length = 9 + (zeroPad 6 (i + 1)).length := List.length_append
  rw [length_zeroPad] at hlen
  omega

/-- The reference has 1 to 32 characters, the charge at most 28 digits, and there is such an
account. -/
structure Payable (known : Str → Prop) (sub : SyntheticSubscriber) : Prop where
  ref_len : 1 ≤ sub.accountRef.length ∧ sub.accountRef.length ≤ 32
  charge : 0 ≤ sub.chargeMinor ∧ sub.chargeMinor < 10 ^ 28
  account : known sub.accountRef

theorem genuine_deliveryOf (site : Site) {sub : SyntheticSubscriber} (h : Payable known sub)
    {i : Nat} (hi : i < 10 ^ 9) : ∃ p, Genuine site (deliveryOf site (paymentOf sub i)) p ∧
      p.providerTxnId = txnId i ∧ p.accountRef = sub.accountRef ∧
      p.amount = chargeAmount sub.chargeMinor := by
  have hlen := length_chargeAmount h.charge.1 h.charge.2
  refine ⟨⟨txnId i, sub.accountRef, chargeAmount sub.chargeMinor, length_txnId hi, h.ref_len, hlen⟩,
    ⟨?_, rfl⟩, rfl, rfl, rfl⟩
  exact dif_pos ⟨length_txnId hi, h.ref_len, hlen⟩

theorem runs_deliveryOf {sub : SyntheticSubscriber} (h : Payable known sub) {i : Nat}
    (hi : i < 10 ^ 9) {b b' : Books} {o : Outcome Exn Json} :
    Runs (serving known) b (paymentRoute site (deliveryOf site (paymentOf sub i))) o b' ↔
      (b.Recorded (txnId i) ∧ o = .ret (status "duplicate") ∧ b' = b) ∨
      (¬ b.Recorded (txnId i) ∧ o = .ret (status "accepted") ∧
        b' = b.accept (txnId i) sub.accountRef sub.chargeMinor) := by
  obtain ⟨p, hp, htxn, href, hamt⟩ := genuine_deliveryOf site h hi
  have hparse : parseMinorUnits p.amount 2 = .ok sub.chargeMinor := by
    rw [hamt]
    exact parse_chargeAmount h.charge.1 h.charge.2
  rw [runs_payment hp hparse (href ▸ h.account), htxn, href]

/-! ## All payments in order -/

/-- The entries of the `i`-th subscriber. -/
def entries (twice : Bool) (sub : SyntheticSubscriber) (i : Nat) : List SyntheticPayment :=
  if twice then [paymentOf sub i, paymentOf sub i] else [paymentOf sub i]

/-- The entries of subscribers counted from `k`, where `twice` says which are repeated. -/
def entriesFrom (twice : Nat → Bool) (subs : List SyntheticSubscriber) (k : Nat) :
    List SyntheticPayment :=
  (subs.zipIdx k).flatMap fun (sub, i) => entries (twice i) sub i

theorem entriesFrom_cons {twice : Nat → Bool} {sub : SyntheticSubscriber}
    {subs : List SyntheticSubscriber} {k : Nat} :
    entriesFrom twice (sub :: subs) k =
      entries (twice k) sub k ++ entriesFrom twice subs (k + 1) := by
  simp [entriesFrom]

theorem generatePayments_eq {F : Type} [LT F] [DecidableLT F]
    {subs : List SyntheticSubscriber} {random : Nat → F} {duplicateRate : F} :
    generatePayments subs random duplicateRate =
      entriesFrom (fun i => decide (random i < duplicateRate)) subs 0 := by
  simp [generatePayments, entriesFrom, entries]

/-- The row the `i`-th subscriber's payment leaves in the ledger. -/
def rowOf (sub : SyntheticSubscriber) (i : Nat) : Row :=
  ⟨txnId i, sub.accountRef, sub.chargeMinor, true⟩

def activationOf (sub : SyntheticSubscriber) (i : Nat) : Activation := ⟨sub.accountRef, txnId i⟩

theorem Books.recorded_accept {b : Books} {txn txn' ref : Str} {amt : Int} :
    (b.accept txn ref amt).Recorded txn' ↔ b.Recorded txn' ∨ txn = txn' := by
  simp [Books.Recorded, Books.accept, or_and_right, exists_or]

theorem deliver_one {sub : SyntheticSubscriber} (h : Payable known sub) {i : Nat}
    (hi : i < 10 ^ 9) {b b' : Books} (hnew : ¬ b.Recorded (txnId i)) (twice : Bool)
    {reqs : List Request} {os : List (Outcome Exn Json)} :
    DeliveredInOrder site known b
        ((entries twice sub i).map (deliveryOf site) ++ reqs) os b' ↔
      ∃ os', os = .ret (status "accepted") ::
          ((if twice then [.ret (status "duplicate")] else []) ++ os') ∧
        DeliveredInOrder site known (b.accept (txnId i) sub.accountRef sub.chargeMinor)
          reqs os' b' := by
  have hrec : (b.accept (txnId i) sub.accountRef sub.chargeMinor).Recorded (txnId i) :=
    Books.recorded_accept.mpr (.inr rfl)
  have hfirst : ∀ {o b₁}, Runs (serving known) b
      (paymentRoute site (deliveryOf site (paymentOf sub i))) o b₁ ↔
        o = .ret (status "accepted") ∧ b₁ = b.accept (txnId i) sub.accountRef sub.chargeMinor := by
    intro o b₁
    rw [runs_deliveryOf h hi]
    simp [hnew]
  have hagain : ∀ {o b₁}, Runs (serving known) (b.accept (txnId i) sub.accountRef sub.chargeMinor)
      (paymentRoute site (deliveryOf site (paymentOf sub i))) o b₁ ↔
        o = .ret (status "duplicate") ∧
          b₁ = b.accept (txnId i) sub.accountRef sub.chargeMinor := by
    intro o b₁
    rw [runs_deliveryOf h hi]
    simp [hrec]
  unfold DeliveredInOrder entries
  cases twice with
  | false =>
    simp only [Bool.false_eq_true, if_false, List.map_cons, List.map_nil, List.singleton_append,
      List.nil_append, sequential_cons, hfirst]
    constructor
    · rintro ⟨o, os', b₁, rfl, ⟨rfl, rfl⟩, hs⟩
      exact ⟨os', rfl, hs⟩
    · rintro ⟨os', rfl, hs⟩
      exact ⟨_, os', _, rfl, ⟨rfl, rfl⟩, hs⟩
  | true =>
    simp only [if_true, List.map_cons, List.map_nil, List.cons_append, List.nil_append,
      sequential_cons, hfirst]
    constructor
    · rintro ⟨o, os', b₁, rfl, ⟨rfl, rfl⟩, o₂, os₂, b₂, rfl, hr, hs⟩
      obtain ⟨rfl, rfl⟩ := hagain.mp hr
      exact ⟨os₂, rfl, hs⟩
    · rintro ⟨os', rfl, hs⟩
      exact ⟨_, _, _, rfl, ⟨rfl, rfl⟩, _, os', _, rfl, hagain.mpr ⟨rfl, rfl⟩, hs⟩

theorem responses_one (sub : SyntheticSubscriber) {i : Nat} {seen : List SyntheticPayment}
    (ps : List SyntheticPayment) (hnew : ∀ p ∈ seen, p.providerTxnId ≠ txnId i) (twice : Bool) :
    ∃ seen', responses seen (entries twice sub i ++ ps) =
        .ret (status "accepted") ::
          ((if twice then [.ret (status "duplicate")] else []) ++ responses seen' ps) ∧
      ∀ p ∈ seen', p ∈ seen ∨ p = paymentOf sub i := by
  have hnot : paymentOf sub i ∉ seen := fun hmem => hnew _ hmem rfl
  unfold entries
  cases twice with
  | false =>
    refine ⟨paymentOf sub i :: seen, by simp [responses, hnot], ?_⟩
    intro p hp
    exact (List.mem_cons.mp hp).symm
  | true =>
    refine ⟨paymentOf sub i :: paymentOf sub i :: seen, by simp [responses, hnot], ?_⟩
    intro p hp
    rcases List.mem_cons.mp hp with rfl | hp
    · exact .inr rfl
    · exact (List.mem_cons.mp hp).symm

/-- The payments of `subs` from index `k` on, delivered over books that know none of the
transactions to come. -/
theorem deliver_from {subs : List SyntheticSubscriber} (twice : Nat → Bool)
    (hsubs : ∀ sub ∈ subs, Payable known sub) {k : Nat} (hcount : k + subs.length ≤ 10 ^ 9)
    {b b' : Books} {seen : List SyntheticPayment} (hb : ∀ i, k ≤ i → ¬ b.Recorded (txnId i))
    (hseen : ∀ i, k ≤ i → ∀ p ∈ seen, p.providerTxnId ≠ txnId i)
    {os : List (Outcome Exn Json)} :
    DeliveredInOrder site known b ((entriesFrom twice subs k).map (deliveryOf site)) os b' ↔
      os = responses seen (entriesFrom twice subs k) ∧
      b' = { b with ledger := b.ledger ++ (subs.zipIdx k).map fun (sub, i) => rowOf sub i,
                    queue := b.queue ++ (subs.zipIdx k).map fun (sub, i) => activationOf sub i } := by
  induction subs generalizing k b seen os with
  | nil => simp [DeliveredInOrder, entriesFrom, sequential_nil, responses]
  | cons sub subs ih =>
    have hsub := hsubs sub List.mem_cons_self
    rw [List.length_cons] at hcount
    have hi : k < 10 ^ 9 := by omega
    have hnew := hb k (Nat.le_refl k)
    obtain ⟨seen', hresp, hseen'⟩ := responses_one sub (entriesFrom twice subs (k + 1))
      (hseen k (Nat.le_refl k)) (twice k)
    have hnext : ∀ i, k + 1 ≤ i → txnId k ≠ txnId i := by
      intro i hle h
      have := txnId_injective h
      omega
    have hb' : ∀ i, k + 1 ≤ i →
        ¬ (b.accept (txnId k) sub.accountRef sub.chargeMinor).Recorded (txnId i) := by
      intro i hle hrec
      rcases Books.recorded_accept.mp hrec with hrec | heq
      · exact hb i (by omega) hrec
      · exact hnext i hle heq
    have hs' : ∀ i, k + 1 ≤ i → ∀ p ∈ seen', p.providerTxnId ≠ txnId i := by
      intro i hle p hp
      rcases hseen' p hp with hp | rfl
      · exact hseen i (by omega) p hp
      · exact hnext i hle
    simp only [entriesFrom_cons, List.zipIdx_cons, List.map_append, deliver_one hsub hi hnew,
      hresp, List.map_cons]
    constructor
    · rintro ⟨os', rfl, hrun⟩
      obtain ⟨rfl, rfl⟩ := (ih (fun s hs => hsubs s (List.mem_cons_of_mem _ hs))
        (by omega) hb' hs').mp hrun
      refine ⟨rfl, ?_⟩
      simp [Books.accept, rowOf, activationOf]
    · rintro ⟨rfl, rfl⟩
      refine ⟨_, rfl, (ih (fun s hs => hsubs s (List.mem_cons_of_mem _ hs))
        (by omega) hb' hs').mpr ⟨rfl, ?_⟩⟩
      simp [Books.accept, rowOf, activationOf]

/-- **Fixtures end to end.** Delivered in order over an empty ledger that knows their
accounts, the generated payments credit each subscriber's charge once, in order, enqueue
one activation for each, and are answered `duplicate` exactly where an entry repeats. -/
theorem fixtures_end_to_end {F : Type} [LT F] [DecidableLT F] (random : Nat → F)
    (duplicateRate : F) {subs : List SyntheticSubscriber} (hcount : subs.length ≤ 10 ^ 9)
    (hsubs : ∀ sub ∈ subs, Payable known sub) (outcomes : List (Outcome Exn Json)) (b : Books) :
    DeliveredInOrder site known .empty
        ((generatePayments subs random duplicateRate).map (deliveryOf site)) outcomes b ↔
      outcomes = responses [] (generatePayments subs random duplicateRate) ∧
      b.ledger = subs.zipIdx.map (fun (sub, i) => rowOf sub i) ∧
      b.queue = subs.zipIdx.map (fun (sub, i) => activationOf sub i) ∧ b.alerts = [] := by
  have hempty : ∀ i, 0 ≤ i → ¬ Books.empty.Recorded (txnId i) := by
    rintro i - ⟨row, hrow, -⟩
    cases hrow
  have hseen : ∀ i, 0 ≤ i → ∀ p ∈ ([] : List SyntheticPayment), p.providerTxnId ≠ txnId i := by
    rintro i - p hp
    cases hp
  rw [generatePayments_eq, deliver_from _ hsubs (by omega) hempty hseen]
  obtain ⟨ledger, queue, alerts⟩ := b
  simp [Books.empty]

/-- Two subscribers, the first of them paying twice. -/
def pair : List SyntheticSubscriber := [⟨lit "ACC-0001", 250005⟩, ⟨lit "ACC-0002", 7⟩]

theorem payable_pair : ∀ sub ∈ pair, Payable (fun _ => True) sub := by
  intro sub hsub
  simp only [pair, List.mem_cons, List.not_mem_nil, or_false] at hsub
  rcases hsub with rfl | rfl
  · exact ⟨by decide, by decide, True.intro⟩
  · exact ⟨by decide, by decide, True.intro⟩

theorem fixtures_end_to_end_pair :
    DeliveredInOrder shop (fun _ => True) .empty
      ((generatePayments pair id 1).map (deliveryOf shop))
      [.ret (status "accepted"), .ret (status "duplicate"), .ret (status "accepted")]
      ⟨[⟨lit "TEST-TXN-000001", lit "ACC-0001", 250005, true⟩,
          ⟨lit "TEST-TXN-000002", lit "ACC-0002", 7, true⟩],
        [⟨lit "ACC-0001", lit "TEST-TXN-000001"⟩, ⟨lit "ACC-0002", lit "TEST-TXN-000002"⟩], []⟩ :=
  (fixtures_end_to_end id 1 (by decide) payable_pair _ _).mpr
    ⟨by decide, by decide, by decide, rfl⟩

end IspPlatform.Api
