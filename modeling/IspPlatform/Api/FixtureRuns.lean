import IspPlatform.Api.Fixtures
import IspPlatform.Api.Settled
import IspPlatform.SyntheticData.Subscribers

/-!
# The fixtures in any interleaving

The payments of `generatePayments` as deliveries of a pool, in any order and any interleaving,
over a ledger that knows some of the accounts. `fixtureRow` is what one subscriber's payment
leaves; `fixtures_settled` reads the final books off the subscribers.
-/

namespace IspPlatform.Api

open Py Prog Domain SyntheticData System

variable {site : Site} {known : Str → Bool} {s : Deliveries} {subs : List SyntheticSubscriber}

/-- The row that the `i`-th subscriber's payment leaves. -/
def fixtureRow (known : Str → Bool) (sub : SyntheticSubscriber) (i : Nat) : Row :=
  ⟨txnId i, sub.accountRef, sub.chargeMinor, known sub.accountRef⟩

def fixtureRows (known : Str → Bool) (subs : List SyntheticSubscriber) : List Row :=
  subs.zipIdx.map fun (sub, i) => fixtureRow known sub i

/-- The books that a list of rows asks for. -/
def booksOf (rows : List Row) : Books :=
  ⟨rows, rows.filterMap Row.activation, rows.filterMap Row.unmatched⟩

theorem carried_deliveryOf (site : Site) {sub : SyntheticSubscriber}
    (h : Payable (fun _ => True) sub) {i : Nat} (hi : i < 10 ^ 9) :
    ∃ p, carried site (deliveryOf site (paymentOf sub i)) =
      some (p, sub.chargeMinor) ∧ p.providerTxnId = txnId i ∧ p.accountRef = sub.accountRef := by
  obtain ⟨p, hp, htxn, href, hamt⟩ := genuine_deliveryOf site h hi
  refine ⟨p, carried_eq_some.mpr ⟨hp, ?_⟩, htxn, href⟩
  rw [hamt]
  exact parse_chargeAmount h.charge.1 h.charge.2

theorem amountAlarm_deliveryOf {sub : SyntheticSubscriber} (h : Payable (fun _ => True) sub)
    {i : Nat} (hi : i < 10 ^ 9) :
    amountAlarm site (deliveryOf site (paymentOf sub i)) = none := by
  obtain ⟨p, hp, -, -, hamt⟩ := genuine_deliveryOf site h hi
  rw [amountAlarm_genuine hp, hamt, parse_chargeAmount h.charge.1 h.charge.2]

theorem mem_generated {F : Type} [LT F] [DecidableLT F] {random : Nat → F} {rate : F}
    {p : SyntheticPayment} : p ∈ generatePayments subs random rate ↔
      ∃ x ∈ subs.zipIdx, p = paymentOf x.1 x.2 := by
  unfold generatePayments
  rw [List.mem_flatMap]
  refine exists_congr fun x => and_congr_right fun _ => ?_
  dsimp only
  split <;> simp

section
variable {F : Type} [LT F] [DecidableLT F] {random : Nat → F} {rate : F}

/-- A job of the run, and the subscriber it is a delivery for. -/
theorem fixture_job {req : Request} (hcount : subs.length ≤ 10 ^ 9)
    (hsubs : ∀ sub ∈ subs, Payable (fun _ => True) sub)
    (hreq : req ∈ (generatePayments subs random rate).map (deliveryOf site)) :
    ∃ sub i, (sub, i) ∈ subs.zipIdx ∧ Payable (fun _ => True) sub ∧ i < 10 ^ 9 ∧
      req = deliveryOf site (paymentOf sub i) := by
  obtain ⟨p, hp, rfl⟩ := List.mem_map.mp hreq
  obtain ⟨⟨sub, i⟩, hin, rfl⟩ := mem_generated.mp hp
  have hget := List.mem_zipIdx_iff_getElem?.mp hin
  have hlt := (List.getElem?_eq_some_iff.mp hget).1
  exact ⟨sub, i, hin, hsubs sub (List.mem_of_getElem? hget), by omega, rfl⟩

theorem consistent_fixtures (random : Nat → F) (rate : F) (hcount : subs.length ≤ 10 ^ 9)
    (hsubs : ∀ sub ∈ subs, Payable (fun _ => True) sub) :
    Consistent site ((generatePayments subs random rate).map (deliveryOf site)) := by
  intro r hr r' hr' p amt p' amt' hp hp' hid
  obtain ⟨sub, i, hin, hpay, hi, rfl⟩ := fixture_job hcount hsubs hr
  obtain ⟨sub', i', hin', hpay', hi', rfl⟩ := fixture_job hcount hsubs hr'
  obtain ⟨q, hq, htxn, href⟩ := carried_deliveryOf site hpay hi
  obtain ⟨q', hq', htxn', href'⟩ := carried_deliveryOf site hpay' hi'
  cases hq.symm.trans hp
  cases hq'.symm.trans hp'
  rw [htxn, htxn'] at hid
  obtain rfl := txnId_injective hid
  have hsub : sub = sub' := Option.some.inj ((List.mem_zipIdx_iff_getElem?.mp hin).symm.trans
    (List.mem_zipIdx_iff_getElem?.mp hin'))
  subst hsub
  exact ⟨href.trans href'.symm, rfl⟩

theorem nodup_fixtureRows : (fixtureRows known subs).Nodup := by
  refine List.Nodup.of_map Row.providerTxnId ?_
  have hids : (fixtureRows known subs).map Row.providerTxnId =
      (List.range subs.length).map txnId := by
    rw [fixtureRows, List.map_map, List.range_eq_range', ← List.zipIdx_map_snd, List.map_map]
    rfl
  rw [hids]
  exact List.nodup_range.map txnId_injective

/-- The deliveries of a run are those of the generated payments. -/
def Delivers (site : Site) (random : Nat → F) (rate : F) (subs : List SyntheticSubscriber)
    (s : Deliveries) : Prop :=
  (s.threads.map Thread.job).Perm ((generatePayments subs random rate).map (deliveryOf site))

theorem fixtures_ledger (hcount : subs.length ≤ 10 ^ 9)
    (hsubs : ∀ sub ∈ subs, Payable (fun _ => True) sub)
    (h : (webhook site noCall).Reach .empty (accepting known) s) (hs : Settled s)
    (hjobs : Delivers site random rate subs s) :
    s.shared.ledger.Perm (fixtureRows known subs) := by
  have hc : Consistent site (s.threads.map Thread.job) := by
    intro r hr r' hr'
    exact consistent_fixtures random rate hcount hsubs r (hjobs.mem_iff.mp hr) r'
      (hjobs.mem_iff.mp hr')
  rw [List.perm_ext_iff_of_nodup (List.Nodup.of_map _ (ledger_nodup h)) nodup_fixtureRows]
  intro row
  rw [mem_settled_ledger h hs hc]
  constructor
  · rintro ⟨t, ht, ⟨p, amt⟩, hp, rfl⟩
    obtain ⟨sub, i, hin, hpay, hi, hjob⟩ :=
      fixture_job hcount hsubs (hjobs.mem_iff.mp (List.mem_map_of_mem ht))
    obtain ⟨q, hq, htxn, href⟩ := carried_deliveryOf site hpay hi
    rw [hjob] at hp
    cases hq.symm.trans hp
    refine List.mem_map.mpr ⟨(sub, i), hin, ?_⟩
    rw [expectedRow, htxn, href]
    rfl
  · intro hrow
    obtain ⟨⟨sub, i⟩, hin, rfl⟩ := List.mem_map.mp hrow
    have hgen : deliveryOf site (paymentOf sub i) ∈
        (generatePayments subs random rate).map (deliveryOf site) :=
      List.mem_map_of_mem (mem_generated.mpr ⟨_, hin, rfl⟩)
    obtain ⟨t, ht, hjob⟩ := List.mem_map.mp (hjobs.mem_iff.mpr hgen)
    have hget := List.mem_zipIdx_iff_getElem?.mp hin
    have hlt := (List.getElem?_eq_some_iff.mp hget).1
    obtain ⟨q, hq, htxn, href⟩ := carried_deliveryOf site (i := i)
      (hsubs sub (List.mem_of_getElem? hget)) (by omega)
    refine ⟨t, ht, _, hjob ▸ hq, ?_⟩
    rw [expectedRow, htxn, href]
    rfl

theorem fixtures_alarms (hcount : subs.length ≤ 10 ^ 9)
    (hsubs : ∀ sub ∈ subs, Payable (fun _ => True) sub) (hb : Balanced site s)
    (hjobs : Delivers site random rate subs s) :
    s.shared.alerts.filter (·.event = lit "payment.unmatched") = s.shared.alerts := by
  have hnone : s.threads.filterMap (fun t => amountAlarm site t.job) = [] := by
    rw [List.filterMap_eq_nil_iff]
    intro t ht
    obtain ⟨sub, i, -, hpay, hi, hjob⟩ :=
      fixture_job hcount hsubs (hjobs.mem_iff.mp (List.mem_map_of_mem ht))
    rw [hjob]
    exact amountAlarm_deliveryOf hpay hi
  have halarms := hb.alarms
  rw [hnone, List.perm_nil] at halarms
  rw [List.filter_eq_self]
  intro a ha
  simpa using List.filter_eq_nil_iff.mp halarms a ha

theorem map_fixtureRows : (fixtureRows known subs).map Row.accountRef =
    subs.map SyntheticSubscriber.accountRef := by
  conv_rhs => rw [← List.zipIdx_map_fst 0 subs]
  rw [fixtureRows, List.map_map, List.map_map]
  rfl

variable {count : Int} {draws : Nat → Draws} {today : Option Date} {rows : List Subscriber}

theorem generated_payable (h : generateSubscribers count draws today = .ok rows) :
    ∀ sub ∈ rows.map Subscriber.toSyntheticSubscriber, Payable (fun _ => True) sub := by
  have hform := generated_rows h
  intro sub hsub
  obtain ⟨row, hrow, rfl⟩ := List.mem_map.mp hsub
  obtain ⟨i, hi, hform⟩ := hform row hrow
  obtain ⟨entry, hentry, -, hcharge⟩ := hform.priced
  have hdig : numDigits (i + 1) ≤ 3 := (numDigits_le_iff (by omega)).mpr (by omega)
  have hlen : row.accountRef.length = 4 + (zeroPad 4 (i + 1)).length := by
    rw [hform.ref]
    exact List.length_append
  rw [length_zeroPad] at hlen
  refine ⟨by omega, ?_, True.intro⟩
  have hprices : ∀ entry ∈ plans, (0 : Int) ≤ entry.2 ∧ entry.2 < 10 ^ 28 := by decide
  rw [hcharge]
  exact hprices entry hentry

/-- **From the generator to the ledger.** Whatever is drawn, and whatever the order and the
interleaving, the ledger has one row for the account of each generated subscriber, with the price
of its plan. -/
theorem generated_settled (hgen : generateSubscribers count draws today = .ok rows)
    (random : Nat → F) (rate : F)
    (h : (webhook site noCall).Reach .empty (accepting known) s) (hs : Settled s)
    (hjobs : Delivers site random rate (rows.map Subscriber.toSyntheticSubscriber) s) :
    s.shared.ledger.length = count ∧ ∀ sub ∈ rows, ∃ i < 100,
      s.shared.ledger.filter (fun row => row.accountRef = sub.accountRef) =
        [⟨txnId i, sub.accountRef, sub.chargeMinor, known sub.accountRef⟩] := by
  obtain ⟨hc, hrows⟩ := generateSubscribers_ok.mp hgen
  have hlen := hrows.length_eq
  rw [List.length_range] at hlen
  have hcount : (rows.map Subscriber.toSyntheticSubscriber).length ≤ 10 ^ 9 := by
    rw [List.length_map]
    omega
  have hledger := fixtures_ledger hcount (generated_payable hgen) h hs hjobs
  have hrefs : ((fixtureRows known (rows.map Subscriber.toSyntheticSubscriber)).map
      Row.accountRef).Nodup := by
    rw [map_fixtureRows, List.map_map]
    exact generated_refs hgen
  constructor
  · rw [hledger.length_eq, fixtureRows, List.length_map, List.length_zipIdx, List.length_map]
    omega
  · intro sub hsub
    obtain ⟨i, hi⟩ := List.mem_iff_getElem?.mp hsub
    have hlt := (List.getElem?_eq_some_iff.mp hi).1
    have hget : (rows.map Subscriber.toSyntheticSubscriber)[i]? =
        some sub.toSyntheticSubscriber := by
      rw [List.getElem?_map, hi]
      rfl
    have hin : fixtureRow known sub.toSyntheticSubscriber i ∈
        fixtureRows known (rows.map Subscriber.toSyntheticSubscriber) :=
      List.mem_map.mpr ⟨(_, i), List.mem_zipIdx_iff_getElem?.mpr hget, rfl⟩
    refine ⟨i, by omega, List.perm_singleton.mp ?_⟩
    exact (filter_key hrefs hin) ▸ hledger.filter _

end

/-- One subscriber, whose payment is sent twice. -/
def payer : Subscriber := sampleRow "ACC-0001" "+254700000000" "basic" "site-alpha" 100000

def payerNotice : PaymentNotification :=
  ⟨lit "TEST-TXN-000001", lit "ACC-0001", lit "1000.00", by decide, by decide, by decide⟩

/-- Its two deliveries, the second of them credited. -/
def paidTwice : Deliveries :=
  overtaken (deliveryOf shop (paymentOf payer.toSyntheticSubscriber 0)) payerNotice 100000

theorem reach_paidTwice :
    (webhook shop noCall).Reach .empty (accepting fun _ => true) paidTwice := by
  have hparse : parseMinorUnits payerNotice.amount 2 = .ok 100000 :=
    parse_chargeAmount (c := 100000) (by decide) (by decide)
  exact reach_overtaken ⟨rfl, rfl⟩ hparse rfl

theorem generated_settled_paidTwice : paidTwice.shared.ledger.length = (1 : Int) ∧
    ∀ sub ∈ [payer], ∃ i < 100,
      paidTwice.shared.ledger.filter (fun row => row.accountRef = sub.accountRef) =
        [⟨txnId i, sub.accountRef, sub.chargeMinor, true⟩] := by
  have hgen : generateSubscribers 1 sampleDraws none = .ok [payer] := rfl
  exact generated_settled hgen id 1 reach_paidTwice settled_overtaken (.refl _)

end IspPlatform.Api
