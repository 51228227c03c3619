import IspPlatform.Api.Deliveries

/-!
# Settled deliveries

Nothing raises, and every delivery has ended: whatever the interleaving, the books are made of
the deliveries' payments. `bookedBy` is the row that a delivery's answer stands for.
`Balanced` and `Answers` say so of one run, `confluent` of two runs over the same deliveries.
-/

namespace IspPlatform.Api

open Py Prog Domain System

/-- No call raises. -/
def noCall (_ : Call) : Prop := False

/-- Every delivery was answered. -/
def Settled (s : Deliveries) : Prop := ∀ t ∈ s.threads, ∃ o, t.code = .done o

/-- The payment a request carries, with its amount. -/
def carried (site : Site) (req : Request) : Option (PaymentNotification × Int) :=
  match validate req.body with
  | none => none
  | some p =>
    if req.token ≠ site.webhookToken then none
    else match parseMinorUnits p.amount 2 with
      | .ok amt => some (p, amt)
      | .error _ => none

/-- The alert for a genuine request whose amount does not parse. -/
def amountAlarm (site : Site) (req : Request) : Option Alert :=
  match validate req.body with
  | none => none
  | some p =>
    if req.token ≠ site.webhookToken then none
    else match parseMinorUnits p.amount 2 with
      | .error (.money exc) => some ⟨lit "payment.amount_unparseable",
          lit "txn=" ++ p.providerTxnId ++ lit " reason=" ++ exc.str site.printable⟩
      | _ => none

/-- The row of a delivery that was told `accepted` or `unmatched`. -/
def bookedBy (site : Site) (t : Thread calls Request Json) : Option Row :=
  match carried site t.job, t.code with
  | some (p, amt), .done (.ret answer) =>
    if answer = status "accepted" then some ⟨p.providerTxnId, p.accountRef, amt, true⟩
    else if answer = status "unmatched" then some ⟨p.providerTxnId, p.accountRef, amt, false⟩
    else none
  | _, _ => none

/-- The activation that a credited row asks for. -/
def Row.activation (row : Row) : Option Activation :=
  if row.credited then some ⟨row.accountRef, row.providerTxnId⟩ else none

/-- The alert that an uncredited row asks for. -/
def Row.unmatched (row : Row) : Option Alert :=
  if row.credited then none
  else some ⟨lit "payment.unmatched", lit "txn=" ++ row.providerTxnId⟩

/-! ## Books and trace -/

/-- The row that an answered call recorded. -/
def freshRow : Event calls → Option Row
  | ⟨.credit txn ref amt, .ret ⟨acc, false⟩⟩ => some ⟨txn, ref, amt, acc⟩
  | _ => none

def queuedBy : Event calls → Option Activation
  | ⟨.enqueue ref txn, .ret _⟩ => some ⟨ref, txn⟩
  | _ => none

def raisedBy : Event calls → Option Alert
  | ⟨.critical event detail, .ret _⟩ => some ⟨event, detail⟩
  | _ => none

variable {site : Site} {s : Deliveries}
  {ok : Deliveries → Label calls Request Empty → Books → Prop}

/-- The books are what the trace shows. -/
theorem books_trace (h : (webhook site noCall).Reach .empty ok s) :
    s.shared = ⟨s.trace.filterMap fun x => freshRow x.2, s.trace.filterMap fun x => queuedBy x.2,
      s.trace.filterMap fun x => raisedBy x.2⟩ := by
  refine h.inv (P := fun b tr => b = ⟨tr.filterMap fun x => freshRow x.2,
    tr.filterMap fun x => queuedBy x.2, tr.filterMap fun x => raisedBy x.2⟩) rfl ?_
    (fun {_ m} => m.elim)
  intro s i d op k r b _ ih _ ha _
  cases r with
  | raised e => exact absurd ha.1.1 id
  | cancelled => exact absurd ha.1 id
  | ret a =>
    generalize s.shared = b₀ at ha ih
    subst ih
    simp only [List.filterMap_append, List.filterMap_cons, List.filterMap_nil]
    cases ha with
    | duplicate | recorded | enqueued | alerted => simp [freshRow, queuedBy, raisedBy]

theorem replies_returned (h : (webhook site noCall).Reach .empty ok s) (i : Nat) :
    ∀ x ∈ s.log i, x.reply.failed = false := by
  refine h.history_mem (Q := fun _ x => x.reply.failed = false) ?_ i
  intro s i d op k r b _ _ ha _
  cases r with
  | raised e => exact absurd ha.1.1 id
  | cancelled => exact absurd ha.1 id
  | ret a => rfl

/-! ## One delivery -/

section
variable {req : Request} {p : PaymentNotification} {amt : Int}

theorem Genuine.unique {p' : PaymentNotification} (hp' : Genuine site req p')
    (hp : Genuine site req p) : p' = p :=
  Option.some.inj (hp'.1.symm.trans hp.1)

theorem carried_genuine (hp : Genuine site req p) :
    carried site req = (parseMinorUnits p.amount 2).toOption.map fun amt => (p, amt) := by
  unfold carried
  rw [hp.1]
  simp only [hp.2, ne_eq, not_true_eq_false, if_false]
  cases parseMinorUnits p.amount 2 <;> rfl

theorem carried_eq_some :
    carried site req = some (p, amt) ↔
      Genuine site req p ∧ parseMinorUnits p.amount 2 = .ok amt := by
  constructor
  · intro h
    unfold carried at h
    split at h
    · cases h
    next p' hv =>
    split at h
    · cases h
    next htok =>
    split at h
    · next amt' ha =>
      cases h
      exact ⟨⟨hv, not_not.mp htok⟩, ha⟩
    · cases h
  · rintro ⟨hp, ha⟩
    rw [carried_genuine hp, ha]
    rfl

theorem amountAlarm_genuine (hp : Genuine site req p) : amountAlarm site req =
    match parseMinorUnits p.amount 2 with
    | .error (.money exc) => some ⟨lit "payment.amount_unparseable",
        lit "txn=" ++ p.providerTxnId ++ lit " reason=" ++ exc.str site.printable⟩
    | _ => none := by
  unfold amountAlarm
  rw [hp.1]
  simp only [hp.2, ne_eq, not_true_eq_false, if_false]

theorem amountAlarm_forged (h : ∀ p, ¬ Genuine site req p) : amountAlarm site req = none := by
  unfold amountAlarm
  split
  · rfl
  · next p hv =>
    by_cases htok : req.token = site.webhookToken
    · exact absurd ⟨hv, htok⟩ (h p)
    · rw [if_pos htok]

end

/-- What the calls of an answered delivery show: the row it answers for, its activation, the
alert for an unmatched payment, and the alarm. -/
theorem HandlerPoint.shows {req : Request} {t : List (Event calls)} {o : Outcome Exn Json}
    (h : HandlerPoint site req t (.ended o)) (hret : ∀ x ∈ t, x.reply.failed = false) (d : Bool) :
    t.filterMap freshRow = (bookedBy site ⟨req, .done o, d⟩).toList ∧
      t.filterMap queuedBy = ((bookedBy site ⟨req, .done o, d⟩).bind Row.activation).toList ∧
      (t.filterMap fun x => (raisedBy x).filter (·.event = lit "payment.unmatched")) =
        ((bookedBy site ⟨req, .done o, d⟩).bind Row.unmatched).toList ∧
      (t.filterMap fun x => (raisedBy x).filter (·.event ≠ lit "payment.unmatched")) =
        (amountAlarm site req).toList := by
  have hraised : ∀ e, bookedBy site ⟨req, .done (.raised e), d⟩ = none := by
    intro e
    unfold bookedBy
    cases carried site req <;> rfl
  cases h with
  | rejected hno _ =>
    rw [hraised, amountAlarm_forged hno]
    exact ⟨rfl, rfl, rfl, rfl⟩
  | trapped hp ha =>
    rw [hraised, amountAlarm_genuine hp, ha]
    exact ⟨rfl, rfl, rfl, rfl⟩
  | alarmed hp ha =>
    rw [hraised, amountAlarm_genuine hp, ha]
    exact ⟨rfl, rfl, rfl, rfl⟩
  | duplicate acc hp ha =>
    have hbooked : bookedBy site ⟨req, .done (.ret (status "duplicate")), d⟩ = none := by
      unfold bookedBy
      rw [carried_genuine hp, ha]
      rfl
    rw [hbooked, amountAlarm_genuine hp, ha]
    exact ⟨rfl, rfl, rfl, rfl⟩
  | @followed p amt acc hp ha =>
    have hbooked : bookedBy site ⟨req, .done (.ret (status (if acc then "accepted"
        else "unmatched"))), d⟩ = some ⟨p.providerTxnId, p.accountRef, amt, acc⟩ := by
      unfold bookedBy
      rw [carried_genuine hp, ha]
      cases acc <;> rfl
    rw [hbooked, amountAlarm_genuine hp, ha]
    cases acc <;> exact ⟨rfl, rfl, rfl, rfl⟩
  | alarmHalted _ _ hr | creditHalted _ _ hr =>
    exact absurd (hr.failed.symm.trans (hret _ List.mem_cons_self)) (by decide)
  | followHalted _ _ hr =>
    have hfollow := hret _ (List.mem_cons_of_mem _ List.mem_cons_self)
    exact absurd (hr.failed.symm.trans hfollow) (by decide)

theorem HandlerPoint.credits {req : Request} {t : List (Event calls)} {o : Outcome Exn Json}
    {p : PaymentNotification} {amt : Int} (h : HandlerPoint site req t (.ended o))
    (hp : Genuine site req p) (ha : parseMinorUnits p.amount 2 = .ok amt)
    (hret : ∀ x ∈ t, x.reply.failed = false) :
    ∃ acc dup, credited p amt acc dup ∈ t := by
  cases h with
  | rejected hno _ => exact absurd hp (hno p)
  | trapped hp' ha' | alarmed hp' ha' | alarmHalted hp' ha' _ =>
    obtain rfl := hp'.unique hp
    cases ha.symm.trans ha'
  | creditHalted _ _ hr =>
    exact absurd (hr.failed.symm.trans (hret _ List.mem_cons_self)) (by decide)
  | duplicate acc hp' ha' =>
    obtain rfl := hp'.unique hp
    cases ha.symm.trans ha'
    exact ⟨acc, true, List.mem_cons_self⟩
  | followed acc hp' ha' | followHalted hp' ha' _ =>
    obtain rfl := hp'.unique hp
    cases ha.symm.trans ha'
    exact ⟨_, false, List.mem_cons_self⟩

theorem HandlerPoint.answered {req : Request} {t : List (Event calls)} {o : Outcome Exn Json}
    {p : PaymentNotification} {amt : Int} (h : HandlerPoint site req t (.ended o))
    (hp : Genuine site req p) (ha : parseMinorUnits p.amount 2 = .ok amt)
    (hret : ∀ x ∈ t, x.reply.failed = false) : o = .ret (status "duplicate") ∨
      ∃ acc : Bool, o = .ret (status (if acc then "accepted" else "unmatched")) := by
  cases h with
  | rejected hno _ => exact absurd hp (hno p)
  | trapped hp' ha' | alarmed hp' ha' | alarmHalted hp' ha' _ =>
    obtain rfl := hp'.unique hp
    cases ha.symm.trans ha'
  | creditHalted _ _ hr =>
    exact absurd (hr.failed.symm.trans (hret _ List.mem_cons_self)) (by decide)
  | duplicate => exact .inl rfl
  | followed acc => exact .inr ⟨acc, rfl⟩
  | followHalted _ _ hr =>
    have hfollow := hret _ (List.mem_cons_of_mem _ List.mem_cons_self)
    exact absurd (hr.failed.symm.trans hfollow) (by decide)

theorem HandlerPoint.refused {req : Request} {t : List (Event calls)} {o : Outcome Exn Json}
    (h : HandlerPoint site req t (.ended o)) (hno : carried site req = none)
    (hret : ∀ x ∈ t, x.reply.failed = false) : ∃ e, o = .raised e := by
  cases h with
  | rejected | trapped | alarmed => exact ⟨_, rfl⟩
  | alarmHalted _ _ hr =>
    exact absurd (hr.failed.symm.trans (hret _ List.mem_cons_self)) (by decide)
  | creditHalted hp ha | duplicate _ hp ha | followed _ hp ha | followHalted hp ha =>
    rw [carried_genuine hp, ha] at hno
    cases hno

/-- The books of deliveries that were all answered. -/
structure Balanced (site : Site) (s : Deliveries) : Prop where
  /-- The rows are those of the deliveries that were told `accepted` or `unmatched`. -/
  ledger : s.shared.ledger.Perm (s.threads.filterMap (bookedBy site))
  once : (s.shared.ledger.map Row.providerTxnId).Nodup
  complete : ∀ t ∈ s.threads, ∀ p amt, carried site t.job = some (p, amt) →
    s.shared.Recorded p.providerTxnId
  /-- Each credited row has its activation, each uncredited one its alert. -/
  queue : s.shared.queue.Perm (s.shared.ledger.filterMap Row.activation)
  unmatched : (s.shared.alerts.filter (·.event = lit "payment.unmatched")).Perm
    (s.shared.ledger.filterMap Row.unmatched)
  alarms : (s.shared.alerts.filter (·.event ≠ lit "payment.unmatched")).Perm
    (s.threads.filterMap fun t => amountAlarm site t.job)

theorem settled_shows (h : (webhook site noCall).Reach .empty ok s) (hs : Settled s) {i : Nat}
    {t : Thread calls Request Json} (ht : s.threads[i]? = some t) :
    (s.log i).filterMap freshRow = (bookedBy site t).toList ∧
      (s.log i).filterMap queuedBy = ((bookedBy site t).bind Row.activation).toList ∧
      ((s.log i).filterMap fun x => (raisedBy x).filter (·.event = lit "payment.unmatched")) =
        ((bookedBy site t).bind Row.unmatched).toList ∧
      ((s.log i).filterMap fun x => (raisedBy x).filter (·.event ≠ lit "payment.unmatched")) =
        (amountAlarm site t.job).toList := by
  obtain ⟨o, ho⟩ := hs t (List.mem_of_getElem? ht)
  have hpoint : HandlerPoint site t.job (s.log i) (.ended o) := paymentRoute_point (h.ended ht ho)
  have hshows := hpoint.shows (replies_returned h i) t.dead
  obtain ⟨job, code, dead⟩ := t
  subst ho
  exact hshows

/-- Whatever the interleaving, the books of deliveries that were all answered have one row for
each payment, and for each row its activation or its alert. -/
theorem balanced (h : (webhook site noCall).Reach .empty ok s) (hs : Settled s) :
    Balanced site s := by
  have hbooks := books_trace h
  have hledger : s.shared.ledger.Perm (s.threads.filterMap (bookedBy site)) := by
    rw [hbooks]
    exact h.gathered _ _ fun i t ht => (settled_shows h hs ht).1
  have halerts : ∀ p : Alert → Bool, s.shared.alerts.filter p =
      s.trace.filterMap fun x => (raisedBy x.2).filter p := by
    intro p
    rw [hbooks, List.filter_filterMap]
  have hfrom : ∀ {β : Type} (f : Row → Option β), (s.threads.filterMap fun t =>
      (bookedBy site t).bind f).Perm (s.shared.ledger.filterMap f) := by
    intro β f
    rw [← List.filterMap_filterMap]
    exact (hledger.filterMap f).symm
  refine ⟨hledger, ledger_nodup h, ?_, ?_, ?_, ?_⟩
  · intro t ht p amt hp
    obtain ⟨i, hi⟩ := List.mem_iff_getElem?.mp ht
    obtain ⟨hgen, ha⟩ := carried_eq_some.mp hp
    obtain ⟨o, ho⟩ := hs t ht
    have hpoint : HandlerPoint site t.job (s.log i) (.ended o) :=
      paymentRoute_point (h.ended hi ho)
    obtain ⟨acc, dup, hin⟩ := hpoint.credits hgen ha (replies_returned h i)
    exact returned_shows h i _ _ (mem_logOf.mp hin)
  · refine List.Perm.trans ?_ (hfrom Row.activation)
    rw [hbooks]
    exact h.gathered _ _ fun i t ht => (settled_shows h hs ht).2.1
  · refine List.Perm.trans ?_ (hfrom Row.unmatched)
    rw [halerts]
    exact h.gathered _ _ fun i t ht => (settled_shows h hs ht).2.2.1
  · rw [halerts]
    exact h.gathered _ _ fun i t ht => (settled_shows h hs ht).2.2.2

/-! ## The answers of a settled run -/

/-- A row of the ledger and the answer that goes with it. -/
def Row.answer (row : Row) : Json := status (if row.credited then "accepted" else "unmatched")

/-- What deliveries that were all answered were told. -/
structure Answers (site : Site) (s : Deliveries) : Prop where
  balanced : Balanced site s
  /-- Of the deliveries of one payment, one was told its outcome. -/
  told : ∀ row ∈ s.shared.ledger, ∃! i : Nat, ∃ t, s.threads[i]? = some t ∧
    t.code = .done (.ret row.answer) ∧ ∃ p amt, carried site t.job = some (p, amt) ∧
      p.providerTxnId = row.providerTxnId
  /-- Every other one was told `duplicate`. -/
  payment : ∀ t ∈ s.threads, ∀ p amt, carried site t.job = some (p, amt) →
    t.code = .done (.ret (status "duplicate")) ∨
      ∃ row ∈ s.shared.ledger, row.providerTxnId = p.providerTxnId ∧
        row.accountRef = p.accountRef ∧ row.amountMinor = amt ∧ t.code = .done (.ret row.answer)
  /-- Without a payment, a delivery was told an error. -/
  rejected : ∀ t ∈ s.threads, carried site t.job = none → ∃ e, t.code = .done (.raised e)

theorem bookedBy_carried {t : Thread calls Request Json} {row : Row}
    (h : bookedBy site t = some row) : ∃ p, carried site t.job = some (p, row.amountMinor) ∧
      p.providerTxnId = row.providerTxnId ∧ p.accountRef = row.accountRef := by
  unfold bookedBy at h
  split at h
  · next p amt answer hp _ =>
    rw [hp]
    split at h
    · cases h
      exact ⟨p, rfl, rfl, rfl⟩
    · split at h
      · cases h
        exact ⟨p, rfl, rfl, rfl⟩
      · cases h
  · cases h

theorem bookedBy_iff {t : Thread calls Request Json} {p : PaymentNotification} {amt : Int}
    (hp : carried site t.job = some (p, amt)) {row : Row} :
    bookedBy site t = some row ↔ t.code = .done (.ret row.answer) ∧
      row.providerTxnId = p.providerTxnId ∧ row.accountRef = p.accountRef ∧
      row.amountMinor = amt := by
  obtain ⟨job, code, dead⟩ := t
  obtain ⟨txn, ref, amount, acc⟩ := row
  unfold bookedBy
  rw [hp]
  constructor
  · intro h
    split at h
    · next p' amt' answer hp' hcode =>
      cases hp'
      subst hcode
      split at h
      · next hacc =>
        cases h
        exact ⟨by rw [hacc]; rfl, rfl, rfl, rfl⟩
      · split at h
        · next hun =>
          cases h
          exact ⟨by rw [hun]; rfl, rfl, rfl, rfl⟩
        · cases h
    · cases h
  · rintro ⟨rfl, rfl, rfl, rfl⟩
    cases acc with
    | false =>
      have hne : status "unmatched" ≠ status "accepted" := by decide
      exact (if_neg hne).trans (if_pos rfl)
    | true => exact if_pos rfl

/-- The ledger accepts the payments to known accounts and no others. -/
def accepting (known : Str → Bool) (_ : Deliveries) (l : Label calls Request Empty) (_ : Books) :
    Prop :=
  ∀ i txn ref amt acc, l = .answer i ⟨.credit txn ref amt, .ret ⟨acc, false⟩⟩ → acc = known ref

/-- Requests with one transaction id carry one payment. -/
def Consistent (site : Site) (reqs : List Request) : Prop :=
  ∀ r ∈ reqs, ∀ r' ∈ reqs, ∀ p amt p' amt', carried site r = some (p, amt) →
    carried site r' = some (p', amt') → p.providerTxnId = p'.providerTxnId →
    p.accountRef = p'.accountRef ∧ amt = amt'

/-- The row that a payment leaves in a ledger that accepts the known accounts. -/
def expectedRow (known : Str → Bool) (x : PaymentNotification × Int) : Row :=
  ⟨x.1.providerTxnId, x.1.accountRef, x.2, known x.1.accountRef⟩

variable {known : Str → Bool} {s' : Deliveries}

theorem accepting_credited (h : (webhook site noCall).Reach .empty (accepting known) s) :
    ∀ row ∈ s.shared.ledger, row.credited = known row.accountRef := by
  refine h.inv (P := fun b _ => ∀ row ∈ b.ledger, row.credited = known row.accountRef)
    (by simp [Books.empty]) ?_ (fun {_ m} => m.elim)
  intro s i d op k r b _ ih _ ha hok
  cases r with
  | raised e => exact absurd ha.1.1 id
  | cancelled => exact absurd ha.1 id
  | ret a =>
    generalize s.shared = b₀ at ha ih
    cases ha with
    | duplicate | enqueued | alerted => exact ih
    | recorded acc hnew =>
      intro row hrow
      rcases List.mem_append.mp hrow with hrow | hrow
      · exact ih row hrow
      · rw [List.mem_singleton.mp hrow]
        exact hok _ _ _ _ _ rfl

theorem mem_settled_ledger (h : (webhook site noCall).Reach .empty (accepting known) s)
    (hs : Settled s) (hc : Consistent site (s.threads.map Thread.job)) {row : Row} :
    row ∈ s.shared.ledger ↔
      ∃ t ∈ s.threads, ∃ x, carried site t.job = some x ∧ row = expectedRow known x := by
  have hb := balanced h hs
  have hrow : ∀ row ∈ s.shared.ledger,
      ∃ t ∈ s.threads, ∃ x, carried site t.job = some x ∧ row = expectedRow known x := by
    intro row hrow
    obtain ⟨t, ht, hbooked⟩ := List.mem_filterMap.mp (hb.ledger.mem_iff.mp hrow)
    obtain ⟨p, hp, hid, href⟩ := bookedBy_carried hbooked
    refine ⟨t, ht, _, hp, ?_⟩
    obtain ⟨txn, ref, amt, acc⟩ := row
    have hacc : acc = known ref := accepting_credited h _ hrow
    subst hid href hacc
    rfl
  constructor
  · exact hrow row
  · rintro ⟨t, ht, ⟨p, amt⟩, hp, rfl⟩
    obtain ⟨row, hin, hid⟩ := hb.complete t ht p amt hp
    obtain ⟨t', ht', ⟨p', amt'⟩, hp', rfl⟩ := hrow row hin
    obtain ⟨href, hamt⟩ := hc _ (List.mem_map_of_mem ht) _ (List.mem_map_of_mem ht') p amt p' amt'
      hp hp' hid.symm
    have hsame : expectedRow known (p, amt) = expectedRow known (p', amt') := by
      unfold expectedRow
      rw [href, hamt, hid.symm]
      rfl
    rw [hsame]
    exact hin

/-- The final books of two runs are the same up to order. -/
structure SameBooks (b b' : Books) : Prop where
  ledger : b.ledger.Perm b'.ledger
  queue : b.queue.Perm b'.queue
  alerts : b.alerts.Perm b'.alerts

/-- **Confluence.** Two settled runs over the same deliveries, in any order and any interleaving,
leave the same books. -/
theorem confluent (h : (webhook site noCall).Reach .empty (accepting known) s)
    (h' : (webhook site noCall).Reach .empty (accepting known) s') (hs : Settled s)
    (hs' : Settled s') (hjobs : (s.threads.map Thread.job).Perm (s'.threads.map Thread.job))
    (hc : Consistent site (s.threads.map Thread.job)) : SameBooks s.shared s'.shared := by
  have hb := balanced h hs
  have hb' := balanced h' hs'
  have hc' : Consistent site (s'.threads.map Thread.job) := by
    intro r hr r' hr'
    exact hc r (hjobs.mem_iff.mpr hr) r' (hjobs.mem_iff.mpr hr')
  have hmem : ∀ (ts : List (Thread calls Request Json)) (row : Row),
      (∃ t ∈ ts, ∃ x, carried site t.job = some x ∧ row = expectedRow known x) ↔
        ∃ req ∈ ts.map Thread.job, ∃ x, carried site req = some x ∧ row = expectedRow known x := by
    intro ts row
    constructor
    · rintro ⟨t, ht, hx⟩
      exact ⟨t.job, List.mem_map_of_mem ht, hx⟩
    · rintro ⟨req, hreq, hx⟩
      obtain ⟨t, ht, rfl⟩ := List.mem_map.mp hreq
      exact ⟨t, ht, hx⟩
  have hledger : s.shared.ledger.Perm s'.shared.ledger := by
    rw [List.perm_ext_iff_of_nodup (List.Nodup.of_map _ hb.once) (List.Nodup.of_map _ hb'.once)]
    intro row
    rw [mem_settled_ledger h hs hc, mem_settled_ledger h' hs' hc', hmem, hmem]
    simp only [hjobs.mem_iff]
  have halarms : (s.threads.filterMap fun t => amountAlarm site t.job).Perm
      (s'.threads.filterMap fun t => amountAlarm site t.job) := by
    have hperm := hjobs.filterMap (amountAlarm site)
    rwa [List.filterMap_map, List.filterMap_map] at hperm
  refine ⟨hledger, ?_, ?_⟩
  · exact hb.queue.trans ((hledger.filterMap _).trans hb'.queue.symm)
  · exact (perm_iff_filter (·.event = lit "payment.unmatched")).mpr
      ⟨hb.unmatched.trans ((hledger.filterMap _).trans hb'.unmatched.symm),
        hb.alarms.trans (halarms.trans hb'.alarms.symm)⟩

section
variable {req : Request} {p : PaymentNotification} {amt : Int}

/-- The delivery that came first was credited. -/
def inTurn (req : Request) (p : PaymentNotification) (amt : Int) : Deliveries :=
  ⟨⟨[⟨p.providerTxnId, p.accountRef, amt, true⟩], [⟨p.accountRef, p.providerTxnId⟩], []⟩,
    [⟨req, .done (.ret (status "accepted")), false⟩,
      ⟨req, .done (.ret (status "duplicate")), false⟩],
    [(0, credited p amt true false), (0, followedUp p true), (1, credited p amt true true)]⟩

/-- The delivery that came second was credited, and the first was answered before the activation
was enqueued. -/
def overtaken (req : Request) (p : PaymentNotification) (amt : Int) : Deliveries :=
  ⟨⟨[⟨p.providerTxnId, p.accountRef, amt, true⟩], [⟨p.accountRef, p.providerTxnId⟩], []⟩,
    [⟨req, .done (.ret (status "duplicate")), false⟩,
      ⟨req, .done (.ret (status "accepted")), false⟩],
    [(1, credited p amt true false), (0, credited p amt true true), (1, followedUp p true)]⟩

theorem not_recorded_empty (txn : Str) : ¬ Books.empty.Recorded txn := by
  rintro ⟨row, hrow, -⟩
  cases hrow

theorem reach_twice (hp : Genuine site req p) (ha : parseMinorUnits p.amount 2 = .ok amt) :
    (webhook site noCall).Reach .empty (accepting known)
      ⟨.empty, [⟨req, .await (credit p amt) fun r => onRet (settle p) r, false⟩,
        ⟨req, .await (credit p amt) fun r => onRet (settle p) r, false⟩], []⟩ := by
  rw [← paymentRoute_genuine hp ha]
  refine Reach.start (Reach.start .init req True.intro ?_) req True.intro ?_
  all_goals
    intro i txn ref amt acc h
    cases h

theorem reach_allowed (h : (webhook site noCall).Reach .empty ok s) {i : Nat} {d : Request}
    (op : Call) {k : Reply calls op → Prog calls Json} (a : op.Res) {b : Books}
    (hj : s.threads[i]? = some ⟨d, .await op k, false⟩) (he : Effect s.shared op a b)
    (hok : ok s (.answer i ⟨op, .ret a⟩) b) : (webhook site noCall).Reach .empty ok
      ⟨b, s.threads.set i ⟨d, k (.ret a), false⟩, s.trace ++ [(i, ⟨op, .ret a⟩)]⟩ :=
  h.answer (.ret a) b hj he hok

theorem reach_inTurn (hp : Genuine site req p) (ha : parseMinorUnits p.amount 2 = .ok amt)
    (hk : known p.accountRef = true) :
    (webhook site noCall).Reach .empty (accepting known) (inTurn req p amt) := by
  have first := reach_allowed (reach_twice hp ha) (i := 0) (credit p amt) ⟨true, false⟩ rfl
    (.recorded true (not_recorded_empty _)) (by rintro i txn ref amt acc ⟨⟩; exact hk.symm)
  have queued := reach_allowed first (i := 0) (followUp p true) () rfl .enqueued
    (by rintro i txn ref amt acc ⟨⟩)
  exact reach_allowed queued (i := 1) (credit p amt) ⟨true, true⟩ rfl
    (.duplicate true ⟨_, List.mem_singleton_self _, rfl⟩) (by rintro i txn ref amt acc ⟨⟩)

theorem reach_overtaken (hp : Genuine site req p) (ha : parseMinorUnits p.amount 2 = .ok amt)
    (hk : known p.accountRef = true) :
    (webhook site noCall).Reach .empty (accepting known) (overtaken req p amt) := by
  have second := reach_allowed (reach_twice hp ha) (i := 1) (credit p amt) ⟨true, false⟩ rfl
    (.recorded true (not_recorded_empty _)) (by rintro i txn ref amt acc ⟨⟩; exact hk.symm)
  have answered := reach_allowed second (i := 0) (credit p amt) ⟨true, true⟩ rfl
    (.duplicate true ⟨_, List.mem_singleton_self _, rfl⟩) (by rintro i txn ref amt acc ⟨⟩)
  exact reach_allowed answered (i := 1) (followUp p true) () rfl .enqueued
    (by rintro i txn ref amt acc ⟨⟩)

theorem settled_inTurn : Settled (inTurn req p amt) := by
  intro t ht
  simp only [inTurn, List.mem_cons, List.not_mem_nil, or_false] at ht
  rcases ht with rfl | rfl <;> exact ⟨_, rfl⟩

theorem settled_overtaken : Settled (overtaken req p amt) := by
  intro t ht
  simp only [overtaken, List.mem_cons, List.not_mem_nil, or_false] at ht
  rcases ht with rfl | rfl <;> exact ⟨_, rfl⟩

end

theorem reach_overtaken_payment : (webhook shop noCall).Reach .empty (accepting fun _ => true)
    (overtaken payment fiveHundred 50000) :=
  reach_overtaken payment_genuine fiveHundred_amount rfl

theorem confluent_twice : SameBooks (inTurn payment fiveHundred 50000).shared
    (overtaken payment fiveHundred 50000).shared := by
  have hfirst : (webhook shop noCall).Reach .empty (accepting fun _ => true)
      (inTurn payment fiveHundred 50000) := reach_inTurn payment_genuine fiveHundred_amount rfl
  refine confluent hfirst reach_overtaken_payment settled_inTurn settled_overtaken (.refl _) ?_
  intro r hr r' hr' p amt p' amt' hp hp' _
  simp only [inTurn, List.map_cons, List.map_nil, List.mem_cons, List.not_mem_nil, or_false,
    or_self] at hr hr'
  subst hr hr'
  cases hp.symm.trans hp'
  exact ⟨rfl, rfl⟩

end IspPlatform.Api
