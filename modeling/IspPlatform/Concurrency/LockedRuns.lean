import IspPlatform.Concurrency.Backend
import IspPlatform.Concurrency.EntityLock
import IspPlatform.Concurrency.StoreRuns

/-!
# State changes under their locks

Workers run `applyStateChange` inside `entityLock` over one lock backend with leases
that expire. Nothing ties a lease to the call that holds it: when one expires before
the commit, a second worker overtakes the first, and both return normally with the
stores apart. While no lease of an entity expires under a call that has yet to commit,
the lock excludes, and the stores agree once every call has returned.
-/

namespace IspPlatform.Concurrency

open Py Prog System

/-- The stores beside the lock backend. -/
structure Locked extends Backend where
  stores : Stores

def Locked.empty : Locked := { Backend.empty with stores := .empty }

/-- What a call that returns does. -/
inductive LockEffect (i : Nat) : Locked → (op : Call) → op.Res → Locked → Prop where
  | store {b : Locked} {op : Call} {a : op.Res} {s' : Stores} : StoreEffect i b.stores op a s' →
      LockEffect i b op a { b with stores := s' }
  | lease {b : Locked} {op : Call} {a : op.Res} {l : Backend} : op.OfBackend →
      LeaseEffect i b.toBackend op a l → LockEffect i b op a { b with toBackend := l }
  | monotonic {b : Locked} (x : ℚ) : LockEffect i b .monotonic x b
  | onLongHold {b : Locked} {key : Str} {held : ℚ} : LockEffect i b (.onLongHold key held) () b

/-- The arguments the workers pass to `entity_lock`. -/
structure LockArgs where
  lease : Seconds
  wait : Seconds
  onLongHold : Bool

/-- Any number of workers. Every call may raise or be cancelled, before or after its
effect, and takes as long as it takes: a `tick` is the expiry of a lease, at any time. -/
def locked (args : LockArgs) : System calls StateChange CommandOutcome Locked Str where
  main c := entityLock c.entityId args.lease args.wait args.onLongHold (applyStateChange c c.tx)
  answer := answers LockEffect (fun _ _ => True) fun _ => True
  tick key b b' := b' = { b with toBackend := b.toBackend.expire key }
  mayStart _ _ := True
  mortal := True

abbrev Workers := Pool calls StateChange CommandOutcome Locked

/-! ## Program points -/

section
variable {args : LockArgs} {c : StateChange} {t : List (Event calls)}
  {q : Prog calls CommandOutcome}

theorem ExitPoint.writes {token : Str} {started : ℚ} {o : Outcome Exn CommandOutcome}
    {u : List (Event calls)} {q : Head calls CommandOutcome}
    (h : ExitPoint c.entityId args.onLongHold token started o u q) :
    (∀ op, q = .call op → ¬ op.InSection) ∧ ∀ x ∈ u, ∀ n, x.op.write n = none := by
  have hrep : ∀ {w}, Reported c.entityId args.onLongHold started w →
      ∀ x ∈ w, ∀ n, x.op.write n = none := by
    intro w hw
    cases hw <;> simp [clock, Call.write]
  cases h with
  | reading | readHalted | warning | warnHalted =>
    exact ⟨by rintro op ⟨⟩ <;> exact id, by simp [clock, Call.write]⟩
  | releasing hw => exact ⟨by rintro op ⟨⟩; exact id, hrep hw⟩
  | left hw _ | releaseCancelled hw =>
    refine ⟨by rintro op ⟨⟩, ?_⟩
    intro x hx n
    rcases List.mem_append.mp hx with hx | hx
    · exact hrep hw x hx n
    · rw [List.mem_singleton.mp hx]; rfl

theorem WritePoint.cons {q : Head calls CommandOutcome} {x : Event calls} (h : WritePoint c t q)
    (hx : ∀ n, x.op.write n = none) : WritePoint c (x :: t) q where
  write e g hq := by
    obtain ⟨he, hg, hno⟩ := h.write e g hq
    refine ⟨he, hg, ?_⟩
    intro y hy
    rcases List.mem_cons.mp hy with rfl | hy
    · exact hx
    · exact hno y hy
  reauth e hq := by
    obtain ⟨he, pre, rfl⟩ := h.reauth e hq
    exact ⟨he, x :: pre, rfl⟩
  commit tx hq := by
    obtain ⟨htx, pre, o, rfl⟩ := h.commit tx hq
    exact ⟨htx, x :: pre, o, rfl⟩
  called y hy n w hw := by
    rcases List.mem_cons.mp hy with rfl | hy
    · rw [hx n] at hw
      cases hw
    · obtain ⟨he, hg, hst⟩ := h.called y hy n w hw
      refine ⟨he, hg, fun hl => ?_⟩
      obtain ⟨o, ho, hin⟩ := hst hl
      exact ⟨o, ho, List.mem_cons_of_mem _ hin⟩

theorem WritePoint.append {q q' : Head calls CommandOutcome} {u : List (Event calls)}
    (h : WritePoint c t q) (hu : ∀ x ∈ u, ∀ n, x.op.write n = none)
    (hq : ∀ op, q' = .call op → ¬ op.InSection) : WritePoint c (t ++ u) q' where
  write e g he := absurd True.intro (hq _ he)
  reauth e he := absurd True.intro (hq _ he)
  commit tx he := absurd True.intro (hq _ he)
  called y hy n w hw := by
    rcases List.mem_append.mp hy with hy | hy
    · obtain ⟨he, hg, hst⟩ := h.called y hy n w hw
      refine ⟨he, hg, fun hl => ?_⟩
      obtain ⟨o, ho, hin⟩ := hst hl
      exact ⟨o, ho, List.mem_append_left _ hin⟩
    · rw [hu y hy n] at hw
      cases hw

theorem LockPoint.writes {q : Head calls CommandOutcome}
    (h : LockPoint c.entityId args.lease args.wait args.onLongHold (applyStateChange c c.tx) t q) :
    WritePoint c t q := by
  have base : WritePoint c [] (applyStateChange c c.tx).head :=
    (applyStateChange_point (.nil _)).writes
  cases h with
  | acquiring => exact base.append (u := []) (by simp) (by rintro op ⟨⟩; exact id)
  | refused _ => exact base.append (u := [_]) (by simp [Call.write]) (by rintro op ⟨⟩)
  | starting token =>
    exact base.append (u := [_]) (by simp [acquired, Call.write]) (by rintro op ⟨⟩; exact id)
  | startHalted token _ =>
    exact base.append (u := [_, _]) (by simp [acquired, Call.write]) (by rintro op ⟨⟩)
  | holding token started hb =>
    exact ((applyStateChange_point hb).writes.cons fun _ => rfl).cons fun _ => rfl
  | leaving token started hb hexit =>
    obtain ⟨hq, hu⟩ := hexit.writes
    exact (((applyStateChange_point hb).writes.append hu hq).cons fun _ => rfl).cons fun _ => rfl

theorem locked_point (h : After ((locked args).main c) t q) :
    LockPoint c.entityId args.lease args.wait args.onLongHold (applyStateChange c c.tx) t q.head :=
  entityLock_point h

end

theorem Call.OfBackend.write {op : Call} (h : op.OfBackend) (i : Nat) : op.write i = none := by
  cases op with
  | acquire | release => rfl
  | _ => cases h

theorem applyStateChange_noBackend {op : Call} {k : Reply calls op → Prog calls CommandOutcome}
    {c : StateChange} {tx : Tx} {t : List (Event calls)}
    (h : After (applyStateChange c tx) t (.await op k)) : ¬ op.OfBackend := by
  have hpoint : ApplyPoint c tx t (.call op) := applyStateChange_point h
  intro hop
  cases hpoint with
  | trying ht => cases ht <;> exact hop
  | _ => exact hop

theorem locked_effect {args : LockArgs} {i : Nat} {b b' : Locked} {op : Call}
    {r : Reply calls op} (h : (locked args).answer i b op r b') :
    (b' = b ∧ ∀ a, r ≠ .ret a) ∨ ∃ a, LockEffect i b op a b' ∧ ∀ a', r = .ret a' → a' = a := by
  dsimp only [locked] at h
  exact answers_effect h

theorem locked_locking (args : LockArgs) : Locking (locked args) Locked.toBackend where
  answer h := by
    rcases locked_effect h with ⟨rfl, hno⟩ | ⟨a, he, ha⟩
    · exact .inl ⟨rfl, hno⟩
    · refine .inr ⟨a, ?_, ha⟩
      cases he with
      | store he =>
        refine .other a ?_
        cases he <;> exact id
      | lease _ he => exact he
      | monotonic | onLongHold => exact .other _ id
  tick h := by
    obtain rfl := h
    rfl
  own {c t key token k} h := by
    have hpoint : LockPoint c.entityId args.lease args.wait args.onLongHold
        (applyStateChange c c.tx) t (.call (.release key token)) := locked_point h
    rcases hpoint.at_release with ⟨_, _, _, -, hb⟩ | ⟨rfl, hacq⟩
    · exact absurd True.intro (applyStateChange_noBackend hb)
    · exact ⟨_, _, hacq⟩

theorem locked_writers (args : LockArgs) : Writers (locked args) Locked.stores where
  answer h := by
    dsimp only [locked] at h
    refine answers_journal Locked.stores (fun _ he => ?_) h
    cases he with
    | store he => exact he.journal
    | lease hop _ => simp [hop.write]
    | _ => simp [Call.write]
  tick h := by
    obtain rfl := h
    rfl
  point h := (locked_point h).writes

/-! ## Leases -/

/-- The thread has the lease of its entity and has yet to commit: it stands at the first
clock reading, or in the section. -/
def InLease (s : Workers) (i : Nat) (t : Thread calls StateChange CommandOutcome) : Prop :=
  t.dead = false ∧ ((t.code.head = .call .monotonic ∧ (s.log i).length = 1) ∨
    ∃ op, t.code.head = .call op ∧ op.InSection)

/-- Steps in which no lease of `e` expires under a call that has yet to commit. -/
def leaseHolds (e : Str) (s : Workers) (l : Label calls StateChange Str) (_ : Locked) : Prop :=
  l = .tick (lockKey e) → ∀ (i : Nat) t, s.threads[i]? = some t → t.job.entityId = e →
    ¬ InLease s i t

/-- The first clock reading, or a call of the section. -/
def Leasing (log : List (Event calls)) (op : Call) : Prop :=
  (op = .monotonic ∧ log.length = 1) ∨ op.InSection

theorem inLease_iff {s : Workers} {i : Nat} {t : Thread calls StateChange CommandOutcome} :
    InLease s i t ↔ t.dead = false ∧ ∃ op, t.code.head = .call op ∧ Leasing (s.log i) op := by
  unfold InLease Leasing
  refine and_congr_right fun _ => ⟨?_, ?_⟩
  · rintro (⟨hq, hl⟩ | ⟨op, hq, hop⟩)
    · exact ⟨_, hq, .inl ⟨rfl, hl⟩⟩
    · exact ⟨op, hq, .inr hop⟩
  · rintro ⟨op, hq, ⟨rfl, hl⟩ | hop⟩
    · exact .inl ⟨hq, hl⟩
    · exact .inr ⟨op, hq, hop⟩

section
variable {args : LockArgs} {c : StateChange} {log : List (Event calls)}
  {q : Head calls CommandOutcome}

theorem LockPoint.not_leasing_nil {op : Call}
    (h : LockPoint c.entityId args.lease args.wait args.onLongHold (applyStateChange c c.tx) []
      (.call op)) : ¬ Leasing [] op := by
  cases h
  rintro (⟨hop, -⟩ | hop)
  · cases hop
  · exact hop

/-- A call comes to its section from its `acquire`, or was leasing before. -/
theorem LockPoint.leasing {x : Event calls} {op : Call}
    (h : LockPoint c.entityId args.lease args.wait args.onLongHold (applyStateChange c c.tx)
      (log ++ [x]) (.call op)) (hop : Leasing (log ++ [x]) op) :
    (∃ token, x = acquired c.entityId args.lease args.wait token) ∨ Leasing log x.op := by
  generalize hl : log ++ [x] = log' at h hop
  have hlast : log'.getLast? = some x := by rw [← hl, List.getLast?_concat]
  have hlen : log'.length = log.length + 1 := by
    rw [← hl, List.length_append, List.length_singleton]
  cases h with
  | acquiring => simp at hl
  | starting token =>
    exact .inl ⟨token, (Option.some.inj hlast).symm⟩
  | @holding token started t op k hb =>
    have hsec : op.InSection := by
      rcases hop with ⟨-, hone⟩ | hsec
      · simp at hone
      · exact hsec
    cases applyStateChange_point hb with
    | trying ht =>
      cases ht with
      | write =>
        obtain rfl : clock started = x := Option.some.inj hlast
        exact .inr (.inl ⟨rfl, by simpa using hlen.symm⟩)
      | reauth =>
        obtain rfl : wrote c = x := Option.some.inj hlast
        exact .inr (.inr True.intro)
      | commit o _ =>
        obtain rfl : reauthed c o = x := Option.some.inj hlast
        exact .inr (.inr True.intro)
      | rollback | record => exact absurd hsec id
    | _ => exact absurd hsec id
  | leaving token started hb hexit =>
    rcases hop with ⟨-, hone⟩ | hsec
    · simp at hone
    · exact absurd hsec (hexit.writes.1 _ rfl)

end

variable {args : LockArgs} {s : Workers}
  {ok : Workers → Label calls StateChange Str → Locked → Prop}

variable {e : Str}

/-- While no lease of `e` expires early, a call that is leasing owns the key. -/
theorem leased (h : (locked args).Reach .empty (leaseHolds e) s) :
    ∀ (i : Nat) (t : Thread calls StateChange CommandOutcome), s.threads[i]? = some t →
      t.job.entityId = e → InLease s i t → ∃ token,
        (i, acquired e args.lease args.wait token) ∈ s.trace ∧
        s.shared.owner (lockKey e) = some token := by
  have L := locked_locking args
  induction h with
  | init => simp
  | @step s s' l hr hs hok ih =>
    intro i t ht hent hin
    have hpoint := locked_point ((hr.step hs hok).after ht)
    have hg := L.granted rfl hr
    cases hs with
    | start _ =>
      rcases getElem?_snoc_cases ht with ht | ⟨rfl, rfl⟩
      · exact ih i t ht hent hin
      · obtain ⟨-, op, hq, hl⟩ := inLease_iff.mp hin
        have hnil := hr.log_new
        simp only [Pool.log] at hnil hpoint hl
        rw [hnil] at hpoint hl
        rw [hq] at hpoint
        exact absurd hl hpoint.not_leasing_nil
    | @answer j d op k r σ' hj ha =>
      rcases getElem?_set_cases ht with ⟨rfl, rfl⟩ | ⟨hij, hi⟩
      · obtain ⟨-, op', hq, hl⟩ := inLease_iff.mp hin
        simp only [Pool.log, logOf_snoc, if_true] at hpoint hl
        rw [hq] at hpoint
        rcases hpoint.leasing hl with ⟨token, hx⟩ | hl
        · subst hent
          cases hx
          exact ⟨token, List.mem_append_right _ (List.mem_singleton.mpr rfl), (L.gives ha).2⟩
        · obtain ⟨token, hx, hown⟩ := ih i _ hj hent (inLease_iff.mpr ⟨rfl, op, rfl, hl⟩)
          have hin := hg.granted i _ _ _ token hx
          refine ⟨token, List.mem_append_left _ hx, L.outlasts rfl hr hin hown hj ha ?_⟩
          rintro rfl
          rcases hl with ⟨hl, -⟩ | hl
          · cases hl
          · exact absurd hl id
      · have hin' : InLease s i t := by
          unfold InLease at hin ⊢
          simpa only [Pool.log, logOf_snoc, if_neg (Ne.symm hij)] using hin
        obtain ⟨token, hx, hown⟩ := ih i t hi hent hin'
        have hout := L.outlasts rfl hr (hg.granted i _ _ _ token hx) hown hj ha fun _ => hij
        exact ⟨token, List.mem_append_left _ hx, hout⟩
    | die _ hj =>
      rcases getElem?_set_cases ht with ⟨rfl, rfl⟩ | ⟨-, hi⟩
      · cases hin.1
      · exact ih i t hi hent hin
    | @tick m _ hm =>
      obtain ⟨token, hx, hown⟩ := ih i t ht hent hin
      refine ⟨token, hx, ?_⟩
      have hne : lockKey e ≠ m := by
        rintro rfl
        exact hok rfl i t ht hent hin
      rw [hm]
      exact (Function.update_of_ne hne _ _).trans hown

theorem locked_exclusive (h : (locked args).Reach .empty (leaseHolds e) s) : Exclusive e s := by
  rintro i j t t' hi hj ⟨hd, hop⟩ ⟨hd', hop'⟩ hent hent'
  obtain ⟨token, hx, hown⟩ := leased h i t hi hent ⟨hd, .inr hop⟩
  obtain ⟨token', hx', hown'⟩ := leased h j t' hj hent' ⟨hd', .inr hop'⟩
  obtain rfl : token = token' := Option.some.inj (hown.symm.trans hown')
  exact ((locked_locking args).granted rfl h).one hx hx'

theorem LockPoint.of_ret {c : StateChange} {t : List (Event calls)} {o : CommandOutcome}
    (h : LockPoint c.entityId args.lease args.wait args.onLongHold (applyStateChange c c.tx) t
      (.ended (.ret o))) : committed c.tx ∈ t := by
  generalize hq : Outcome.ret o = r at h
  cases h with
  | refused hr =>
    unfold unacquired at hq
    split at hq <;> cases hq
  | startHalted _ hr => exact absurd hq.symm (hr.ne_ret o)
  | leaving token started hb hexit =>
    cases hexit with
    | readHalted hr | warnHalted _ _ _ hr => exact absurd hq.symm (hr.ne_ret o)
    | releaseCancelled => cases hq
    | left _ _ =>
      subst hq
      obtain ⟨-, rfl⟩ := ApplyPoint.of_ret (applyStateChange_point hb)
      simp

/-- **Under leases that hold, the stores agree.** If no lease of `e` expires under a call
that has yet to commit, then once every call made on `e` has returned normally, the
ledger and the projection have the same group for `e`. -/
theorem locked_agree (h : (locked args).Reach .empty (leaseHolds e) s)
    (hret : ∀ t ∈ s.threads, t.job.entityId = e → ∃ o, t.code = .done (.ret o))
    (v₀ : Str → Str) :
    s.shared.stores.journal.value v₀ .ledger e = s.shared.stores.journal.value v₀ .projection e := by
  have W := locked_writers args
  rcases (W.ordered rfl locked_exclusive h).agree_or_pending v₀ e with hagree | ⟨w, hw, hno⟩
  · rwa [Journal.value_of, Journal.value_of] at hagree
  -- the call that projected last has returned, so it committed
  obtain ⟨hin, -, -⟩ := Journal.latest_mem hw
  obtain ⟨hin, hwe⟩ := Journal.mem_of.mp hin
  obtain ⟨t, ht, hent, -, -⟩ := W.author rfl h hin
  obtain ⟨o, ho⟩ := hret t (List.mem_of_getElem? ht) (hent.symm.trans hwe)
  have hpoint := locked_point (h.ended ht ho)
  have hmem := mem_logOf.mp hpoint.of_ret
  have hledger := W.shown h _ hmem _ () rfl rfl
  have he : t.job.entityId = e := hent.symm.trans hwe
  exact absurd rfl (hno ⟨.ledger, w.call, t.job.entityId, t.job.targetGroup⟩
    (Journal.mem_of.mpr ⟨hledger, he⟩) rfl he)

/-- Steps other than the expiry of a lease are allowed. -/
def Untimed (ok : Workers → Label calls StateChange Str → Locked → Prop) : Prop :=
  ∀ s l b, (∀ key, l ≠ .tick key) → ok s l b

theorem reach_locked (h : (locked args).Reach .empty ok s) (hok : Untimed ok) {i : Nat}
    {d : StateChange} (op : Call) {k : Reply calls op → Prog calls CommandOutcome} (a : op.Res)
    {b : Locked} (hj : s.threads[i]? = some ⟨d, .await op k, false⟩)
    (he : LockEffect i s.shared op a b) :
    (locked args).Reach .empty ok
      ⟨b, s.threads.set i ⟨d, k (.ret a), false⟩, s.trace ++ [(i, ⟨op, .ret a⟩)]⟩ :=
  h.answer (.ret a) b hj he (hok _ _ _ (by simp))

/-- Without a callback the clock reading on the way out is followed by the release. -/
theorem exit_release {ent token : Str} {now started : ℚ} {d : StateChange}
    {o : Outcome Exn CommandOutcome} :
    some (⟨d, (if heldWarningSeconds < now - started ∧ false = true then do
        call (.onLongHold (lockKey ent) (now - started))
        suppress (call (.release (lockKey ent) token))
      else suppress (call (.release (lockKey ent) token))).bind fun _ => .done o, false⟩ :
        Thread calls StateChange CommandOutcome) =
      some ⟨d, (suppress (call (.release (lockKey ent) token))).bind fun _ => .done o, false⟩ := by
  rw [if_neg (by simp)]

def lockArgs : LockArgs := ⟨defaultLeaseSeconds, defaultAcquireTimeoutSeconds, false⟩

theorem reach_next {ts : List (Thread calls StateChange CommandOutcome)} {b b' : Locked}
    {tr : List (Nat × Event calls)} {i : Nat} {d : StateChange} (op : Call)
    {k : Reply calls op → Prog calls CommandOutcome} (a : op.Res) (hok : Untimed ok)
    (hi : i < ts.length)
    (h : (locked args).Reach .empty ok ⟨b, ts.set i ⟨d, .await op k, false⟩, tr⟩)
    (he : LockEffect i b op a b') :
    (locked args).Reach .empty ok ⟨b', ts.set i ⟨d, k (.ret a), false⟩,
      tr ++ [(i, ⟨op, .ret a⟩)]⟩ := by
  have hnext := reach_locked h hok op a (List.getElem?_set_self hi) he
  rwa [List.set_set] at hnext

theorem reach_served (h : (locked lockArgs).Reach .empty ok s) (hok : Untimed ok) {i : Nat}
    {d : StateChange} (hi : s.threads[i]? = some ⟨d, (locked lockArgs).main d, false⟩)
    (token : Str) (hfree : s.shared.owner (lockKey d.entityId) = none)
    (hfresh : ∀ g ∈ s.shared.grants, g.token ≠ token) :
    ∃ s', (locked lockArgs).Reach .empty ok s' ∧
      s'.threads = s.threads.set i ⟨d, .done (.ret .applied), false⟩ ∧
      s'.shared.owner (lockKey d.entityId) = none ∧
      s'.shared.grants = s.shared.grants ++ [⟨i, lockKey d.entityId, token⟩] := by
  obtain ⟨b, ts, tr⟩ := s
  obtain ⟨hlt, hget⟩ := List.getElem?_eq_some_iff.mp hi
  have h₁ : (locked lockArgs).Reach .empty ok
      ⟨b, ts.set i ⟨d, (locked lockArgs).main d, false⟩, tr⟩ := by
    rw [← hget, List.set_getElem_self]
    exact h
  have h₂ := reach_next (.acquire (lockKey d.entityId) defaultLeaseSeconds
    defaultAcquireTimeoutSeconds) (some token) hok hlt h₁
    (.lease True.intro (.acquired _ _ hfree hfresh))
  have h₃ := reach_next .monotonic (0 : ℚ) hok hlt h₂ (.monotonic 0)
  have h₄ := reach_next (.writeGroup d.entityId d.targetGroup) () hok hlt h₃ (.store .writeGroup)
  have h₅ := reach_next (.forceReauth d.entityId) .applied hok hlt h₄
    (.store (.forceReauth .applied))
  have h₆ := reach_next (.commit d.tx) () hok hlt h₅ (.store .commit)
  have h₇ := reach_next (.record d.entityId d.event (lit "success")) () hok hlt h₆ (.store .record)
  have h₈ := reach_next .monotonic (0 : ℚ) hok hlt h₇ (.monotonic 0)
  have hexit := Option.some.inj (@exit_release d.entityId token 0 0 d (.ret .applied))
  have h₉ := reach_next (.release (lockKey d.entityId) token) () hok hlt (hexit ▸ h₈)
    (.lease True.intro (.released (Function.update_self _ _ _)))
  exact ⟨_, h₉, rfl, Function.update_self _ _ _, rfl⟩

def reactivation : StateChange := ⟨lit "acct7", lit "active", lit "reactivate"⟩

theorem untimed_leaseHolds : Untimed (leaseHolds e) := fun _ _ _ hl htick => absurd htick (hl _)

/-- A suspension and a reactivation wait for one lock, and are served in turn. -/
theorem reach_in_turn : ∃ s, (locked lockArgs).Reach .empty (leaseHolds (lit "acct7")) s ∧
    s.threads = [⟨suspension, .done (.ret .applied), false⟩,
      ⟨reactivation, .done (.ret .applied), false⟩] := by
  have hok := untimed_leaseHolds (e := lit "acct7")
  have h₀ : (locked lockArgs).Reach .empty (leaseHolds (lit "acct7")) ⟨.empty, [], []⟩ := .init
  have h₁ := h₀.start suspension True.intro (hok _ _ _ (by simp))
  have h₂ := h₁.start reactivation True.intro (hok _ _ _ (by simp))
  obtain ⟨s, h, hthreads, hfree, hgrants⟩ := reach_served h₂ hok (i := 0) (d := suspension) rfl
    (lit "a") rfl (by simp [Locked.empty, Backend.empty])
  have hwaits : s.threads[1]? = some ⟨reactivation, (locked lockArgs).main reactivation, false⟩ := by
    rw [hthreads]
    rfl
  obtain ⟨s', h', hthreads', -, -⟩ := reach_served h hok (i := 1) (d := reactivation) hwaits
    (lit "b") hfree (by rw [hgrants]; decide)
  exact ⟨s', h', by rw [hthreads', hthreads]; rfl⟩

theorem locked_agree_served : ∃ s, (locked lockArgs).Reach .empty (leaseHolds (lit "acct7")) s ∧
    s.threads = [⟨suspension, .done (.ret .applied), false⟩,
      ⟨reactivation, .done (.ret .applied), false⟩] ∧
    s.shared.stores.journal.value (fun _ => lit "active") .ledger (lit "acct7") =
      s.shared.stores.journal.value (fun _ => lit "active") .projection (lit "acct7") := by
  obtain ⟨s, h, hthreads⟩ := reach_in_turn
  refine ⟨s, h, hthreads, locked_agree h ?_ _⟩
  rw [hthreads]
  intro t ht _
  rcases List.mem_pair.mp ht with rfl | rfl <;> exact ⟨_, rfl⟩

def acct7 : Str := lockKey (lit "acct7")

/-- The lease of the first worker expires at the router; a second one overtakes it. -/
theorem reach_overtaken : ∃ s, (locked lockArgs).Reach .empty anyStep s ∧
    s.threads = [⟨suspension, .done (.ret .applied), false⟩,
      ⟨reactivation, .done (.ret .applied), false⟩] ∧
    s.shared.stores.journal = [⟨.projection, 0, lit "acct7", lit "suspended"⟩,
      ⟨.projection, 1, lit "acct7", lit "active"⟩, ⟨.ledger, 1, lit "acct7", lit "active"⟩,
      ⟨.ledger, 0, lit "acct7", lit "suspended"⟩] := by
  have hok : Untimed anyStep := fun _ _ _ _ => True.intro
  have h₀ : (locked lockArgs).Reach .empty anyStep ⟨.empty, [], []⟩ := .init
  have h₁ := h₀.start suspension True.intro True.intro
  have h₂ := reach_locked h₁ hok (i := 0) (.acquire acct7 defaultLeaseSeconds
    defaultAcquireTimeoutSeconds) (some (lit "a")) rfl
    (.lease True.intro (.acquired _ _ rfl (by decide)))
  have h₃ := reach_locked h₂ hok (i := 0) .monotonic (0 : ℚ) rfl (.monotonic 0)
  have h₄ := reach_locked h₃ hok (i := 0) (.writeGroup (lit "acct7") (lit "suspended")) () rfl
    (.store .writeGroup)
  -- the router is slow, and the lease runs out
  have h₅ := h₄.step (.tick (m := acct7) rfl) True.intro
  have h₆ := h₅.start reactivation True.intro True.intro
  have h₇ := reach_locked h₆ hok (i := 1) (.acquire acct7 defaultLeaseSeconds
    defaultAcquireTimeoutSeconds) (some (lit "b")) rfl
    (.lease True.intro (.acquired _ _ rfl (by decide)))
  have h₈ := reach_locked h₇ hok (i := 1) .monotonic (0 : ℚ) rfl (.monotonic 0)
  have h₉ := reach_locked h₈ hok (i := 1) (.writeGroup (lit "acct7") (lit "active")) () rfl
    (.store .writeGroup)
  have h₁₀ := reach_locked h₉ hok (i := 1) (.forceReauth (lit "acct7")) .applied rfl
    (.store (.forceReauth .applied))
  have h₁₁ := reach_locked h₁₀ hok (i := 1) (.commit reactivation.tx) () rfl (.store .commit)
  have h₁₂ := reach_locked h₁₁ hok (i := 1)
    (.record (lit "acct7") (lit "reactivate") (lit "success")) () rfl (.store .record)
  have h₁₃ := reach_locked h₁₂ hok (i := 1) .monotonic (0 : ℚ) rfl (.monotonic 0)
  have h₁₄ := reach_locked h₁₃ hok (i := 1) (.release acct7 (lit "b")) () exit_release
    (.lease True.intro (.released rfl))
  -- the first worker goes on
  have h₁₅ := reach_locked h₁₄ hok (i := 0) (.forceReauth (lit "acct7")) .applied rfl
    (.store (.forceReauth .applied))
  have h₁₆ := reach_locked h₁₅ hok (i := 0) (.commit suspension.tx) () rfl (.store .commit)
  have h₁₇ := reach_locked h₁₆ hok (i := 0)
    (.record (lit "acct7") (lit "suspend") (lit "success")) () rfl (.store .record)
  have h₁₈ := reach_locked h₁₇ hok (i := 0) .monotonic (0 : ℚ) rfl (.monotonic 0)
  have h₁₉ := reach_locked h₁₈ hok (i := 0) (.release acct7 (lit "a")) () exit_release
    (.lease True.intro (.stale (by decide)))
  exact ⟨_, h₁₉, rfl, rfl⟩

/-- Both calls on the account returned normally, and the stores differ. -/
theorem overtaken_stores_differ : ∃ s, (locked lockArgs).Reach .empty anyStep s ∧
    (∀ t ∈ s.threads, ¬ t.InFlight) ∧
    (∀ t ∈ s.threads, ∃ o, t.code = .done (.ret o)) ∧
    s.shared.stores.journal.value (fun _ => lit "active") .ledger (lit "acct7") ≠
      s.shared.stores.journal.value (fun _ => lit "active") .projection (lit "acct7") := by
  obtain ⟨s, h, hthreads, hjournal⟩ := reach_overtaken
  refine ⟨s, h, ?_, ?_, ?_⟩
  · rw [hthreads]
    rintro t ht ⟨-, op, hop⟩
    rcases List.mem_pair.mp ht with rfl | rfl <;> cases hop
  · rw [hthreads]
    intro t ht
    rcases List.mem_pair.mp ht with rfl | rfl <;> exact ⟨_, rfl⟩
  · rw [hjournal]
    decide

end IspPlatform.Concurrency
