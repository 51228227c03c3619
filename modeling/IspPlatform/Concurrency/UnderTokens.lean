import IspPlatform.Concurrency.Audit
import IspPlatform.Concurrency.LockedRuns

/-!
# Tokens and what is done under them

A worker makes its first call to the lock backend, and every other one with the token it was
given: it records for its own entity and releases its own key. So whatever is written, recorded or
released in a run was so under a token, a worker that got none did nothing, and a key that is
still owned is owned by a call that did not come to its end unharmed. None of this needs a lease
to last: when one runs out, two calls work at a time, each under a token of its own.
-/

namespace IspPlatform.Concurrency

open Py System

/-! ## One worker -/

/-- A call made for `e` under `token`. -/
def Call.Under (e token : Str) : Call → Prop
  | .record ent _ _ => ent = e
  | .release k tok => k = lockKey e ∧ tok = token
  | .acquire .. => False
  | _ => True

section
variable {c : StateChange} {tx : Tx} {t b : List (Event calls)} {op : Call} {token : Str}
  {q : Head calls CommandOutcome}

theorem Trying.under (h : Trying c tx b op) :
    (∀ x ∈ b, x.op.Under c.entityId token) ∧ op.Under c.entityId token := by
  cases h <;> simp [Call.Under, wrote, reauthed, rolledBack]

theorem ApplyPoint.under (h : ApplyPoint c tx t q) : ∀ x ∈ t, x.op.Under c.entityId token := by
  have htail : ∀ {b : List (Event calls)} {op : Call} {r : Reply calls op}
      {rest : List (Event calls)}, Trying c tx b op →
      (∀ x ∈ rest, x.op.Under c.entityId token) →
      ∀ x ∈ b ++ ⟨op, r⟩ :: rest, x.op.Under c.entityId token := by
    intro b op r rest hb hrest x hx
    rcases List.mem_append.mp hx with hx | hx
    · exact hb.under.1 x hx
    · rcases List.mem_cons.mp hx with rfl | hx
      · exact hb.under.2
      · exact hrest x hx
  cases h with
  | trying hb => exact hb.under.1
  | reporting | returned | reportHalted | refused =>
    simp [Call.Under, wrote, reauthed, committed, rolledBack, recorded]
  | escaped _ hb | cancelled hb | undoing hb _ => exact htail hb (by simp)
  | undoHalted hb _ _ | noting hb _ | noteHalted hb _ _ | failed hb _ =>
    exact htail hb (by simp [Call.Under, rolledBack, recorded])

theorem Reported.under {entityId : Str} {onLongHold : Bool} {started : ℚ}
    (h : Reported entityId onLongHold started t) : ∀ x ∈ t, x.op.Under entityId token := by
  cases h <;> simp [Call.Under, clock]

theorem ExitPoint.under {entityId : Str} {onLongHold : Bool} {started : ℚ}
    {o : Outcome Exn CommandOutcome} (h : ExitPoint entityId onLongHold token started o t q) :
    ∀ x ∈ t, x.op.Under entityId token := by
  cases h with
  | reading | readHalted | warning | warnHalted => simp [Call.Under, clock]
  | releasing hw => exact hw.under
  | left hw _ | releaseCancelled hw =>
    intro x hx
    rcases List.mem_append.mp hx with hx | hx
    · exact hw.under x hx
    · rw [List.mem_singleton.mp hx]
      exact ⟨rfl, rfl⟩

end

section
variable {args : LockArgs} {c : StateChange} {t : List (Event calls)}
  {q : Head calls CommandOutcome}

/-- Before its token, a worker has made one call at most, and then it has ended. -/
theorem LockPoint.under
    (h : LockPoint c.entityId args.lease args.wait args.onLongHold (applyStateChange c c.tx) t q) :
    (t = [] ∧ q = .call (.acquire (lockKey c.entityId) args.lease args.wait)) ∨
      (∃ r, (∀ token, r ≠ .ret (some token)) ∧
        t = [⟨.acquire (lockKey c.entityId) args.lease args.wait, r⟩] ∧
        q = .ended (unacquired c.entityId args.wait r)) ∨
      ∃ token rest, t = acquired c.entityId args.lease args.wait token :: rest ∧
        ∀ x ∈ rest, x.op.Under c.entityId token := by
  cases h with
  | acquiring => exact .inl ⟨rfl, rfl⟩
  | refused hr => exact .inr (.inl ⟨_, hr, rfl, rfl⟩)
  | starting token => exact .inr (.inr ⟨token, _, rfl, by simp⟩)
  | startHalted token _ => exact .inr (.inr ⟨token, _, rfl, by simp [Call.Under]⟩)
  | holding token started hb =>
    refine .inr (.inr ⟨token, _, rfl, ?_⟩)
    intro x hx
    rcases List.mem_cons.mp hx with rfl | hx
    · exact True.intro
    · exact (applyStateChange_point hb).under x hx
  | leaving token started hb hexit =>
    refine .inr (.inr ⟨token, _, rfl, ?_⟩)
    intro x hx
    rcases List.mem_cons.mp hx with rfl | hx
    · exact True.intro
    · rcases List.mem_append.mp hx with hx | hx
      · exact (applyStateChange_point hb).under x hx
      · exact hexit.under x hx

theorem LockPoint.acquires
    (h : LockPoint c.entityId args.lease args.wait args.onLongHold (applyStateChange c c.tx) t q)
    {k : Str} {l w : Seconds} {r : Outcome Exn (Option Str)} (hx : ⟨.acquire k l w, r⟩ ∈ t) :
    k = lockKey c.entityId ∧ l = args.lease ∧ w = args.wait := by
  rcases h.under with ⟨rfl, -⟩ | ⟨r', -, rfl, -⟩ | ⟨token, rest, rfl, hrest⟩
  · cases hx
  · cases List.mem_singleton.mp hx
    exact ⟨rfl, rfl, rfl⟩
  · rcases List.mem_cons.mp hx with he | hx
    · cases he
      exact ⟨rfl, rfl, rfl⟩
    · exact absurd (hrest _ hx) id

/-- A worker that has ended gave its token back, unless a call of the lock's failed. -/
theorem LockPoint.gives_back {o : Outcome Exn CommandOutcome} {token : Str}
    (h : LockPoint c.entityId args.lease args.wait args.onLongHold (applyStateChange c c.tx) t
      (.ended o)) (hx : acquired c.entityId args.lease args.wait token ∈ t) :
    ⟨.release (lockKey c.entityId) token, .ret ()⟩ ∈ t ∨ ∃ x ∈ t, failed x = true := by
  have hunder := h.under
  cases h with
  | refused hr =>
    cases List.mem_singleton.mp hx
    exact absurd rfl (hr token)
  | startHalted token' hr =>
    exact .inr ⟨⟨.monotonic, _⟩, by simp, hr.failed⟩
  | @leaving token' started t u _ _ hb hexit =>
    obtain rfl : token = token' := by
      rcases hunder with ⟨hnil, -⟩ | ⟨r, -, hone, -⟩ | ⟨token'', rest, hcons, hrest⟩
      · cases hnil
      · cases hone
      · obtain ⟨hhead, rfl⟩ := List.cons.inj hcons
        rcases List.mem_cons.mp hx with he | hx
        · cases he
          rfl
        · exact absurd (hrest _ hx) id
    have hmem : ∀ x ∈ u, x ∈ acquired c.entityId args.lease args.wait token ::
        clock started :: (t ++ u) := by
      intro x hx
      simp [hx]
    cases hexit with
    | readHalted hr =>
      exact .inr ⟨⟨.monotonic, _⟩, hmem _ (List.mem_singleton.mpr rfl), hr.failed⟩
    | warnHalted now _ _ hr =>
      have hlast := hmem _ (List.mem_cons_of_mem _ List.mem_cons_self)
      exact .inr ⟨⟨.onLongHold _ _, _⟩, hlast, hr.failed⟩
    | @left w r hw hr =>
      have hlast := hmem _ (List.mem_append_right w List.mem_cons_self)
      cases r with
      | ret a => exact .inl hlast
      | raised e => exact .inr ⟨_, hlast, rfl⟩
      | cancelled => exact absurd rfl hr
    | @releaseCancelled w hw =>
      exact .inr ⟨_, hmem _ (List.mem_append_right w List.mem_cons_self), rfl⟩

end

/-! ## All workers -/

variable {args : LockArgs} {s : Workers}
  {ok : Workers → Label calls StateChange Str → Locked → Prop}

/-- The call's token for its entity. -/
abbrev Given (args : LockArgs) (s : Workers) (i : Nat) (e token : Str) : Prop :=
  acquired e args.lease args.wait token ∈ s.log i

theorem locked_given (h : (locked args).Reach .empty ok s) {i : Nat} {x : Event calls}
    (hx : x ∈ s.log i) (hop : ∀ k l w, x.op ≠ .acquire k l w) :
    ∃ t token, s.threads[i]? = some t ∧ Given args s i t.job.entityId token ∧
      x.op.Under t.job.entityId token := by
  obtain ⟨t, ht⟩ : ∃ t, s.threads[i]? = some t :=
    ⟨_, List.getElem?_eq_getElem (h.trace_lt _ (mem_logOf.mp hx))⟩
  rcases (locked_point (h.after ht)).under with
    ⟨hnil, -⟩ | ⟨r, -, hone, -⟩ | ⟨token, rest, hcons, hrest⟩
  · rw [hnil] at hx
    cases hx
  · rw [hone] at hx
    rw [List.mem_singleton.mp hx] at hop
    exact absurd rfl (hop _ _ _)
  · refine ⟨t, token, ht, ?_, ?_⟩
    · rw [Given, hcons]
      exact List.mem_cons_self
    · rw [hcons] at hx
      rcases List.mem_cons.mp hx with rfl | hx
      · exact absurd rfl (hop _ _ _)
      · exact hrest x hx

theorem locked_rows (h : (locked args).Reach .empty ok s) :
    ∀ row ∈ s.shared.stores.audit, ∃ x ∈ s.trace, Call.row x.1 x.2.op = some row := by
  refine h.inv (P := fun b tr => ∀ row ∈ b.stores.audit, ∃ x ∈ tr, Call.row x.1 x.2.op = some row)
    (by simp [Locked.empty, Stores.empty]) ?_ ?_
  · intro s i d op k r b _ ih _ ha _ row hrow
    have hsame : b.stores.audit = s.shared.stores.audit ∨
        b.stores.audit = s.shared.stores.audit ++ (op.row i).toList := by
      rcases locked_effect ha with ⟨rfl, -⟩ | ⟨a, he, -⟩
      · exact .inl rfl
      · cases he with
        | store he => exact .inr he.audit
        | _ => exact .inl rfl
    have hold : row ∈ s.shared.stores.audit →
        ∃ x ∈ s.trace ++ [(i, (⟨op, r⟩ : Event calls))], Call.row x.1 x.2.op = some row := by
      intro hin
      obtain ⟨x, hx, hxr⟩ := ih row hin
      exact ⟨x, List.mem_append_left _ hx, hxr⟩
    rcases hsame with hs | hs <;> rw [hs] at hrow
    · exact hold hrow
    · rcases List.mem_append.mp hrow with hin | hin
      · exact hold hin
      · exact ⟨_, List.mem_append_right _ (List.mem_singleton.mpr rfl), Option.mem_toList.mp hin⟩
  · rintro s m b _ ih rfl _
    exact ih

theorem released_granted (h : (locked args).Reach .empty ok s) {j : Nat} {key token : Str}
    {r : Reply calls (.release key token)} (hx : (j, ⟨.release key token, r⟩) ∈ s.trace) :
    ∃ g ∈ s.shared.grants, g.token = token := by
  obtain ⟨t, token', -, hgiven, -, rfl⟩ := locked_given h (mem_logOf.mpr hx) (by simp)
  have hg := (locked_locking args).granted rfl h
  exact ⟨_, hg.granted j _ _ _ _ (mem_logOf.mp hgiven), rfl⟩

/-- Who was granted the entry of a key acquired it, and has not released it; or its `acquire` failed
after all. -/
def Owners (args : LockArgs) (b : Backend) (tr : List (Nat × Event calls)) : Prop :=
  ∀ key token, b.owner key = some token → ∃ i r, ⟨i, key, token⟩ ∈ b.grants ∧
    (i, (⟨.acquire key args.lease args.wait, r⟩ : Event calls)) ∈ tr ∧
    (r.failed = true ∨ r = .ret (some token) ∧
      ∀ j, (j, (⟨.release key token, .ret ()⟩ : Event calls)) ∉ tr)

theorem locked_owners (h : (locked args).Reach .empty ok s) :
    Owners args s.shared.toBackend s.trace := by
  refine h.inv (P := fun b tr => Owners args b.toBackend tr)
    (by simp [Owners, Locked.empty, Backend.empty]) ?_ ?_
  · intro s i d op k r b hr ih hj ha _ key token hown
    have hold : s.shared.owner key = some token →
        (∀ r', (⟨op, r⟩ : Event calls) = ⟨.release key token, r'⟩ → r' ≠ .ret ()) →
        ∃ i' r', ⟨i', key, token⟩ ∈ b.grants ∧
          (i', (⟨.acquire key args.lease args.wait, r'⟩ : Event calls)) ∈
            s.trace ++ [(i, ⟨op, r⟩)] ∧
          (r'.failed = true ∨ r' = .ret (some token) ∧ ∀ j,
            (j, (⟨.release key token, .ret ()⟩ : Event calls)) ∉ s.trace ++ [(i, ⟨op, r⟩)]) := by
      intro hbefore hnew
      obtain ⟨i', r', hin, hx, hr'⟩ := ih key token hbefore
      have hin' : ⟨i', key, token⟩ ∈ b.grants := by
        rcases (locked_locking args).answer ha with ⟨heq, -⟩ | ⟨a, he, -⟩
        · rwa [heq]
        · exact he.grants _ hin
      refine ⟨i', r', hin', List.mem_append_left _ hx, hr'.imp_right fun hret => ⟨hret.1, ?_⟩⟩
      intro j hj'
      rcases List.mem_append.mp hj' with hj' | hj'
      · exact hret.2 j hj'
      · have heq := (Prod.mk.inj (List.mem_singleton.mp hj')).2
        exact hnew (.ret ()) heq.symm rfl
    have hgiven : ∀ j token' r', (j, (⟨.release key token', r'⟩ : Event calls)) ∈ s.trace →
        ∃ g ∈ s.shared.toBackend.grants, g.token = token' :=
      fun j token' r' hx => released_granted hr hx
    rcases (locked_locking args).answer ha with ⟨heq, hnone⟩ | ⟨a, he, hret⟩
    · rw [heq] at hown
      refine hold hown ?_
      rintro r' heq rfl
      cases heq
      exact hnone () rfl
    generalize s.shared.toBackend = b₀, b.toBackend = b₁ at he hold hgiven hown
    cases he with
    | busy => exact hold hown (by rintro r' ⟨⟩)
    | other _ hno =>
      refine hold hown ?_
      rintro r' heq -
      cases heq
      exact hno True.intro
    | stale hother =>
      refine hold hown ?_
      rintro r' heq -
      cases heq
      exact hother hown
    | @released key' token' hown' =>
      by_cases hk : key = key'
      · subst hk
        cases (Function.update_self key none b₀.owner).symm.trans hown
      · refine hold ((Function.update_of_ne hk _ _).symm.trans hown) ?_
        rintro r' heq -
        cases heq
        exact hk rfl
    | @acquired key' token' lease wait hfree hfresh =>
      by_cases hk : key = key'
      · subst hk
        have hself := Function.update_self key (some token') b₀.owner
        obtain rfl : token' = token := Option.some.inj (hself.symm.trans hown)
        have hpoint := locked_point ((hr.after hj).snoc r)
        obtain ⟨-, rfl, rfl⟩ := hpoint.acquires (List.mem_append_right _ List.mem_cons_self)
        refine ⟨i, r, List.mem_append_right _ (List.mem_singleton.mpr rfl),
          List.mem_append_right _ List.mem_cons_self, ?_⟩
        cases r with
        | ret a' =>
          refine .inr ⟨by rw [hret a' rfl], ?_⟩
          intro j hj'
          rcases List.mem_append.mp hj' with hj' | hj'
          · obtain ⟨g, hg, htoken⟩ := hgiven j _ _ hj'
            exact hfresh g hg htoken
          · cases List.mem_singleton.mp hj'
        | raised e => exact .inl rfl
        | cancelled => exact .inl rfl
      · exact hold ((Function.update_of_ne hk _ _).symm.trans hown) (by rintro r' ⟨⟩)
  · rintro s m b _ ih rfl _ key token hown
    have hown : Function.update s.shared.owner m none key = some token := hown
    by_cases hk : key = m
    · subst hk
      simp at hown
    · exact ih key token (by simpa [hk] using hown)

/-- What is done in a run, and what is left behind. -/
structure UnderTokens (args : LockArgs) (s : Workers) : Prop where
  /-- A token is given to one call. -/
  one : ∀ i j e e' token, Given args s i e token → Given args s j e' token → i = j
  /-- A write of either store was made under a token for its entity. -/
  written : ∀ w ∈ s.shared.stores.journal, ∃ token, Given args s w.call w.entity token
  /-- So was a row of the trail. -/
  recorded : ∀ row ∈ s.shared.stores.audit, ∃ token, Given args s row.call row.entityId token
  /-- A call releases the token it was given. -/
  released : ∀ i key token r, (⟨.release key token, r⟩ : Event calls) ∈ s.log i →
    ∃ e, key = lockKey e ∧ Given args s i e token
  /-- A call that has ended without a token made one call, and ended as the lock says. -/
  lockedOut : ∀ (i : Nat) t o, s.threads[i]? = some t → t.code = .done o →
    (∀ token, ¬ Given args s i t.job.entityId token) →
    ∃ r, s.log i = [⟨.acquire (lockKey t.job.entityId) args.lease args.wait, r⟩] ∧
      o = unacquired t.job.entityId args.wait r
  /-- The token that owns a key was granted to a call in flight, or to one that was killed or had a
  call fail; or the `acquire` that it was granted to failed. -/
  owned : ∀ key token, s.shared.owner key = some token → ∃ (i : Nat) (t : Thread _ _ _),
    s.threads[i]? = some t ∧ key = lockKey t.job.entityId ∧ ⟨i, key, token⟩ ∈ s.shared.grants ∧
      ((Given args s i t.job.entityId token ∧
          (t.InFlight ∨ t.dead = true ∨ ∃ x ∈ s.log i, failed x = true)) ∨
        ∃ r, (⟨.acquire key args.lease args.wait, r⟩ : Event calls) ∈ s.log i ∧ r.failed = true)

/-- **Under tokens.** -/
theorem under_tokens (h : (locked args).Reach .empty ok s) : UnderTokens args s where
  one i j e e' token hi hj :=
    ((locked_locking args).granted rfl h).one (mem_logOf.mp hi) (mem_logOf.mp hj)
  written w hw := by
    obtain ⟨x, hx, hcall, hop⟩ := (locked_writers args).called rfl h w hw
    obtain ⟨t, ht, hent, -, -⟩ := (locked_writers args).author rfl h hw
    obtain ⟨t', token, ht', hgiven, -⟩ := locked_given h (mem_logOf.mpr hx) (by
      intro k l w' he
      rw [he] at hop
      cases hop)
    rw [hcall] at ht' hgiven
    obtain rfl : t = t' := Option.some.inj (ht.symm.trans ht')
    exact ⟨token, hent ▸ hgiven⟩
  recorded row hrow := by
    obtain ⟨⟨i, op, r⟩, hx, hop⟩ := locked_rows h row hrow
    cases op with
    | record ent ev res =>
      cases hop
      obtain ⟨t, token, -, hgiven, he⟩ := locked_given h (mem_logOf.mpr hx) (by simp)
      exact ⟨token, (show ent = t.job.entityId from he) ▸ hgiven⟩
    | _ => cases hop
  released i key token r hx := by
    obtain ⟨t, token', -, hgiven, rfl, rfl⟩ := locked_given h hx (by simp)
    exact ⟨_, rfl, hgiven⟩
  lockedOut i t o ht ho hno := by
    rcases (locked_point (h.ended ht ho)).under with
      ⟨-, hq⟩ | ⟨r, -, hlog, hq⟩ | ⟨token, rest, hlog, -⟩
    · cases hq
    · exact ⟨r, hlog, Head.ended.inj hq⟩
    · refine absurd ?_ (hno token)
      rw [Given, hlog]
      exact List.mem_cons_self
  owned key token hown := by
    obtain ⟨i, r, hin, hx, hr⟩ := locked_owners h key token hown
    obtain ⟨t, ht⟩ : ∃ t, s.threads[i]? = some t := ⟨_, List.getElem?_eq_getElem (h.trace_lt _ hx)⟩
    obtain ⟨rfl, -, -⟩ := (locked_point (h.after ht)).acquires (mem_logOf.mpr hx)
    refine ⟨i, t, ht, rfl, hin, ?_⟩
    rcases hr with hfail | ⟨rfl, hno⟩
    · exact .inr ⟨r, mem_logOf.mpr hx, hfail⟩
    refine .inl ⟨mem_logOf.mpr hx, ?_⟩
    obtain ⟨job, code, dead⟩ := t
    cases dead with
    | true => exact .inr (.inl rfl)
    | false =>
      cases code with
      | await op k => exact .inl ⟨rfl, op, rfl⟩
      | done o =>
        rcases (locked_point (h.ended ht rfl)).gives_back (mem_logOf.mpr hx) with hback | hfail
        · exact absurd (mem_logOf.mp hback) (hno i)
        · exact .inr (.inr hfail)

theorem under_tokens_overtaken : ∃ s, (locked lockArgs).Reach .empty anyStep s ∧
    s.threads = [⟨suspension, .done (.ret .applied), false⟩,
      ⟨reactivation, .done (.ret .applied), false⟩] ∧ UnderTokens lockArgs s := by
  obtain ⟨s, h, hthreads, -⟩ := reach_overtaken
  exact ⟨s, h, hthreads, under_tokens h⟩

end IspPlatform.Concurrency
