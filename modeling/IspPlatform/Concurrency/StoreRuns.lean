import IspPlatform.Concurrency.Stores

/-!
# Runs over the two stores

`Writers` is what the journal needs from a system of concurrent state changes, and
`Exclusive` what the callers' locks give: two calls about to write for one entity are
one call. Under these the writes of an entity are `Ordered` in every reachable state.

`stores mayFail` is the system in which calls on one entity do not overlap.
-/

namespace IspPlatform.Concurrency

open Py System

/-- The calls of the `try` up to the commit. -/
def Call.InSection : Call → Prop
  | .writeGroup .. | .forceReauth _ | .commit _ => True
  | _ => False

/-- A live thread stands at a call of its section. -/
def AtSection (t : Thread calls StateChange CommandOutcome) : Prop :=
  t.dead = false ∧ ∃ op, t.code.head = .call op ∧ op.InSection

section
variable {σ τ : Type}

/-- The system's threads are state changes, and its calls act on the journal as the
collaborators do. -/
structure Writers (S : System calls StateChange CommandOutcome σ τ) (stores : σ → Stores) :
    Prop where
  answer : ∀ {i s op r s'}, S.answer i s op r s' →
    ((stores s').journal = (stores s).journal ∧ ∀ a, r = .ret a → op.write i = none) ∨
      ∃ w, op.write i = some w ∧ (stores s').journal = (stores s).journal ++ [w]
  tick : ∀ {m s s'}, S.tick m s s' → (stores s').journal = (stores s).journal
  point : ∀ {c t q}, After (S.main c) t q → WritePoint c t q.head

variable {S : System calls StateChange CommandOutcome σ τ} {stores : σ → Stores}
  {σ₀ : σ} {ok : Pool calls StateChange CommandOutcome σ → Label calls StateChange τ → σ → Prop}
  {s : Pool calls StateChange CommandOutcome σ}

theorem Writers.called (W : Writers S stores) (h₀ : (stores σ₀).journal = [])
    (h : S.Reach σ₀ ok s) :
    ∀ w ∈ (stores s.shared).journal,
      ∃ x ∈ s.trace, x.1 = w.call ∧ Call.write x.1 x.2.op = some w := by
  refine h.inv (P := fun b tr => ∀ w ∈ (stores b).journal, ∃ x ∈ tr, x.1 = w.call ∧
    Call.write x.1 x.2.op = some w) (by simp [h₀]) ?_ ?_
  · intro s i d op k r σ' _ ih _ ha _ w hw
    have hold : w ∈ (stores s.shared).journal →
        ∃ x ∈ s.trace ++ [(i, (⟨op, r⟩ : Event calls))], x.1 = w.call ∧
          Call.write x.1 x.2.op = some w := by
      intro hw
      obtain ⟨x, hx, hxw⟩ := ih w hw
      exact ⟨x, List.mem_append_left _ hx, hxw⟩
    rcases W.answer ha with ⟨hj, -⟩ | ⟨w', hop, hj⟩
    · exact hold (hj ▸ hw)
    · rw [hj] at hw
      rcases List.mem_append.mp hw with hw | hw
      · exact hold hw
      · obtain rfl := List.mem_singleton.mp hw
        refine ⟨(i, ⟨op, r⟩), List.mem_append_right _ (List.mem_singleton.mpr rfl), ?_, hop⟩
        cases op <;> cases hop <;> rfl
  · intro s m σ' _ ih ht _
    rw [W.tick ht]
    exact ih

theorem Writers.shown (W : Writers S stores) (h : S.Reach σ₀ ok s) :
    ∀ x ∈ s.trace, ∀ w a, Call.write x.1 x.2.op = some w → x.2.reply = .ret a →
      w ∈ (stores s.shared).journal := by
  refine h.inv (P := fun b tr => ∀ x ∈ tr, ∀ w a, Call.write x.1 x.2.op = some w →
    x.2.reply = .ret a → w ∈ (stores b).journal) (by simp) ?_ ?_
  · intro s i d op k r σ' _ ih _ ha _ x hx w a hop hr
    rcases List.mem_append.mp hx with hx | hx
    · have hin := ih x hx w a hop hr
      rcases W.answer ha with ⟨hj, -⟩ | ⟨w', -, hj⟩ <;> rw [hj]
      · exact hin
      · exact List.mem_append_left _ hin
    · obtain rfl := List.mem_singleton.mp hx
      rcases W.answer ha with ⟨-, hnone⟩ | ⟨w', hop', hj⟩
      · rw [hnone a hr] at hop
        cases hop
      · rw [hj, Option.some.inj (hop.symm.trans hop')]
        exact List.mem_append_right _ (List.mem_singleton.mpr rfl)
  · intro s m σ' _ ih ht _
    rw [W.tick ht]
    exact ih

theorem Writers.author (W : Writers S stores) (h₀ : (stores σ₀).journal = [])
    (h : S.Reach σ₀ ok s) {w : Write} (hw : w ∈ (stores s.shared).journal) :
    ∃ t, s.threads[w.call]? = some t ∧ w.entity = t.job.entityId ∧
      w.group = t.job.targetGroup ∧
      (w.store = .ledger → ∃ o, ¬ o.Refused ∧ (w.call, reauthed t.job o) ∈ s.trace) := by
  obtain ⟨⟨i, e⟩, hx, rfl, hop⟩ := W.called h₀ h w hw
  have ht := List.getElem?_eq_getElem (h.trace_lt _ hx)
  obtain ⟨he, hg, hst⟩ := (W.point (h.after ht)).called e (mem_logOf.mpr hx) _ w hop
  refine ⟨_, ht, he, hg, fun hl => ?_⟩
  obtain ⟨o, ho, hin⟩ := hst hl
  exact ⟨o, ho, mem_logOf.mp hin⟩

/-- Calls in their section on `e` are one call. -/
def Exclusive (e : Str) (s : Pool calls StateChange CommandOutcome σ) : Prop :=
  ∀ (i j : Nat) t t', s.threads[i]? = some t → s.threads[j]? = some t' →
    AtSection t → AtSection t' → t.job.entityId = e → t'.job.entityId = e → i = j

/-- While a call is in its section, no other writes the projection of the entity. -/
theorem Writers.undisturbed {ent : Str} (W : Writers S stores) (hx : Exclusive ent s)
    (hr : S.Reach σ₀ ok s) {i j : Nat} {t : Thread calls StateChange CommandOutcome}
    (hi : s.threads[i]? = some t) (hat : AtSection t) (hent : t.job.entityId = ent)
    (hij : i ≠ j) {d : StateChange} {op : Call} {k : Reply calls op → Prog calls CommandOutcome}
    (hj : s.threads[j]? = some ⟨d, .await op k, false⟩) {r : Reply calls op} {σ' : σ}
    (ha : S.answer j s.shared op r σ') :
    (stores σ').journal.latest .projection ent =
      (stores s.shared).journal.latest .projection ent := by
  rcases W.answer ha with ⟨hj', -⟩ | ⟨w, hop, hj'⟩ <;> rw [hj']
  rw [Journal.latest_snoc, if_neg ?_]
  rintro ⟨hst, he⟩
  cases op with
  | writeGroup e g =>
    cases hop
    obtain ⟨hent', -, -⟩ := (W.point (hr.after hj)).write e g rfl
    have hsection : AtSection ⟨d, .await (.writeGroup e g) k, false⟩ :=
      ⟨rfl, _, rfl, True.intro⟩
    exact hij (hx i j t _ hi hj hat hsection hent (hent'.symm.trans he))
  | commit tx =>
    cases hop
    cases hst
  | _ => cases hop

/-- Between its projection write and its commit, a call is the last to have written the
projection. -/
theorem Writers.held {ent : Str} (W : Writers S stores)
    (hx : ∀ {s}, S.Reach σ₀ ok s → Exclusive ent s) (h : S.Reach σ₀ ok s) :
    ∀ (i : Nat) (t : Thread calls StateChange CommandOutcome), s.threads[i]? = some t →
      t.dead = false → t.job.entityId = ent →
      ((∃ e, t.code.head = .call (.forceReauth e)) ∨ ∃ tx, t.code.head = .call (.commit tx)) →
      (stores s.shared).journal.latest .projection ent =
        some ⟨.projection, i, ent, t.job.targetGroup⟩ := by
  induction h with
  | init => simp
  | @step s s' l hr hs hok ih =>
    intro i t ht hd hent hat
    have hpoint := W.point ((hr.step hs hok).after ht)
    cases hs with
    | start _ =>
      rcases getElem?_snoc_cases ht with ht | ⟨rfl, rfl⟩
      · exact ih i t ht hd hent hat
      · have hnil := hr.log_new
        simp only [Pool.log] at hnil hpoint
        rw [hnil] at hpoint
        rcases hat with ⟨e, he⟩ | ⟨tx, htx⟩
        · obtain ⟨-, pre, hpre⟩ := hpoint.reauth e he
          simp at hpre
        · obtain ⟨-, pre, o, hpre⟩ := hpoint.commit tx htx
          simp at hpre
    | @answer j d op k r σ' hj ha =>
      rcases getElem?_set_cases ht with ⟨rfl, rfl⟩ | ⟨hij, hi⟩
      · -- its own call: the write itself, or the device command after it
        simp only [Pool.log, logOf_snoc, if_true] at hpoint
        rcases hat with ⟨e, he⟩ | ⟨tx, htx⟩
        · obtain ⟨-, pre, hpre⟩ := hpoint.reauth e he
          cases List.singleton_inj.mp (List.append_inj' hpre rfl).2
          rcases W.answer ha with ⟨-, hnone⟩ | ⟨w, hop, hj'⟩
          · cases hnone () rfl
          · cases hop
            subst hent
            rw [hj', Journal.latest_snoc, if_pos ⟨rfl, rfl⟩]
        · obtain ⟨-, pre, o, hpre⟩ := hpoint.commit tx htx
          have hpre' : logOf s.trace i ++ [⟨op, r⟩] = (pre ++ [wrote d]) ++ [reauthed d o] := by
            rw [hpre, List.append_assoc]; rfl
          cases List.singleton_inj.mp (List.append_inj' hpre' rfl).2
          rcases W.answer ha with ⟨hj', -⟩ | ⟨w, hop, -⟩
          · rw [hj']
            have hold := ih i _ hj rfl hent (.inl ⟨_, rfl⟩)
            exact hold
          · cases hop
      · -- another call writes the projection of this entity only from its section
        have hsection : AtSection t := by
          rcases hat with ⟨e, he⟩ | ⟨tx, htx⟩
          · exact ⟨hd, _, he, True.intro⟩
          · exact ⟨hd, _, htx, True.intro⟩
        rw [W.undisturbed (hx hr) hr hi hsection hent hij hj ha]
        exact ih i t hi hd hent hat
    | die _ hj =>
      rcases getElem?_set_cases ht with ⟨rfl, rfl⟩ | ⟨-, ht⟩
      · cases hd
      · exact ih i t ht hd hent hat
    | tick hm =>
      rw [W.tick hm]
      exact ih i t ht hd hent hat

/-- **An entity's writes are ordered** in every reachable state. -/
theorem Writers.ordered {ent : Str} (W : Writers S stores) (h₀ : (stores σ₀).journal = [])
    (hx : ∀ {s}, S.Reach σ₀ ok s → Exclusive ent s) (h : S.Reach σ₀ ok s) :
    ((stores s.shared).journal.of ent).Ordered := by
  refine h.inv (P := fun b _ => ((stores b).journal.of ent).Ordered) (by rw [h₀]; exact .nil) ?_ ?_
  · intro s i d op k r σ' hr ih hj ha _
    have hpoint := W.point (hr.after hj)
    rcases W.answer ha with ⟨hj', -⟩ | ⟨w, hop, hj'⟩ <;> rw [hj']
    · exact ih
    rw [Journal.of_snoc]
    by_cases he : w.entity = ent
    · rw [if_pos he]
      subst he
      cases op with
      | writeGroup e g =>
        cases hop
        refine .project i e g ih ?_
        intro w hw hcall
        obtain ⟨⟨n, x⟩, hin, rfl, hxw⟩ := W.called h₀ hr w (Journal.mem_of.mp hw).1
        obtain ⟨-, -, hnone⟩ := hpoint.write e g rfl
        rw [hnone x (mem_logOf.mpr (by rw [← hcall]; exact hin))] at hxw
        cases hxw
      | commit tx =>
        cases hop
        obtain ⟨htx, -⟩ := hpoint.commit tx rfl
        have hlast := W.held hx hr i _ hj rfl (congrArg Tx.entityId htx).symm (.inr ⟨_, rfl⟩)
        refine .install i _ _ ih ?_
        rw [Journal.latest_of]
        exact hlast.trans (by rw [htx]; rfl)
      | _ => cases hop
    · rw [if_neg he]
      exact ih
  · intro s m σ' _ ih ht _
    rw [W.tick ht]
    exact ih

end

theorem answers_journal {σ : Type} (stores : σ → Stores)
    {effect : Nat → σ → (op : Call) → op.Res → σ → Prop} {mayRaise : Call → Exn → Prop}
    {mayCancel : Call → Prop} {i : Nat} {s s' : σ} {op : Call} {r : Reply calls op}
    (heff : ∀ a, effect i s op a s' →
      (stores s').journal = (stores s).journal ++ (op.write i).toList)
    (h : answers (I := calls) effect mayRaise mayCancel i s op r s') :
    ((stores s').journal = (stores s).journal ∧ ∀ a, r = .ret a → op.write i = none) ∨
      ∃ w, op.write i = some w ∧ (stores s').journal = (stores s).journal ++ [w] := by
  rcases answers_effect h with ⟨rfl, hr⟩ | ⟨a, he, -⟩
  · exact .inl ⟨rfl, fun a ha => absurd ha (hr a)⟩
  · have hj := heff a he
    cases hw : op.write i with
    | none => exact .inl ⟨by simpa [hw] using hj, fun _ _ => rfl⟩
    | some w => exact .inr ⟨w, rfl, by simpa [hw] using hj⟩

/-! ## Calls that do not overlap -/

/-- State changes over one pair of stores. A call starts when none is in flight for its
entity; the calls in `mayFail` may raise or be cancelled, before or after their effect; a
process may die at any await. -/
def dualStore (mayFail : Call → Prop) :
    System calls StateChange CommandOutcome Stores Empty where
  main c := applyStateChange c c.tx
  answer := answers StoreEffect (fun op _ => mayFail op) mayFail
  tick m := m.elim
  mayStart ts c := ∀ t ∈ ts, t.InFlight → t.job.entityId ≠ c.entityId
  mortal := True

abbrev Changes := Pool calls StateChange CommandOutcome Stores

variable {mayFail : Call → Prop} {s : Changes}
  {ok : Changes → Label calls StateChange Empty → Stores → Prop}

theorem dualStore_writers : Writers (dualStore mayFail) id where
  answer h := by
    dsimp only [dualStore] at h
    exact answers_journal id (fun _ he => he.journal) h
  tick {m} := m.elim
  point h := (applyStateChange_point h).writes

theorem dualStore_last (h : (dualStore mayFail).Reach .empty ok s) :
    ∀ (i j : Nat) (t t' : Thread calls StateChange CommandOutcome), s.threads[i]? = some t →
      t.InFlight → s.threads[j]? = some t' → t'.job.entityId = t.job.entityId → j ≤ i :=
  h.last_of_inFlight StateChange.entityId fun _ _ hs => hs

theorem dualStore_exclusive (e : Str) (h : (dualStore mayFail).Reach .empty ok s) :
    Exclusive e s := by
  rintro i j t t' hi hj ⟨hd, op, hop, -⟩ ⟨hd', op', hop', -⟩ he he'
  have h₁ := dualStore_last h i j t t' hi ⟨hd, op, hop⟩ hj (he'.trans he.symm)
  have h₂ := dualStore_last h j i t' t hj ⟨hd', op', hop'⟩ hi (he.trans he'.symm)
  omega

theorem dualStore_ordered (e : Str) (h : (dualStore mayFail).Reach .empty ok s) :
    (s.shared.journal.of e).Ordered :=
  dualStore_writers.ordered rfl (dualStore_exclusive e) h

theorem dualStore_pairwise (h : (dualStore mayFail).Reach .empty ok s) :
    s.shared.journal.Pairwise fun a b => a.entity = b.entity → a.call ≤ b.call := by
  refine h.inv (P := fun b _ => b.journal.Pairwise fun a b => a.entity = b.entity →
    a.call ≤ b.call) (by simp [Stores.empty]) ?_ (fun {_ m} => m.elim)
  intro s i d op k r b hr ih hj ha _
  rcases dualStore_writers.answer ha with ⟨hj', -⟩ | ⟨w, hop, hj'⟩
  · simp only [id] at hj'
    rw [hj']
    exact ih
  · simp only [id] at hj'
    rw [hj', List.pairwise_append]
    refine ⟨ih, List.pairwise_singleton _ _, ?_⟩
    intro a ha' w' hw he
    obtain rfl := List.mem_singleton.mp hw
    obtain ⟨t, ht, hent, -, -⟩ := dualStore_writers.author rfl hr ha'
    have hpoint := dualStore_writers.point (hr.after hj)
    have hw : w'.call = i ∧ w'.entity = d.entityId := by
      cases op with
      | writeGroup e g =>
        cases hop
        exact ⟨rfl, (hpoint.write e g rfl).1⟩
      | commit tx =>
        cases hop
        obtain ⟨htx, -⟩ := hpoint.commit tx rfl
        exact ⟨rfl, congrArg Tx.entityId htx⟩
      | _ => cases hop
    rw [hw.1]
    refine dualStore_last hr i a.call _ t hj ⟨rfl, _, rfl⟩ ht ?_
    rw [← hent, he, hw.2]

theorem reach_effect (h : (dualStore mayFail).Reach .empty anyStep s) {i : Nat} {d : StateChange}
    (op : Call) {k : Reply calls op → Prog calls CommandOutcome} (a : op.Res) {b : Stores}
    (hj : s.threads[i]? = some ⟨d, .await op k, false⟩) (he : StoreEffect i s.shared op a b) :
    (dualStore mayFail).Reach .empty anyStep
      ⟨b, s.threads.set i ⟨d, k (.ret a), false⟩, s.trace ++ [(i, ⟨op, .ret a⟩)]⟩ :=
  h.answer (.ret a) b hj he True.intro

def suspension : StateChange := ⟨lit "acct7", lit "suspended", lit "suspend"⟩

/-- What is left of a state change whose projection write returned. -/
def projectedRest (c : StateChange) : Prog calls CommandOutcome :=
  match applyStateChange c c.tx with
  | .await (.writeGroup _ _) k => k (.ret ())
  | p => p

/-- The projection is written, the device not yet commanded. -/
def projectedSuspension : Changes :=
  ⟨⟨[⟨.projection, 0, lit "acct7", lit "suspended"⟩], []⟩,
    [⟨suspension, projectedRest suspension, false⟩], [(0, wrote suspension)]⟩

theorem reach_projectedSuspension :
    (dualStore mayFail).Reach .empty anyStep projectedSuspension := by
  have start : (dualStore mayFail).Reach .empty anyStep
      ⟨.empty, [⟨suspension, applyStateChange suspension suspension.tx, false⟩], []⟩ :=
    Reach.init.start suspension (by rintro t ⟨⟩) True.intro
  exact reach_effect start (i := 0) (.writeGroup (lit "acct7") (lit "suspended")) () rfl
    .writeGroup

/-- The suspension has returned. -/
def settledSuspension : Changes :=
  ⟨⟨[⟨.projection, 0, lit "acct7", lit "suspended"⟩, ⟨.ledger, 0, lit "acct7", lit "suspended"⟩],
      [⟨0, lit "acct7", lit "suspend", lit "success"⟩]⟩,
    [⟨suspension, .done (.ret .applied), false⟩],
    [(0, wrote suspension), (0, reauthed suspension .applied), (0, committed suspension.tx),
      (0, recorded suspension (lit "success"))]⟩

theorem reach_settledSuspension :
    (dualStore mayFail).Reach .empty anyStep settledSuspension := by
  have projected : (dualStore mayFail).Reach .empty anyStep projectedSuspension :=
    reach_projectedSuspension
  have reauthed := reach_effect projected (i := 0)
    (.forceReauth (lit "acct7")) .applied rfl (.forceReauth .applied)
  have committed := reach_effect reauthed (i := 0) (.commit suspension.tx) () rfl .commit
  exact reach_effect committed (i := 0) (.record (lit "acct7") (lit "suspend") (lit "success")) ()
    rfl .record

/-! ## The ledger behind the projection -/

theorem ApplyPoint.of_ret {c : StateChange} {tx : Tx} {t : List (Event calls)}
    {o : CommandOutcome} (h : ApplyPoint c tx t (.ended (.ret o))) :
    ¬ o.Refused ∧ t = [wrote c, reauthed c o, committed tx, recorded c (lit "success")] := by
  cases h with
  | returned _ ho => exact ⟨ho, rfl⟩
  | reportHalted _ _ hr | undoHalted _ _ hr | noteHalted _ _ hr => exact absurd rfl (hr.ne_ret _)

/-- What a reachable state says about the ledger and the projection, which agreed on `v₀`. -/
structure LedgerBehind (v₀ : Str → Str) (s : Changes) : Prop where
  /-- The call that changed the ledger last had projected the same group, and its device
  command had been applied or had found no session. -/
  changed : ∀ e w, s.shared.journal.latest .ledger e = some w → ∃ pre post t o,
    s.shared.journal.of e = pre ++ w :: post ∧ ⟨.projection, w.call, e, w.group⟩ ∈ pre ∧
    s.threads[w.call]? = some t ∧ t.job.entityId = e ∧ t.job.targetGroup = w.group ∧
    (w.call, reauthed t.job o) ∈ s.trace ∧ (o = .applied ∨ o = .noSession)
  /-- Where the two differ, the projection has the target of the latest call that
  projected, and that call has not committed. -/
  differs : ∀ e, s.shared.journal.value v₀ .ledger e ≠ s.shared.journal.value v₀ .projection e →
    ∃ w t, s.shared.journal.latest .projection e = some w ∧
      (∀ x ∈ s.shared.journal, x.store = .projection → x.entity = e → x.call ≤ w.call) ∧
      s.threads[w.call]? = some t ∧ t.job.entityId = e ∧
      s.shared.journal.value v₀ .projection e = t.job.targetGroup ∧
      ∀ x ∈ s.shared.journal, x.store = .ledger → x.call ≠ w.call
  /-- A call that returned left both at its target, until another call on its entity. -/
  settled : ∀ (i : Nat) t o, s.threads[i]? = some t → t.code = .done (.ret o) →
    (∀ (j : Nat) t', s.threads[j]? = some t' → t'.job.entityId = t.job.entityId → j ≤ i) →
    s.shared.journal.value v₀ .ledger t.job.entityId = t.job.targetGroup ∧
      s.shared.journal.value v₀ .projection t.job.entityId = t.job.targetGroup
  /-- In particular at the step that returns. -/
  returned : ∀ (i : Nat) e s', (dualStore fun _ => True).Step s (.answer i e) s' →
    ∀ t o, s'.threads[i]? = some t → t.code = .done (.ret o) →
      s'.shared.journal.value v₀ .ledger t.job.entityId = t.job.targetGroup ∧
        s'.shared.journal.value v₀ .projection t.job.entityId = t.job.targetGroup

/-- The last call of an entity, once returned, made the last write of both stores. -/
theorem dualStore_settled (h : (dualStore mayFail).Reach .empty ok s) (v₀ : Str → Str) {i : Nat}
    {t : Thread calls StateChange CommandOutcome} {o : CommandOutcome}
    (ht : s.threads[i]? = some t) (hret : t.code = .done (.ret o))
    (hlast : ∀ (j : Nat) t', s.threads[j]? = some t' → t'.job.entityId = t.job.entityId → j ≤ i)
    (st : Store) : s.shared.journal.value v₀ st t.job.entityId = t.job.targetGroup := by
  obtain ⟨-, hlog⟩ := ApplyPoint.of_ret (applyStateChange_point (h.ended ht hret))
  have hin : ⟨st, i, t.job.entityId, t.job.targetGroup⟩ ∈ s.shared.journal := by
    cases st with
    | ledger =>
      have hx : committed t.job.tx ∈ s.log i := by rw [hlog]; simp
      exact dualStore_writers.shown h _ (mem_logOf.mp hx) _ () rfl rfl
    | projection =>
      have hx : wrote t.job ∈ s.log i := by rw [hlog]; simp
      exact dualStore_writers.shown h _ (mem_logOf.mp hx) _ () rfl rfl
  obtain ⟨v, hv, hle⟩ := Journal.latest_ge hin (dualStore_pairwise h)
  obtain ⟨hmem, -, hent⟩ := Journal.latest_mem hv
  obtain ⟨t', ht', he', hg', -⟩ := dualStore_writers.author rfl h hmem
  have hge := hlast v.call t' ht' (he'.symm.trans hent)
  obtain rfl : t = t' := by
    rw [show v.call = i from Nat.le_antisymm hge hle, ht] at ht'
    exact Option.some.inj ht'
  rw [Journal.value, hv]
  exact hg'

/-- **The ledger is never ahead of the projection**, whatever fails and wherever the
process dies. -/
theorem ledger_behind (h : (dualStore fun _ => True).Reach .empty anyStep s)
    (v₀ : Str → Str) : LedgerBehind v₀ s where
  changed := by
    intro e w hw
    obtain ⟨hin, hst, rfl⟩ := Journal.latest_mem hw
    obtain ⟨pre, post, hsplit, hproj⟩ := (dualStore_ordered w.entity h).projected
      (Journal.mem_of.mpr ⟨hin, rfl⟩) hst
    obtain ⟨t, ht, hent, hg, hdev⟩ := dualStore_writers.author rfl h hin
    obtain ⟨o, ho, htr⟩ := hdev hst
    refine ⟨pre, post, t, o, hsplit, hproj, ht, hent.symm, hg.symm, htr, ?_⟩
    cases o with
    | applied => exact .inl rfl
    | noSession => exact .inr rfl
    | rejected => exact absurd (.inl rfl) ho
    | timeout => exact absurd (.inr rfl) ho
  differs := by
    intro e hne
    obtain hagree | ⟨w, hw, hno⟩ := (dualStore_ordered e h).agree_or_pending v₀ e
    · rw [Journal.value_of, Journal.value_of] at hagree
      exact absurd hagree hne
    rw [Journal.latest_of] at hw
    obtain ⟨hin, -, rfl⟩ := Journal.latest_mem hw
    obtain ⟨t, ht, hent, hg, -⟩ := dualStore_writers.author rfl h hin
    refine ⟨w, t, hw, ?_, ht, hent.symm, by rw [Journal.value, hw]; exact hg, ?_⟩
    · intro x hx hst hxe
      obtain ⟨v, hv, hle⟩ := Journal.latest_ge hx (dualStore_pairwise h)
      rw [hst, hxe, hw] at hv
      rw [Option.some.inj hv]
      exact hle
    · intro x hx hst hcall
      obtain ⟨t', ht', hent', -, -⟩ := dualStore_writers.author rfl h hx
      obtain rfl : t = t' := by
        rw [hcall, ht] at ht'
        exact Option.some.inj ht'
      have he := hent'.trans hent.symm
      exact hno x (Journal.mem_of.mpr ⟨hx, he⟩) hst he hcall
  settled i t o ht hret hlast :=
    ⟨dualStore_settled h v₀ ht hret hlast .ledger, dualStore_settled h v₀ ht hret hlast .projection⟩
  returned := by
    intro i e s' hs t o ht hret
    have h' := h.step hs True.intro
    have hlast : ∀ (j : Nat) t', s'.threads[j]? = some t' → t'.job.entityId = t.job.entityId →
        j ≤ i := by
      intro j t' hj hent
      have hwas := hs.was hj
      cases hs with
      | @answer _ d op k _ _ hi ha =>
        -- the call was in flight, so it was the last one of its entity
        obtain ⟨-, rfl⟩ | ⟨hne, -⟩ := getElem?_set_cases ht
        · rcases hwas with ⟨-, hstart⟩ | ⟨u, hu, hjob, -⟩
          · exact (hstart ⟨d, .await op k, false⟩ (List.mem_of_getElem? hi) ⟨rfl, _, rfl⟩
              hent.symm).elim
          · exact dualStore_last h i j ⟨d, .await op k, false⟩ u hi ⟨rfl, _, rfl⟩ hu
              (by rw [hjob]; exact hent)
        · exact absurd rfl hne
    exact ⟨dualStore_settled h' v₀ ht hret hlast .ledger,
      dualStore_settled h' v₀ ht hret hlast .projection⟩

theorem ledger_behind_projected : LedgerBehind (fun _ => lit "active") projectedSuspension :=
  ledger_behind reach_projectedSuspension _

end IspPlatform.Concurrency
