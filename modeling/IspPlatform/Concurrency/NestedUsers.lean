import IspPlatform.Concurrency.Leases

/-!
# Users of several locks

Users that hold the locks of several entities at once, in whatever order they nest them, over one
backend with leases.
-/

namespace IspPlatform.Concurrency

open Py Prog System

/-- The arguments of one `async with entity_lock(...)`. -/
structure Block where
  entityId : Str
  lease : Seconds
  wait : Seconds
  onLongHold : Bool
  deriving DecidableEq, Repr

/-- The blocks around `body`, the first one outermost. -/
def around {α : Type} (body : Prog calls α) : List Block → Prog calls α
  | [] => body
  | b :: bs => entityLock b.entityId b.lease b.wait b.onLongHold (around body bs)

/-- A user of the locks of some entities. The body calls the backend in no other way. -/
structure NestedUser (α : Type) where
  blocks : List Block
  body : Prog calls α
  noBackend : ∀ t op k, After body t (.await op k) → ¬ op.OfBackend

/-- Any number of users. As in `leases`, any call may raise or be cancelled, a user may die
anywhere, and leases may run out. -/
def nestedLeases (α : Type) : System calls (NestedUser α) α Backend Str where
  main u := around u.body u.blocks
  answer := answers LeaseEffect (fun _ _ => True) fun _ => True
  tick key b b' := b' = b.expire key
  mayStart _ _ := True
  mortal := True

abbrev NestedUsers (α : Type) := Pool calls (NestedUser α) α Backend

/-- The calls on the way in: every acquire gave a token. -/
inductive Entered : List Block → List (Event calls) → Prop where
  | nil : Entered [] []
  | cons {b : Block} {bs : List Block} {t : List (Event calls)} (token : Str) (started : ℚ) :
      Entered bs t →
      Entered (b :: bs) (acquired b.entityId b.lease b.wait token :: clock started :: t)

/-- The calls that lead through the blocks into the body, two a block. -/
inductive Inside {α : Type} (body : Prog calls α) : List Block → List (Event calls) → Prop where
  | nil : Inside body [] []
  | cons {b : Block} {bs : List Block} {x y : Event calls} {w : List (Event calls)} :
      Opens b.entityId b.lease b.wait b.onLongHold (around body bs) x y → Inside body bs w →
      Inside body (b :: bs) (x :: y :: w)

/-- The user stands in its body, inside all its blocks. -/
def InBlocks {α : Type} (s : NestedUsers α) (i : Nat) (u : NestedUser α) : Prop :=
  ∃ w t op k, s.log i = w ++ t ∧ Inside u.body u.blocks w ∧ After u.body t (.await op k)

variable {α : Type} {body : Prog calls α} {bs : List Block} {t : List (Event calls)}
  {q : Prog calls α}

/-! ## Program points -/

theorem around_own (hbody : ∀ t op k, After body t (.await op k) → ¬ op.OfBackend)
    {key token : Str} (h : After (around body bs) t q) (hq : q.head = .call (.release key token)) :
    ∃ lease wait, (⟨.acquire key lease wait, .ret (some token)⟩ : Event calls) ∈ t := by
  induction bs generalizing t q with
  | nil =>
    cases q with
    | done o => cases hq
    | await op k =>
      obtain rfl : op = .release key token := Head.call.inj hq
      exact absurd True.intro (hbody _ _ _ h)
  | cons b bs ih =>
    have hpoint := entityLock_point h
    rw [hq] at hpoint
    rcases hpoint.at_release with ⟨pre, t', k, rfl, hin⟩ | ⟨rfl, hacq⟩
    · obtain ⟨lease, wait, hmem⟩ := ih hin rfl
      exact ⟨lease, wait, List.mem_append_right _ hmem⟩
    · exact ⟨b.lease, b.wait, hacq⟩

theorem nestedLeases_locking : Locking (nestedLeases α) id where
  answer h := by
    dsimp only [nestedLeases] at h
    exact answers_effect h
  tick h := h
  own {u _ _ _ _} h := around_own u.noBackend h rfl

theorem around_returned {a : α} (h : After (around body bs) t (.done (.ret a))) :
    ∃ w rest, t = w ++ rest ∧ Entered bs w := by
  induction bs generalizing t with
  | nil => exact ⟨[], t, rfl, .nil⟩
  | cons b bs ih =>
    have hpoint : LockPoint b.entityId b.lease b.wait b.onLongHold (around body bs) t
        (.ended (.ret a)) := entityLock_point h
    generalize hq : (Head.ended (.ret a) : Head calls α) = q at hpoint
    cases hpoint with
    | acquiring | starting | holding => cases hq
    | @refused r hno =>
      cases r with
      | ret token =>
        cases token with
        | none => cases hq
        | some token => exact absurd rfl (hno token)
      | raised e => cases e <;> cases hq
      | cancelled => cases hq
    | startHalted token hr =>
      cases hq
      exact absurd rfl (hr.ne_ret a)
    | @leaving token started t u o _ hin hexit =>
      have ho : o = .ret a := by
        cases hexit with
        | left _ _ => cases hq; rfl
        | readHalted hr => cases hq; exact absurd rfl (hr.ne_ret a)
        | warnHalted _ _ _ hr => cases hq; exact absurd rfl (hr.ne_ret a)
        | _ => cases hq
      subst ho
      obtain ⟨w, rest, rfl, hw⟩ := ih hin
      exact ⟨_, rest ++ u, by simp, .cons token started hw⟩

/-- Where no call failed, a user that did not return was refused a lock, or its body failed. -/
theorem around_refused {o : Outcome Exn α} (h : After (around body bs) t (.done o))
    (hall : ∀ x ∈ t, x.reply.failed = false) :
    (∃ w rest, t = w ++ rest ∧ Entered bs w) ∨
      ∃ b ∈ bs, ⟨.acquire (lockKey b.entityId) b.lease b.wait, .ret none⟩ ∈ t ∧
        o = unacquired b.entityId b.wait (.ret none) := by
  induction bs generalizing t with
  | nil => exact .inl ⟨[], t, rfl, .nil⟩
  | cons b bs ih =>
    have hpoint : LockPoint b.entityId b.lease b.wait b.onLongHold (around body bs) t
        (.ended o) := entityLock_point h
    generalize hq : (Head.ended o : Head calls α) = q at hpoint
    cases hpoint with
    | acquiring | starting | holding => cases hq
    | @refused r hno =>
      cases hq
      cases r with
      | ret token =>
        cases token with
        | none => exact .inr ⟨b, List.mem_cons_self, List.mem_cons_self, rfl⟩
        | some token => exact absurd rfl (hno token)
      | raised e => cases hall _ List.mem_cons_self
      | cancelled => cases hall _ List.mem_cons_self
    | startHalted token hr =>
      have hfailed := hall _ (List.mem_cons_of_mem _ List.mem_cons_self)
      rw [hr.failed] at hfailed
      cases hfailed
    | @leaving token started t u o' _ hin hexit =>
      have hu : ∀ x ∈ u, x.reply.failed = false := fun x hx => hall x (by simp [hx])
      have ho : o' = o := by
        cases hexit with
        | left _ _ => cases hq; rfl
        | readHalted hr =>
          have hfailed := hu _ List.mem_cons_self
          rw [hr.failed] at hfailed
          cases hfailed
        | warnHalted _ _ _ hr =>
          have hfailed := hu _ (List.mem_cons_of_mem _ List.mem_cons_self)
          rw [hr.failed] at hfailed
          cases hfailed
        | releaseCancelled _ => cases hu _ (List.mem_append_right _ List.mem_cons_self)
        | _ => cases hq
      subst ho
      rcases ih hin (fun x hx => hall x (by simp [hx])) with
        ⟨w, rest, rfl, hw⟩ | ⟨b', hb', hno, ho⟩
      · exact .inl ⟨_, rest ++ u, by simp, .cons token started hw⟩
      · exact .inr ⟨b', List.mem_cons_of_mem _ hb', by simp [hno], ho⟩

/-! ## The way in -/

theorem around_calls {op : Call} {k : Reply calls op → Prog calls α}
    (h : After body t (.await op k)) (bs : List Block) :
    ∃ t op k, After (around body bs) t (.await op k) := by
  cases bs with
  | nil => exact ⟨t, op, k, h⟩
  | cons b bs =>
    rw [around, entityLock_eq]
    exact ⟨[], _, _, .nil _⟩

theorem Inside.entered {w : List (Event calls)} (h : Inside body bs w) {op : Call}
    {k : Reply calls op → Prog calls α} (hb : After body t (.await op k)) : Entered bs w := by
  induction h with
  | nil => exact .nil
  | @cons b bs x y w hopens _ ih =>
    obtain ⟨t', op', k', hin⟩ := around_calls hb bs
    obtain ⟨token, started, rfl, rfl⟩ := hopens.token hin
    exact .cons token started ih

theorem Entered.acquires {w : List (Event calls)} (h : Entered bs w) :
    (∀ b ∈ bs, ∃ token, acquired b.entityId b.lease b.wait token ∈ w) ∧
      ∀ key token r, (⟨.release key token, r⟩ : Event calls) ∉ w := by
  induction h with
  | nil => exact ⟨by simp, by simp⟩
  | @cons b bs t token started _ ih =>
    refine ⟨fun b' hb' => ?_, fun key token' r hx => ?_⟩
    · rcases List.mem_cons.mp hb' with rfl | hb'
      · exact ⟨token, List.mem_cons_self⟩
      · obtain ⟨token', hin⟩ := ih.1 b' hb'
        exact ⟨token', List.mem_cons_of_mem _ (List.mem_cons_of_mem _ hin)⟩
    · rcases List.mem_cons.mp hx with hx | hx
      · cases hx
      · rcases List.mem_cons.mp hx with hx | hx
        · cases hx
        · exact ih.2 key token' r hx

theorem Entered.twice {w : List (Event calls)} (h : Entered bs w) {e : Str}
    (htwice : 1 < (bs.map (·.entityId)).count e) :
    ∃ pre post lease wait token lease' wait' token',
      w = pre ++ acquired e lease' wait' token' :: post ∧ acquired e lease wait token ∈ pre := by
  induction h with
  | nil => simp at htwice
  | @cons b bs t token started hin ih =>
    by_cases hb : b.entityId = e
    · have hrest : 0 < (bs.map (·.entityId)).count e := by
        rw [List.map_cons, List.count_cons, if_pos (by simpa using hb)] at htwice
        omega
      obtain ⟨c, hc, rfl⟩ := List.mem_map.mp (List.count_pos_iff.mp hrest)
      obtain ⟨token', hmem⟩ := hin.acquires.1 c hc
      obtain ⟨pre, post, rfl⟩ := List.append_of_mem hmem
      refine ⟨_ :: _ :: pre, post, b.lease, b.wait, token, c.lease, c.wait, token', rfl, ?_⟩
      rw [hb]
      exact List.mem_cons_self
    · rw [List.map_cons, List.count_cons, if_neg (by simpa using hb)] at htwice
      obtain ⟨pre, post, lease, wait, token₁, lease', wait', token', rfl, hmem⟩ := ih htwice
      exact ⟨_ :: _ :: pre, post, lease, wait, token₁, lease', wait', token', rfl,
        List.mem_cons_of_mem _ (List.mem_cons_of_mem _ hmem)⟩

variable {s : NestedUsers α} {i j : Nat} {u v : NestedUser α}
  {ok : NestedUsers α → Label calls (NestedUser α) Str → Backend → Prop}

theorem InBlocks.holds (h : InBlocks s i u) :
    (∀ b ∈ u.blocks, ∃ token, acquired b.entityId b.lease b.wait token ∈ s.log i) ∧
      ∀ key token r, (⟨.release key token, r⟩ : Event calls) ∉ s.log i := by
  obtain ⟨w, t, op, k, hlog, hw, hbody⟩ := h
  obtain ⟨hacq, hnone⟩ := (hw.entered hbody).acquires
  rw [hlog]
  refine ⟨fun b hb => ?_, fun key token r hx => ?_⟩
  · obtain ⟨token, hin⟩ := hacq b hb
    exact ⟨token, List.mem_append_left _ hin⟩
  · rcases List.mem_append.mp hx with hx | hx
    · exact hnone key token r hx
    · obtain ⟨t', k', hstood⟩ := hbody.stood _ hx
      exact u.noBackend _ _ _ hstood True.intro

/-! ## Exclusion -/

/-- The user has outlived its lease for the block. -/
def Outlived (s : NestedUsers α) (i : Nat) (b : Block) : Prop :=
  ∃ token, acquired b.entityId b.lease b.wait token ∈ s.log i ∧ token ∈ s.shared.expired

/-- **Exclusion.** Whatever entities two users lock, and in whatever order: if both stand in their
bodies and have an entity in common, then one of them has outlived its lease for it. -/
theorem nested_exclusive (h : (nestedLeases α).Reach .empty anyStep s) (hi : InBlocks s i u)
    (hj : InBlocks s j v) (hij : i ≠ j) {b c : Block} (hb : b ∈ u.blocks) (hc : c ∈ v.blocks)
    (hent : b.entityId = c.entityId) : Outlived s i b ∨ Outlived s j c := by
  obtain ⟨hacq, hnone⟩ := hi.holds
  obtain ⟨hacq', hnone'⟩ := hj.holds
  obtain ⟨token, hin⟩ := hacq b hb
  obtain ⟨token', hin'⟩ := hacq' c hc
  -- the later one of the two grants
  obtain ⟨pre, post, htr⟩ := List.append_of_mem (mem_logOf.mp hin')
  have hmem := mem_logOf.mp hin
  rw [htr] at hmem
  rcases List.mem_append.mp hmem with hpre | hpost
  · rw [acquired, hent] at hpre
    rcases nestedLeases_locking.handed_over rfl h htr hpre with hexp | ⟨r, hr⟩
    · exact .inl ⟨token, hin, hexp⟩
    · refine absurd (mem_logOf.mpr ?_) (hnone _ token r)
      rw [htr]
      exact List.mem_append_left _ hr
  · rcases List.mem_cons.mp hpost with heq | hpost
    · exact absurd (Prod.mk.inj heq).1 hij
    · obtain ⟨mid, post, rfl⟩ := List.append_of_mem hpost
      have htr' : s.trace = (pre ++ (j, acquired c.entityId c.lease c.wait token') :: mid) ++
          (i, acquired b.entityId b.lease b.wait token) :: post := by
        rw [htr, List.append_assoc, List.cons_append]
      have hpre : (j, acquired b.entityId c.lease c.wait token') ∈
          pre ++ (j, acquired c.entityId c.lease c.wait token') :: mid := by
        rw [hent]
        exact List.mem_append_right _ List.mem_cons_self
      rcases nestedLeases_locking.handed_over rfl h htr' hpre with hexp | ⟨r, hr⟩
      · exact .inr ⟨token', hin', hexp⟩
      · refine absurd (mem_logOf.mpr ?_) (hnone' _ token' r)
        rw [htr']
        exact List.mem_append_left _ hr

theorem not_past_twice (h : (nestedLeases α).Reach .empty ok s) {e : Str}
    (hok : ∀ s b, ¬ ok s (.tick (lockKey e)) b)
    (htwice : 1 < (u.blocks.map (·.entityId)).count e) :
    ¬ ∃ w rest, s.log i = w ++ rest ∧ Entered u.blocks w := by
  rintro ⟨w, rest, hlog, hw⟩
  obtain ⟨pre, post, lease, wait, token, lease', wait', token', rfl, hin⟩ := hw.twice htwice
  rw [List.append_assoc, List.cons_append] at hlog
  obtain ⟨pre', post', htr, hpre⟩ := logOf_split hlog
  rw [← hpre] at hin
  rcases nestedLeases_locking.handed_over rfl h htr (mem_logOf.mp hin) with hexp | ⟨r, hr⟩
  · have hgrant : ⟨i, lockKey e, token⟩ ∈ s.shared.grants := by
      refine (nestedLeases_locking.granted rfl h).granted i _ lease wait token ?_
      rw [htr]
      exact List.mem_append_left _ (mem_logOf.mp hin)
    exact nestedLeases_locking.unexpired rfl h hok _ hgrant rfl hexp
  · refine hw.acquires.2 _ token r (List.mem_append_left _ ?_)
    rw [← hpre]
    exact mem_logOf.mpr hr

/-- **Not reentrant.** A user with two blocks of one entity, whose lease never runs out, does not
come into its body and does not return; if no call of it fails, it ends in the `LockTimeout` of a
block whose `acquire` gave none. -/
theorem not_reentrant (h : (nestedLeases α).Reach .empty ok s) {e : Str}
    (hok : ∀ s b, ¬ ok s (.tick (lockKey e)) b) {t : Thread calls (NestedUser α) α}
    (ht : s.threads[i]? = some t) (htwice : 1 < (t.job.blocks.map (·.entityId)).count e) :
    ¬ InBlocks s i t.job ∧ ∀ o, t.code = .done o → (∀ a, o ≠ .ret a) ∧
      ((∀ x ∈ s.log i, x.reply.failed = false) → ∃ b ∈ t.job.blocks,
        ⟨.acquire (lockKey b.entityId) b.lease b.wait, .ret none⟩ ∈ s.log i ∧
        o = .raised (.lockTimeout
          (lockKey b.entityId ++ lit " held elsewhere after " ++ b.wait.text ++ lit "s"))) := by
  have hpast := not_past_twice (i := i) h hok htwice
  refine ⟨?_, fun o ho => ?_⟩
  · rintro ⟨w, rest, op, k, hlog, hw, hbody⟩
    exact hpast ⟨w, rest, hlog, hw.entered hbody⟩
  · have hend := h.ended ht ho
    refine ⟨?_, fun hall => ?_⟩
    · rintro a rfl
      exact hpast (around_returned hend)
    · exact (around_refused hend hall).resolve_left hpast

theorem reach_replied (h : (nestedLeases α).Reach .empty ok s) {d : NestedUser α} (op : Call)
    {k : Reply calls op → Prog calls α} (a : op.Res) {b : Backend}
    (hj : s.threads[i]? = some ⟨d, .await op k, false⟩) (he : LeaseEffect i s.shared op a b)
    (hok : ok s (.answer i ⟨op, .ret a⟩) b) :
    (nestedLeases α).Reach .empty ok
      ⟨b, s.threads.set i ⟨d, k (.ret a), false⟩, s.trace ++ [(i, ⟨op, .ret a⟩)]⟩ :=
  h.answer (.ret a) b hj he hok

def blockOf (entityId : String) : Block :=
  ⟨lit entityId, defaultLeaseSeconds, defaultAcquireTimeoutSeconds, false⟩

/-- A user of these entities whose body awaits a command to a router. -/
def userOf (entities : List String) : NestedUser CommandOutcome :=
  ⟨entities.map blockOf, call (.forceReauth (lit "R7")), reauth_noBackend⟩

/-- Two users nest two locks in opposite orders; the leases of the first one run out. -/
theorem reach_opposite : ∃ s, (nestedLeases CommandOutcome).Reach .empty anyStep s ∧
    InBlocks s 0 (userOf ["R7", "R8"]) ∧ InBlocks s 1 (userOf ["R8", "R7"]) := by
  have h₀ : (nestedLeases CommandOutcome).Reach .empty anyStep ⟨.empty, [], []⟩ := .init
  have h₁ := h₀.start (userOf ["R7", "R8"]) True.intro True.intro
  have h₂ := reach_replied h₁ (i := 0) (.acquire (lockKey (lit "R7")) defaultLeaseSeconds
    defaultAcquireTimeoutSeconds) (some (lit "a")) rfl (.acquired _ _ rfl (by simp [Backend.empty]))
    True.intro
  have h₃ := reach_replied h₂ (i := 0) .monotonic (0 : ℚ) rfl (.other _ id) True.intro
  have h₄ := reach_replied h₃ (i := 0) (.acquire (lockKey (lit "R8")) defaultLeaseSeconds
    defaultAcquireTimeoutSeconds) (some (lit "b")) rfl (.acquired _ _ (by decide) (by decide))
    True.intro
  have h₅ := reach_replied h₄ (i := 0) .monotonic (0 : ℚ) rfl (.other _ id) True.intro
  have h₆ := h₅.step (.tick (m := lockKey (lit "R7")) rfl) True.intro
  have h₇ := h₆.step (.tick (m := lockKey (lit "R8")) rfl) True.intro
  have h₈ := h₇.start (userOf ["R8", "R7"]) True.intro True.intro
  have h₉ := reach_replied h₈ (i := 1) (.acquire (lockKey (lit "R8")) defaultLeaseSeconds
    defaultAcquireTimeoutSeconds) (some (lit "c")) rfl (.acquired _ _ (by decide) (by decide))
    True.intro
  have h₁₀ := reach_replied h₉ (i := 1) .monotonic (0 : ℚ) rfl (.other _ id) True.intro
  have h₁₁ := reach_replied h₁₀ (i := 1) (.acquire (lockKey (lit "R7")) defaultLeaseSeconds
    defaultAcquireTimeoutSeconds) (some (lit "d")) rfl (.acquired _ _ (by decide) (by decide))
    True.intro
  have h₁₂ := reach_replied h₁₁ (i := 1) .monotonic (0 : ℚ) rfl (.other _ id) True.intro
  refine ⟨_, h₁₂, ?_, ?_⟩
  · exact ⟨_, [], _, _, rfl, .cons (opens (lit "a") 0) (.cons (opens (lit "b") 0) .nil), .nil _⟩
  · exact ⟨_, [], _, _, rfl, .cons (opens (lit "c") 0) (.cons (opens (lit "d") 0) .nil), .nil _⟩

theorem nested_exclusive_opposite : ∃ s : NestedUsers CommandOutcome,
    InBlocks s 0 (userOf ["R7", "R8"]) ∧ InBlocks s 1 (userOf ["R8", "R7"]) ∧
      (Outlived s 0 (blockOf "R8") ∨ Outlived s 1 (blockOf "R8")) := by
  obtain ⟨s, h, hi, hj⟩ := reach_opposite
  refine ⟨s, hi, hj, nested_exclusive h hi hj (by decide) ?_ ?_ rfl⟩
  · exact List.mem_cons_of_mem _ List.mem_cons_self
  · exact List.mem_cons_self

/-- No lease runs out. -/
def lasting (_ : NestedUsers α) (l : Label calls (NestedUser α) Str) (_ : Backend) : Prop :=
  ∀ key, l ≠ .tick key

theorem entityLock_quiet (entityId : Str) (lease wait : Seconds) (body : Prog calls α) :
    entityLock entityId lease wait false body =
      ((call (.acquire (lockKey entityId) lease wait)).tryExcept fun
        | .lockUnavailable m => raise (.lockUnavailable m)
        | _ => raise (.lockUnavailable (lit "lock backend unreachable for " ++ lockKey entityId))
      ).bind fun
        | none => .done (unacquired entityId wait (.ret none))
        | some token => (call .monotonic).bind fun _ => tryFinally body
          ((call .monotonic).bind fun _ =>
            suppress (call (.release (lockKey entityId) token))) := by
  rw [entityLock_eq]
  congr 1
  funext token
  cases token with
  | none => rfl
  | some token => simp [leave]

/-- A user locks its entity again, waits in vain and leaves. -/
theorem reach_again : ∃ s t, (nestedLeases CommandOutcome).Reach .empty lasting s ∧
    s.threads[0]? = some t ∧ t.job = userOf ["R7", "R7"] ∧
    t.code = .done (.raised (.lockTimeout (lit "entity_lock:R7 held elsewhere after 5.0s"))) := by
  have h₀ : (nestedLeases CommandOutcome).Reach .empty lasting ⟨.empty, [], []⟩ := .init
  have h₁ := h₀.start (userOf ["R7", "R7"]) True.intro (by simp [lasting])
  have hmain : (nestedLeases CommandOutcome).main (userOf ["R7", "R7"]) =
      entityLock (lit "R7") defaultLeaseSeconds defaultAcquireTimeoutSeconds false
        (entityLock (lit "R7") defaultLeaseSeconds defaultAcquireTimeoutSeconds false
          (call (.forceReauth (lit "R7")))) := rfl
  rw [hmain, entityLock_quiet, entityLock_quiet] at h₁
  have h₂ := reach_replied h₁ (i := 0) (.acquire (lockKey (lit "R7")) defaultLeaseSeconds
    defaultAcquireTimeoutSeconds) (some (lit "a")) rfl (.acquired _ _ rfl (by simp [Backend.empty]))
    (by simp [lasting])
  have h₃ := reach_replied h₂ (i := 0) .monotonic (0 : ℚ) rfl (.other _ id) (by simp [lasting])
  have h₄ := reach_replied h₃ (i := 0) (.acquire (lockKey (lit "R7")) defaultLeaseSeconds
    defaultAcquireTimeoutSeconds) none rfl (.busy _ _) (by simp [lasting])
  have h₅ := reach_replied h₄ (i := 0) .monotonic (5 : ℚ) rfl (.other _ id) (by simp [lasting])
  have h₆ := reach_replied h₅ (i := 0) (.release (lockKey (lit "R7")) (lit "a")) () rfl
    (.released (by decide)) (by simp [lasting])
  exact ⟨_, _, h₆, rfl, rfl, rfl⟩

theorem not_reentrant_again : ∃ (s : NestedUsers CommandOutcome)
    (t : Thread calls (NestedUser CommandOutcome) CommandOutcome),
    t.job = userOf ["R7", "R7"] ∧
    t.code = .done (.raised (.lockTimeout (lit "entity_lock:R7 held elsewhere after 5.0s"))) ∧
    ¬ InBlocks s 0 t.job ∧ ∀ o, t.code = .done o → (∀ a, o ≠ .ret a) ∧
      ((∀ x ∈ s.log 0, x.reply.failed = false) → ∃ b ∈ t.job.blocks,
        ⟨.acquire (lockKey b.entityId) b.lease b.wait, .ret none⟩ ∈ s.log 0 ∧
        o = .raised (.lockTimeout
          (lockKey b.entityId ++ lit " held elsewhere after " ++ b.wait.text ++ lit "s"))) := by
  obtain ⟨s, t, h, ht, hjob, hcode⟩ := reach_again
  have htwice : 1 < (t.job.blocks.map (·.entityId)).count (lit "R7") := by
    rw [hjob]
    decide
  exact ⟨s, t, hjob, hcode, not_reentrant h (by simp [lasting]) ht htwice⟩

end IspPlatform.Concurrency
