import IspPlatform.Concurrency.Backend
import IspPlatform.Concurrency.EntityLock

/-!
# Leases

Any number of users of `entityLock`, with whatever bodies, over one backend that keeps its
contract: who has an entry, whose exit removes it, and when two users are in bodies for one
entity at a time.
-/

namespace IspPlatform.Concurrency

open Py Prog System

/-- One use of `entity_lock`. The body calls the backend through `entity_lock` only; a use
inside the body is a use of its own. -/
structure LockUser (α : Type) where
  entityId : Str
  lease : Seconds
  wait : Seconds
  onLongHold : Bool
  body : Prog calls α
  noBackend : ∀ t op k, After body t (.await op k) → ¬ op.OfBackend

/-- Any number of uses. Every call may raise or be cancelled, before or after its effect, a
user may die anywhere, and a `tick` is the expiry of a lease. -/
def leases (α : Type) : System calls (LockUser α) α Backend Str where
  main u := entityLock u.entityId u.lease u.wait u.onLongHold u.body
  answer := answers LeaseEffect (fun _ _ => True) fun _ => True
  tick key b b' := b' = b.expire key
  mayStart _ _ := True
  mortal := True

abbrev Users (α : Type) := Pool calls (LockUser α) α Backend

variable {α : Type} {u : LockUser α} {s : Users α} {i : Nat}
  {ok : Users α → Label calls (LockUser α) Str → Backend → Prop}

theorem leases_locking : Locking (leases α) id where
  answer h := by
    dsimp only [leases] at h
    exact answers_effect h
  tick h := h
  own {u t key token k} h := by
    have hpoint : LockPoint u.entityId u.lease u.wait u.onLongHold u.body t
        (.call (.release key token)) := entityLock_point h
    rcases hpoint.at_release with ⟨_, _, _, -, hb⟩ | ⟨rfl, hacq⟩
    · exact absurd True.intro (u.noBackend _ _ _ hb)
    · exact ⟨_, _, hacq⟩

theorem granted (h : (leases α).Reach .empty ok s) : Granted s.shared s.trace :=
  leases_locking.granted rfl h

/-- The user stands in its body: two calls led into it, and it awaits a call of the body. -/
def InBody (s : Users α) (i : Nat) (u : LockUser α) : Prop :=
  ∃ x y t op k, s.log i = x :: y :: t ∧
    Opens u.entityId u.lease u.wait u.onLongHold u.body x y ∧ After u.body t (.await op k)

theorem InBody.holds (h : InBody s i u) :
    (∃ token, acquired u.entityId u.lease u.wait token ∈ s.log i) ∧
      ∀ key token r, (⟨.release key token, r⟩ : Event calls) ∉ s.log i := by
  obtain ⟨x, y, t, op, k, hlog, hopens, hb⟩ := h
  obtain ⟨token, started, rfl, rfl⟩ := hopens.token hb
  rw [hlog]
  refine ⟨⟨token, List.mem_cons_self⟩, ?_⟩
  intro key token' r hx
  rcases List.mem_cons.mp hx with hx | hx
  · cases hx
  · rcases List.mem_cons.mp hx with hx | hx
    · cases hx
    · obtain ⟨t', k', hstood⟩ := hb.stood _ hx
      exact u.noBackend _ _ _ hstood True.intro

/-- What the locks of all entities guarantee in a state. -/
structure LeaseSafe (s : Users α) : Prop where
  /-- An entity's unexpired entry belongs to the last grant for the entity. -/
  latest : ∀ e token, s.shared.owner (lockKey e) = some token →
    ∃ (m i : Nat), s.shared.grants[m]? = some ⟨i, lockKey e, token⟩ ∧
      ∀ (n : Nat) g, m < n → s.shared.grants[n]? = some g → g.key ≠ lockKey e
  /-- An `acquire` that gave its user a token was a grant. -/
  successful : ∀ i e lease wait token, (i, acquired e lease wait token) ∈ s.trace →
    ⟨i, lockKey e, token⟩ ∈ s.shared.grants
  /-- The entry stays until it expires or its own user's call is answered: no other user's
  exit removes it. -/
  kept : ∀ e token i l s', s.shared.owner (lockKey e) = some token →
    ⟨i, lockKey e, token⟩ ∈ s.shared.grants → (leases α).Step s l s' → l ≠ .tick (lockKey e) →
    (∀ x, l ≠ .answer i x) → s'.shared.owner (lockKey e) = some token
  /-- Two users in bodies for one entity have a token each, and the one that was granted its
  lease earlier has outlived it. -/
  exclusive : ∀ (i j : Nat) t t', s.threads[i]? = some t → s.threads[j]? = some t' → i ≠ j →
    t.job.entityId = t'.job.entityId → InBody s i t.job → InBody s j t'.job →
    ∃ (m n : Nat) (token token' : Str),
      acquired t.job.entityId t.job.lease t.job.wait token ∈ s.log i ∧
      acquired t'.job.entityId t'.job.lease t'.job.wait token' ∈ s.log j ∧
      s.shared.grants[m]? = some ⟨i, lockKey t.job.entityId, token⟩ ∧
      s.shared.grants[n]? = some ⟨j, lockKey t'.job.entityId, token'⟩ ∧
      (m < n → token ∈ s.shared.expired) ∧ (n < m → token' ∈ s.shared.expired) ∧ m ≠ n

/-- A user in its body holds an unexpired entry, or has outlived its lease. -/
theorem InBody.lasts (hg : Granted s.shared s.trace) (hb : InBody s i u) :
    ∃ (m : Nat) (token : Str), acquired u.entityId u.lease u.wait token ∈ s.log i ∧
      s.shared.grants[m]? = some ⟨i, lockKey u.entityId, token⟩ ∧
      (s.shared.owner (lockKey u.entityId) = some token ∨ token ∈ s.shared.expired) := by
  obtain ⟨⟨token, hacq⟩, hnone⟩ := hb.holds
  have hin := hg.granted i _ _ _ token (mem_logOf.mp hacq)
  obtain ⟨m, hm⟩ := List.mem_iff_getElem?.mp hin
  refine ⟨m, token, hacq, hm, ?_⟩
  rcases hg.lasts _ hin with hown | hexp | ⟨r, hr⟩
  · exact .inl hown
  · exact .inr hexp
  · exact absurd (mem_logOf.mpr hr) (hnone _ _ r)

/-- **Lease-safe ownership.** -/
theorem lease_safe (h : (leases α).Reach .empty anyStep s) : LeaseSafe s := by
  have hg := granted h
  refine ⟨fun e => hg.latest (lockKey e), fun i e => hg.granted i (lockKey e), ?_, ?_⟩
  · intro e token i l s' hown hin hs htick hans
    cases hs with
    | start _ => exact hown
    | die _ _ => exact hown
    | tick hm =>
      obtain rfl := hm
      refine (Function.update_of_ne ?_ _ _).trans hown
      rintro rfl
      exact htick rfl
    | @answer j d op k r b hj ha =>
      refine leases_locking.outlasts rfl h hin hown hj ha ?_
      rintro - rfl
      exact hans _ rfl
  · intro i j t t' _ _ hij hent hb hb'
    obtain ⟨m, token, hacq, hm, hlast⟩ := hb.lasts hg
    obtain ⟨n, token', hacq', hn, hlast'⟩ := hb'.lasts hg
    have hkey : lockKey t.job.entityId = lockKey t'.job.entityId := by rw [hent]
    refine ⟨m, n, token, token', hacq, hacq', hm, hn, ?_, ?_, ?_⟩
    · intro hlt
      exact hlast.resolve_left (hg.overtaken hm hn hlt hkey)
    · intro hlt
      exact hlast'.resolve_left (hg.overtaken hn hm hlt hkey.symm)
    · rintro rfl
      rw [hm] at hn
      exact hij (congrArg Grant.user (Option.some.inj hn))

theorem reauth_noBackend (t : List (Event calls)) (op : Call)
    (k : Reply calls op → Prog calls CommandOutcome)
    (h : After (call (.forceReauth (lit "R7"))) t (.await op k)) : ¬ op.OfBackend := by
  rcases After.await_iff.mp h with ⟨-, hq⟩ | ⟨r, t', -, hr⟩
  · cases hq
    exact id
  · cases (After.done_iff.mp hr).2

/-- A user whose body awaits a command to a router. -/
def reauthUser : LockUser CommandOutcome :=
  ⟨lit "R7", defaultLeaseSeconds, defaultAcquireTimeoutSeconds, false,
    call (.forceReauth (lit "R7")), reauth_noBackend⟩

theorem reach_returned (h : (leases α).Reach .empty anyStep s) {d : LockUser α} (op : Call)
    {k : Reply calls op → Prog calls α} (a : op.Res) {b : Backend}
    (hj : s.threads[i]? = some ⟨d, .await op k, false⟩) (he : LeaseEffect i s.shared op a b) :
    (leases α).Reach .empty anyStep
      ⟨b, s.threads.set i ⟨d, k (.ret a), false⟩, s.trace ++ [(i, ⟨op, .ret a⟩)]⟩ :=
  h.answer (.ret a) b hj he True.intro

/-- The lease of the first user runs out in its body, and a second user enters its own. -/
theorem reach_two_bodies : ∃ s, (leases CommandOutcome).Reach .empty anyStep s ∧
    InBody s 0 reauthUser ∧ InBody s 1 reauthUser := by
  have h₀ : (leases CommandOutcome).Reach .empty anyStep ⟨.empty, [], []⟩ := .init
  have h₁ := h₀.start reauthUser True.intro True.intro
  have h₂ := reach_returned h₁ (i := 0) (.acquire (lockKey (lit "R7")) defaultLeaseSeconds
    defaultAcquireTimeoutSeconds) (some (lit "a")) rfl (.acquired _ _ rfl (by simp [Backend.empty]))
  have h₃ := reach_returned h₂ (i := 0) .monotonic (0 : ℚ) rfl (.other _ id)
  have h₄ := h₃.step (.tick (m := lockKey (lit "R7")) rfl) True.intro
  have h₅ := h₄.start reauthUser True.intro True.intro
  have h₆ := reach_returned h₅ (i := 1) (.acquire (lockKey (lit "R7")) defaultLeaseSeconds
    defaultAcquireTimeoutSeconds) (some (lit "b")) rfl (.acquired _ _ rfl (by decide))
  have h₇ := reach_returned h₆ (i := 1) .monotonic (0 : ℚ) rfl (.other _ id)
  exact ⟨_, h₇, ⟨_, _, [], _, _, rfl, opens (lit "a") 0, .nil _⟩,
    ⟨_, _, [], _, _, rfl, opens (lit "b") 0, .nil _⟩⟩

theorem lease_safe_two_bodies : ∃ s : Users CommandOutcome,
    InBody s 0 reauthUser ∧ InBody s 1 reauthUser ∧ LeaseSafe s := by
  obtain ⟨s, h, hb, hb'⟩ := reach_two_bodies
  exact ⟨s, hb, hb', lease_safe h⟩

end IspPlatform.Concurrency
