import Mathlib.Tactic.NormNum
import IspPlatform.Concurrency.Calls

/-!
# The per-entity lock

`entityLock` is the context manager around a `with` block `body`: it acquires, runs the
block, and on every way out of it reads the clock again, reports a long hold and
releases. `LockPoint` lists its program points around those of the block.
-/

namespace IspPlatform.Concurrency

open Py Prog

def defaultLeaseSeconds : Seconds := ⟨30, lit "30.0"⟩

def defaultAcquireTimeoutSeconds : Seconds := ⟨5, lit "5.0"⟩

def heldWarningSeconds : ℚ := 5

def lockKey (entityId : Str) : Str := lit "entity_lock:" ++ entityId

/-- `entity_lock` around `body`; `onLongHold` says whether the caller passed a callback. -/
def entityLock {α : Type} (entityId : Str) (lease wait : Seconds) (onLongHold : Bool)
    (body : Prog calls α) : Prog calls α := do
  let key := lockKey entityId
  let token ← tryExcept (call (.acquire key lease wait)) fun
    | .lockUnavailable m => raise (.lockUnavailable m)
    | _ => raise (.lockUnavailable (lit "lock backend unreachable for " ++ key))
  match token with
  | none =>
    raise (.lockTimeout (key ++ lit " held elsewhere after " ++ wait.text ++ lit "s"))
  | some token => do
    let started ← call .monotonic
    tryFinally body (do
      let now ← call .monotonic
      let held := now - started
      if heldWarningSeconds < held ∧ onLongHold = true then
        call (.onLongHold key held)
      suppress (call (.release key token)))

/-! ## Program points -/

section
variable (entityId : Str) (lease wait : Seconds) (onLongHold : Bool)

def acquired (token : Str) : Event calls :=
  ⟨.acquire (lockKey entityId) lease wait, .ret (some token)⟩

def clock (x : ℚ) : Event calls := ⟨.monotonic, .ret x⟩

/-- How the lock ends when `acquire` gave no token. -/
def unacquired {α : Type} : Outcome Exn (Option Str) → Outcome Exn α
  | .ret _ => .raised (.lockTimeout
      (lockKey entityId ++ lit " held elsewhere after " ++ wait.text ++ lit "s"))
  | .raised (.lockUnavailable m) => .raised (.lockUnavailable m)
  | .raised _ => .raised
      (.lockUnavailable (lit "lock backend unreachable for " ++ lockKey entityId))
  | .cancelled => .cancelled

/-- The calls of the `finally` block before the release. -/
inductive Reported (started : ℚ) : List (Event calls) → Prop where
  | quiet (now : ℚ) : ¬ (heldWarningSeconds < now - started ∧ onLongHold = true) →
      Reported started [clock now]
  | warned (now : ℚ) : heldWarningSeconds < now - started → onLongHold = true →
      Reported started [clock now, ⟨.onLongHold (lockKey entityId) (now - started), .ret ()⟩]

/-- The program points of the `finally` block, when the `with` block ended with `o`. -/
inductive ExitPoint {α : Type} (token : Str) (started : ℚ) (o : Outcome Exn α) :
    List (Event calls) → Head calls α → Prop where
  | reading : ExitPoint token started o [] (.call .monotonic)
  | readHalted {r : Outcome Exn ℚ} {o' : Outcome Exn α} : Halts r o' →
      ExitPoint token started o [⟨.monotonic, r⟩] (.ended o')
  | warning (now : ℚ) : heldWarningSeconds < now - started → onLongHold = true →
      ExitPoint token started o [clock now]
        (.call (.onLongHold (lockKey entityId) (now - started)))
  | warnHalted (now : ℚ) {r : Outcome Exn Unit} {o' : Outcome Exn α} :
      heldWarningSeconds < now - started → onLongHold = true → Halts r o' →
      ExitPoint token started o
        [clock now, ⟨.onLongHold (lockKey entityId) (now - started), r⟩] (.ended o')
  | releasing {w : List (Event calls)} : Reported entityId onLongHold started w →
      ExitPoint token started o w (.call (.release (lockKey entityId) token))
  | left {w : List (Event calls)} {r : Outcome Exn Unit} :
      Reported entityId onLongHold started w → r ≠ .cancelled →
      ExitPoint token started o (w ++ [⟨.release (lockKey entityId) token, r⟩]) (.ended o)
  | releaseCancelled {w : List (Event calls)} : Reported entityId onLongHold started w →
      ExitPoint token started o (w ++ [⟨.release (lockKey entityId) token, .cancelled⟩])
        (.ended .cancelled)

/-- The program points of the lock around `body`. -/
inductive LockPoint {α : Type} (body : Prog calls α) :
    List (Event calls) → Head calls α → Prop where
  | acquiring : LockPoint body [] (.call (.acquire (lockKey entityId) lease wait))
  | refused {r : Outcome Exn (Option Str)} : (∀ token, r ≠ .ret (some token)) →
      LockPoint body [⟨.acquire (lockKey entityId) lease wait, r⟩]
        (.ended (unacquired entityId wait r))
  | starting (token : Str) : LockPoint body [acquired entityId lease wait token] (.call .monotonic)
  | startHalted (token : Str) {r : Outcome Exn ℚ} {o : Outcome Exn α} : Halts r o →
      LockPoint body [acquired entityId lease wait token, ⟨.monotonic, r⟩] (.ended o)
  | holding (token : Str) (started : ℚ) {t : List (Event calls)} {op : Call}
      {k : Reply calls op → Prog calls α} : After body t (.await op k) →
      LockPoint body (acquired entityId lease wait token :: clock started :: t) (.call op)
  | leaving (token : Str) (started : ℚ) {t u : List (Event calls)} {o : Outcome Exn α}
      {q : Head calls α} : After body t (.done o) →
      ExitPoint entityId onLongHold token started o u q →
      LockPoint body (acquired entityId lease wait token :: clock started :: (t ++ u)) q

end

variable {α : Type} {entityId : Str} {lease wait : Seconds} {onLongHold : Bool}
  {body : Prog calls α} {t : List (Event calls)} {q : Prog calls α}

/-- The `finally` block. -/
def leave (entityId : Str) (onLongHold : Bool) (token : Str) (started : ℚ) : Prog calls Unit := do
  let now ← call .monotonic
  let held := now - started
  if heldWarningSeconds < held ∧ onLongHold = true then
    call (.onLongHold (lockKey entityId) held)
  suppress (call (.release (lockKey entityId) token))

theorem release_point {token : Str} {started : ℚ} {o : Outcome Exn α} {w : List (Event calls)}
    (hw : Reported entityId onLongHold started w)
    (h : After ((suppress (call (.release (lockKey entityId) token))).bind
      fun _ => .done o) t q) :
    ExitPoint entityId onLongHold token started o (w ++ t) q.head := by
  rcases After.await_iff.mp h with ⟨rfl, rfl⟩ | ⟨r, t', rfl, hr⟩
  · rw [List.append_nil]
    exact .releasing hw
  · cases r with
    | ret a =>
      obtain ⟨rfl, rfl⟩ := After.done_iff.mp hr
      exact .left hw (by simp)
    | raised e =>
      obtain ⟨rfl, rfl⟩ := After.done_iff.mp hr
      exact .left hw (by simp)
    | cancelled =>
      obtain ⟨rfl, rfl⟩ := After.done_iff.mp hr
      exact .releaseCancelled hw

theorem leave_point {token : Str} {started : ℚ} {o : Outcome Exn α}
    (h : After ((leave entityId onLongHold token started).bind fun _ => .done o) t q) :
    ExitPoint entityId onLongHold token started o t q.head := by
  unfold leave at h
  simp only [bind_eq] at h
  rw [bind_assoc] at h
  rcases After.call_cases h with ⟨rfl, hq⟩ | ⟨now, t₁, rfl, h₁⟩ | ⟨r, o', hr, rfl, rfl⟩
  · rw [hq]; exact .reading
  · split at h₁
    · next hwarn =>
      rw [bind_assoc] at h₁
      rcases After.call_cases h₁ with ⟨rfl, hq⟩ | ⟨-, t₂, rfl, h₂⟩ | ⟨r, o', hr, rfl, rfl⟩
      · rw [hq]; exact .warning now hwarn.1 hwarn.2
      · exact release_point (.warned now hwarn.1 hwarn.2) h₂
      · exact .warnHalted now hwarn.1 hwarn.2 hr
    · next hquiet => exact release_point (.quiet now hquiet) h₁
  · exact .readHalted hr

theorem entityLock_eq (entityId : Str) (lease wait : Seconds) (onLongHold : Bool)
    (body : Prog calls α) : entityLock entityId lease wait onLongHold body =
      ((call (.acquire (lockKey entityId) lease wait)).tryExcept fun
        | .lockUnavailable m => raise (.lockUnavailable m)
        | _ => raise (.lockUnavailable (lit "lock backend unreachable for " ++ lockKey entityId))
      ).bind fun
        | none => .done (unacquired entityId wait (.ret none))
        | some token => (call .monotonic).bind fun started =>
          tryFinally body (leave entityId onLongHold token started) := by
  unfold entityLock
  refine congrArg (Prog.bind _) (funext fun token => ?_)
  cases token <;> rfl

/-- **Program points.** Every point `entityLock` can be at. -/
theorem entityLock_point (h : After (entityLock entityId lease wait onLongHold body) t q) :
    LockPoint entityId lease wait onLongHold body t q.head := by
  rw [entityLock_eq] at h
  rcases After.await_iff.mp h with ⟨rfl, rfl⟩ | ⟨r, t₁, rfl, h₁⟩
  · exact .acquiring
  cases r with
  | raised e =>
    cases e <;>
    · obtain ⟨rfl, rfl⟩ := After.done_iff.mp h₁
      exact .refused (by simp)
  | cancelled =>
    obtain ⟨rfl, rfl⟩ := After.done_iff.mp h₁
    exact .refused (by simp)
  | ret token =>
    cases token with
    | none =>
      obtain ⟨rfl, rfl⟩ := After.done_iff.mp h₁
      exact .refused (by simp)
    | some token =>
      rcases After.call_cases h₁ with ⟨rfl, hq⟩ | ⟨started, t₂, rfl, h₂⟩ | ⟨r, o, hr, rfl, rfl⟩
      · rw [hq]; exact .starting token
      · rcases After.andThen_cases h₂ with ⟨op, k, h₃, rfl⟩ | ⟨o, t₃, t₄, rfl, h₃, h₄⟩
        · exact .holding token started h₃
        · exact .leaving token started h₃ (leave_point h₄)
      · exact .startHalted token hr

/-- What is released is the key of the entity, under the token that was acquired, unless the
body releases. -/
theorem LockPoint.at_release {key token : Str}
    (h : LockPoint entityId lease wait onLongHold body t (.call (.release key token))) :
    (∃ pre t' k, t = pre ++ t' ∧ After body t' (.await (.release key token) k)) ∨
      key = lockKey entityId ∧ acquired entityId lease wait token ∈ t := by
  cases h with
  | holding token' started hb => exact .inl ⟨[_, _], _, _, rfl, hb⟩
  | leaving token' started hb hexit =>
    cases hexit
    exact .inr ⟨rfl, List.mem_cons_self⟩

/-! ## Into the body -/

/-- After the calls `x` and `y` the lock stands at its `try` block. -/
def Opens (entityId : Str) (lease wait : Seconds) (onLongHold : Bool) (body : Prog calls α)
    (x y : Event calls) : Prop :=
  ∃ fin, After (entityLock entityId lease wait onLongHold body) [x, y] (tryFinally body fin)

theorem opens (token : Str) (started : ℚ) : Opens entityId lease wait onLongHold body
    (acquired entityId lease wait token) (clock started) := by
  refine ⟨leave entityId onLongHold token started, ?_⟩
  rw [entityLock_eq]
  exact .cons _ (.cons _ (.nil _))

/-- Into a body that makes calls lead an `acquire` that gave a token and a look at the clock. -/
theorem Opens.token {x y : Event calls} {op : Call} {k : Reply calls op → Prog calls α}
    (h : Opens entityId lease wait onLongHold body x y) (hb : After body t (.await op k)) :
    ∃ token started, x = acquired entityId lease wait token ∧ y = clock started := by
  obtain ⟨fin, h⟩ := h
  have hpoint := entityLock_point h
  cases body with
  | done o => cases (After.done_iff.mp hb).2
  | await op' k' =>
    generalize hlog : [x, y] = log at hpoint
    generalize hq : (tryFinally (Prog.await op' k') fin).head = q at hpoint
    cases hpoint with
    | acquiring | starting => cases hlog
    | refused | startHalted => cases hq
    | holding token started _ | leaving token started _ _ =>
      obtain ⟨rfl, htail⟩ := List.cons.inj hlog
      exact ⟨token, started, rfl, (List.cons.inj htail).1⟩

end IspPlatform.Concurrency
