import Mathlib.Data.List.Nodup
import IspPlatform.Py.Lists
import IspPlatform.Concurrency.EntityLock

/-!
# Nested locks

`async with` blocks of `entity_lock`, one in another, the outermost first. Their acquires
succeed; on the way out each block reads the clock, may report a long hold, and releases.
The report runs before the release and outside its `suppress`.
-/

namespace IspPlatform.Concurrency

open Py Prog

/-- A block: its arguments, and what its collaborators do in it. -/
structure Held where
  entityId : Str
  lease : Seconds
  wait : Seconds
  /-- `on_long_hold`, with how it ends. -/
  onLongHold : Option (Str → ℚ → Outcome Exn Unit)
  token : Str
  started : ℚ
  ended : ℚ
  released : Outcome Exn Unit

namespace Held

variable (b : Held)

def key : Str := lockKey b.entityId

/-- `held`. -/
def duration : ℚ := b.ended - b.started

/-- The hold was not long, or there is no callback, or it returned. -/
def unhindered : Bool :=
  match b.onLongHold with
  | none => true
  | some callback => !(heldWarningSeconds < b.duration) || !(callback b.key b.duration).failed

/-- A call in the `finally` block has the reply of the block's collaborators. -/
def Answers : Event calls → Prop
  | ⟨.monotonic, r⟩ => r = .ret b.ended
  | ⟨.onLongHold key held, r⟩ => ∀ callback, b.onLongHold = some callback → r = callback key held
  | ⟨.release _ _, r⟩ => r = b.released
  | _ => True

end Held

/-- The blocks around `body`. -/
def nested {α : Type} (body : Prog calls α) : List Held → Prog calls α
  | [] => body
  | b :: bs => entityLock b.entityId b.lease b.wait b.onLongHold.isSome (nested body bs)

/-- The calls on the way in. -/
def entered : List Held → List (Event calls)
  | [] => []
  | b :: bs => acquired b.entityId b.lease b.wait b.token :: clock b.started :: entered bs

/-- The calls on the way out, the innermost block's first: each block reads the clock once, and
then makes calls of its own. -/
inductive Answered : List Held → List (Event calls) → Prop where
  | nil : Answered [] []
  | cons {b : Held} {bs : List Held} {t own : List (Event calls)} : Answered bs t →
      (∀ e ∈ own, b.Answers e ∧ e.op ≠ .monotonic) →
      Answered (b :: bs) (t ++ clock b.ended :: own)

/-- The key and the token of every `release`. -/
def releases (t : List (Event calls)) : List (Str × Str) :=
  t.filterMap fun e => match e.op with
    | .release key token => some (key, token)
    | _ => none

/-- Every entity is released once, the innermost first, each with its own token, and the
outermost block ends as the body did. -/
structure Released {α : Type} (bs : List Held) (post : List (Event calls))
    (body o : Outcome Exn α) : Prop where
  reversed : releases post = bs.reverse.map fun b => (b.key, b.token)
  once : ∀ b ∈ bs, ((releases post).map (·.1)).count b.key = 1
  unmasked : o = body

theorem releases_append (t u : List (Event calls)) :
    releases (t ++ u) = releases t ++ releases u := List.filterMap_append

theorem lockKey_injective : Function.Injective lockKey :=
  fun _ _ h => List.append_cancel_left h

/-! ## One block -/

section
variable {α : Type} {b : Held} {o o' : Outcome Exn α} {u own : List (Event calls)}

theorem exit_clock (h : ExitPoint b.entityId b.onLongHold.isSome b.token b.started o u (.ended o')) :
    ∃ r own, u = ⟨.monotonic, r⟩ :: own ∧ ∀ e ∈ own, e.op ≠ .monotonic := by
  cases h with
  | @readHalted r _ hr => exact ⟨r, [], rfl, by simp⟩
  | warnHalted now => exact ⟨_, _, rfl, by simp⟩
  | left hw _ | releaseCancelled hw =>
    cases hw with
    | quiet now _ => exact ⟨_, _, rfl, by simp⟩
    | warned now _ _ => exact ⟨_, _, rfl, by simp⟩

theorem unhindered_quiet
    (h : ¬ (heldWarningSeconds < b.ended - b.started ∧ b.onLongHold.isSome = true)) :
    b.unhindered = true := by
  unfold Held.unhindered
  cases hb : b.onLongHold with
  | none => rfl
  | some callback =>
    have hshort : ¬ heldWarningSeconds < b.duration := fun hlong => h ⟨hlong, by rw [hb]; rfl⟩
    simp [hshort]

theorem unhindered_warned (hlong : heldWarningSeconds < b.ended - b.started)
    (hsome : b.onLongHold.isSome = true) {r : Outcome Exn Unit}
    (hr : b.Answers ⟨.onLongHold b.key b.duration, r⟩) : b.unhindered = !r.failed := by
  obtain ⟨callback, hb⟩ := Option.isSome_iff_exists.mp hsome
  have hlong' : heldWarningSeconds < b.duration := hlong
  unfold Held.unhindered
  rw [hr callback hb, hb]
  simp [hlong']

theorem reported_releases {w : List (Event calls)}
    (hw : Reported b.entityId b.onLongHold.isSome b.started w) {r : Outcome Exn Unit}
    (hu : clock b.ended :: own = w ++ [⟨.release b.key b.token, r⟩])
    (hown : ∀ e ∈ own, b.Answers e) :
    releases (clock b.ended :: own) = [(b.key, b.token)] ∧ b.unhindered = true ∧
      r = b.released := by
  cases hw with
  | quiet now hquiet =>
    obtain ⟨hclock, rfl⟩ := List.cons.inj hu
    cases hclock
    exact ⟨rfl, unhindered_quiet hquiet, hown _ List.mem_cons_self⟩
  | warned now hlong hsome =>
    obtain ⟨hclock, rfl⟩ := List.cons.inj hu
    cases hclock
    refine ⟨rfl, unhindered_warned hlong hsome (hown _ List.mem_cons_self), ?_⟩
    exact hown _ (List.mem_cons_of_mem _ List.mem_cons_self)

/-- The way out of a block: it releases, and ends as its `with` block did, if it is unhindered. -/
theorem exit_releases
    (h : ExitPoint b.entityId b.onLongHold.isSome b.token b.started o (clock b.ended :: own)
      (.ended o')) (hown : ∀ e ∈ own, b.Answers e) (hrel : b.released ≠ .cancelled) :
    releases (clock b.ended :: own) = (if b.unhindered then [(b.key, b.token)] else []) ∧
      (b.unhindered = true → o' = o) := by
  generalize hu : clock b.ended :: own = u at h
  cases h with
  | readHalted hr =>
    obtain ⟨hclock, -⟩ := List.cons.inj hu
    cases hclock
    cases hr
  | warnHalted now hlong hsome hr =>
    obtain ⟨hclock, rfl⟩ := List.cons.inj hu
    cases hclock
    have hfree := unhindered_warned hlong hsome (hown _ List.mem_cons_self)
    rw [hr.failed] at hfree
    rw [hfree]
    exact ⟨rfl, fun hfalse => absurd hfalse (by decide)⟩
  | left hw hne =>
    obtain ⟨hrels, hfree, -⟩ := reported_releases hw hu hown
    rw [← hu, hrels, hfree]
    exact ⟨rfl, fun _ => rfl⟩
  | releaseCancelled hw =>
    obtain ⟨-, -, hr⟩ := reported_releases hw hu hown
    exact absurd hr.symm hrel

end

/-! ## All blocks -/

section
variable {α : Type} {body : Prog calls α} {tb post : List (Event calls)} {ob o : Outcome Exn α}
  {bs : List Held}

/-- The blocks that are unhindered release, and nothing else does; if all of them are, they end
as the body did. -/
theorem nested_releases (hb : After body tb (.done ob)) (hpost : Answered bs post)
    (hrel : ∀ b ∈ bs, b.released ≠ .cancelled)
    (h : After (nested body bs) (entered bs ++ (tb ++ post)) (.done o)) :
    releases post = ((bs.filter (·.unhindered)).map fun b => (b.key, b.token)).reverse ∧
      ((∀ b ∈ bs, b.unhindered = true) → o = ob) := by
  induction hpost generalizing o with
  | nil =>
    rw [List.append_nil] at h
    have hsame := hb.unique h
    exact ⟨rfl, fun _ => (Prog.done.inj hsame).symm⟩
  | @cons b bs t own _ hown ih =>
    have hpoint : LockPoint b.entityId b.lease b.wait b.onLongHold.isSome (nested body bs)
        (entered (b :: bs) ++ (tb ++ (t ++ clock b.ended :: own))) (.ended o) :=
      entityLock_point h
    generalize hu : entered (b :: bs) ++ (tb ++ (t ++ clock b.ended :: own)) = u at hpoint
    cases hpoint with
    | refused hno =>
      obtain ⟨hacq, -⟩ := List.cons.inj hu
      cases hacq
      exact absurd rfl (hno b.token)
    | startHalted token hr =>
      obtain ⟨-, hrest⟩ := List.cons.inj hu
      obtain ⟨hclock, -⟩ := List.cons.inj hrest
      cases hclock
      cases hr
    | @leaving token started t' u' o' _ hin hexit =>
      obtain ⟨hacq, hclock⟩ := List.cons.inj hu
      cases hacq
      obtain ⟨hstarted, hrest⟩ := List.cons.inj hclock
      cases hstarted
      obtain ⟨r, own', rfl, hown'⟩ := exit_clock hexit
      have hassoc : entered bs ++ (tb ++ (t ++ clock b.ended :: own)) =
          (entered bs ++ (tb ++ t)) ++ clock b.ended :: own := by
        simp only [List.append_assoc]
      obtain ⟨rfl, hread, rfl⟩ := last_split (P := fun e : Event calls => e.op = .monotonic)
        (hassoc.symm.trans hrest) rfl rfl (fun e he => (hown e he).2) hown'
      rw [← hread] at hexit
      obtain ⟨hinner, houter⟩ := ih (fun b' hb' => hrel b' (List.mem_cons_of_mem _ hb')) hin
      obtain ⟨hrels, hkeep⟩ := exit_releases hexit (fun e he => (hown e he).1)
        (hrel b List.mem_cons_self)
      rw [releases_append, hinner, hrels]
      constructor
      · cases hfree : b.unhindered <;> simp [hfree]
      · intro hall
        obtain ⟨hfree, hrest⟩ := List.forall_mem_cons.mp hall
        exact (hkeep hfree).trans (houter hrest)

theorem leave_read {b : Held} {q : Prog calls α}
    (h : After (if heldWarningSeconds < b.duration ∧ b.onLongHold.isSome = true
      then (call (.onLongHold b.key b.duration)).bind fun _ =>
        (suppress (call (.release b.key b.token))).bind fun _ => .done o
      else (suppress (call (.release b.key b.token))).bind fun _ => .done o) own q) :
    After ((leave b.entityId b.onLongHold.isSome b.token b.started).bind fun _ => .done o)
      (clock b.ended :: own) q := by
  unfold leave
  simp only [bind_eq]
  rw [bind_assoc]
  refine .cons _ ?_
  show After (Prog.bind (if heldWarningSeconds < b.duration ∧ b.onLongHold.isSome = true
    then (call (.onLongHold b.key b.duration)).bind fun _ => _ else _) _) _ _
  split
  · next hwarn =>
    rw [if_pos hwarn] at h
    rw [bind_assoc]
    exact h
  · next hquiet =>
    rw [if_neg hquiet] at h
    exact h

theorem exit_ends (b : Held) (o : Outcome Exn α) : ∃ own o',
    (∀ e ∈ own, b.Answers e ∧ e.op ≠ .monotonic) ∧
      After ((leave b.entityId b.onLongHold.isSome b.token b.started).bind fun _ => .done o)
        (clock b.ended :: own) (.done o') := by
  obtain ⟨o', hrelease⟩ : ∃ o', After
      ((suppress (call (.release b.key b.token))).bind fun _ => .done o)
      [⟨.release b.key b.token, b.released⟩] (.done o') := by
    cases b.released with
    | ret _ | raised _ | cancelled => exact ⟨_, .cons _ (.nil _)⟩
  have hreleased : b.Answers ⟨.release b.key b.token, b.released⟩ := rfl
  by_cases hwarn : heldWarningSeconds < b.duration ∧ b.onLongHold.isSome = true
  · obtain ⟨callback, hb⟩ := Option.isSome_iff_exists.mp hwarn.2
    have hanswer : b.Answers ⟨.onLongHold b.key b.duration, callback b.key b.duration⟩ := by
      intro callback' hb'
      rw [hb] at hb'
      rw [Option.some.inj hb']
    cases hr : callback b.key b.duration with
    | ret a =>
      rw [hr] at hanswer
      refine ⟨[⟨.onLongHold b.key b.duration, .ret a⟩, ⟨.release b.key b.token, b.released⟩], o',
        by simp [hanswer, hreleased], leave_read ?_⟩
      rw [if_pos hwarn]
      exact .cons _ hrelease
    | raised e =>
      rw [hr] at hanswer
      refine ⟨[⟨.onLongHold b.key b.duration, .raised e⟩], .raised e, by simp [hanswer],
        leave_read ?_⟩
      rw [if_pos hwarn]
      exact .cons _ (.nil _)
    | cancelled =>
      rw [hr] at hanswer
      refine ⟨[⟨.onLongHold b.key b.duration, .cancelled⟩], .cancelled, by simp [hanswer],
        leave_read ?_⟩
      rw [if_pos hwarn]
      exact .cons _ (.nil _)
  · refine ⟨[⟨.release b.key b.token, b.released⟩], o', by simp [hreleased], leave_read ?_⟩
    rw [if_neg hwarn]
    exact hrelease

theorem nested_ends (bs : List Held) (hb : After body tb (.done ob)) : ∃ post o,
    Answered bs post ∧ After (nested body bs) (entered bs ++ (tb ++ post)) (.done o) := by
  induction bs with
  | nil => exact ⟨[], ob, .nil, by rwa [List.append_nil]⟩
  | cons b bs ih =>
    obtain ⟨t, o, ht, hin⟩ := ih
    obtain ⟨own, o', hown, hout⟩ := exit_ends b o
    refine ⟨t ++ clock b.ended :: own, o', .cons ht hown, ?_⟩
    have hassoc : entered (b :: bs) ++ (tb ++ (t ++ clock b.ended :: own)) =
        acquired b.entityId b.lease b.wait b.token :: clock b.started ::
          ((entered bs ++ (tb ++ t)) ++ clock b.ended :: own) := by
      simp [entered]
    rw [hassoc]
    show After (entityLock b.entityId b.lease b.wait b.onLongHold.isSome (nested body bs)) _ _
    rw [entityLock_eq]
    exact .cons _ (.cons _ (hin.andThen hout))

end

/-- **Nested locks.** The way out of nested blocks comes to its end, and on every way out the
entities are released and the body's outcome is kept exactly when no callback that a long hold
calls fails. -/
theorem released_iff_unhindered {α : Type} {body : Prog calls α} {tb : List (Event calls)}
    {ob : Outcome Exn α} (hb : After body tb (.done ob)) {bs : List Held}
    (hdistinct : (bs.map (·.entityId)).Nodup) (hrel : ∀ b ∈ bs, b.released ≠ .cancelled) :
    (∃ post o, Answered bs post ∧
      After (nested body bs) (entered bs ++ (tb ++ post)) (.done o)) ∧
    ∀ post o, Answered bs post → After (nested body bs) (entered bs ++ (tb ++ post)) (.done o) →
      (Released bs post ob o ↔ ∀ b ∈ bs, b.unhindered = true) := by
  refine ⟨nested_ends bs hb, fun post o hpost h => ?_⟩
  obtain ⟨hrels, hkeep⟩ := nested_releases hb hpost hrel h
  constructor
  · intro hreleased
    have hlen := congrArg List.length (hrels.symm.trans hreleased.reversed)
    simp only [List.length_reverse, List.length_map] at hlen
    exact List.filter_eq_self.mp (List.filter_sublist.eq_of_length hlen)
  · intro hall
    rw [List.filter_eq_self.mpr hall] at hrels
    have hkeys : (releases post).map (·.1) = (bs.map (·.key)).reverse := by
      rw [hrels, List.map_reverse, List.map_map]
      rfl
    have hnodup : (bs.map (·.key)).Nodup := by
      have hkeyed := hdistinct.map lockKey_injective
      rwa [List.map_map] at hkeyed
    refine ⟨by rw [hrels, List.map_reverse], fun b hb => ?_, hkeep hall⟩
    rw [hkeys, List.count_reverse]
    exact List.count_eq_one_of_mem hnodup (List.mem_map_of_mem hb)

/-- A body that fails. -/
def failing : Prog calls Unit := raise (.other (lit "business failure"))

def callbackFailure : Exn := .other (lit "metrics down")

/-- A hold of six seconds, whose callback fails if `fails`. -/
def sixSeconds (entityId token : String) (fails : Bool) : Held :=
  ⟨lit entityId, defaultLeaseSeconds, defaultAcquireTimeoutSeconds,
    some fun _ _ => if fails then .raised callbackFailure else .ret (), lit token, 0, 6, .ret ()⟩

theorem released_iff_unhindered_pair :
    ∃ post, Released [sixSeconds "ACC1" "t1" false, sixSeconds "ACC2" "t2" false] post
      (.raised (.other (lit "business failure")) : Outcome Exn Unit)
      (.raised (.other (lit "business failure"))) := by
  have hdistinct : ([sixSeconds "ACC1" "t1" false, sixSeconds "ACC2" "t2" false].map
      (·.entityId)).Nodup := by decide
  obtain ⟨⟨post, o, hpost, h⟩, hiff⟩ :=
    released_iff_unhindered (After.nil failing) hdistinct (by simp [sixSeconds])
  have hreleased := (hiff post o hpost h).mpr (by simp [Held.unhindered, sixSeconds])
  obtain rfl := hreleased.unmasked
  exact ⟨post, hreleased⟩

def failedCallback : Event calls :=
  ⟨.onLongHold (lockKey (lit "ACC1")) 6, .raised callbackFailure⟩

/-- The calls on the way out of a six-second hold whose callback fails. -/
def unreleased : List (Event calls) := [clock 6, failedCallback]

/-- The callback's exception takes the place of the body's, and nothing is released. -/
theorem callback_prevents_release :
    Answered [sixSeconds "ACC1" "t1" true] unreleased ∧
      After (nested failing [sixSeconds "ACC1" "t1" true])
        (entered [sixSeconds "ACC1" "t1" true] ++ ([] ++ unreleased))
        (.done (.raised callbackFailure)) ∧
      releases unreleased = [] ∧
      ¬ Released [sixSeconds "ACC1" "t1" true] unreleased
        (.raised (.other (lit "business failure")) : Outcome Exn Unit)
        (.raised callbackFailure) := by
  have hduration : (sixSeconds "ACC1" "t1" true).duration = 6 := by
    norm_num [Held.duration, sixSeconds]
  refine ⟨@Answered.cons _ _ [] [failedCallback] .nil ?_, ?_, rfl, ?_⟩
  · intro e he
    rw [List.mem_singleton.mp he]
    refine ⟨?_, by simp [failedCallback]⟩
    rintro callback hcallback
    rw [← Option.some.inj hcallback]
    rfl
  · have hlong : heldWarningSeconds < (sixSeconds "ACC1" "t1" true).duration := by
      rw [hduration]
      norm_num [heldWarningSeconds]
    have hout := @leave_read Unit (.raised (.other (lit "business failure"))) [failedCallback]
      (sixSeconds "ACC1" "t1" true) (.done (.raised callbackFailure)) (by
        rw [if_pos ⟨hlong, rfl⟩, hduration]
        exact .cons _ (.nil _))
    show After (entityLock _ _ _ _ _) _ _
    rw [entityLock_eq]
    exact .cons _ (.cons _ hout)
  · intro hreleased
    cases hreleased.reversed

end IspPlatform.Concurrency
