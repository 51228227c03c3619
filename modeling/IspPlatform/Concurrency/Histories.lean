import Mathlib.Data.List.Nodup
import IspPlatform.Concurrency.LockedRuns

/-!
# The histories of the two stores

The history of a store is what it was given for an entity, call by call. Under leases that hold,
the ledger's history is a part of the router's, in the same order: a change is installed once at
most, after it was projected, no change overtakes another, and none that was reported as done is
missing from either store.
-/

namespace IspPlatform.Concurrency

open Py System

namespace Journal

/-- The calls that wrote `e` in the store, each with its group. -/
def history (j : Journal) (st : Store) (e : Str) : List (Nat × Str) :=
  (j.filter fun w => w.store = st ∧ w.entity = e).map fun w => (w.call, w.group)

theorem history_snoc (j : Journal) (w : Write) (st : Store) (e : Str) :
    Journal.history (j ++ [w]) st e =
      j.history st e ++ if w.store = st ∧ w.entity = e then [(w.call, w.group)] else [] := by
  unfold history
  rw [List.filter_append, List.map_append]
  by_cases h : w.store = st ∧ w.entity = e <;> simp [h]

theorem history_of (j : Journal) (st : Store) (e : Str) :
    (j.of e).history st e = j.history st e := by
  unfold history of
  rw [List.filter_filter]
  congr 2
  funext w
  by_cases h : w.entity = e <;> simp [h]

theorem mem_history {j : Journal} {st : Store} {e : Str} {x : Nat × Str} :
    x ∈ j.history st e ↔ ⟨st, x.1, e, x.2⟩ ∈ j := by
  obtain ⟨i, g⟩ := x
  simp only [history, List.mem_map, List.mem_filter, decide_eq_true_eq, Prod.mk.injEq]
  constructor
  · rintro ⟨⟨st', i', e', g'⟩, ⟨hw, rfl, rfl⟩, rfl, rfl⟩
    exact hw
  · exact fun hw => ⟨_, ⟨hw, rfl, rfl⟩, rfl, rfl⟩

theorem history_latest {j : Journal} {st : Store} {e : Str} {w : Write}
    (h : j.latest st e = some w) : ∃ before, j.history st e = before ++ [(w.call, w.group)] := by
  obtain ⟨ws, hws⟩ := List.getLast?_eq_some_iff.mp h
  unfold history
  rw [hws, List.map_append]
  exact ⟨_, rfl⟩

theorem Ordered.history_once {j : Journal} (h : Ordered j) (e : Str) :
    ((j.history .projection e).map Prod.fst).Nodup := by
  induction h with
  | nil => exact List.nodup_nil
  | @project j i e' g _ hnew ih =>
    rw [history_snoc, List.map_append]
    split
    · rw [List.map_singleton, ← List.concat_eq_append, List.nodup_concat]
      refine ⟨?_, ih⟩
      intro hi
      obtain ⟨x, hx, hxi⟩ := List.mem_map.mp hi
      exact hnew _ (mem_history.mp hx) hxi
    · simpa using ih
  | install i e' g _ _ ih =>
    rw [history_snoc, if_neg (by simp), List.append_nil]
    exact ih

/-- What is installed once was projected in the same order. -/
theorem Ordered.history_sublist {j : Journal} (h : Ordered j) {e : Str}
    (hn : ((j.history .ledger e).map Prod.fst).Nodup) :
    (j.history .ledger e).Sublist (j.history .projection e) := by
  induction h with
  | nil => exact List.Sublist.refl _
  | @project j i e' g _ _ ih =>
    rw [history_snoc, if_neg (by simp), List.append_nil] at hn ⊢
    rw [history_snoc]
    exact (ih hn).trans (List.sublist_append_left _ _)
  | @install j i e' g _ hl ih =>
    have hprojected : Journal.history (j ++ [⟨.ledger, i, e', g⟩]) .projection e =
        j.history .projection e := by
      rw [history_snoc, if_neg (by simp), List.append_nil]
    rw [hprojected]
    rw [history_snoc] at hn ⊢
    by_cases he : e' = e
    · subst he
      rw [if_pos ⟨rfl, rfl⟩] at hn ⊢
      rw [List.map_append, List.map_singleton, ← List.concat_eq_append, List.nodup_concat] at hn
      obtain ⟨before, hbefore⟩ := history_latest hl
      have hsub := ih hn.2
      rw [hbefore] at hsub ⊢
      -- the call has installed nothing yet, so its projection is not matched
      obtain ⟨l, l', hhist, hl, hl'⟩ := List.sublist_append_iff.mp hsub
      rcases List.sublist_singleton.mp hl' with rfl | rfl
      · rw [hhist, List.append_nil]
        exact hl.append (List.Sublist.refl _)
      · refine absurd ?_ hn.1
        rw [hhist, List.map_append]
        exact List.mem_append_right _ List.mem_cons_self
    · rw [if_neg fun h => he h.2, List.append_nil] at hn ⊢
      exact ih hn

end Journal

section
variable {args : LockArgs} {c : StateChange} {t : List (Event calls)}

theorem LockPoint.commits_once {tx : Tx}
    (h : LockPoint c.entityId args.lease args.wait args.onLongHold (applyStateChange c c.tx) t
      (.call (.commit tx))) : ∀ x ∈ t, ∀ tx', x.op ≠ .commit tx' := by
  cases h with
  | holding token started hb =>
    cases applyStateChange_point hb with
    | trying ht =>
      cases ht with
      | commit o _ => simp [acquired, clock, wrote, reauthed]
  | leaving token started hb hexit => cases hexit

end

variable {args : LockArgs} {s : Workers} {e : Str}
  {ok : Workers → Label calls StateChange Str → Locked → Prop}

theorem locked_once (h : (locked args).Reach .empty ok s) :
    ((s.shared.stores.journal.history .ledger e).map Prod.fst).Nodup := by
  refine h.inv (P := fun b _ => ((b.stores.journal.history .ledger e).map Prod.fst).Nodup)
    List.nodup_nil ?_ ?_
  · intro s i d op k r b hr ih hj ha _
    rcases (locked_writers args).answer ha with ⟨hsame, -⟩ | ⟨w, hop, hnew⟩
    · rw [hsame]
      exact ih
    rw [hnew, Journal.history_snoc, List.map_append]
    split
    · next hw =>
      cases op with
      | commit tx =>
        cases hop
        rw [List.map_singleton, ← List.concat_eq_append, List.nodup_concat]
        refine ⟨?_, ih⟩
        intro hi
        obtain ⟨x, hx, hxi⟩ := List.mem_map.mp hi
        obtain ⟨⟨n, y⟩, hy, hn, hyw⟩ :=
          (locked_writers args).called rfl hr _ (Journal.mem_history.mp hx)
        obtain rfl : n = i := hn.trans hxi
        obtain ⟨tx', hcommit⟩ : ∃ tx', y.op = .commit tx' := by
          obtain ⟨op, r⟩ := y
          cases op with
          | commit tx' => exact ⟨tx', rfl⟩
          | _ => cases hyw
        exact (locked_point (hr.after hj)).commits_once y (mem_logOf.mpr hy) tx' hcommit
      | writeGroup ent g =>
        cases hop
        cases hw.1
      | _ => cases hop
    · simpa using ih
  · rintro s m b _ ih rfl _
    exact ih

/-! ## The histories -/

/-- The histories of `e`. -/
structure Serial (s : Workers) (e : Str) : Prop where
  /-- No change is projected twice. -/
  once : ((s.shared.stores.journal.history .projection e).map Prod.fst).Nodup
  /-- What was installed was projected, in the same order. -/
  installed : (s.shared.stores.journal.history .ledger e).Sublist
    (s.shared.stores.journal.history .projection e)
  /-- What was projected was asked for. -/
  asked : ∀ x ∈ s.shared.stores.journal.history .projection e, ∃ t, s.threads[x.1]? = some t ∧
    t.job.entityId = e ∧ t.job.targetGroup = x.2
  /-- What was reported as done was installed. -/
  done : ∀ (i : Nat) t o, s.threads[i]? = some t → t.job.entityId = e →
    t.code = .done (.ret o) → (i, t.job.targetGroup) ∈ s.shared.stores.journal.history .ledger e

/-- **No change is lost, repeated or overtaken.** While no lease of `e` expires under a call that
has yet to commit, the ledger follows the router change by change. -/
theorem serial (h : (locked args).Reach .empty (leaseHolds e) s) : Serial s e where
  once := by
    have hordered := (locked_writers args).ordered rfl locked_exclusive h
    have honce := hordered.history_once e
    rwa [Journal.history_of] at honce
  installed := by
    have hordered := (locked_writers args).ordered rfl locked_exclusive h
    have hsub := hordered.history_sublist (e := e) (by
      rw [Journal.history_of]
      exact locked_once h)
    rwa [Journal.history_of, Journal.history_of] at hsub
  asked x hx := by
    obtain ⟨t, ht, hent, hgroup, -⟩ :=
      (locked_writers args).author rfl h (Journal.mem_history.mp hx)
    exact ⟨t, ht, hent.symm, hgroup.symm⟩
  done i t o ht hent ho := by
    subst hent
    have hmem := mem_logOf.mp (locked_point (h.ended ht ho)).of_ret
    exact Journal.mem_history.mpr ((locked_writers args).shown h _ hmem _ () rfl rfl)

theorem serial_reactivated : ∃ s, (locked lockArgs).Reach .empty (leaseHolds (lit "acct7")) s ∧
    s.threads = [⟨suspension, .done (.ret .applied), false⟩,
      ⟨reactivation, .done (.ret .applied), false⟩] ∧ Serial s (lit "acct7") := by
  obtain ⟨s, h, hthreads⟩ := reach_in_turn
  exact ⟨s, h, hthreads, serial h⟩

end IspPlatform.Concurrency
