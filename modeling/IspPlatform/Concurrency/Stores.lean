import IspPlatform.Py.Pool
import IspPlatform.Concurrency.DualStore

/-!
# The two stores

A `Journal` lists the writes that took effect, in order; a store maps an entity to the
group of its last write. `Journal.Ordered` is the discipline of the dual-store commit:
a call writes the projection once, before anything else, and installs in the ledger
what the projection was last given, which is its own write.

`StoreEffect` is what the collaborators do to the journal and the audit trail, and
`WritePoint` what a state change has written when it makes each of its calls.
-/

namespace IspPlatform.Concurrency

open Py

inductive Store where
  | ledger
  | projection
  deriving DecidableEq, Repr

/-- A write that took effect, with the call that made it. -/
structure Write where
  store : Store
  call : Nat
  entity : Str
  group : Str
  deriving DecidableEq, Repr

abbrev Journal := List Write

namespace Journal

def latest (j : Journal) (st : Store) (e : Str) : Option Write :=
  (j.filter fun w => w.store = st ∧ w.entity = e).getLast?

/-- The group of `e` in the store, which held `v₀` before the first write. -/
def value (j : Journal) (v₀ : Str → Str) (st : Store) (e : Str) : Str :=
  ((j.latest st e).map Write.group).getD (v₀ e)

theorem latest_snoc (j : Journal) (w : Write) (st : Store) (e : Str) :
    Journal.latest (j ++ [w]) st e =
      if w.store = st ∧ w.entity = e then some w else j.latest st e := by
  unfold latest
  rw [List.filter_append]
  by_cases h : w.store = st ∧ w.entity = e <;> simp [h]

/-- A write is what its store then holds; every other entity and store is unchanged. -/
theorem value_snoc (j : Journal) (w : Write) (v₀ : Str → Str) (st : Store) (e : Str) :
    Journal.value (j ++ [w]) v₀ st e =
      if w.store = st ∧ w.entity = e then w.group else j.value v₀ st e := by
  unfold value
  rw [latest_snoc]
  split <;> rfl

/-- The writes of one entity. -/
def of (j : Journal) (e : Str) : Journal := j.filter (·.entity = e)

theorem of_snoc (j : Journal) (w : Write) (e : Str) :
    Journal.of (j ++ [w]) e = if w.entity = e then j.of e ++ [w] else j.of e := by
  unfold of
  rw [List.filter_append]
  by_cases h : w.entity = e <;> simp [h]

theorem mem_of {j : Journal} {e : Str} {w : Write} : w ∈ j.of e ↔ w ∈ j ∧ w.entity = e := by
  simp [of]

theorem latest_of (j : Journal) (st : Store) (e : Str) : (j.of e).latest st e = j.latest st e := by
  unfold latest of
  rw [List.filter_filter]
  congr 2
  funext w
  by_cases h : w.entity = e <;> simp [h]

theorem value_of (j : Journal) (v₀ : Str → Str) (st : Store) (e : Str) :
    (j.of e).value v₀ st e = j.value v₀ st e := by
  rw [value, latest_of, value]

theorem latest_mem {j : Journal} {st : Store} {e : Str} {w : Write} (h : j.latest st e = some w) :
    w ∈ j ∧ w.store = st ∧ w.entity = e := by
  have hw := List.mem_of_getLast? h
  simpa using hw

theorem latest_ge {j : Journal} {w : Write} (h : w ∈ j)
    (hcall : j.Pairwise fun a b => a.entity = b.entity → a.call ≤ b.call) :
    ∃ v, j.latest w.store w.entity = some v ∧ w.call ≤ v.call := by
  induction j using List.reverseRecOn with
  | nil => cases h
  | append_singleton j x ih =>
    rw [List.pairwise_append] at hcall
    rw [latest_snoc]
    by_cases hx : x.store = w.store ∧ x.entity = w.entity
    · rw [if_pos hx]
      refine ⟨x, rfl, ?_⟩
      rcases List.mem_append.mp h with h | h
      · exact hcall.2.2 w h x (List.mem_singleton.mpr rfl) hx.2.symm
      · rw [List.mem_singleton.mp h]
    · rw [if_neg hx]
      rcases List.mem_append.mp h with h | h
      · exact ih h hcall.1
      · rw [List.mem_singleton.mp h] at hx
        exact absurd ⟨rfl, rfl⟩ hx

/-- The discipline of the dual-store commit. -/
inductive Ordered : Journal → Prop where
  | nil : Ordered []
  | project {j : Journal} (i : Nat) (e g : Str) : Ordered j → (∀ w ∈ j, w.call ≠ i) →
      Ordered (j ++ [⟨.projection, i, e, g⟩])
  | install {j : Journal} (i : Nat) (e g : Str) : Ordered j →
      j.latest .projection e = some ⟨.projection, i, e, g⟩ → Ordered (j ++ [⟨.ledger, i, e, g⟩])

theorem Ordered.projected {j : Journal} (h : Ordered j) {w : Write} (hw : w ∈ j)
    (hst : w.store = .ledger) :
    ∃ pre post, j = pre ++ w :: post ∧ ⟨.projection, w.call, w.entity, w.group⟩ ∈ pre := by
  induction h with
  | nil => cases hw
  | @project j i e g _ _ ih =>
    rcases List.mem_append.mp hw with hw | hw
    · obtain ⟨pre, post, rfl, hin⟩ := ih hw
      exact ⟨pre, _, by rw [List.append_assoc, List.cons_append], hin⟩
    · rw [List.mem_singleton.mp hw] at hst
      cases hst
  | @install j i e g _ hl ih =>
    rcases List.mem_append.mp hw with hw | hw
    · obtain ⟨pre, post, rfl, hin⟩ := ih hw
      exact ⟨pre, _, by rw [List.append_assoc, List.cons_append], hin⟩
    · obtain rfl := List.mem_singleton.mp hw
      exact ⟨j, [], rfl, (latest_mem hl).1⟩

/-- **The ledger is never ahead.** It agrees with the projection, or the call that wrote
the projection last has installed nothing. -/
theorem Ordered.agree_or_pending {j : Journal} (h : Ordered j) (v₀ : Str → Str) (e : Str) :
    j.value v₀ .ledger e = j.value v₀ .projection e ∨
      ∃ w, j.latest .projection e = some w ∧
        ∀ x ∈ j, x.store = .ledger → x.entity = e → x.call ≠ w.call := by
  induction h with
  | nil => exact .inl rfl
  | @project j i e' g _ hnew ih =>
    by_cases he : e' = e
    · subst he
      refine .inr ⟨⟨.projection, i, e', g⟩, by simp [latest_snoc], ?_⟩
      intro x hx hst _
      rcases List.mem_append.mp hx with hx | hx
      · exact hnew x hx
      · rw [List.mem_singleton.mp hx] at hst
        cases hst
    · rcases ih with ih | ⟨w, hw, hno⟩
      · exact .inl (by simpa [value_snoc, he] using ih)
      · refine .inr ⟨w, by simpa [latest_snoc, he] using hw, ?_⟩
        intro x hx hst hxe
        rcases List.mem_append.mp hx with hx | hx
        · exact hno x hx hst hxe
        · rw [List.mem_singleton.mp hx] at hst
          cases hst
  | @install j i e' g _ hl ih =>
    by_cases he : e' = e
    · subst he
      refine .inl ?_
      have hp : j.value v₀ .projection e' = g := by rw [value, hl]; rfl
      simp [value_snoc, hp]
    · rcases ih with ih | ⟨w, hw, hno⟩
      · exact .inl (by simpa [value_snoc, he] using ih)
      · refine .inr ⟨w, by simpa [latest_snoc, he] using hw, ?_⟩
        intro x hx hst hxe
        rcases List.mem_append.mp hx with hx | hx
        · exact hno x hx hst hxe
        · rw [List.mem_singleton.mp hx] at hxe
          exact absurd hxe he

end Journal

structure AuditRow where
  call : Nat
  entityId : Str
  event : Str
  result : Str
  deriving DecidableEq, Repr

/-- The state behind the collaborators. -/
structure Stores where
  journal : Journal
  audit : List AuditRow
  deriving DecidableEq, Repr

def Stores.empty : Stores := ⟨[], []⟩

/-- The write a call makes when it takes effect, made by `i`. -/
def Call.write (i : Nat) : Call → Option Write
  | .writeGroup e g => some ⟨.projection, i, e, g⟩
  | .commit tx => some ⟨.ledger, i, tx.entityId, tx.group⟩
  | _ => none

/-- What a call that returns does, made by `i`: `commit` installs the staged group,
`rollback` drops it, the device answers anything. -/
inductive StoreEffect (i : Nat) : Stores → (op : Call) → op.Res → Stores → Prop where
  | writeGroup {s : Stores} {e g : Str} : StoreEffect i s (.writeGroup e g) ()
      { s with journal := s.journal ++ [⟨.projection, i, e, g⟩] }
  | forceReauth {s : Stores} {e : Str} (o : CommandOutcome) : StoreEffect i s (.forceReauth e) o s
  | commit {s : Stores} {tx : Tx} : StoreEffect i s (.commit tx) ()
      { s with journal := s.journal ++ [⟨.ledger, i, tx.entityId, tx.group⟩] }
  | rollback {s : Stores} {tx : Tx} : StoreEffect i s (.rollback tx) () s
  | record {s : Stores} {e ev r : Str} : StoreEffect i s (.record e ev r) ()
      { s with audit := s.audit ++ [⟨i, e, ev, r⟩] }

theorem StoreEffect.journal {i : Nat} {s s' : Stores} {op : Call} {a : op.Res}
    (h : StoreEffect i s op a s') : s'.journal = s.journal ++ (op.write i).toList := by
  cases h <;> simp [Call.write]

/-! ## Program points -/

/-- Where a state change stands with its two writes. -/
structure WritePoint (c : StateChange) (t : List (Event calls)) (q : Head calls CommandOutcome) :
    Prop where
  write : ∀ e g, q = .call (.writeGroup e g) →
    e = c.entityId ∧ g = c.targetGroup ∧ ∀ x ∈ t, ∀ n, x.op.write n = none
  reauth : ∀ e, q = .call (.forceReauth e) → e = c.entityId ∧ ∃ pre, t = pre ++ [wrote c]
  commit : ∀ tx, q = .call (.commit tx) →
    tx = c.tx ∧ ∃ pre o, t = pre ++ [wrote c, reauthed c o]
  called : ∀ x ∈ t, ∀ n w, x.op.write n = some w → w.entity = c.entityId ∧
    w.group = c.targetGroup ∧ (w.store = .ledger → ∃ o, ¬ o.Refused ∧ reauthed c o ∈ t)

section
variable {c : StateChange} {tx : Tx} {t : List (Event calls)} {q : Head calls CommandOutcome}

/-- The calls made so far: those of the `try`, then at most `rollback` and `record`. -/
theorem ApplyPoint.shape (h : ApplyPoint c tx t q) : ∃ b op, Trying c tx b op ∧
    (t = b ∨ ∃ r rest, t = b ++ ⟨op, r⟩ :: rest ∧ ∀ x ∈ rest, ∀ n, x.op.write n = none) := by
  cases h with
  | trying hb => exact ⟨_, _, hb, .inl rfl⟩
  | reporting o ho => exact ⟨_, _, .commit o ho, .inr ⟨_, [], rfl, by simp⟩⟩
  | returned o ho => exact ⟨_, _, .commit o ho, .inr ⟨_, [_], rfl, by simp [recorded, Call.write]⟩⟩
  | reportHalted o ho _ => exact ⟨_, _, .commit o ho, .inr ⟨_, [_], rfl, by simp [Call.write]⟩⟩
  | refused o ho => exact ⟨_, _, .record o ho, .inr ⟨_, [], rfl, by simp⟩⟩
  | escaped _ hb | cancelled hb | undoing hb _ => exact ⟨_, _, hb, .inr ⟨_, [], rfl, by simp⟩⟩
  | undoHalted hb _ _ => exact ⟨_, _, hb, .inr ⟨_, [_], rfl, by simp [Call.write]⟩⟩
  | noting hb _ => exact ⟨_, _, hb, .inr ⟨_, [_], rfl, by simp [rolledBack, Call.write]⟩⟩
  | noteHalted hb _ _ | failed hb _ =>
    exact ⟨_, _, hb, .inr ⟨_, [_, _], rfl, by simp [rolledBack, recorded, Call.write]⟩⟩

theorem Trying.called {b : List (Event calls)} {op : Call} (h : Trying c c.tx b op) :
    ∀ x ∈ b, ∀ n w, x.op.write n = some w →
      w.entity = c.entityId ∧ w.group = c.targetGroup ∧ w.store = .projection := by
  cases h <;> simp [wrote, reauthed, rolledBack, Call.write]

theorem ApplyPoint.writes (h : ApplyPoint c c.tx t q) : WritePoint c t q where
  write e g hq := by
    subst hq
    cases h with
    | trying hb => cases hb; exact ⟨rfl, rfl, by simp⟩
  reauth e hq := by
    subst hq
    cases h with
    | trying hb => cases hb; exact ⟨rfl, [], rfl⟩
  commit tx hq := by
    subst hq
    cases h with
    | trying hb => cases hb with | commit o _ => exact ⟨rfl, [], o, rfl⟩
  called x hx n w hw := by
    obtain ⟨b, op, hb, rfl | ⟨r, rest, rfl, hrest⟩⟩ := h.shape
    · obtain ⟨he, hg, hst⟩ := hb.called x hx n w hw
      exact ⟨he, hg, by simp [hst]⟩
    · rcases List.mem_append.mp hx with hx | hx
      · obtain ⟨he, hg, hst⟩ := hb.called x hx n w hw
        exact ⟨he, hg, by simp [hst]⟩
      · rcases List.mem_cons.mp hx with rfl | hx
        · cases hb with
          | write =>
            cases Option.some.inj hw
            exact ⟨rfl, rfl, fun hst => by cases hst⟩
          | reauth | rollback | record => cases hw
          | commit o ho =>
            cases Option.some.inj hw
            exact ⟨rfl, rfl, fun _ => ⟨o, ho, by simp⟩⟩
        · rw [hrest x hx n] at hw
          cases hw

end

end IspPlatform.Concurrency
