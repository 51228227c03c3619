import IspPlatform.Py.Pool
import IspPlatform.Concurrency.Calls

/-!
# The lock backend

A backend that keeps its contract, and what any system whose threads use it has. Its state has
two ghosts beside its entries: the leases granted, in order, and the tokens whose lease ran
out. `Granted` is the invariant: an entry belongs to the last grant of its key, and the token of
a grant owns its key until its lease runs out or its own user calls `release`. `Locking` is such
a system; the backend may be a part of its state.
-/

namespace IspPlatform.Concurrency

open Py Prog System

/-- A call to the lock backend. -/
def Call.OfBackend : Call → Prop
  | .acquire .. | .release .. => True
  | _ => False

/-- A lease the backend granted. -/
structure Grant where
  user : Nat
  key : Str
  token : Str
  deriving DecidableEq

/-- The backend: the token of each key's unexpired entry. -/
structure Backend where
  owner : Str → Option Str
  /-- The leases granted so far, the oldest first. -/
  grants : List Grant
  /-- The tokens whose lease ran out. -/
  expired : List Str

def Backend.empty : Backend := ⟨fun _ => none, [], []⟩

/-- The lease of `key` runs out. -/
def Backend.expire (b : Backend) (key : Str) : Backend :=
  { b with owner := Function.update b.owner key none,
           expired := b.expired ++ (b.owner key).toList }

/-- What a call of user `i` that returns does. `acquire` gives a fresh token to a key
without an unexpired entry, or gives up; `release` deletes the entry if it has the token. -/
inductive LeaseEffect (i : Nat) : Backend → (op : Call) → op.Res → Backend → Prop where
  | acquired {b : Backend} {key token : Str} (lease wait : Seconds) : b.owner key = none →
      (∀ g ∈ b.grants, g.token ≠ token) →
      LeaseEffect i b (.acquire key lease wait) (some token)
        { b with owner := Function.update b.owner key (some token),
                 grants := b.grants ++ [⟨i, key, token⟩] }
  | busy {b : Backend} {key : Str} (lease wait : Seconds) :
      LeaseEffect i b (.acquire key lease wait) none b
  | released {b : Backend} {key token : Str} : b.owner key = some token →
      LeaseEffect i b (.release key token) () { b with owner := Function.update b.owner key none }
  | stale {b : Backend} {key token : Str} : b.owner key ≠ some token →
      LeaseEffect i b (.release key token) () b
  | other {b : Backend} {op : Call} (a : op.Res) : ¬ op.OfBackend → LeaseEffect i b op a b

theorem LeaseEffect.keeps {i : Nat} {b b' : Backend} {op : Call} {a : op.Res}
    (h : LeaseEffect i b op a b') {key token : Str} (hown : b.owner key = some token)
    (hrel : op ≠ .release key token) : b'.owner key = some token := by
  cases h with
  | @acquired key' token' lease wait hfree _ =>
    have hne : key ≠ key' := by
      rintro rfl
      rw [hown] at hfree
      cases hfree
    exact (Function.update_of_ne hne _ _).trans hown
  | @released key' token' hown' =>
    have hne : key ≠ key' := by
      rintro rfl
      rw [hown] at hown'
      exact hrel (by rw [Option.some.inj hown'])
    exact (Function.update_of_ne hne _ _).trans hown
  | busy | stale | other => exact hown

theorem LeaseEffect.grants {i : Nat} {b b' : Backend} {op : Call} {a : op.Res}
    (h : LeaseEffect i b op a b') : ∀ g ∈ b.grants, g ∈ b'.grants := by
  intro g hg
  cases h with
  | acquired => exact List.mem_append_left _ hg
  | busy | released | stale | other => exact hg

/-! ## The invariant -/

/-- The backend's entries and the leases it granted, after the calls of the trace. -/
structure Granted (b : Backend) (tr : List (Nat × Event calls)) : Prop where
  /-- A token is granted once. -/
  unique : ∀ (m n : Nat) g g', b.grants[m]? = some g → b.grants[n]? = some g' →
    g.token = g'.token → m = n
  /-- An entry belongs to the last grant of its key. -/
  latest : ∀ key token, b.owner key = some token →
    ∃ (m : Nat) (i : Nat), b.grants[m]? = some ⟨i, key, token⟩ ∧
      ∀ (n : Nat) g, m < n → b.grants[n]? = some g → g.key ≠ key
  /-- An `acquire` that gave a token was granted it. -/
  granted : ∀ i key lease wait token,
    (i, (⟨.acquire key lease wait, .ret (some token)⟩ : Event calls)) ∈ tr →
      ⟨i, key, token⟩ ∈ b.grants
  /-- A lease lasts until it runs out or its user calls `release`. -/
  lasts : ∀ g ∈ b.grants, b.owner g.key = some g.token ∨ g.token ∈ b.expired ∨
    ∃ r, (g.user, (⟨.release g.key g.token, r⟩ : Event calls)) ∈ tr

variable {b : Backend} {tr : List (Nat × Event calls)} {i : Nat}

theorem Granted.same (h : Granted b tr) {g g' : Grant} (hg : g ∈ b.grants) (hg' : g' ∈ b.grants)
    (ht : g.token = g'.token) : g = g' := by
  obtain ⟨m, hm⟩ := List.mem_iff_getElem?.mp hg
  obtain ⟨n, hn⟩ := List.mem_iff_getElem?.mp hg'
  obtain rfl := h.unique m n g g' hm hn ht
  exact Option.some.inj (hm.symm.trans hn)

theorem Granted.idle (h : Granted b tr) {e : Event calls}
    (he : ∀ key lease wait token, e ≠ ⟨.acquire key lease wait, .ret (some token)⟩) :
    Granted b (tr ++ [(i, e)]) where
  unique := h.unique
  latest := h.latest
  granted j key lease wait token hx := by
    rcases List.mem_append.mp hx with hx | hx
    · exact h.granted j key lease wait token hx
    · exact absurd (congrArg (·.2) (List.mem_singleton.mp hx)).symm (he key lease wait token)
  lasts g hg := by
    rcases h.lasts g hg with hown | hexp | ⟨r, hr⟩
    · exact .inl hown
    · exact .inr (.inl hexp)
    · exact .inr (.inr ⟨r, List.mem_append_left _ hr⟩)

theorem Granted.acquire (h : Granted b tr) {key token : Str} {lease wait : Seconds}
    (hfree : b.owner key = none) (hfresh : ∀ g ∈ b.grants, g.token ≠ token)
    {r : Reply calls (.acquire key lease wait)}
    (hr : ∀ token', r = .ret (some token') → token' = token) :
    Granted { b with owner := Function.update b.owner key (some token),
                     grants := b.grants ++ [⟨i, key, token⟩] }
      (tr ++ [(i, ⟨.acquire key lease wait, r⟩)]) := by
  refine ⟨?_, ?_, ?_, ?_⟩
  · intro m n g g' hm hn htok
    rcases getElem?_snoc_cases hm with hm | ⟨rfl, rfl⟩
    · rcases getElem?_snoc_cases hn with hn | ⟨rfl, rfl⟩
      · exact h.unique m n g g' hm hn htok
      · exact absurd htok (hfresh g (List.mem_of_getElem? hm))
    · rcases getElem?_snoc_cases hn with hn | ⟨rfl, rfl⟩
      · exact absurd htok.symm (hfresh g' (List.mem_of_getElem? hn))
      · rfl
  · intro key' token' hown
    by_cases hk : key' = key
    · subst hk
      obtain rfl : token = token' := by simpa using hown
      refine ⟨b.grants.length, i, List.getElem?_concat_length, ?_⟩
      intro n g hlt hn
      rw [List.getElem?_eq_none (by rw [List.length_append, List.length_singleton]; omega)] at hn
      cases hn
    · have hown' : b.owner key' = some token' := (Function.update_of_ne hk _ _).symm.trans hown
      obtain ⟨m, j, hm, hlast⟩ := h.latest key' token' hown'
      have hlt := (List.getElem?_eq_some_iff.mp hm).1
      refine ⟨m, j, (List.getElem?_append_left hlt).trans hm, ?_⟩
      intro n g hmn hn
      rcases getElem?_snoc_cases hn with hn | ⟨rfl, rfl⟩
      · exact hlast n g hmn hn
      · exact Ne.symm hk
  · intro j key' lease' wait' token' hx
    rcases List.mem_append.mp hx with hx | hx
    · exact List.mem_append_left _ (h.granted j key' lease' wait' token' hx)
    · cases List.mem_singleton.mp hx
      rw [hr token' rfl]
      exact List.mem_append_right _ (List.mem_singleton.mpr rfl)
  · intro g hg
    rcases List.mem_append.mp hg with hg | hg
    · rcases h.lasts g hg with hown | hexp | ⟨r', hr'⟩
      · have hne : g.key ≠ key := by
          intro heq
          rw [heq, hfree] at hown
          cases hown
        exact .inl ((Function.update_of_ne hne _ _).trans hown)
      · exact .inr (.inl hexp)
      · exact .inr (.inr ⟨r', List.mem_append_left _ hr'⟩)
    · rw [List.mem_singleton.mp hg]
      exact .inl (Function.update_self _ _ _)

/-- The entry of `key` is deleted: by its own user, or because the lease ran out. -/
theorem Granted.remove (h : Granted b tr) {key : Str} {expired : List Str}
    {new : List (Nat × Event calls)} (hexp : ∀ token ∈ b.expired, token ∈ expired)
    (hnew : ∀ j key' lease wait token,
      (j, (⟨.acquire key' lease wait, .ret (some token)⟩ : Event calls)) ∉ new)
    (hend : ∀ g ∈ b.grants, g.key = key → b.owner key = some g.token → g.token ∈ expired ∨
      ∃ r, (g.user, (⟨.release g.key g.token, r⟩ : Event calls)) ∈ new) :
    Granted { b with owner := Function.update b.owner key none, expired := expired }
      (tr ++ new) := by
  refine ⟨h.unique, ?_, ?_, ?_⟩
  · intro key' token' hown
    by_cases hk : key' = key
    · subst hk
      simp at hown
    · exact h.latest key' token' ((Function.update_of_ne hk _ _).symm.trans hown)
  · intro j key' lease wait token hx
    rcases List.mem_append.mp hx with hx | hx
    · exact h.granted j key' lease wait token hx
    · exact absurd hx (hnew j key' lease wait token)
  · intro g hg
    rcases h.lasts g hg with hown | hx | ⟨r, hr⟩
    · by_cases hk : g.key = key
      · rcases hend g hg hk (hk ▸ hown) with hx | ⟨r, hr⟩
        · exact .inr (.inl hx)
        · exact .inr (.inr ⟨r, List.mem_append_right _ hr⟩)
      · exact .inl ((Function.update_of_ne hk _ _).trans hown)
    · exact .inr (.inl (hexp _ hx))
    · exact .inr (.inr ⟨r, List.mem_append_left _ hr⟩)

theorem Granted.overtaken (hg : Granted b tr) {m n : Nat} {g g' : Grant}
    (hm : b.grants[m]? = some g) (hn : b.grants[n]? = some g') (hlt : m < n)
    (hkey : g.key = g'.key) : b.owner g.key ≠ some g.token := by
  intro hown
  obtain ⟨m', j, hm', hlast⟩ := hg.latest g.key g.token hown
  obtain rfl := hg.unique m m' g _ hm hm' rfl
  exact hlast n g' hlt hn hkey.symm


theorem Granted.one (h : Granted b tr) {i j : Nat} {key key' token : Str}
    {lease wait lease' wait' : Seconds}
    (hi : (i, (⟨.acquire key lease wait, .ret (some token)⟩ : Event calls)) ∈ tr)
    (hj : (j, (⟨.acquire key' lease' wait', .ret (some token)⟩ : Event calls)) ∈ tr) : i = j :=
  congrArg Grant.user
    (h.same (h.granted i _ _ _ token hi) (h.granted j _ _ _ token hj) rfl)

/-! ## Systems that lock -/

/-- A system with a backend as a part of its state, on which its calls act as the collaborators
do, and whose threads release what they were given. -/
structure Locking {σ δ ρ : Type} (S : System calls δ ρ σ Str) (of : σ → Backend) : Prop where
  answer : ∀ {i s op r s'}, S.answer i s op r s' → (of s' = of s ∧ ∀ a, r ≠ .ret a) ∨
    ∃ a, LeaseEffect i (of s) op a (of s') ∧ ∀ a', r = .ret a' → a' = a
  tick : ∀ {key s s'}, S.tick key s s' → of s' = (of s).expire key
  own : ∀ {d t key token k}, After (S.main d) t (.await (.release key token) k) →
    ∃ lease wait, (⟨.acquire key lease wait, .ret (some token)⟩ : Event calls) ∈ t

namespace Locking

variable {σ δ ρ : Type} {S : System calls δ ρ σ Str} {of : σ → Backend} {σ₀ : σ}
  {ok : Pool calls δ ρ σ → Label calls δ Str → σ → Prop} {s : Pool calls δ ρ σ} {i j : Nat}
  {key token : Str}

theorem gives (L : Locking S of) {lease wait : Seconds} {b b' : σ}
    (ha : S.answer i b (.acquire key lease wait) (.ret (some token)) b') :
    (of b).owner key = none ∧ (of b').owner key = some token := by
  rcases L.answer ha with ⟨-, hno⟩ | ⟨a, he, ha'⟩
  · exact absurd rfl (hno _)
  obtain rfl := ha' _ rfl
  generalize of b = b₀, of b' = b₁ at he ⊢
  cases he with
  | acquired _ _ hfree _ => exact ⟨hfree, Function.update_self _ _ _⟩
  | other _ hno => exact absurd True.intro hno

theorem released (L : Locking S of) (h : S.Reach σ₀ ok s) (hg : Granted (of s.shared) s.trace)
    {d : δ} {k : Reply calls (.release key token) → Prog calls ρ}
    (hj : s.threads[i]? = some ⟨d, .await (.release key token) k, false⟩) :
    ⟨i, key, token⟩ ∈ (of s.shared).grants := by
  obtain ⟨lease, wait, hacq⟩ := L.own (h.after hj)
  exact hg.granted i _ _ _ token (mem_logOf.mp hacq)

theorem granted (L : Locking S of) (h₀ : of σ₀ = .empty) (h : S.Reach σ₀ ok s) :
    Granted (of s.shared) s.trace := by
  refine h.inv (P := fun b tr => Granted (of b) tr) ?_ ?_ ?_
  · rw [h₀]
    exact ⟨by simp [Backend.empty], by simp [Backend.empty], by simp, by simp [Backend.empty]⟩
  · intro s i d op k r b hs ih hj ha _
    rcases L.answer ha with ⟨heq, hno⟩ | ⟨a, he, hret⟩
    · rw [heq]
      refine ih.idle ?_
      intro key lease wait token heq
      cases heq
      exact hno _ rfl
    · have hrel : ∀ key token, op = .release key token →
          ⟨i, key, token⟩ ∈ (of s.shared).grants := by
        rintro key token rfl
        exact L.released hs ih hj
      generalize of s.shared = b₀, of b = b₁ at he ih hrel ⊢
      cases he with
      | acquired lease wait hfree hfresh =>
        refine ih.acquire hfree hfresh ?_
        intro token' hr
        exact Option.some.inj (hret _ hr)
      | busy lease wait =>
        refine ih.idle ?_
        intro key lease wait token heq
        cases heq
        cases hret _ rfl
      | @released key token hown =>
        refine ih.remove (fun _ hx => hx) (by simp) ?_
        intro g hg hk hg'
        -- the entry of the key is the one that is released
        obtain rfl : g = ⟨i, key, token⟩ := by
          refine ih.same hg (hrel key token rfl) ?_
          rw [hown] at hg'
          exact (Option.some.inj hg').symm
        exact .inr ⟨r, List.mem_singleton.mpr rfl⟩
      | stale hown => exact ih.idle (by simp)
      | other a hno =>
        refine ih.idle ?_
        intro key lease wait token heq
        cases heq
        exact hno True.intro
  · intro s m b _ ih hm _
    rw [L.tick hm]
    have hexp : ∀ g ∈ (of s.shared).grants, g.key = m → (of s.shared).owner m = some g.token →
        g.token ∈ (of s.shared).expired ++ ((of s.shared).owner m).toList ∨
          ∃ r, (g.user, (⟨.release g.key g.token, r⟩ : Event calls)) ∈ [] := by
      intro g _ _ hown
      rw [hown]
      exact .inl (List.mem_append_right _ (List.mem_singleton.mpr rfl))
    have hrem := ih.remove (fun _ hx => List.mem_append_left _ hx) (by simp) hexp
    rwa [List.append_nil] at hrem

/-- An answer leaves a key its owner, unless the owner calls `release`. -/
theorem outlasts (L : Locking S of) (h₀ : of σ₀ = .empty) (h : S.Reach σ₀ ok s)
    (hin : ⟨i, key, token⟩ ∈ (of s.shared).grants)
    (hown : (of s.shared).owner key = some token) {d : δ} {op : Call}
    {k : Reply calls op → Prog calls ρ} (hj : s.threads[j]? = some ⟨d, .await op k, false⟩)
    {r : Reply calls op} {b : σ} (ha : S.answer j s.shared op r b)
    (hrel : op = .release key token → i ≠ j) : (of b).owner key = some token := by
  rcases L.answer ha with ⟨heq, -⟩ | ⟨a, he, -⟩
  · rw [heq]
    exact hown
  · refine he.keeps hown ?_
    rintro rfl
    -- the user that releases the token is the one it was granted to
    have hg := L.granted h₀ h
    exact hrel rfl (congrArg Grant.user (hg.same hin (L.released h hg hj) rfl))

/-- Between two grants of a key its lease ran out, or the first user called `release`. -/
theorem handed_over (L : Locking S of) (h₀ : of σ₀ = .empty) (h : S.Reach σ₀ ok s)
    {token' : Str} {lease wait lease' wait' : Seconds} {pre post : List (Nat × Event calls)}
    (hx : s.trace = pre ++ (j, ⟨.acquire key lease' wait', .ret (some token')⟩) :: post)
    (hpre : (i, (⟨.acquire key lease wait, .ret (some token)⟩ : Event calls)) ∈ pre) :
    token ∈ (of s.shared).expired ∨
      ∃ r, (i, (⟨.release key token, r⟩ : Event calls)) ∈ pre := by
  refine h.inv (P := fun b tr => ∀ pre post,
    tr = pre ++ (j, ⟨.acquire key lease' wait', .ret (some token')⟩) :: post →
    (i, (⟨.acquire key lease wait, .ret (some token)⟩ : Event calls)) ∈ pre →
    token ∈ (of b).expired ∨ ∃ r, (i, (⟨.release key token, r⟩ : Event calls)) ∈ pre)
    (by simp) ?_ ?_ pre post hx hpre
  · intro s i' d op k r b hs ih hj ha _ pre post hx hpre
    have hexpired : (of b).expired = (of s.shared).expired := by
      rcases L.answer ha with ⟨heq, -⟩ | ⟨a, he, -⟩
      · rw [heq]
      · generalize of s.shared = b₀, of b = b₁ at he ⊢
        cases he <;> rfl
    rw [hexpired]
    rcases snoc_split hx with ⟨rfl, he, rfl⟩ | ⟨post', rfl, hx'⟩
    · -- the key is given out now, so it had no entry
      obtain ⟨rfl, he⟩ := Prod.mk.inj he
      cases he
      have hg := L.granted h₀ hs
      rcases hg.lasts _ (hg.granted i key lease wait token hpre) with hown | hexp | hrel
      · rw [(L.gives ha).1] at hown
        cases hown
      · exact .inl hexp
      · exact .inr hrel
    · exact ih pre post' hx' hpre
  · intro s m b _ ih hm _ pre post hx hpre
    rw [L.tick hm]
    exact (ih pre post hx hpre).imp_left (List.mem_append_left _)

/-- Where the lease of a key never runs out, no token of it is among those that did. -/
theorem unexpired (L : Locking S of) (h₀ : of σ₀ = .empty) (h : S.Reach σ₀ ok s)
    (hok : ∀ s b, ¬ ok s (.tick key) b) :
    ∀ g ∈ (of s.shared).grants, g.key = key → g.token ∉ (of s.shared).expired := by
  have hother : ∀ token ∈ (of s.shared).expired, ∃ g ∈ (of s.shared).grants, g.token = token ∧
      g.key ≠ key := by
    refine h.inv (P := fun b _ => ∀ token ∈ (of b).expired, ∃ g ∈ (of b).grants,
      g.token = token ∧ g.key ≠ key) (by simp [h₀, Backend.empty]) ?_ ?_
    · intro s i d op k r b _ ih _ ha _
      rcases L.answer ha with ⟨heq, -⟩ | ⟨a, he, -⟩
      · rw [heq]
        exact ih
      · generalize of s.shared = b₀, of b = b₁ at he ih ⊢
        cases he with
        | acquired =>
          intro token htoken
          obtain ⟨g, hg, hgt⟩ := ih token htoken
          exact ⟨g, List.mem_append_left _ hg, hgt⟩
        | busy | released | stale | other => exact ih
    · intro s m b hs ih hm hlabel token htoken
      rw [L.tick hm] at htoken ⊢
      rcases List.mem_append.mp htoken with htoken | htoken
      · exact ih token htoken
      · -- the lease of another key runs out
        have hown : (of s.shared).owner m = some token := by simpa using htoken
        obtain ⟨n, i, hn, -⟩ := (L.granted h₀ hs).latest m token hown
        refine ⟨_, List.mem_of_getElem? hn, rfl, ?_⟩
        rintro rfl
        exact hok _ _ hlabel
  intro g hg hkey hexp
  obtain ⟨g', hg', htoken, hne⟩ := hother _ hexp
  rw [(L.granted h₀ h).same hg' hg htoken] at hne
  exact hne hkey

end Locking

end IspPlatform.Concurrency
