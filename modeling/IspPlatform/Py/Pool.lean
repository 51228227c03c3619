import IspPlatform.Py.Lists
import IspPlatform.Py.Async

/-!
# Concurrent calls of an async function

A `System` runs any number of calls of `main` over one shared state. A step starts a
call, answers the call some thread awaits (the only interleaving points), kills a
thread, or lets the environment move. `System.answer` is the collaborators'
contract: which replies there are and what each does to the shared state.

`Reach S σ₀ ok` is reachability by steps that satisfy `ok`. The ghost `trace` lists the
calls answered so far; thread `i`'s part of it is `log i`, and `Reach.after` says the
thread stands where its function stands after that log. Whatever holds of one call of
the function (`After`) is so carried to every interleaving; what the shared state adds
is an invariant of the state and the trace (`Reach.inv`) or of the trace alone
(`Reach.history`).
-/

namespace IspPlatform.Py

/-- A call of `main`: its argument, what is left to run, and whether it was killed. -/
structure Thread (I : Iface) (δ α : Type) where
  job : δ
  code : Prog I α
  dead : Bool

/-- Neither ended nor killed. -/
def Thread.InFlight {I : Iface} {δ α : Type} (t : Thread I δ α) : Prop :=
  t.dead = false ∧ ∃ op, t.code.head = .call op

structure System (I : Iface) (δ α σ τ : Type) where
  main : δ → Prog I α
  /-- Thread `i`'s call `op` in shared state `s` may be answered `r`, leaving `s'`. -/
  answer : (i : Nat) → (s : σ) → (op : I.Op) → (r : Reply I op) → (s' : σ) → Prop
  /-- The environment's own moves. -/
  tick : τ → σ → σ → Prop
  /-- When a call may start beside the threads there are. -/
  mayStart : List (Thread I δ α) → δ → Prop
  mortal : Prop

structure Pool (I : Iface) (δ α σ : Type) where
  shared : σ
  threads : List (Thread I δ α)
  trace : List (Nat × Event I)

inductive Label (I : Iface) (δ τ : Type) where
  | start (d : δ)
  | answer (i : Nat) (e : Event I)
  | die (i : Nat)
  | tick (m : τ)

/-- Thread `i`'s part of a trace. -/
def logOf {I : Iface} (tr : List (Nat × Event I)) (i : Nat) : List (Event I) :=
  (tr.filter (·.1 = i)).map (·.2)

variable {I : Iface} {δ α σ τ : Type}

abbrev Pool.log (s : Pool I δ α σ) (i : Nat) : List (Event I) := logOf s.trace i

/-- Collaborators with the effects `effect`, where a call may also raise what `mayRaise`
allows or, if `mayCancel`, be cancelled, before or after its effect. -/
def answers (effect : Nat → σ → (op : I.Op) → I.Res op → σ → Prop)
    (mayRaise : I.Op → I.Exn → Prop) (mayCancel : I.Op → Prop)
    (i : Nat) (s : σ) (op : I.Op) : Reply I op → σ → Prop
  | .ret a, s' => effect i s op a s'
  | .raised e, s' => mayRaise op e ∧ (s' = s ∨ ∃ a, effect i s op a s')
  | .cancelled, s' => mayCancel op ∧ (s' = s ∨ ∃ a, effect i s op a s')

/-- An answered call had its effect, or failed and left no trace. -/
theorem answers_effect {effect : Nat → σ → (op : I.Op) → I.Res op → σ → Prop}
    {mayRaise : I.Op → I.Exn → Prop} {mayCancel : I.Op → Prop} {i : Nat} {s s' : σ} {op : I.Op}
    {r : Reply I op} (h : answers effect mayRaise mayCancel i s op r s') :
    (s' = s ∧ ∀ a, r ≠ .ret a) ∨ ∃ a, effect i s op a s' ∧ ∀ a', r = .ret a' → a' = a := by
  cases r with
  | ret a => exact .inr ⟨a, h, fun a' h' => (Outcome.ret.inj h').symm⟩
  | raised e =>
    rcases h.2 with hs | ⟨a, ha⟩
    · exact .inl ⟨hs, by simp⟩
    · exact .inr ⟨a, ha, by simp⟩
  | cancelled =>
    rcases h.2 with hs | ⟨a, ha⟩
    · exact .inl ⟨hs, by simp⟩
    · exact .inr ⟨a, ha, by simp⟩

namespace System

inductive Step (S : System I δ α σ τ) : Pool I δ α σ → Label I δ τ → Pool I δ α σ → Prop where
  | start {s : Pool I δ α σ} {d : δ} : S.mayStart s.threads d →
      Step S s (.start d) { s with threads := s.threads ++ [⟨d, S.main d, false⟩] }
  | answer {s : Pool I δ α σ} {i : Nat} {d : δ} {op : I.Op} {k : Reply I op → Prog I α}
      {r : Reply I op} {s' : σ} : s.threads[i]? = some ⟨d, .await op k, false⟩ →
      S.answer i s.shared op r s' →
      Step S s (.answer i ⟨op, r⟩)
        ⟨s', s.threads.set i ⟨d, k r, false⟩, s.trace ++ [(i, ⟨op, r⟩)]⟩
  | die {s : Pool I δ α σ} {i : Nat} {t : Thread I δ α} : S.mortal → s.threads[i]? = some t →
      Step S s (.die i) { s with threads := s.threads.set i { t with dead := true } }
  | tick {s : Pool I δ α σ} {m : τ} {s' : σ} : S.tick m s.shared s' →
      Step S s (.tick m) { s with shared := s' }

/-- The states reachable from `σ₀` by steps that satisfy `ok`, a condition on the state
before, the label and the shared state after. -/
inductive Reach (S : System I δ α σ τ) (σ₀ : σ) (ok : Pool I δ α σ → Label I δ τ → σ → Prop) :
    Pool I δ α σ → Prop where
  | init : Reach S σ₀ ok ⟨σ₀, [], []⟩
  | step {s s' : Pool I δ α σ} {l : Label I δ τ} : Reach S σ₀ ok s → S.Step s l s' →
      ok s l s'.shared → Reach S σ₀ ok s'

/-- Every step is allowed. -/
abbrev anyStep (_ : Pool I δ α σ) (_ : Label I δ τ) (_ : σ) : Prop := True

end System

/-! ## Logs -/

theorem logOf_snoc (tr : List (Nat × Event I)) (i j : Nat) (e : Event I) :
    logOf (tr ++ [(i, e)]) j = if i = j then logOf tr j ++ [e] else logOf tr j := by
  unfold logOf
  split <;> simp [*]

theorem mem_logOf {tr : List (Nat × Event I)} {i : Nat} {e : Event I} :
    e ∈ logOf tr i ↔ (i, e) ∈ tr := by
  simp [logOf]

theorem logOf_split {tr : List (Nat × Event I)} {i : Nat} {e : Event I} {pre post : List (Event I)}
    (h : logOf tr i = pre ++ e :: post) :
    ∃ pre' post', tr = pre' ++ (i, e) :: post' ∧ logOf pre' i = pre := by
  obtain ⟨l, l', hl, hpre, hpost⟩ := List.map_eq_append_iff.mp h
  obtain ⟨⟨j, e'⟩, l'', rfl, rfl, -⟩ := List.map_eq_cons_iff.mp hpost
  obtain ⟨tr₁, tr₂, rfl, htr, htr₂⟩ := List.filter_eq_append_iff.mp hl
  obtain ⟨skipped, rest, rfl, hskipped, hj, -⟩ := List.filter_eq_cons_iff.mp htr₂
  obtain rfl : j = i := by simpa using hj
  refine ⟨tr₁ ++ skipped, rest, by simp, ?_⟩
  have hnone : skipped.filter (·.1 = j) = [] := List.filter_eq_nil_iff.mpr fun x hx => hskipped x hx
  rw [logOf, List.filter_append, htr, hnone, List.append_nil, hpre]

namespace System

variable {S : System I δ α σ τ} {σ₀ : σ} {ok : Pool I δ α σ → Label I δ τ → σ → Prop}
  {s s' : Pool I δ α σ} {l : Label I δ τ}

theorem Reach.start (h : S.Reach σ₀ ok s) (d : δ) (hd : S.mayStart s.threads d)
    (hok : ok s (.start d) s.shared) :
    S.Reach σ₀ ok { s with threads := s.threads ++ [⟨d, S.main d, false⟩] } :=
  h.step (.start hd) hok

theorem Reach.answer (h : S.Reach σ₀ ok s) {i : Nat} {d : δ} {op : I.Op}
    {k : Reply I op → Prog I α} (r : Reply I op) (σ' : σ)
    (hj : s.threads[i]? = some ⟨d, .await op k, false⟩) (ha : S.answer i s.shared op r σ')
    (hok : ok s (.answer i ⟨op, r⟩) σ') :
    S.Reach σ₀ ok ⟨σ', s.threads.set i ⟨d, k r, false⟩, s.trace ++ [(i, ⟨op, r⟩)]⟩ :=
  h.step (.answer hj ha) hok

/-! ## Threads -/

theorem Reach.trace_lt (h : S.Reach σ₀ ok s) : ∀ x ∈ s.trace, x.1 < s.threads.length := by
  induction h with
  | init => simp
  | step _ hs _ ih =>
    cases hs with
    | start _ => intro x hx; simpa using Nat.lt_succ_of_lt (ih x hx)
    | answer hj _ =>
      intro x hx
      rw [List.length_set]
      rcases List.mem_append.mp hx with hx | hx
      · exact ih x hx
      · rw [List.mem_singleton.mp hx]
        exact (List.getElem?_eq_some_iff.mp hj).1
    | die _ _ => intro x hx; simpa using ih x hx
    | tick _ => exact ih

theorem Reach.log_new (h : S.Reach σ₀ ok s) : s.log s.threads.length = [] := by
  rw [List.eq_nil_iff_forall_not_mem]
  intro e he
  exact absurd (h.trace_lt _ (mem_logOf.mp he)) (Nat.lt_irrefl _)

/-- **Threads follow their function.** Thread `i` stands where `main` stands after the
calls of its log. -/
theorem Reach.after (h : S.Reach σ₀ ok s) {i : Nat} {t : Thread I δ α}
    (ht : s.threads[i]? = some t) : After (S.main t.job) (s.log i) t.code := by
  induction h generalizing i t with
  | init => simp at ht
  | @step s s' l hr hs _ ih =>
    cases hs with
    | start _ =>
      rcases getElem?_snoc_cases ht with ht | ⟨rfl, rfl⟩
      · exact ih ht
      · have hnil := hr.log_new
        simp only [Pool.log] at hnil ⊢
        rw [hnil]
        exact .nil _
    | @answer j d op k r _ hj _ =>
      simp only [Pool.log, logOf_snoc]
      rcases getElem?_set_cases ht with ⟨rfl, rfl⟩ | ⟨hij, ht⟩
      · rw [if_pos rfl]
        exact (ih hj).snoc r
      · rw [if_neg (Ne.symm hij)]
        exact ih ht
    | @die j t' _ hj =>
      rcases getElem?_set_cases ht with ⟨rfl, rfl⟩ | ⟨hij, ht⟩
      · exact (ih hj : After (S.main t'.job) (s.log i) t'.code)
      · exact ih ht
    | tick _ => exact ih ht

theorem Reach.ended (h : S.Reach σ₀ ok s) {i : Nat} {t : Thread I δ α} {o : Outcome I.Exn α}
    (ht : s.threads[i]? = some t) (ho : t.code = .done o) :
    After (S.main t.job) (s.log i) (.done o) := by
  rw [← ho]
  exact h.after ht

theorem Reach.alive (h : S.Reach σ₀ ok s) (hm : ¬ S.mortal) :
    ∀ (i : Nat) (t : Thread I δ α), s.threads[i]? = some t → t.dead = false := by
  induction h with
  | init => simp
  | step _ hs _ ih =>
    intro i t ht
    cases hs with
    | start _ =>
      rcases getElem?_snoc_cases ht with ht | ⟨-, rfl⟩
      · exact ih i t ht
      · rfl
    | answer _ _ =>
      rcases getElem?_set_cases ht with ⟨-, rfl⟩ | ⟨-, ht⟩
      · rfl
      · exact ih i t ht
    | die hd _ => exact absurd hd hm
    | tick _ => exact ih i t ht

/-- A thread of the state after was started by the step, or was there before: with the
same job, and in flight if it still is. -/
theorem Step.was (h : S.Step s l s') {i : Nat} {t' : Thread I δ α}
    (ht : s'.threads[i]? = some t') :
    (i = s.threads.length ∧ S.mayStart s.threads t'.job) ∨
      ∃ t, s.threads[i]? = some t ∧ t.job = t'.job ∧ (t'.InFlight → t.InFlight) := by
  cases h with
  | start hd =>
    rcases getElem?_snoc_cases ht with ht | ⟨rfl, rfl⟩
    · exact .inr ⟨t', ht, rfl, id⟩
    · exact .inl ⟨rfl, hd⟩
  | answer hj _ =>
    rcases getElem?_set_cases ht with ⟨rfl, rfl⟩ | ⟨-, ht⟩
    · exact .inr ⟨_, hj, rfl, fun _ => ⟨rfl, _, rfl⟩⟩
    · exact .inr ⟨t', ht, rfl, id⟩
  | die _ hj =>
    rcases getElem?_set_cases ht with ⟨rfl, rfl⟩ | ⟨-, ht⟩
    · exact .inr ⟨_, hj, rfl, fun hf => absurd hf.1 (by simp)⟩
    · exact .inr ⟨t', ht, rfl, id⟩
  | tick _ => exact .inr ⟨t', ht, rfl, id⟩

/-- **One at a time.** Where a call starts only when none with its key is in flight, a
call in flight is the last one of its key. -/
theorem Reach.last_of_inFlight {κ : Type} (h : S.Reach σ₀ ok s) (key : δ → κ)
    (hkey : ∀ ts d, S.mayStart ts d → ∀ t ∈ ts, t.InFlight → key t.job ≠ key d) :
    ∀ (i j : Nat) (t t' : Thread I δ α), s.threads[i]? = some t → t.InFlight →
      s.threads[j]? = some t' → key t'.job = key t.job → j ≤ i := by
  induction h with
  | init => simp
  | step _ hs _ ih =>
    intro i j t t' hi hfl hj hk
    rcases hs.was hi with ⟨rfl, -⟩ | ⟨u, hu, hjob, hback⟩
    · -- the new thread has the largest index
      rcases hs.was hj with ⟨rfl, -⟩ | ⟨u', hu', -, -⟩
      · exact Nat.le_refl _
      · exact Nat.le_of_lt (List.getElem?_eq_some_iff.mp hu').1
    · rcases hs.was hj with ⟨-, hd⟩ | ⟨u', hu', hjob', -⟩
      · refine absurd ?_ (hkey _ _ hd u (List.mem_of_getElem? hu) (hback hfl))
        rw [hjob, hk]
      · exact ih i j u u' hu (hback hfl) hu' (by rw [hjob, hjob', hk])

/-! ## Invariants -/

/-- **Invariants.** What the initial state has, every answer keeps and every move of the
environment keeps, holds in every reachable state. -/
theorem Reach.inv {P : σ → List (Nat × Event I) → Prop} (h : S.Reach σ₀ ok s) (init : P σ₀ [])
    (answer : ∀ {s : Pool I δ α σ} {i : Nat} {d : δ} {op : I.Op} {k : Reply I op → Prog I α}
      {r : Reply I op} {σ' : σ}, S.Reach σ₀ ok s → P s.shared s.trace →
      s.threads[i]? = some ⟨d, .await op k, false⟩ → S.answer i s.shared op r σ' →
      ok s (.answer i ⟨op, r⟩) σ' → P σ' (s.trace ++ [(i, ⟨op, r⟩)]))
    (tick : ∀ {s : Pool I δ α σ} {m : τ} {σ' : σ}, S.Reach σ₀ ok s → P s.shared s.trace →
      S.tick m s.shared σ' → ok s (.tick m) σ' → P σ' s.trace) : P s.shared s.trace := by
  induction h with
  | init => exact init
  | step hr hs hok ih =>
    cases hs with
    | start _ => exact ih
    | answer hj ha => exact answer hr ih hj ha hok
    | die _ _ => exact ih
    | tick ht =>
      have h' := tick hr ih ht hok
      exact h'

/-- **Histories.** What holds of every call at the moment it is answered, given the
trace before it, holds of every call in the trace of a reachable state. -/
theorem Reach.history {Q : List (Nat × Event I) → Nat → Event I → Prop} (h : S.Reach σ₀ ok s)
    (answer : ∀ {s : Pool I δ α σ} {i : Nat} {d : δ} {op : I.Op} {k : Reply I op → Prog I α}
      {r : Reply I op} {σ' : σ}, S.Reach σ₀ ok s → s.threads[i]? = some ⟨d, .await op k, false⟩ →
      S.answer i s.shared op r σ' → ok s (.answer i ⟨op, r⟩) σ' → Q s.trace i ⟨op, r⟩) :
    ∀ pre i e post, s.trace = pre ++ (i, e) :: post → Q pre i e := by
  refine h.inv (P := fun _ tr => ∀ pre i e post, tr = pre ++ (i, e) :: post → Q pre i e)
    (by simp) ?_ fun _ hP _ _ => hP
  intro s i d op k r σ' hr hP hj ha hok pre j e post h
  rcases snoc_split h with ⟨rfl, he, rfl⟩ | ⟨post', rfl, h'⟩
  · cases he
    exact answer hr hj ha hok
  · exact hP pre j e post' h'

/-- A history that does not look at the trace before. -/
theorem Reach.history_mem {Q : Nat → Event I → Prop} (h : S.Reach σ₀ ok s)
    (answer : ∀ {s : Pool I δ α σ} {i : Nat} {d : δ} {op : I.Op} {k : Reply I op → Prog I α}
      {r : Reply I op} {σ' : σ}, S.Reach σ₀ ok s → s.threads[i]? = some ⟨d, .await op k, false⟩ →
      S.answer i s.shared op r σ' → ok s (.answer i ⟨op, r⟩) σ' → Q i ⟨op, r⟩) (i : Nat) :
    ∀ e ∈ s.log i, Q i e := by
  intro e he
  obtain ⟨pre, post, hs⟩ := List.append_of_mem (mem_logOf.mp he)
  exact h.history (Q := fun _ i e => Q i e) answer pre i e post hs

/-- **Gathering.** What a trace shows of its calls, gathered by the threads that made them. -/
theorem Reach.gathered {β : Type} (h : S.Reach σ₀ ok s) (f : Event I → Option β)
    (g : Thread I δ α → Option β)
    (hfg : ∀ (i : Nat) t, s.threads[i]? = some t → (s.log i).filterMap f = (g t).toList) :
    (s.trace.filterMap fun x => f x.2).Perm (s.threads.filterMap g) := by
  have hall : s.trace.filter (·.1 < s.threads.length) = s.trace :=
    List.filter_eq_self.mpr fun x hx => decide_eq_true (h.trace_lt x hx)
  have hperm := (perm_gathered s.trace s.threads.length).filterMap fun x => f x.2
  rw [hall, List.filterMap_flatMap, List.range_eq_range', ← List.zipIdx_map_snd,
    List.flatMap_map] at hperm
  refine hperm.trans (List.Perm.of_eq ?_)
  conv_rhs => rw [← List.zipIdx_map_fst 0 s.threads]
  rw [List.filterMap_map, List.filterMap_eq_flatMap_toList]
  refine List.flatMap_congr fun x hx => ?_
  have hlog := hfg x.2 x.1 (List.mem_zipIdx_iff_getElem?.mp hx)
  rw [Function.comp_apply, ← hlog, Pool.log, logOf, List.filterMap_map]
  rfl

end System

end IspPlatform.Py
