import IspPlatform.Py.Lists

/-!
# Objects driven by method calls

`step s op` is what the call `op` gives back on an object in state `s`, and the state it
leaves. `Reach s₀ h s`: from `s₀` the calls of the history `h`, each with its result,
lead to `s`.
-/

namespace IspPlatform.Py

structure Machine (σ Op Res : Type) where
  step : σ → Op → Res × σ

namespace Machine

variable {σ Op Res : Type}

inductive Reach (M : Machine σ Op Res) (s₀ : σ) : List (Op × Res) → σ → Prop where
  | init : Reach M s₀ [] s₀
  | call {h : List (Op × Res)} {s : σ} (op : Op) : Reach M s₀ h s →
      Reach M s₀ (h ++ [(op, (M.step s op).1)]) (M.step s op).2

variable {M : Machine σ Op Res} {s₀ s : σ} {h : List (Op × Res)}

/-- Make the calls in order. -/
def run (M : Machine σ Op Res) (s : σ) : List Op → List (Op × Res) × σ
  | [] => ([], s)
  | op :: ops =>
    let r := M.step s op
    let t := M.run r.2 ops
    ((op, r.1) :: t.1, t.2)

theorem Reach.run (hr : M.Reach s₀ h s) (ops : List Op) :
    M.Reach s₀ (h ++ (M.run s ops).1) (M.run s ops).2 := by
  induction ops generalizing h s with
  | nil => simpa [Machine.run] using hr
  | cons op ops ih => simpa [Machine.run] using ih (hr.call op)

/-- **Two runs.** If related calls, made in related states, give related results and leave related
states, then so do related runs, also of two machines. -/
theorem run_related {σ' Op' Res' : Type} {M' : Machine σ' Op' Res'} {S : σ → σ' → Prop}
    {R : Op → Op' → Prop} {T : Res → Res' → Prop}
    (step : ∀ s s' op op', S s s' → R op op' →
      T (M.step s op).1 (M'.step s' op').1 ∧ S (M.step s op).2 (M'.step s' op').2)
    {s' : σ'} (hs : S s s') {ops : List Op} {ops' : List Op'} (hops : List.Forall₂ R ops ops') :
    List.Forall₂ (fun x x' => T x.2 x'.2) (M.run s ops).1 (M'.run s' ops').1 ∧
      S (M.run s ops).2 (M'.run s' ops').2 := by
  induction hops generalizing s s' with
  | nil => exact ⟨.nil, hs⟩
  | cons hop _ ih =>
    obtain ⟨hres, hnext⟩ := step _ _ _ _ hs hop
    obtain ⟨hrest, hend⟩ := ih hnext
    exact ⟨.cons hres hrest, hend⟩

/-- **Invariants.** What every call keeps holds along a run. -/
theorem Reach.keeps {P : σ → Prop} (hr : M.Reach s₀ h s) (init : P s₀)
    (call : ∀ s op, P s → P (M.step s op).2) : P s := by
  induction hr with
  | init => exact init
  | call op _ ih => exact call _ op ih

/-- **Moments.** Each call of a history was made in a state reached by the calls before it. -/
theorem Reach.moment (hr : M.Reach s₀ h s) {pre post : List (Op × Res)} {x : Op × Res}
    (hx : h = pre ++ x :: post) : ∃ s₁, M.Reach s₀ pre s₁ ∧ x.2 = (M.step s₁ x.1).1 := by
  induction hr generalizing post with
  | init => simp at hx
  | @call h s op hr ih =>
    rcases snoc_split hx with ⟨rfl, rfl, rfl⟩ | ⟨post', rfl, hx'⟩
    · exact ⟨s, hr, rfl⟩
    · exact ih hx'

/-- Each call of the history is made in a state that allows it. -/
def Each (M : Machine σ Op Res) (C : σ → Op → Prop) (s₀ : σ) (h : List (Op × Res)) : Prop :=
  ∀ pre x post s, h = pre ++ x :: post → M.Reach s₀ pre s → C s x.1

/-- **Conditional invariants.** What every allowed call keeps holds along a run of such calls. -/
theorem Reach.keepsOn {P : σ → Prop} {C : σ → Op → Prop} (hr : M.Reach s₀ h s)
    (hC : M.Each C s₀ h) (init : P s₀) (call : ∀ s op, C s op → P s → P (M.step s op).2) : P s := by
  induction hr with
  | init => exact init
  | @call h s op hr ih =>
    refine call s op (hC h _ [] s rfl hr) (ih fun pre x post s' hx => ?_)
    exact hC pre x (post ++ [_]) s' (by rw [hx, List.append_assoc, List.cons_append])

/-- **Latches.** If a call that satisfies `T` leaves the object in `P`, no call leaves `P`,
and a call made in `P` satisfies `R`, then every call after the first one does. -/
theorem Reach.latched {T R : Op × Res → Prop} {P : σ → Prop} (hr : M.Reach s₀ h s)
    (set : ∀ s op, T (op, (M.step s op).1) → P (M.step s op).2)
    (keep : ∀ s op, P s → P (M.step s op).2) (shut : ∀ s op, P s → R (op, (M.step s op).1))
    {pre post : List (Op × Res)} {x : Op × Res} (hx : h = pre ++ x :: post) (ht : T x) :
    ∀ y ∈ post, R y := by
  suffices hP : P s ∧ ∀ y ∈ post, R y from hP.2
  induction hr generalizing post with
  | init => simp at hx
  | @call h s op _ ih =>
    rcases snoc_split hx with ⟨-, rfl, rfl⟩ | ⟨post', rfl, hx'⟩
    · exact ⟨set s op ht, by simp⟩
    · obtain ⟨hP, hR⟩ := ih hx'
      refine ⟨keep s op hP, fun y hy => ?_⟩
      rcases List.mem_append.mp hy with hy | hy
      · exact hR y hy
      · rw [List.mem_singleton.mp hy]
        exact shut s op hP

end Machine

end IspPlatform.Py
