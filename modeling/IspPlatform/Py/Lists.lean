import Mathlib.Data.List.Forall2

/-!
# Lists that grow at the end

How a list with an element added, or with one element replaced, is read back.
-/

namespace IspPlatform.Py

/-- A list that ends in `x`, split at some element: at `x`, or before it. -/
theorem snoc_split {α : Type} {l pre post : List α} {x y : α} (h : l ++ [x] = pre ++ y :: post) :
    (pre = l ∧ y = x ∧ post = []) ∨ ∃ post', post = post' ++ [x] ∧ l = pre ++ y :: post' := by
  rcases List.eq_nil_or_concat post with rfl | ⟨post', z, rfl⟩
  · have := List.append_inj' h rfl
    exact .inl ⟨this.1.symm, by simpa using this.2.symm, rfl⟩
  · rw [List.concat_eq_append] at h ⊢
    have h' : l ++ [x] = (pre ++ y :: post') ++ [z] := by simpa using h
    have := List.append_inj' h' rfl
    exact .inr ⟨post', by simpa using this.2.symm, this.1⟩

theorem last_split {α : Type} {P : α → Prop} {l l' m m' : List α} {x y : α}
    (h : l ++ x :: m = l' ++ y :: m') (hx : P x) (hy : P y) (hm : ∀ z ∈ m, ¬ P z)
    (hm' : ∀ z ∈ m', ¬ P z) : l = l' ∧ x = y ∧ m = m' := by
  rcases List.append_eq_append_iff.mp h with ⟨k, rfl, hk⟩ | ⟨k, rfl, hk⟩
  · cases k with
    | nil =>
      obtain ⟨rfl, rfl⟩ := List.cons.inj hk
      exact ⟨(List.append_nil _).symm, rfl, rfl⟩
    | cons z k =>
      obtain ⟨rfl, rfl⟩ := List.cons.inj hk
      exact absurd hy (hm y (List.mem_append_right _ List.mem_cons_self))
  · cases k with
    | nil =>
      obtain ⟨rfl, rfl⟩ := List.cons.inj hk
      exact ⟨List.append_nil _, rfl, rfl⟩
    | cons z k =>
      obtain ⟨rfl, rfl⟩ := List.cons.inj hk
      exact absurd hx (hm' x (List.mem_append_right _ List.mem_cons_self))

theorem getElem?_set_cases {α : Type} {l : List α} {i j : Nat} {a b : α}
    (h : (l.set j a)[i]? = some b) : (i = j ∧ b = a) ∨ (i ≠ j ∧ l[i]? = some b) := by
  by_cases hij : i = j
  · subst hij
    have hlt : i < l.length := by simpa using (List.getElem?_eq_some_iff.mp h).1
    rw [List.getElem?_set_self hlt] at h
    exact .inl ⟨rfl, (Option.some.inj h).symm⟩
  · rw [List.getElem?_set_ne (Ne.symm hij)] at h
    exact .inr ⟨hij, h⟩

theorem getElem?_snoc_cases {α : Type} {l : List α} {i : Nat} {a b : α}
    (h : (l ++ [a])[i]? = some b) : l[i]? = some b ∨ (i = l.length ∧ b = a) := by
  rcases Nat.lt_or_ge i l.length with hlt | hge
  · rw [List.getElem?_append_left hlt] at h
    exact .inl h
  · rw [List.getElem?_append_right hge, List.getElem?_singleton] at h
    split at h
    · exact .inr ⟨by omega, (Option.some.inj h).symm⟩
    · cases h

theorem map_set_of_eq {α β : Type} {l : List α} {i : Nat} {a b : α} {f : α → β}
    (h : l[i]? = some a) (hf : f b = f a) : (l.set i b).map f = l.map f := by
  obtain ⟨hlt, hget⟩ := List.getElem?_eq_some_iff.mp h
  have hlt' : i < (l.map f).length := by rwa [List.length_map]
  have hfa : f a = (l.map f)[i] := by rw [List.getElem_map, hget]
  rw [List.map_set, hf, hfa, List.set_getElem_self]

/-- Where the results have distinct keys, one element gave each of them. -/
theorem index_of_nodup {α β κ : Type} {f : α → Option β} {key : β → κ} {l : List α}
    (h : ((l.filterMap f).map key).Nodup) {i j : Nat} {a b : α} {x y : β} (hi : l[i]? = some a)
    (hj : l[j]? = some b) (ha : f a = some x) (hb : f b = some y) (hk : key x = key y) : i = j := by
  have hfresh : ∀ {c : α} {l : List α} {z : β} {k : Nat} {d : α} {w : β},
      ((((c :: l).filterMap f).map key).Nodup) → f c = some z → l[k]? = some d → f d = some w →
      key z ≠ key w := by
    intro c l z k d w hnd hc hd hw heq
    rw [List.filterMap_cons_some hc, List.map_cons, List.nodup_cons] at hnd
    have hmem := List.mem_map_of_mem (f := key)
      (List.mem_filterMap.mpr ⟨d, List.mem_of_getElem? hd, hw⟩)
    exact hnd.1 (heq ▸ hmem)
  induction l generalizing i j with
  | nil => cases hi
  | cons c l ih =>
    cases i with
    | zero =>
      cases j with
      | zero => rfl
      | succ j =>
        cases hi
        exact absurd hk (hfresh h ha hj hb)
    | succ i =>
      cases j with
      | zero =>
        cases hj
        exact absurd hk.symm (hfresh h hb hi ha)
      | succ j =>
        have htail : ((l.filterMap f).map key).Nodup :=
          h.sublist (((List.sublist_cons_self c l).filterMap f).map key)
        rw [ih htail hi hj]

theorem filter_key {α κ : Type} [DecidableEq κ] {key : α → κ} {l : List α} {x : α}
    (h : (l.map key).Nodup) (hx : x ∈ l) : l.filter (fun y => key y = key x) = [x] := by
  induction l with
  | nil => cases hx
  | cons y l ih =>
    rw [List.map_cons, List.nodup_cons] at h
    rcases List.mem_cons.mp hx with rfl | hx
    · have hrest : l.filter (fun y => key y = key x) = [] := by
        rw [List.filter_eq_nil_iff]
        intro z hz heq
        exact h.1 (of_decide_eq_true heq ▸ List.mem_map_of_mem hz)
      rw [List.filter_cons_of_pos (by simp), hrest]
    · have hne : key y ≠ key x := fun heq => h.1 (heq ▸ List.mem_map_of_mem hx)
      rw [List.filter_cons_of_neg (by simpa using hne), ih h.2 hx]

/-- A list of keyed elements, gathered by keys. -/
theorem perm_gathered {α : Type} (l : List (Nat × α)) (n : Nat) :
    (l.filter (·.1 < n)).Perm ((List.range n).flatMap fun i => l.filter (·.1 = i)) := by
  induction n with
  | zero => simp
  | succ n ih =>
    have hsplit := (List.filter_append_perm (·.1 < n) (l.filter (·.1 < n + 1))).symm
    have hlow : (l.filter (·.1 < n + 1)).filter (·.1 < n) = l.filter (·.1 < n) := by
      rw [List.filter_filter]
      refine List.filter_congr fun x _ => ?_
      rw [← Bool.decide_and, decide_eq_decide]
      omega
    have hlast : (l.filter (·.1 < n + 1)).filter (fun x => !decide (x.1 < n)) =
        l.filter (·.1 = n) := by
      rw [List.filter_filter]
      refine List.filter_congr fun x _ => ?_
      rw [← decide_not, ← Bool.decide_and, decide_eq_decide]
      omega
    rw [hlow, hlast] at hsplit
    rw [List.range_succ, List.flatMap_append, List.flatMap_singleton]
    exact hsplit.trans (ih.append_right _)

theorem mapM_ok {ε α β : Type} {f : α → Except ε β} {l : List α} {m : List β} :
    l.mapM f = .ok m ↔ List.Forall₂ (fun x y => f x = .ok y) l m := by
  induction l generalizing m with
  | nil =>
    rw [List.mapM_nil, List.forall₂_nil_left_iff]
    exact ⟨fun h => (Except.ok.inj h).symm, fun h => h ▸ rfl⟩
  | cons x xs ih =>
    rw [List.mapM_cons]
    constructor
    · intro h
      cases hx : f x with
      | error e =>
        rw [hx] at h
        cases h
      | ok y =>
        cases hxs : xs.mapM f with
        | error e =>
          rw [hx, hxs] at h
          cases h
        | ok ys =>
          rw [hx, hxs] at h
          cases h
          exact .cons hx (ih.mp hxs)
    · rintro (_ | ⟨hx, hxs⟩)
      rw [hx, ih.mpr hxs]
      rfl

theorem forall₂_map_eq {α β γ : Type} {R : α → β → Prop} {l : List α} {m : List β} {f : α → γ}
    {g : β → γ} (h : List.Forall₂ R l m) (hfg : ∀ x y, R x y → g y = f x) : m.map g = l.map f := by
  induction h with
  | nil => rfl
  | cons hxy _ ih => rw [List.map_cons, List.map_cons, hfg _ _ hxy, ih]

theorem perm_iff_filter {α : Type} (p : α → Prop) [DecidablePred p] {l l' : List α} :
    l.Perm l' ↔ (l.filter p).Perm (l'.filter p) ∧
      (l.filter fun a => ¬ p a).Perm (l'.filter fun a => ¬ p a) := by
  have hsplit : ∀ l : List α, (l.filter p ++ l.filter fun a => ¬ p a).Perm l := by
    intro l
    simpa using List.filter_append_perm (fun a => decide (p a)) l
  exact ⟨fun h => ⟨h.filter _, h.filter _⟩,
    fun ⟨h, h'⟩ => (hsplit l).symm.trans ((h.append h').trans (hsplit l'))⟩

end IspPlatform.Py
