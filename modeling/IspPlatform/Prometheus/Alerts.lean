import IspPlatform.Prometheus.Query

/-!
# Alerting rules

A rule evaluates its query again and again; a label set that is selected is active from the first
evaluation of an unbroken streak, and its alert fires once it has been active for the rule's
`for`. `fires_iff` says so of a whole run; `held_since` is the bound on when it fires, for
evaluations that come regularly.
-/

namespace IspPlatform.Prometheus

open Py

structure AlertRule where
  alert : Str
  expr : Query
  /-- `for`, in milliseconds. -/
  hold : Int
  deriving DecidableEq

/-- An evaluation: its time, in milliseconds, and the samples it sees. -/
structure Evaluation where
  time : Int
  samples : List Sample

/-- Active label sets, each with the time since when. -/
abbrev Active := List (LabelSet × Int)

namespace AlertRule

variable {F : Type} (A : Floats F) (r : AlertRule)

/-- What the rule's expression selects. -/
def selected (e : Evaluation) : List LabelSet :=
  r.expr.select A (A.ofNumber (.exact (e.time / 1000))) e.samples

/-- What is selected stays active, or becomes active; nothing else is. -/
def evaluate (active : Active) (e : Evaluation) : Active :=
  (r.selected A e).map fun l => (l, (active.lookup l).getD e.time)

def run (es : List Evaluation) : Active := es.foldl (r.evaluate A) []

/-- The label sets whose alert fires at the last of some evaluations. -/
def firing (es : List Evaluation) : List LabelSet :=
  match es.getLast? with
  | none => []
  | some e => ((r.run A es).filter fun x => r.hold ≤ e.time - x.2).map (·.1)

end AlertRule

section
variable {α : Type} (time : α → Int)

/-- `p` held at the last of some events and at all those since some time, at least `d` before. -/
def Held (p : α → Prop) (d : Int) (es : List α) : Prop :=
  ∃ pre e post last, es = pre ++ e :: post ∧ es.getLast? = some last ∧ (∀ x ∈ e :: post, p x) ∧
    d ≤ time last - time e

/-- The events come in order, at most `gap` apart. -/
def Regular (gap : Int) (es : List α) : Prop :=
  es.IsChain fun a b => time a ≤ time b ∧ time b ≤ time a + gap

/-- The events come in order. -/
def InOrder (es : List α) : Prop := es.Pairwise fun a b => time a ≤ time b

end

/-! ## One evaluation -/

section
variable {F : Type} {A : Floats F} {r : AlertRule} {es : List Evaluation} {l : LabelSet}

theorem lookup_map {ls : List LabelSet} {f : LabelSet → Int} :
    (ls.map fun l => (l, f l)).lookup l = if l ∈ ls then some (f l) else none := by
  induction ls with
  | nil => rfl
  | cons k ls ih =>
    rw [List.map_cons, List.lookup_cons, ih]
    by_cases h : l = k
    · subst h
      simp
    · have hne : (l == k) = false := beq_eq_false_iff_ne.mpr h
      rw [hne]
      simp [h]

theorem lookup_evaluate {active : Active} {e : Evaluation} :
    (r.evaluate A active e).lookup l =
      if l ∈ r.selected A e then some ((active.lookup l).getD e.time) else none :=
  lookup_map

theorem run_concat {e : Evaluation} :
    r.run A (es ++ [e]) = r.evaluate A (r.run A es) e := by
  simp [AlertRule.run]

theorem run_concat_eq_nil {e : Evaluation} :
    r.run A (es ++ [e]) = [] ↔ ∀ l, l ∉ r.selected A e := by
  rw [run_concat, AlertRule.evaluate, List.map_eq_nil_iff, List.eq_nil_iff_forall_not_mem]

theorem mem_run {t : Int} : (l, t) ∈ r.run A es ↔ (r.run A es).lookup l = some t := by
  rcases List.eq_nil_or_concat es with rfl | ⟨es', e, rfl⟩
  · simp [AlertRule.run]
  · rw [List.concat_eq_append, run_concat, lookup_evaluate, AlertRule.evaluate, List.mem_map]
    constructor
    · rintro ⟨k, hk, heq⟩
      obtain ⟨rfl, rfl⟩ := Prod.mk.inj heq
      rw [if_pos hk]
    · intro h
      split at h
      · next hl => exact ⟨l, hl, by rw [Option.some.inj h]⟩
      · cases h

/-! ## A run -/

/-- What is active was selected in an unbroken streak. -/
theorem streak_of_active {t : Int} (h : (r.run A es).lookup l = some t) :
    ∃ pre e post, es = pre ++ e :: post ∧ e.time = t ∧
      ∀ x ∈ e :: post, l ∈ r.selected A x := by
  induction es using List.reverseRecOn generalizing t with
  | nil => cases h
  | append_singleton es e ih =>
    rw [run_concat, lookup_evaluate] at h
    split at h
    · next hsel =>
      have ht := Option.some.inj h
      cases hold : (r.run A es).lookup l with
      | none =>
        rw [hold] at ht
        exact ⟨es, e, [], rfl, ht, by simpa using hsel⟩
      | some t' =>
        rw [hold] at ht
        obtain ⟨pre, e', post, rfl, htime, hall⟩ := ih hold
        refine ⟨pre, e', post ++ [e], by simp, htime.trans ht, ?_⟩
        intro x hx
        rcases List.mem_append.mp (List.cons_append ▸ hx) with hx | hx
        · exact hall x hx
        · exact List.mem_singleton.mp hx ▸ hsel
    · cases h

/-- What was selected in an unbroken streak is active since its start, or longer. -/
theorem active_of_streak {pre post : List Evaluation} {e : Evaluation}
    (hord : InOrder Evaluation.time (pre ++ e :: post))
    (hall : ∀ x ∈ e :: post, l ∈ r.selected A x) :
    ∃ t ≤ e.time, (r.run A (pre ++ e :: post)).lookup l = some t := by
  induction post using List.reverseRecOn with
  | nil =>
    rw [run_concat, lookup_evaluate, if_pos (hall e List.mem_cons_self)]
    refine ⟨_, ?_, rfl⟩
    cases hold : (r.run A pre).lookup l with
    | none => exact Int.le_refl _
    | some t =>
      obtain ⟨pre', e', post', rfl, rfl, -⟩ := streak_of_active hold
      exact (List.pairwise_append.mp hord).2.2 e' (by simp) e (by simp)
  | append_singleton post x ih =>
    have hsplit : pre ++ e :: (post ++ [x]) = (pre ++ e :: post) ++ [x] := by simp
    have hmem : ∀ y ∈ e :: post, y ∈ e :: (post ++ [x]) := by
      intro y hy
      simp only [List.mem_cons, List.mem_append] at hy ⊢
      tauto
    rw [hsplit] at hord ⊢
    obtain ⟨t, hle, hlook⟩ := ih (hord.sublist (List.sublist_append_left _ _))
      fun y hy => hall y (hmem y hy)
    rw [run_concat, lookup_evaluate, if_pos (hall x (by simp)), hlook]
    exact ⟨t, hle, rfl⟩

/-- An alert fires when its rule has selected the label set long enough, without a break. -/
theorem fires_iff (hord : InOrder Evaluation.time es) :
    l ∈ r.firing A es ↔ Held Evaluation.time (fun e => l ∈ r.selected A e) r.hold es := by
  unfold AlertRule.firing
  constructor
  · intro h
    split at h
    · cases h
    · next last hlast =>
      obtain ⟨⟨l', t⟩, hin, rfl⟩ := List.mem_map.mp h
      obtain ⟨hrun, hlong⟩ := List.mem_filter.mp hin
      obtain ⟨pre, e, post, hes, rfl, hall⟩ := streak_of_active (mem_run.mp hrun)
      exact ⟨pre, e, post, last, hes, hlast, hall, of_decide_eq_true hlong⟩
  · rintro ⟨pre, e, post, last, rfl, hlast, hall, hlong⟩
    obtain ⟨t, hle, hlook⟩ := active_of_streak hord hall
    rw [hlast]
    refine List.mem_map.mpr ⟨(l, t), List.mem_filter.mpr ⟨mem_run.mpr hlook, ?_⟩, rfl⟩
    exact decide_eq_true (by dsimp only; omega)

end

section
variable {α : Type} {time : α → Int} {p q : α → Prop} {gap d : Int} {es : List α}

theorem Held.imp (h : Held time p d es) (hpq : ∀ e ∈ es, p e → q e) : Held time q d es := by
  obtain ⟨pre, e, post, last, rfl, hlast, hall, hd⟩ := h
  exact ⟨pre, e, post, last, rfl, hlast,
    fun x hx => hpq x (List.mem_append_right _ hx) (hall x hx), hd⟩

theorem Held.congr (hpq : ∀ e ∈ es, (p e ↔ q e)) : Held time p d es ↔ Held time q d es :=
  ⟨fun h => h.imp fun e he => (hpq e he).mp, fun h => h.imp fun e he => (hpq e he).mpr⟩

theorem held_map {β : Type} {f : β → α} {es : List β} :
    Held time p d (es.map f) ↔ Held (fun x => time (f x)) (fun x => p (f x)) d es := by
  constructor
  · rintro ⟨pre, e, post, last, heq, hlast, hall, hd⟩
    obtain ⟨pre', rest, rfl, rfl, hrest⟩ := List.map_eq_append_iff.mp heq
    obtain ⟨e', post', rfl, rfl, rfl⟩ := List.map_eq_cons_iff.mp hrest
    rw [List.getLast?_map] at hlast
    obtain ⟨last', hlast', rfl⟩ := Option.map_eq_some_iff.mp hlast
    exact ⟨pre', e', post', last', rfl, hlast',
      fun x hx => hall (f x) (by simpa using List.mem_map_of_mem (f := f) hx), hd⟩
  · rintro ⟨pre, e, post, last, rfl, hlast, hall, hd⟩
    refine ⟨pre.map f, f e, post.map f, f last, by simp, ?_, ?_, hd⟩
    · rw [List.getLast?_map, hlast]
      rfl
    · intro x hx
      rw [← List.map_cons] at hx
      obtain ⟨y, hy, rfl⟩ := List.mem_map.mp hx
      exact hall y hy

theorem Regular.ordered (h : Regular time gap es) : InOrder time es := by
  induction h with
  | nil => exact .nil
  | singleton e => exact List.pairwise_singleton _ _
  | @cons_cons a b es hab _ ih =>
    refine .cons ?_ ih
    intro x hx
    rcases List.mem_cons.mp hx with rfl | hx
    · exact hab.1
    · exact Int.le_trans hab.1 (List.rel_of_pairwise_cons ih hx)

/-- What holds from some time on has been held long enough soon after. -/
theorem held_since {a : Int} {first last : α} (hreg : Regular time gap es)
    (hfirst : es.head? = some first) (hlast : es.getLast? = some last) (hgap : 0 ≤ gap)
    (hd : 0 ≤ d) (hstart : time first ≤ a + gap) (hend : a + gap + d ≤ time last)
    (hp : ∀ e ∈ es, a ≤ time e → p e) : Held time p d es := by
  induction es generalizing first with
  | nil => cases hfirst
  | cons e es ih =>
    cases hfirst
    by_cases hle : a ≤ time e
    · refine ⟨[], e, es, last, rfl, hlast, ?_, by omega⟩
      intro x hx
      refine hp x hx ?_
      rcases List.mem_cons.mp hx with rfl | hx'
      · exact hle
      · exact Int.le_trans hle (List.rel_of_pairwise_cons hreg.ordered hx')
    · cases es with
      | nil =>
        obtain rfl : e = last := Option.some.inj hlast
        omega
      | cons e' es =>
        obtain ⟨hnext, hrest⟩ := List.isChain_cons_cons.mp hreg
        obtain ⟨pre, x, post, last', heq, hl, hall, hlong⟩ := ih hrest rfl
          ((List.getLast?_cons_cons).symm.trans hlast) (by omega)
          fun y hy => hp y (List.mem_cons_of_mem _ hy)
        refine ⟨e :: pre, x, post, last', by rw [heq]; rfl, ?_, hall, hlong⟩
        rw [List.getLast?_cons_cons]
        exact hl

end

end IspPlatform.Prometheus
