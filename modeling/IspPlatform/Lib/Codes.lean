import Mathlib.Data.List.Basic

/-!
# Self-delimiting codes

A code is self-delimiting where a text that begins with a code word tells the element and where
the word ends. So are lists of words, with a separator between them or without, if they end in a
mark that begins no word.
-/

namespace IspPlatform.Lib

variable {α β : Type}

/-- A text begins with the word of one element at most. -/
def SelfDelimiting (f : α → List β) : Prop :=
  ∀ ⦃a b : α⦄ ⦃u v : List β⦄, f a ++ u = f b ++ v → a = b ∧ u = v

/-- No word is empty or begins with the mark. -/
def Opens (mark : β) (f : α → List β) : Prop := ∀ a, ∃ x w, f a = x :: w ∧ x ≠ mark

variable {f : α → List β} {mark : β}

/-- Words that lack the mark tell where they end, if the mark follows. -/
theorem eq_before_mark (hf : Function.Injective f) (hmark : ∀ a, mark ∉ f a) {a b : α}
    {u v : List β} (h : f a ++ mark :: u = f b ++ mark :: v) : a = b ∧ u = v := by
  have hsplit : ∀ {l l' : List β}, mark ∉ l → mark ∉ l' → l ++ mark :: u = l' ++ mark :: v →
      l = l' ∧ u = v := by
    intro l l' hl hl' heq
    induction l generalizing l' with
    | nil =>
      cases l' with
      | nil => exact ⟨rfl, (List.cons.inj heq).2⟩
      | cons y l' => exact absurd ((List.cons.inj heq).1 ▸ List.mem_cons_self) hl'
    | cons x l ih =>
      cases l' with
      | nil => exact absurd ((List.cons.inj heq).1 ▸ List.mem_cons_self) hl
      | cons y l' =>
        obtain ⟨rfl, hrest⟩ := List.cons.inj heq
        obtain ⟨rfl, huv⟩ := ih (fun h => hl (List.mem_cons_of_mem _ h))
          (fun h => hl' (List.mem_cons_of_mem _ h)) hrest
        exact ⟨rfl, huv⟩
  obtain ⟨hab, huv⟩ := hsplit (hmark a) (hmark b) h
  exact ⟨hf hab, huv⟩

/-! ## From the end -/

/-- Every mark in the text comes after a guard. -/
def Guarded (guard mark : β) (s : List β) : Prop :=
  ∀ ⦃a b : List β⦄, s = a ++ mark :: b → a.getLast? = some guard

section
variable {guard : β} {s t x y : List β}

theorem guarded_of_not_mem (h : mark ∉ s) : Guarded guard mark s := by
  rintro a b rfl
  exact absurd (List.mem_append_right a List.mem_cons_self) h

theorem Guarded.append (hs : Guarded guard mark s) (ht : Guarded guard mark t) :
    Guarded guard mark (s ++ t) := by
  intro a b h
  rcases List.append_eq_append_iff.mp h with ⟨c, rfl, hc⟩ | ⟨c, hc, hb⟩
  · have hlast := ht hc
    rw [List.getLast?_append, hlast]
    rfl
  · cases c with
    | nil => cases ht (a := []) hb.symm
    | cons z c =>
      obtain ⟨rfl, rfl⟩ := List.cons.inj hb
      exact hs hc

theorem Guarded.flatMap {l : List α} (h : ∀ a ∈ l, Guarded guard mark (f a)) :
    Guarded guard mark (l.flatMap f) := by
  induction l with
  | nil => exact guarded_of_not_mem List.not_mem_nil
  | cons a l ih =>
    rw [List.flatMap_cons]
    exact (h a List.mem_cons_self).append (ih fun b hb => h b (List.mem_cons_of_mem _ hb))

/-- A mark that no guard stands before tells what stands behind it, if that is guarded. -/
theorem eq_after_mark (hs : Guarded guard mark s) (ht : Guarded guard mark t)
    (hx : x.getLast? ≠ some guard) (hy : y.getLast? ≠ some guard)
    (h : x ++ mark :: s = y ++ mark :: t) : x = y ∧ s = t := by
  have hone : ∀ {x y s t c : List β}, Guarded guard mark s → y.getLast? ≠ some guard →
      y = x ++ c → mark :: s = c ++ mark :: t → x = y ∧ s = t := by
    intro x y s t c hs hy hxy hc
    cases c with
    | nil =>
      rw [List.append_nil] at hxy
      exact ⟨hxy.symm, (List.cons.inj hc).2⟩
    | cons z c =>
      obtain ⟨rfl, hrest⟩ := List.cons.inj hc
      have hlast := hs hrest
      rw [hxy, List.getLast?_append, List.getLast?_cons, hlast] at hy
      exact absurd rfl hy
  rcases List.append_eq_append_iff.mp h with ⟨c, hxy, hc⟩ | ⟨c, hxy, hc⟩
  · exact hone hs hy hxy hc
  · obtain ⟨rfl, rfl⟩ := hone ht hx hxy hc
    exact ⟨rfl, rfl⟩

end

namespace SelfDelimiting

theorem injective (h : SelfDelimiting f) : Function.Injective f := by
  intro a b heq
  exact (h (u := []) (v := []) (by rw [heq])).1

theorem framed (h : SelfDelimiting f) (before after : List β) :
    SelfDelimiting fun a => before ++ f a ++ after := by
  intro a b u v heq
  simp only [List.append_assoc] at heq
  obtain ⟨rfl, hrest⟩ := h (List.append_cancel_left heq)
  exact ⟨rfl, List.append_cancel_left hrest⟩

theorem listed (h : SelfDelimiting f) (ho : Opens mark f) :
    SelfDelimiting fun l : List α => l.flatMap f ++ [mark] := by
  intro l l' u v heq
  induction l generalizing l' with
  | nil =>
    cases l' with
    | nil => exact ⟨rfl, List.append_cancel_left heq⟩
    | cons b l' =>
      obtain ⟨x, w, hb, hx⟩ := ho b
      simp only [List.flatMap_cons, hb] at heq
      exact absurd (List.cons.inj heq).1.symm hx
  | cons a l ih =>
    cases l' with
    | nil =>
      obtain ⟨x, w, ha, hx⟩ := ho a
      simp only [List.flatMap_cons, ha] at heq
      exact absurd (List.cons.inj heq).1 hx
    | cons b l' =>
      simp only [List.flatMap_cons, List.append_assoc] at heq
      obtain ⟨rfl, hrest⟩ := h heq
      simp only [← List.append_assoc] at hrest
      obtain ⟨rfl, huv⟩ := ih hrest
      exact ⟨rfl, huv⟩

theorem intercalate_cons (sep : List β) (a : α) (l : List α) :
    sep.intercalate ((a :: l).map f) = f a ++ l.flatMap fun b => sep ++ f b := by
  induction l generalizing a with
  | nil => simp [List.intercalate]
  | cons b l ih =>
    rw [List.map_cons, List.map_cons, List.intercalate_cons_cons, ← List.map_cons, ih,
      List.flatMap_cons, List.append_assoc, List.append_assoc]

theorem joined (h : SelfDelimiting f) (ho : Opens mark f) {sep : List β}
    (hsep : ∃ x w, sep = x :: w ∧ x ≠ mark) :
    SelfDelimiting fun l : List α => sep.intercalate (l.map f) ++ [mark] := by
  have hlisted : SelfDelimiting fun l : List α => (l.flatMap fun b => sep ++ f b) ++ [mark] := by
    refine listed ?_ ?_
    · simpa using h.framed sep []
    · obtain ⟨x, w, rfl, hx⟩ := hsep
      exact fun a => ⟨x, w ++ f a, rfl, hx⟩
  intro l l' u v heq
  cases l with
  | nil =>
    cases l' with
    | nil => exact ⟨rfl, List.append_cancel_left heq⟩
    | cons b l' =>
      obtain ⟨x, w, hb, hx⟩ := ho b
      simp only [intercalate_cons, hb] at heq
      exact absurd (List.cons.inj heq).1.symm hx
  | cons a l =>
    cases l' with
    | nil =>
      obtain ⟨x, w, ha, hx⟩ := ho a
      simp only [intercalate_cons, ha] at heq
      exact absurd (List.cons.inj heq).1 hx
    | cons b l' =>
      simp only [intercalate_cons, List.append_assoc] at heq
      obtain ⟨rfl, hrest⟩ := h heq
      simp only [← List.append_assoc] at hrest
      obtain ⟨rfl, huv⟩ := hlisted hrest
      exact ⟨rfl, huv⟩

end SelfDelimiting

end IspPlatform.Lib
