import Mathlib.Data.List.Basic

/-!
# Rolling limits

A limiter lets a moment in when fewer than `limit` of the moments it has let in lie less
than `span` before it, or after it. The moments come in any order.
-/

namespace IspPlatform.Lib

variable {α : Type} [Sub α] [LT α] [DecidableLT α]

/-- The moments a limiter has let in, in the order they came. -/
inductive Rolling (span : α) (limit : Nat) : List α → Prop where
  | nil : Rolling span limit []
  | snoc {l : List α} {m : α} : Rolling span limit l → l.countP (m - · < span) < limit →
      Rolling span limit (l ++ [m])

/-- **Every window.** Moments that pairwise lie less than `span` apart are at most `limit`. -/
theorem Rolling.window {span : α} {limit : Nat} {l : List α} (h : Rolling span limit l)
    {w : α → Prop} [DecidablePred w] (hw : ∀ a b, w a → w b → a - b < span) :
    l.countP (w ·) ≤ limit := by
  induction h with
  | nil => exact Nat.zero_le _
  | @snoc l m _ hm ih =>
    rw [List.countP_append, List.countP_singleton]
    by_cases hin : w m
    · -- those in the window that came before `m` were counted when it came
      have hle : l.countP (w ·) ≤ l.countP (m - · < span) := by
        apply List.countP_mono_left
        intro a _ ha
        simp only [decide_eq_true_eq] at ha ⊢
        exact hw m a hin ha
      simp only [hin, decide_true, if_true]
      omega
    · simpa [hin] using ih

end IspPlatform.Lib
