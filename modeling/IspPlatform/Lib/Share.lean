import Mathlib.Data.Rat.Lemmas
import Mathlib.Tactic.FieldSimp
import Mathlib.Tactic.Ring
import Mathlib.Data.List.Count

/-!
# Shares

The share of the passes among some verdicts, as an exact fraction; no verdicts have the share
0. Where the verdicts that do not count are set to a pass, the share is that of the others
only if there are none to set, or every other one is a pass.
-/

namespace IspPlatform.Lib

/-- The fraction of passes. -/
def share (l : List Bool) : ℚ := if l = [] then 0 else (l.count true : ℚ) / l.length

theorem share_eq (l : List Bool) : share l = (l.count true : ℚ) / l.length := by
  unfold share
  by_cases h : l = []
  · rw [if_pos h, h]
    simp
  · rw [if_neg h]

theorem share_eq_one {l : List Bool} : share l = 1 ↔ l ≠ [] ∧ ∀ b ∈ l, b = true := by
  rw [share_eq]
  by_cases h : l = []
  · simp [h]
  · have hlen : (l.length : ℚ) ≠ 0 := Nat.cast_ne_zero.mpr (by simpa using h)
    rw [div_eq_one_iff_eq hlen, Nat.cast_inj, List.count_eq_length]
    simp [h, eq_comm]

theorem div_add_eq_iff {k n c : ℕ} (h : c ≤ n) :
    ((k + c : ℕ) : ℚ) / (k + n : ℕ) = (c : ℚ) / n ↔ k = 0 ∨ 0 < n ∧ c = n := by
  by_cases hn : n = 0
  · obtain rfl : c = 0 := by omega
    by_cases hk : k = 0
    · simp [hn, hk]
    · simp [hn, hk]
  · have hn' : (n : ℚ) ≠ 0 := Nat.cast_ne_zero.mpr hn
    have hkn : ((k + n : ℕ) : ℚ) ≠ 0 := Nat.cast_ne_zero.mpr (by omega)
    rw [div_eq_div_iff hkn hn']
    norm_cast
    constructor
    · intro hcross
      have hkc : k * n = k * c := by
        rw [Nat.add_mul, Nat.mul_add] at hcross
        have := Nat.mul_comm c k
        omega
      by_cases hk : k = 0
      · exact .inl hk
      · exact .inr ⟨by omega, (Nat.eq_of_mul_eq_mul_left (by omega) hkc).symm⟩
    · rintro (rfl | ⟨-, rfl⟩)
      · rw [Nat.zero_add, Nat.zero_add]
      · exact Nat.mul_comm _ _

variable {α : Type} (counts pass : α → Bool)

theorem count_padded (l : List α) : (l.map fun x => !counts x || pass x).count true =
    l.countP (!counts ·) + ((l.filter counts).map pass).count true := by
  induction l with
  | nil => rfl
  | cons x l ih =>
    rw [List.map_cons, List.count_cons, List.countP_cons, List.filter_cons, ih]
    cases hc : counts x with
    | false => simp; omega
    | true => simp [List.count_cons]; omega

theorem length_padded (l : List α) : (l.map fun x => !counts x || pass x).length =
    l.countP (!counts ·) + ((l.filter counts).map pass).length := by
  rw [List.length_map, List.length_map, ← List.countP_eq_length_filter, Nat.add_comm,
    List.length_eq_countP_add_countP counts]
  simp only [Bool.not_eq_true, Bool.decide_eq_false]

/-- **Placeholders.** Setting the verdicts that do not count to a pass keeps the share of the
others exactly when there are none to set, or every other one is a pass, and there is one. -/
theorem share_padded_iff (l : List α) :
    share (l.map fun x => !counts x || pass x) = share ((l.filter counts).map pass) ↔
      (∀ x ∈ l, counts x = true) ∨
        (∃ x ∈ l, counts x = true) ∧ ∀ x ∈ l, counts x = true → pass x = true := by
  rw [share_eq, share_eq, count_padded, length_padded, div_add_eq_iff List.count_le_length]
  have hnone : l.countP (!counts ·) = 0 ↔ ∀ x ∈ l, counts x = true := by
    simp [List.countP_eq_zero]
  have hsome : 0 < ((l.filter counts).map pass).length ↔ ∃ x ∈ l, counts x = true := by
    simp [List.length_pos_iff_exists_mem]
  have hall : ((l.filter counts).map pass).count true = ((l.filter counts).map pass).length ↔
      ∀ x ∈ l, counts x = true → pass x = true := by
    rw [List.count_eq_length]
    simp
  rw [hnone, hsome, hall]

end IspPlatform.Lib
