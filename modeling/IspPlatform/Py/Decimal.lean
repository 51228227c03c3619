import Mathlib.Algebra.Order.Ring.Rat
import Mathlib.Data.Rat.Cast.Order
import Mathlib.Tactic.NormNum
import Mathlib.Tactic.Ring
import IspPlatform.Py.Text

/-!
# Decimal arithmetic under a finite context

A finite decimal is a sign, a coefficient and an exponent. `Context.fix` is the
rounding every operation's result goes through: half-even to `prec` digits, an
`overflow` signal above `emax`. `scaleb` moves the exponent and then rounds.
`Decimal.value` is the number a decimal denotes; `fix_exact_iff` says when
rounding keeps it.
-/

namespace IspPlatform.Py

/-- Finite decimals, infinities and NaN. -/
inductive Decimal where
  | finite (neg : Bool) (coeff : Nat) (exp : Int)
  | infinity (neg : Bool)
  | nan
  deriving DecidableEq, Repr

/-- The trapped signals of the default context that this code can meet. -/
inductive Signal where
  | invalidOperation
  | overflow
  deriving DecidableEq, Repr

/-- A context that rounds half-even, without clamping. -/
structure Context where
  prec : Nat
  emin : Int
  emax : Int
  deriving Repr

/-- `decimal.DefaultContext`. -/
def defaultContext : Context := { prec := 28, emin := -999999, emax := 999999 }

namespace Context

variable (ctx : Context)

/-- The least exponent of a subnormal. -/
def etiny : Int := ctx.emin - ctx.prec + 1

/-- The greatest exponent of a full-width coefficient. -/
def etop : Int := ctx.emax - ctx.prec + 1

end Context

/-- The number of digits of a coefficient (`0` has one). -/
def numDigits (n : Nat) : Nat := (Nat.toDigits 10 n).length

/-- `n / 10^k` rounded to the nearest integer, ties to even. -/
def roundHalfEven (n k : Nat) : Nat :=
  let q := n / 10 ^ k
  let r := n % 10 ^ k
  if 10 ^ k < 2 * r ∨ (2 * r = 10 ^ k ∧ q % 2 = 1) then q + 1 else q

namespace Decimal

/-- The exponent of a zero, moved into the context's range. -/
def clampExp (ctx : Context) (e : Int) : Int := min (max e ctx.etiny) ctx.emax

/-- A coefficient of exponent `e` rounded to the exponent `m`; the carry of `99…9`
gives one digit too many and moves one place up. -/
def roundTo (ctx : Context) (c : Nat) (e m : Int) : Nat × Int :=
  let q := roundHalfEven c (m - e).toNat
  if ctx.prec < numDigits q then (q / 10, m + 1) else (q, m)

/-- Round a result to the context. -/
def fix (ctx : Context) : Decimal → Except Signal Decimal
  | .finite s c e =>
    if c = 0 then .ok (.finite s 0 (clampExp ctx e))
    else if ctx.etop < numDigits c + e - ctx.prec then .error .overflow
    else
      let expMin := max (numDigits c + e - ctx.prec) ctx.etiny
      if e < expMin then
        let r := roundTo ctx c e expMin
        if ctx.etop < r.2 then .error .overflow else .ok (.finite s r.1 r.2)
      else .ok (.finite s c e)
  | d => .ok d

/-- `d.scaleb(n)`: the exponent moves by `n`, at most `2 * (emax + prec)` either way. -/
def scaleb (ctx : Context) (d : Decimal) (n : Int) : Except Signal Decimal :=
  match d with
  | .nan => .ok .nan
  | d =>
    if 2 * (ctx.emax + ctx.prec) < |n| then .error .invalidOperation
    else
      match d with
      | .finite s c e => fix ctx (.finite s c (e + n))
      | d => .ok d

/-- `d.is_finite()`. -/
def isFinite : Decimal → Bool
  | .finite .. => true
  | _ => false

/-- `d.as_tuple().exponent` of a finite decimal. -/
def exponent : Decimal → Int
  | .finite _ _ e => e
  | _ => 0

/-- `d < 0`. -/
def isNegative : Decimal → Bool
  | .finite s c _ => s && c != 0
  | .infinity s => s
  | .nan => false

/-- The coefficient with its sign. -/
def signed (s : Bool) (c : Nat) : Int := if s then -c else c

/-- `d == d'` of two finite decimals: the coefficients agree at the lower exponent. -/
def numericEq : Decimal → Decimal → Bool
  | .finite s c e, .finite s' c' e' =>
    signed s c * 10 ^ (e - min e e').toNat == signed s' c' * 10 ^ (e' - min e e').toNat
  | _, _ => false

/-- The number a decimal denotes (`0` for the special values). -/
def value : Decimal → ℚ
  | .finite s c e => signed s c * 10 ^ e
  | _ => 0

/-- `int(d)` of a finite decimal: truncation towards zero. -/
def toInt : Decimal → Int
  | .finite s c e => signed s (if 0 ≤ e then c * 10 ^ e.toNat else c / 10 ^ (-e).toNat)
  | _ => 0

/-- `Decimal(n)` of an integer. -/
def ofInt (n : Int) : Decimal := .finite (n < 0) n.natAbs 0

/-- `Decimal(text)` of a text without sign, exponent or letters: digits with at
most one point, at least one digit. The exponent is minus the number of digits
after the point. -/
def ofText (text : Str) : Except Signal Decimal :=
  let ip := text.takeWhile (· ≠ '.')
  let fp := (text.dropWhile (· ≠ '.')).drop 1
  if (ip ++ fp).all Char.isDigit ∧ ip ++ fp ≠ [] then
    .ok (.finite false (Nat.ofDigitChars 10 (ip ++ fp) 0) (-fp.length))
  else .error .invalidOperation

end Decimal

theorem numDigits_pos (n : Nat) : 0 < numDigits n := Nat.length_toDigits_pos

theorem numDigits_le_iff {n k : Nat} (hk : 0 < k) : numDigits n ≤ k ↔ n < 10 ^ k :=
  Nat.length_toDigits_le_iff (by decide) hk

theorem lt_pow_numDigits (n : Nat) : n < 10 ^ numDigits n :=
  (numDigits_le_iff (numDigits_pos n)).mp (Nat.le_refl _)

theorem pow_le_of_lt_numDigits {n k : Nat} (hk : 0 < k) (h : k < numDigits n) : 10 ^ k ≤ n := by
  rcases Nat.lt_or_ge n (10 ^ k) with hn | hn
  · have := (numDigits_le_iff hk).mpr hn; omega
  · exact hn

theorem numDigits_mul_pow {q k : Nat} (hq : 0 < q) : numDigits (q * 10 ^ k) = numDigits q + k := by
  have hpos := numDigits_pos q
  apply Nat.le_antisymm
  · rw [numDigits_le_iff (by omega), Nat.pow_add]
    exact Nat.mul_lt_mul_of_pos_right (lt_pow_numDigits q) (by positivity)
  · rcases Nat.eq_or_lt_of_le (show 1 ≤ numDigits q from hpos) with h1 | h1
    · -- a one-digit `q` is at least `1`
      rcases Nat.eq_zero_or_pos k with rfl | hk
      · simp
      · have : ¬ numDigits (q * 10 ^ k) ≤ k := by
          rw [numDigits_le_iff hk, not_lt]
          exact Nat.le_mul_of_pos_left _ hq
        omega
    · have hle := pow_le_of_lt_numDigits (n := q) (k := numDigits q - 1) (by omega) (by omega)
      have : ¬ numDigits (q * 10 ^ k) ≤ numDigits q - 1 + k := by
        rw [numDigits_le_iff (by omega), not_lt, Nat.pow_add]
        exact Nat.mul_le_mul_right _ hle
      omega

/-! ## Rounding -/

theorem roundHalfEven_mul (q k : Nat) : roundHalfEven (q * 10 ^ k) k = q := by
  have hp : 0 < 10 ^ k := by positivity
  have h : ¬ 10 ^ k < 0 := by omega
  simp [roundHalfEven, Nat.mul_div_cancel _ hp, h, hp.ne]

theorem roundHalfEven_le (n k : Nat) : roundHalfEven n k ≤ n / 10 ^ k + 1 := by
  simp only [roundHalfEven]
  split <;> omega

/-- A coefficient cut to `p` digits carries at most to `10^p`. -/
theorem roundHalfEven_le_pow {n p : Nat} (h : p ≤ numDigits n) :
    roundHalfEven n (numDigits n - p) ≤ 10 ^ p := by
  have hlt : n / 10 ^ (numDigits n - p) < 10 ^ p := by
    rw [Nat.div_lt_iff_lt_mul (by positivity), ← Nat.pow_add, Nat.add_sub_cancel' h]
    exact lt_pow_numDigits n
  have := roundHalfEven_le n (numDigits n - p)
  omega

namespace Decimal

variable {ctx : Context}

theorem le_roundTo {c : Nat} {e m : Int} : m ≤ (roundTo ctx c e m).2 := by
  simp only [roundTo]
  split <;> simp only <;> omega

theorem fix_whole (hmax : 0 ≤ ctx.emax) {s : Bool} {c : Nat} {e : Int} (he : 0 ≤ e) {d : Decimal}
    (h : fix ctx (.finite s c e) = .ok d) : ∃ q m, d = .finite s q m ∧ 0 ≤ m := by
  simp only [fix] at h
  split at h
  · cases h
    exact ⟨_, _, rfl, by simp only [clampExp]; omega⟩
  split at h
  · cases h
  split at h
  · next hlt =>
    split at h
    · cases h
    · cases h
      exact ⟨_, _, rfl, (he.trans hlt.le).trans le_roundTo⟩
  · cases h
    exact ⟨_, _, rfl, he⟩

/-- The carry changes the form of the rounded coefficient, not its value. -/
theorem roundTo_value (hp : 0 < ctx.prec) {c : Nat} {e m : Int} (hc : ctx.prec ≤ numDigits c)
    (hm : m = e + (numDigits c - ctx.prec : Nat)) :
    ((roundTo ctx c e m).1 : ℚ) * 10 ^ (roundTo ctx c e m).2 =
      roundHalfEven c (numDigits c - ctx.prec) * 10 ^ m := by
  have hk : (m - e).toNat = numDigits c - ctx.prec := by omega
  simp only [roundTo, hk]
  split
  · next hcarry =>
    have hq : roundHalfEven c (numDigits c - ctx.prec) = 10 ^ ctx.prec :=
      Nat.le_antisymm (roundHalfEven_le_pow hc) (pow_le_of_lt_numDigits hp hcarry)
    obtain ⟨p, hp'⟩ := Nat.exists_eq_succ_of_ne_zero hp.ne'
    rw [hq, hp', Nat.pow_succ, Nat.mul_div_cancel _ (by decide), zpow_add_one₀ (by norm_num)]
    push_cast
    ring
  · rfl

theorem value_eq_iff {s : Bool} {q c : Nat} {m e : Int} :
    value (.finite s q m) = value (.finite s c e) ↔ (q : ℚ) * 10 ^ m = c * 10 ^ e := by
  cases s <;> simp [value, signed]

/-- Rounding at `k` digits is exact on the multiples of `10^k`. -/
theorem roundHalfEven_exact_iff {c k : Nat} {e : Int} :
    (roundHalfEven c k : ℚ) * 10 ^ (e + (k : Nat)) = c * 10 ^ e ↔ 10 ^ k ∣ c := by
  rw [zpow_add₀ (by norm_num : (10 : ℚ) ≠ 0), zpow_natCast, ← mul_rotate', ← mul_assoc,
    mul_left_inj' (zpow_ne_zero e (by norm_num))]
  constructor
  · intro h
    have h' : 10 ^ k * roundHalfEven c k = c := by exact_mod_cast h
    exact ⟨_, h'.symm⟩
  · rintro ⟨q, rfl⟩
    rw [mul_comm (10 ^ k) q, roundHalfEven_mul]
    push_cast
    ring

theorem roundTo_of_dvd {c : Nat} {e m : Int} (hc : 0 < c) (hlt : ctx.prec < numDigits c)
    (hm : m = e + (numDigits c - ctx.prec : Nat)) (hdvd : 10 ^ (numDigits c - ctx.prec) ∣ c) :
    (roundTo ctx c e m).2 = m := by
  have hk : (m - e).toNat = numDigits c - ctx.prec := by omega
  obtain ⟨q, hq⟩ := hdvd
  have hqpos : 0 < q := Nat.pos_of_ne_zero (by rintro rfl; omega)
  have hround : roundHalfEven c (numDigits c - ctx.prec) = q := by
    conv_lhs => arg 1; rw [hq, mul_comm]
    exact roundHalfEven_mul ..
  have hdig : numDigits c = numDigits q + (numDigits c - ctx.prec) := by
    conv_lhs => rw [hq, mul_comm]
    exact numDigits_mul_pow hqpos
  have hno : ¬ ctx.prec < numDigits q := by omega
  simp only [roundTo, hk, hround, hno, if_false]

/-- **Exact rounding.** A non-zero number keeps its value exactly when it does not
exceed the context's range and its digits past the `prec`-th are zeros. -/
theorem fix_exact_iff (hp : 0 < ctx.prec) {s : Bool} {c : Nat} {e : Int} (hc : 0 < c)
    (he : ctx.etiny ≤ e) :
    (∃ d, fix ctx (.finite s c e) = .ok d ∧ value d = value (.finite s c e)) ↔
      numDigits c + e ≤ ctx.emax + 1 ∧ 10 ^ (numDigits c - ctx.prec) ∣ c := by
  have hover : ctx.etop < numDigits c + e - ctx.prec ↔ ¬ numDigits c + e ≤ ctx.emax + 1 := by
    simp only [Context.etop]; omega
  by_cases hfit : numDigits c + e ≤ ctx.emax + 1
  swap
  · simp [fix, hc.ne', hover.mpr hfit, hfit]
  have hno : ¬ ctx.etop < numDigits c + e - ctx.prec := fun h => hover.mp h hfit
  rcases Nat.lt_or_ge ctx.prec (numDigits c) with hlt | hle
  swap
  · -- the coefficient fits: nothing is rounded
    have hmin : ¬ e < max (numDigits c + e - ctx.prec) ctx.etiny := by omega
    simp [fix, hc.ne', hno, hmin, hfit, Nat.sub_eq_zero_of_le hle]
  have hexp : max (numDigits c + e - ctx.prec) ctx.etiny = e + (numDigits c - ctx.prec : Nat) := by
    omega
  have hmin : e < max (numDigits c + e - ctx.prec) ctx.etiny := by omega
  rw [hexp] at hmin
  have hval := roundTo_value hp (e := e) hlt.le rfl
  simp only [fix, hc.ne', hno, hexp, hmin, if_true, if_false, hfit, true_and]
  have hiff : value (.finite s (roundTo ctx c e (e + (numDigits c - ctx.prec : Nat))).1
      (roundTo ctx c e (e + (numDigits c - ctx.prec : Nat))).2) = value (.finite s c e) ↔
      10 ^ (numDigits c - ctx.prec) ∣ c := by
    rw [value_eq_iff, hval, roundHalfEven_exact_iff]
  constructor
  · rintro ⟨d, hd, hv⟩
    split at hd
    · cases hd
    · cases hd; exact hiff.mp hv
  · intro hdvd
    have hnc : ¬ ctx.etop < (roundTo ctx c e (e + (numDigits c - ctx.prec : Nat))).2 := by
      rw [roundTo_of_dvd hc hlt rfl hdvd]; omega
    exact ⟨_, if_neg hnc, hiff.mpr hdvd⟩

theorem scaleb_finite {s : Bool} {c : Nat} {e n : Int} {d : Decimal} :
    scaleb ctx (.finite s c e) n = .ok d ↔
      |n| ≤ 2 * (ctx.emax + ctx.prec) ∧ fix ctx (.finite s c (e + n)) = .ok d := by
  unfold scaleb
  split
  · next h => cases h
  · split <;> simp <;> omega

theorem scaleb_whole (hmax : 0 ≤ ctx.emax) {s : Bool} {c : Nat} {e n : Int} (he : 0 ≤ e + n)
    {d : Decimal} (h : scaleb ctx (.finite s c e) n = .ok d) :
    ∃ q m, d = .finite s q m ∧ 0 ≤ m :=
  fix_whole hmax he (scaleb_finite.mp h).2

/-- `scaleb` multiplies by the power of ten exactly when its operand is in range and
the product needs at most `prec` significant digits. -/
theorem scaleb_exact_iff (hp : 0 < ctx.prec) {s : Bool} {c : Nat} {e n : Int}
    (he : ctx.etiny ≤ e + n) :
    (∃ d, scaleb ctx (.finite s c e) n = .ok d ∧ value d = value (.finite s c (e + n))) ↔
      |n| ≤ 2 * (ctx.emax + ctx.prec) ∧ (c = 0 ∨
        (numDigits c + (e + n) ≤ ctx.emax + 1 ∧ 10 ^ (numDigits c - ctx.prec) ∣ c)) := by
  simp only [scaleb_finite, and_assoc, exists_and_left]
  refine and_congr_right fun _ => ?_
  rcases Nat.eq_zero_or_pos c with rfl | hc
  · simp [fix, value, signed]
  · rw [fix_exact_iff hp hc he]
    simp [hc.ne']

theorem toInt_whole {q : Nat} {m : Int} (hm : 0 ≤ m) :
    ((toInt (.finite false q m) : Int) : ℚ) = value (.finite false q m) := by
  obtain ⟨k, rfl⟩ := Int.eq_ofNat_of_zero_le hm
  simp [toInt, value, signed]

theorem numericEq_toInt {q : Nat} {m : Int} (hm : 0 ≤ m) :
    numericEq (ofInt (toInt (.finite false q m))) (.finite false q m) = true := by
  obtain ⟨k, rfl⟩ := Int.eq_ofNat_of_zero_le hm
  have hneg : ¬ ((q : Int) * 10 ^ k < 0) := not_lt.mpr (by positivity)
  simp [toInt, ofInt, numericEq, signed, hneg, Int.natAbs_mul, Int.natAbs_pow]

end Decimal

end IspPlatform.Py
