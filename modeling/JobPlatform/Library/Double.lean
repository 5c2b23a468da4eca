import Mathlib.Data.Int.Order.Basic
import Mathlib.Algebra.Order.Monoid.Unbundled.WithTop
import Mathlib.Algebra.Order.Ring.Int
import Mathlib.Tactic.Positivity

-- The values of a double precision computation on integers. An integer stands for itself as long
-- as it does not overflow, so rounding above 2 ^ 53 is not part of this number format.
inductive Double
  | int (n : Int)
  | posInf
  | negInf
  | nan
  deriving DecidableEq

namespace Double

def ofInt (n : Int) : Double :=
  if 2 ^ 1024 ≤ n then posInf else if n ≤ -2 ^ 1024 then negInf else int n

-- The value of 2 ^ n for a non-negative exponent.
def pow2 (n : Nat) : Double :=
  if n < 1024 then int (2 ^ n) else posInf

def ofSign (n : Int) : Double :=
  if n = 0 then nan else if 0 < n then posInf else negInf

def neg : Double → Double
  | int n  => int (-n)
  | posInf => negInf
  | negInf => posInf
  | nan    => nan

def mul : Double → Double → Double
  | int a,  int b  => ofInt (a * b)
  | int a,  posInf => ofSign a
  | int a,  negInf => neg (ofSign a)
  | posInf, int b  => ofSign b
  | negInf, int b  => neg (ofSign b)
  | posInf, posInf => posInf
  | posInf, negInf => negInf
  | negInf, posInf => negInf
  | negInf, negInf => posInf
  | nan,    _      => nan
  | _,      nan    => nan

def add : Double → Double → Double
  | int a,  int b  => ofInt (a + b)
  | nan,    _      => nan
  | _,      nan    => nan
  | posInf, negInf => nan
  | negInf, posInf => nan
  | posInf, _      => posInf
  | _,      posInf => posInf
  | negInf, _      => negInf
  | _,      negInf => negInf

-- Every comparison with `nan` is false.
def gt : Double → Double → Bool
  | int a,  int b  => b < a
  | nan,    _      => false
  | _,      nan    => false
  | posInf, posInf => false
  | posInf, _      => true
  | _,      posInf => false
  | negInf, _      => false
  | _,      negInf => true

-- The scores that a sorted set can order: every double but `nan`.
def toScore : Double → Option (WithBot (WithTop Int))
  | int n  => some (n : WithTop Int)
  | posInf => some (⊤ : WithTop Int)
  | negInf => some ⊥
  | nan    => none

-- No number of 64 bits overflows.
theorem ofInt_eq_int {n : Int} (h : n.natAbs < 2 ^ 64) : ofInt n = int n := by
  have hp : (2 : Int) ^ 64 ≤ 2 ^ 1024 := pow_le_pow_right₀ (by decide) (by decide)
  have hu : ¬2 ^ 1024 ≤ n := by omega
  have hl : ¬n ≤ -2 ^ 1024 := by omega
  simp only [ofInt, hu, hl, if_false]

theorem eq_of_ofInt {m n : Int} (h : ofInt m = int n) : m = n := by
  unfold ofInt at h
  split at h
  case isTrue  => cases h
  case isFalse =>
    split at h
    case isTrue  => cases h
    case isFalse => exact Double.int.inj h

@[simp]
theorem int_add_int {a b : Int} : (int a).add (int b) = ofInt (a + b) :=
  rfl

@[simp]
theorem int_gt_int {a b : Int} : (int a).gt (int b) = decide (b < a) :=
  rfl

theorem zero_mul_pow2 {n : Nat} (h : n < 1024) : (int 0).mul (pow2 n) = int 0 := by
  simp only [pow2, h, if_true, mul, zero_mul]
  exact ofInt_eq_int (by decide)

@[simp]
theorem ofInt_ne_nan (n : Int) : ofInt n ≠ nan := by
  unfold ofInt
  split
  · simp
  · split <;> simp

theorem ofSign_eq_nan_iff {n : Int} : ofSign n = nan ↔ n = 0 := by
  unfold ofSign
  split
  case isTrue h  => simp [h]
  case isFalse h => split <;> simp [h]

theorem int_add_eq_nan_iff {n : Int} {d : Double} : (int n).add d = nan ↔ d = nan := by
  cases d <;> simp [add]

-- Zero times infinity is not a number.
theorem int_mul_pow2_eq_nan_iff {a : Int} {n : Nat} :
    (int a).mul (pow2 n) = nan ↔ a = 0 ∧ 1024 ≤ n := by
  by_cases h : n < 1024
  case pos => simp [pow2, h, mul]
  case neg => simpa [pow2, h, mul, ofSign_eq_nan_iff] using fun _ => not_lt.mp h

-- The product of a positive number and a power of two is infinite if it overflows.
theorem int_mul_pow2 {a : Int} {n : Nat} (h : 0 < a) :
    (int a).mul (pow2 n) = if a * 2 ^ n < 2 ^ 1024 then int (a * 2 ^ n) else posInf := by
  have hp : 0 < a * 2 ^ n := mul_pos h (by positivity)
  by_cases hn : n < 1024
  case pos =>
    have hl : ¬a * 2 ^ n ≤ -2 ^ 1024 := not_le.mpr <| (neg_lt_zero.mpr (by positivity)).trans hp
    simp only [pow2, hn, if_true, mul, ofInt, hl, if_false, ← not_lt, ite_not]
  case neg =>
    have hle : (2 : Int) ^ 1024 ≤ a * 2 ^ n := calc
      (2 : Int) ^ 1024 ≤ 2 ^ n     := pow_le_pow_right₀ (by decide) (not_lt.mp hn)
      _                ≤ a * 2 ^ n := le_mul_of_one_le_left (by positivity) h
    simp only [pow2, hn, if_false, mul, ofSign, h.ne', h, if_true, not_lt.mpr hle]

theorem toScore_eq_none_iff {d : Double} : d.toScore = none ↔ d = nan := by
  cases d <;> simp [toScore]

end Double
