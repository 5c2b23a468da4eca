import Mathlib.Data.Int.Log
import Mathlib.Data.Rat.Floor
import Mathlib.Tactic.Linarith
import Mathlib.Tactic.Positivity

-- The numbers of JavaScript. The two zeros count as one.
inductive Number
  | nan
  | infinite (negative : Bool)
  | finite (q : ℚ)
  deriving DecidableEq

namespace Number

-- Halves are rounded to the even neighbor.
def roundEven (q : ℚ) : Int :=
  if q - ⌊q⌋ < 1 / 2 then ⌊q⌋
  else if 1 / 2 < q - ⌊q⌋ then ⌊q⌋ + 1
  else if ⌊q⌋ % 2 = 0 then ⌊q⌋
  else ⌊q⌋ + 1

-- The exponent of the last of the 53 digits, which is not too small.
def exponent (q : ℚ) : Int :=
  max (Int.log 2 |q| - 52) (-1074)

def round (q : ℚ) : Number :=
  let r : ℚ := roundEven (q / 2 ^ exponent q) * 2 ^ exponent q
  if 2 ^ 1024 ≤ |r| then infinite (r < 0) else finite r

def isFinite : Number → Bool
  | finite _ => true
  | _        => false

-- Comparisons with `nan` are false.
def lt : Number → Number → Bool
  | finite p,       finite q       => p < q
  | nan,            _              => false
  | _,              nan            => false
  | infinite true,  infinite true  => false
  | infinite true,  _              => true
  | _,              infinite true  => false
  | infinite false, _              => false
  | finite _,       infinite false => true

-- `Math.max` and `Math.min`
def mathMax : Number → Number → Number
  | nan, _ => nan
  | _, nan => nan
  | x, y   => if lt x y then y else x

def mathMin : Number → Number → Number
  | nan, _ => nan
  | _, nan => nan
  | x, y   => if lt y x then y else x

-- `||`, where the first number counts as false if it is zero or `nan`.
def orElse : Number → Number → Number
  | nan, y      => y
  | finite q, y => if q = 0 then y else finite q
  | x, _        => x

def mul : Number → Number → Number
  | finite p,   finite q   => round (p * q)
  | nan,        _          => nan
  | _,          nan        => nan
  | infinite s, infinite t => infinite (s ≠ t)
  | infinite s, finite q   => if q = 0 then nan else infinite (s ≠ (q < 0))
  | finite p,   infinite t => if p = 0 then nan else infinite (t ≠ (p < 0))

def add : Number → Number → Number
  | finite p,   finite q   => round (p + q)
  | nan,        _          => nan
  | _,          nan        => nan
  | infinite s, infinite t => if s = t then infinite s else nan
  | infinite s, finite _   => infinite s
  | finite _,   infinite t => infinite t

def div : Number → Number → Number
  | finite p,   finite q   => if q ≠ 0 then round (p / q) else if p = 0 then nan else infinite (p < 0)
  | nan,        _          => nan
  | _,          nan        => nan
  | infinite _, infinite _ => nan
  | infinite s, finite q   => infinite (s ≠ (q < 0))
  | finite _,   infinite _ => finite 0

variable {p q : ℚ} {n : Int}

theorem mathMax_finite : mathMax (finite p) (finite q) = finite (max p q) := by
  unfold mathMax lt
  by_cases h : p < q
  case pos => simp [h, max_eq_right h.le]
  case neg => simp [h, max_eq_left (not_lt.mp h)]

theorem mathMin_finite : mathMin (finite p) (finite q) = finite (min p q) := by
  unfold mathMin lt
  by_cases h : q < p
  case pos => simp [h, min_eq_right h.le]
  case neg => simp [h, min_eq_left (not_lt.mp h)]

theorem orElse_zero : orElse (finite q) (finite 0) = finite q := by
  dsimp only [orElse]
  split
  case isTrue h => rw [h]
  case isFalse  => rfl

theorem orElse_finite (h : q ≠ 0) (y : Number) : orElse (finite q) y = finite q :=
  if_neg h

theorem roundEven_intCast (n : Int) : roundEven n = n := by
  simp [roundEven]

theorem le_roundEven (h : n ≤ q) : n ≤ roundEven q := by
  have hf : n ≤ ⌊q⌋ := Int.le_floor.mpr h
  unfold roundEven
  split_ifs <;> omega

theorem exponent_nonpos (h : |q| < 2 ^ 53) : exponent q ≤ 0 := by
  have hl : Int.log 2 |q| ≤ 52 := by
    by_cases hq : q = 0
    case pos => simp [hq]
    case neg =>
      have hz : |q| < (2 : Nat) ^ (53 : Int) := by exact_mod_cast h
      exact Int.lt_add_one_iff.mp <| (Int.lt_zpow_iff_log_lt (by decide) (abs_pos.mpr hq)).mp hz
  exact max_le (by omega) (by decide)

-- Integers of at most 53 digits are exact.
theorem round_intCast (h : |n| < 2 ^ 53) : round n = finite n := by
  have hq : |(n : ℚ)| < 2 ^ 53 := by exact_mod_cast h
  obtain ⟨k, hk⟩ := Int.exists_eq_neg_ofNat (exponent_nonpos hq)
  have hd : (n : ℚ) / 2 ^ exponent n = ((n * 2 ^ k : Int) : ℚ) := by
    rw [hk, zpow_neg, div_inv_eq_mul, zpow_natCast]
    push_cast
    rfl
  have hr : (roundEven (n / 2 ^ exponent n) : ℚ) * 2 ^ exponent n = n := by
    rw [hd, roundEven_intCast, ← hd, div_mul_cancel₀ _ (zpow_ne_zero _ two_ne_zero)]
  have hn : ¬(2 : ℚ) ^ 1024 ≤ |(n : ℚ)| :=
    not_le.mpr <| hq.trans_le <| pow_le_pow_right₀ one_le_two (by decide)
  rw [round, hr, if_neg hn]

-- What is too large to be exact stays so.
theorem le_round (h : 2 ^ 53 ≤ q) : round q = infinite false ∨ ∃ r, 2 ^ 53 ≤ r ∧ round q = finite r := by
  have hq : 0 < q := lt_of_lt_of_le (by positivity) h
  have hl : 53 ≤ Int.log 2 |q| := by
    refine (Int.zpow_le_iff_le_log (by decide) (abs_pos.mpr hq.ne')).mp ?_
    rw [abs_of_pos hq]
    exact_mod_cast h
  have he : exponent q = Int.log 2 |q| - 52 := max_eq_left (by omega)
  have hm : 2 ^ 52 ≤ roundEven (q / 2 ^ exponent q) := by
    refine le_roundEven ?_
    have hz : ((2 : Nat) : ℚ) ^ Int.log 2 |q| ≤ |q| := Int.zpow_log_le_self (by decide) (abs_pos.mpr hq.ne')
    have hs : (2 : ℚ) ^ 52 * 2 ^ exponent q = 2 ^ Int.log 2 |q| := by
      rw [he, ← zpow_natCast, ← zpow_add₀ two_ne_zero]
      congr 1
      omega
    rw [abs_of_pos hq] at hz hs
    rw [Int.cast_pow, Int.cast_ofNat, le_div_iff₀ (zpow_pos two_pos _), hs]
    exact_mod_cast hz
  have hr : (2 : ℚ) ^ 53 ≤ roundEven (q / 2 ^ exponent q) * 2 ^ exponent q := by
    have hp : (2 : ℚ) ^ (1 : Int) ≤ 2 ^ exponent q := zpow_le_zpow_right₀ one_le_two (by omega)
    have hm' : (2 : ℚ) ^ 52 ≤ roundEven (q / 2 ^ exponent q) := by exact_mod_cast hm
    calc (2 : ℚ) ^ 53
      _ = 2 ^ 52 * 2 ^ (1 : Int)                                  := by norm_num
      _ ≤ roundEven (q / 2 ^ exponent q) * 2 ^ exponent q := by gcongr
  unfold round
  dsimp only
  split
  case isTrue  => exact .inl <| congrArg infinite <| decide_eq_false <| not_lt.mpr <| le_trans (by positivity) hr
  case isFalse => exact .inr ⟨_, hr, rfl⟩

theorem add_intCast {m : Int} (h : |m + n| < 2 ^ 53) : add (finite m) (finite n) = finite (m + n : Int) := by
  rw [add, ← Int.cast_add, round_intCast h]

theorem mul_intCast {m : Int} (h : |m * n| < 2 ^ 53) : mul (finite m) (finite n) = finite (m * n : Int) := by
  rw [mul, ← Int.cast_mul, round_intCast h]

end Number
