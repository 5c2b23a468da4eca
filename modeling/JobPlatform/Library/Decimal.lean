import Mathlib.Algebra.Group.Int.Defs
import Mathlib.Data.List.Basic
import Mathlib.Algebra.Order.Group.Nat

-- The decimal texts of integers as bytes, and how they are read with a fixed number of bits.
namespace Decimal

abbrev Bytes := List UInt8

def ofChars (cs : List Char) : Bytes :=
  cs.map (·.toUInt8)

def formatInt : Int → Bytes
  | .ofNat n   => ofChars (Nat.toDigits 10 n)
  | .negSucc n => ofChars ('-' :: Nat.toDigits 10 (n + 1))

inductive NumError
  | errSyntax
  | errRange
  deriving DecidableEq

def digit? (b : UInt8) : Option Nat :=
  if '0'.toUInt8 ≤ b ∧ b ≤ '9'.toUInt8 then some (b.toNat - '0'.toNat) else none

-- A number that is too large ends the loop before the bytes that follow are looked at.
def readDigits (max : Nat) : Nat → Bytes → Nat × Option NumError
  | n, []      => (n, none)
  | n, b :: bs =>
    match digit? b with
    | none   => (0, some .errSyntax)
    | some d => if max < n * 10 + d then (max, some .errRange) else readDigits max (n * 10 + d) bs

def parseUint (bits : Nat) : Bytes → Nat × Option NumError
  | []     => (0, some .errSyntax)
  | bs     => readDigits (2 ^ bits - 1) 0 bs

def parseInt (bits : Nat) (s : Bytes) : Int × Option NumError :=
  let neg    := s.head? = some '-'.toUInt8
  let signed := neg ∨ s.head? = some '+'.toUInt8
  match parseUint bits (if signed then s.tail else s) with
  | (_, some .errSyntax) => (0, some .errSyntax)
  | (n, _)            =>
    if ¬neg ∧ 2 ^ (bits - 1) ≤ n then (2 ^ (bits - 1) - 1, some .errRange)
    else if neg ∧ 2 ^ (bits - 1) < n then (-2 ^ (bits - 1), some .errRange)
    else (if neg then -n else n, none)

variable {n acc max bits : Nat} {b : UInt8} {c : Char} {cs : List Char}

theorem digit?_toUInt8 (h : c.isDigit) : digit? c.toUInt8 = some (c.toNat - '0'.toNat) := by
  simp only [Char.isDigit, ge_iff_le, Bool.and_eq_true, decide_eq_true_eq, UInt32.le_iff_toNat_le] at h
  have hl : 48 ≤ c.toNat := h.left
  have hu : c.toNat ≤ 57 := h.right
  have hn : c.toUInt8.toNat = c.toNat := by
    show c.toNat % 256 = c.toNat
    omega
  have hb : '0'.toUInt8 ≤ c.toUInt8 ∧ c.toUInt8 ≤ '9'.toUInt8 := by
    rw [UInt8.le_iff_toNat_le, UInt8.le_iff_toNat_le, hn]
    exact ⟨hl, hu⟩
  rw [digit?, if_pos hb, hn]

-- A sign is not a digit.
theorem head?_ofChars (hd : ∀ c ∈ cs, c.isDigit) (hb : digit? b = none) : (ofChars cs).head? ≠ some b := by
  intro h
  have ⟨c, hc, he⟩ := List.mem_map.mp (List.mem_of_mem_head? h)
  rw [← he, digit?_toUInt8 (hd c hc)] at hb
  cases hb

theorem le_ofDigitChars : acc ≤ Nat.ofDigitChars 10 cs acc := by
  rw [Nat.ofDigitChars_eq_ofDigitChars_zero]
  have hp : acc ≤ 10 ^ cs.length * acc := Nat.le_mul_of_pos_left acc (Nat.pow_pos (by decide))
  exact hp.trans (Nat.le_add_right ..)

-- Digits are read from the left to the right.
theorem readDigits_ofChars (hd : ∀ c ∈ cs, c.isDigit) (h : Nat.ofDigitChars 10 cs acc ≤ max) :
    readDigits max acc (ofChars cs) = (Nat.ofDigitChars 10 cs acc, none) := by
  induction cs generalizing acc
  case nil          => simp [ofChars, readDigits]
  case cons c cs hi =>
    have ⟨hc, hd⟩ := List.forall_mem_cons.mp hd
    rw [Nat.ofDigitChars_cons, Nat.mul_comm] at h ⊢
    have hn : ¬max < acc * 10 + (c.toNat - '0'.toNat) := not_lt.mpr (le_ofDigitChars.trans h)
    have hr : readDigits max acc (ofChars (c :: cs)) =
        readDigits max (acc * 10 + (c.toNat - '0'.toNat)) (ofChars cs) := by
      rw [ofChars, List.map_cons, readDigits, digit?_toUInt8 hc]
      exact if_neg hn
    rw [hr, hi hd h]

theorem toDigits_isDigit : ∀ c ∈ Nat.toDigits 10 n, c.isDigit :=
  fun _ hc => Nat.isDigit_of_mem_toDigits (by decide) (by decide) hc

theorem parseUint_toDigits (h : n < 2 ^ bits) : parseUint bits (ofChars (Nat.toDigits 10 n)) = (n, none) := by
  have hr : readDigits (2 ^ bits - 1) 0 (ofChars (Nat.toDigits 10 n)) = (n, none) := by
    rw [readDigits_ofChars toDigits_isDigit (by rw [Nat.ofDigitChars_ten_toDigits]; omega),
      Nat.ofDigitChars_ten_toDigits]
  cases hc : ofChars (Nat.toDigits 10 n)
  case nil  => exact absurd (List.map_eq_nil_iff.mp hc) Nat.toDigits_ne_nil
  case cons => rw [parseUint, ← hc, hr]; simp

-- What is written is read again.
theorem parseInt_formatInt {z : Int} (hb : 0 < bits) (hl : -2 ^ (bits - 1) ≤ z) (hu : z < 2 ^ (bits - 1)) :
    parseInt bits (formatInt z) = (z, none) := by
  have hp : 2 ^ (bits - 1) < 2 ^ bits := Nat.pow_lt_pow_right (by decide) (by omega)
  cases z
  case ofNat n   =>
    have hn : n < 2 ^ (bits - 1) := by
      rw [Int.ofNat_eq_natCast] at hu
      exact_mod_cast hu
    have hm : (ofChars (Nat.toDigits 10 n)).head? ≠ some '-'.toUInt8 := head?_ofChars toDigits_isDigit rfl
    have hs : (ofChars (Nat.toDigits 10 n)).head? ≠ some '+'.toUInt8 := head?_ofChars toDigits_isDigit rfl
    simp only [parseInt, formatInt, hm, hs, or_self, if_false, parseUint_toDigits (hn.trans hp), not_false_eq_true,
      true_and, not_le.mpr hn, false_and]
    rfl
  case negSucc n =>
    have hn : n + 1 ≤ 2 ^ (bits - 1) := by
      rw [Int.negSucc_eq] at hl
      have := Int.neg_le_neg_iff.mp hl
      exact_mod_cast this
    have hh : (ofChars ('-' :: Nat.toDigits 10 (n + 1))).head? = some '-'.toUInt8 := rfl
    have ht : (ofChars ('-' :: Nat.toDigits 10 (n + 1))).tail = ofChars (Nat.toDigits 10 (n + 1)) := rfl
    simp only [parseInt, formatInt, hh, ht, true_or, if_true, parseUint_toDigits (hn.trans_lt hp), not_true_eq_false,
      false_and, if_false, true_and, not_lt.mpr hn]
    rfl

end Decimal
