import JobPlatform.Queue.Broker

namespace JobPlatform

-- The delay before the next attempt: it doubles with each attempt until it reaches the cap.
def backoff (attempts : Int) (base capDelay : Duration) : Duration :=
  min (base * 2 ^ (attempts - 1).toNat) capDelay

section

variable {n n' : Int} {base capDelay : Duration}

theorem backoff_pos (hb : 0 < base) (hc : base ≤ capDelay) : 0 < backoff n base capDelay :=
  lt_min (mul_pos hb (by positivity)) (hb.trans_le hc)

theorem backoff_le : backoff n base capDelay ≤ capDelay :=
  min_le_right ..

theorem backoff_mono (hb : 0 < base) (hn : n ≤ n') : backoff n base capDelay ≤ backoff n' base capDelay := by
  have hp : (2 : Int) ^ (n - 1).toNat ≤ 2 ^ (n' - 1).toNat := pow_le_pow_right₀ (by decide) (by omega)
  exact min_le_min_right _ (mul_le_mul_of_nonneg_left hp hb.le)

end

-- A delay of whole milliseconds that the type of durations can hold.
structure Delay where
  milliseconds : Int
  pos          : 0 < milliseconds
  fits         : milliseconds * Duration.millisecond < 2 ^ 63

def Delay.duration (d : Delay) : Duration :=
  d.milliseconds * Duration.millisecond

variable {base capDelay : Delay} {n : Int} {b : RedisBroker}

namespace Delay

theorem duration_pos (d : Delay) : 0 < d.duration :=
  mul_pos d.pos (by decide)

@[simp]
theorem duration_milliseconds (d : Delay) : d.duration.milliseconds = d.milliseconds :=
  Int.mul_tdiv_cancel d.milliseconds (by decide)

end Delay

theorem computeBackoff_eq (hn : 1 ≤ n) : computeBackoff n base.duration capDelay.duration =
    if base.duration * 2 ^ (n - 1).toNat < 2 ^ 63 then backoff n base.duration capDelay.duration else -2 ^ 63 := by
  have hp : 0 < base.duration * 2 ^ (n - 1).toNat := mul_pos base.duration_pos (by positivity)
  have hc : (0 : Int) < capDelay.duration := capDelay.duration_pos
  have hn : ¬n ≤ 0 := by omega
  have hle : (2 : Int) ^ 63 ≤ 2 ^ 1024 := pow_le_pow_right₀ (by decide) (by decide)
  unfold computeBackoff
  rw [if_neg hn, Double.int_mul_pow2 base.duration_pos]
  unfold backoff
  generalize base.duration * 2 ^ (n - 1).toNat = d at hp ⊢
  by_cases hd : d < 2 ^ 63
  case pos =>
    have hf : -2 ^ 63 ≤ d ∧ d < 2 ^ 63 := ⟨(lt_trans (by decide) hp).le, hd⟩
    simp only [hd.trans_le hle, if_true, Duration.ofDouble, hf, and_self]
    split
    case isTrue h  => exact (min_eq_right h.le).symm
    case isFalse h => exact (min_eq_left (not_lt.mp h)).symm
  case neg =>
    have hf : Duration.ofDouble (if d < 2 ^ 1024 then .int d else .posInf) = -2 ^ 63 := by
      split
      case isTrue  => exact if_neg fun h => hd h.right
      case isFalse => rfl
    have hm : ¬capDelay.duration < -2 ^ 63 := not_lt.mpr (lt_trans (by decide) hc).le
    simp only [hf, hm, if_false, hd]

theorem backoff_eq : backoff n base.duration capDelay.duration =
    min (base.milliseconds * 2 ^ (n - 1).toNat) capDelay.milliseconds * Duration.millisecond := by
  rw [backoff, Delay.duration, Delay.duration, min_mul_of_nonneg _ _ (by decide), mul_right_comm]

-- The broker is configured with the delays of the worker.
def RedisBroker.withDelays (b : RedisBroker) (base capDelay : Delay) : RedisBroker :=
  { b with baseRetryDelay := base.duration, maxRetryDelay := capDelay.duration }

-- The doubles of the script do not lead to another delay, as infinity is capped.
theorem RedisBroker.retryDelay_eq : (b.withDelays base capDelay).retryDelay n =
    .int (backoff n base.duration capDelay.duration).milliseconds := by
  have hp : (if n - 1 < 0 then 0 else n - 1).toNat = (n - 1).toNat := by
    split <;> omega
  have hm : (backoff n base.duration capDelay.duration).milliseconds =
      min (base.milliseconds * 2 ^ (n - 1).toNat) capDelay.milliseconds := by
    rw [backoff_eq]
    exact Int.mul_tdiv_cancel _ (by decide)
  have hc : capDelay.milliseconds < 2 ^ 1024 := by
    have hf : capDelay.milliseconds * 1000000 < 2 ^ 63 := capDelay.fits
    have hle : (2 : Int) ^ 63 ≤ 2 ^ 1024 := pow_le_pow_right₀ (by decide) (by decide)
    have hp := capDelay.pos
    exact lt_of_lt_of_le (by omega) hle
  simp only [retryDelay, withDelays, hp, hm, Delay.duration_milliseconds, Double.int_mul_pow2 base.pos]
  generalize base.milliseconds * 2 ^ (n - 1).toNat = d
  split
  case isTrue hd  =>
    rw [Double.int_gt_int]
    split
    case isTrue h  => rw [min_eq_right (of_decide_eq_true h).le]
    case isFalse h => rw [min_eq_left (not_lt.mp fun hl => h (decide_eq_true hl))]
  case isFalse hd =>
    have hl : capDelay.milliseconds ≤ d := hc.le.trans (not_lt.mp hd)
    rw [min_eq_right hl]
    rfl

-- The worker and the script use the same delay exactly if the conversion of the worker does not overflow.
theorem backoff_agrees_iff (hn : 1 ≤ n) (hb : base.duration ≤ capDelay.duration) :
    computeBackoff n base.duration capDelay.duration = backoff n base.duration capDelay.duration ∧
    (b.withDelays base capDelay).retryDelay n = .int (backoff n base.duration capDelay.duration).milliseconds ↔
    base.duration * 2 ^ (n - 1).toNat < 2 ^ 63 := by
  rw [and_iff_left RedisBroker.retryDelay_eq, computeBackoff_eq hn]
  have hp : (0 : Int) < backoff n base.duration capDelay.duration := backoff_pos base.duration_pos hb
  split
  case isTrue h  => exact iff_of_true rfl h
  case isFalse h => exact iff_of_false (lt_trans (by decide) hp).ne h

-- The delays of the default configuration.
def baseDelay : Delay where
  milliseconds := 5000
  pos          := by decide
  fits         := by decide

def maxDelay : Delay where
  milliseconds := 900000
  pos          := by decide
  fits         := by decide

theorem backoff_agrees_iff_sample :
    computeBackoff 3 baseDelay.duration maxDelay.duration = backoff 3 baseDelay.duration maxDelay.duration ∧
    (RedisBroker.sample.withDelays baseDelay maxDelay).retryDelay 3 =
      .int (backoff 3 baseDelay.duration maxDelay.duration).milliseconds ↔
    baseDelay.duration * 2 ^ (3 - 1 : Int).toNat < 2 ^ 63 :=
  backoff_agrees_iff (by decide) (by decide)

-- From the 32nd attempt on the worker retries a job at once, but the script after the maximal delay.
theorem backoff_overflows :
    computeBackoff 32 baseDelay.duration maxDelay.duration = -2 ^ 63 ∧
    (RedisBroker.sample.withDelays baseDelay maxDelay).retryDelay 32 = .int 900000 ∧
    ¬(computeBackoff 32 baseDelay.duration maxDelay.duration = backoff 32 baseDelay.duration maxDelay.duration ∧
      (RedisBroker.sample.withDelays baseDelay maxDelay).retryDelay 32 =
        .int (backoff 32 baseDelay.duration maxDelay.duration).milliseconds) := by
  decide +kernel

end JobPlatform
