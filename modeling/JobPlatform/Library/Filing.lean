import Mathlib.Data.List.Basic

variable {α κ : Type*} [DecidableEq α] [DecidableEq κ]

-- The elements are filed in lists, each of them once and where a register says.
def Filed (lists : κ → List α) (place : α → Option κ) : Prop :=
  ∀ a k, (lists k).count a = if place a = some k then 1 else 0

namespace Filed

variable {lists lists' : κ → List α} {place place' : α → Option κ} {a b : α} {k l : κ}

theorem mem_iff (h : Filed lists place) : a ∈ lists k ↔ place a = some k := by
  rw [← List.count_pos_iff, h a k]
  split <;> simp_all

-- No list is beside the one that the register names.
theorem unique (h : Filed lists place) (hk : a ∈ lists k) (hl : a ∈ lists l) : k = l :=
  Option.some.inj <| (h.mem_iff.mp hk).symm.trans (h.mem_iff.mp hl)

theorem push (h : Filed lists place) (hn : place a = none)
    (hl : ∀ l, lists' l = if l = k then a :: lists k else lists l)
    (hp : ∀ b, place' b = if b = a then some k else place b) : Filed lists' place' := by
  intro b l
  have hb := h b l
  rw [hl, hp]
  by_cases hk : l = k <;> by_cases ha : b = a
  case pos => subst hk ha; simp [hb, hn]
  case neg => subst hk; simp [ha, Ne.symm ha, hb]
  case pos => subst ha; simp [hk, Ne.symm hk, hb, hn]
  case neg => simp [hk, ha, hb]

-- An element is taken out of the only list in which it may be.
theorem remove (h : Filed lists place) (hk : ∀ l, place a = some l → l = k)
    (hl : ∀ l, lists' l = if l = k then (lists k).filter (· ≠ a) else lists l)
    (hp : ∀ b, place' b = if b = a then none else place b) : Filed lists' place' := by
  intro b l
  have hb := h b l
  rw [hl, hp]
  by_cases hk' : l = k <;> by_cases ha : b = a
  case pos => subst hk' ha; simp [List.count_eq_zero]
  case neg => subst hk'; simp [ha, hb, List.count_filter]
  case pos =>
    subst ha
    have hn : place b ≠ some l := fun hp => hk' (hk l hp)
    simp [hk', hb, hn]
  case neg => simp [hk', ha, hb]

end Filed
