import Mathlib.Data.List.Basic

-- The elements at different positions of the list are related.
def Apart {α : Type*} (R : α → α → Prop) (l : List α) : Prop :=
  ∀ (i j : Nat) (a b : α), i ≠ j → l[i]? = some a → l[j]? = some b → R a b

namespace Apart

variable {α : Type*} {R : α → α → Prop} {l : List α} {a b : α} {i : Nat}

theorem nil : Apart R [] := by
  intro _ _ _ _ _ h
  cases h

theorem mem_eraseIdx : b ∈ l.eraseIdx i ↔ ∃ j, j ≠ i ∧ l[j]? = some b := by
  simp [List.mem_eraseIdx_iff_getElem?]

theorem eq_of_set (h : (l.set i a)[i]? = some b) : b = a := by
  rw [List.getElem?_set_self'] at h
  have ⟨_, _, h⟩ := Option.map_eq_some_iff.mp h
  exact h.symm

theorem mem_of_mem_set (h : b ∈ l.set i a) : b ∈ l.eraseIdx i ∨ b = a := by
  have ⟨j, hj⟩ := List.mem_iff_getElem?.mp h
  by_cases hi : i = j
  case pos => exact .inr (eq_of_set (hi ▸ hj))
  case neg =>
    rw [List.getElem?_set_ne hi] at hj
    exact .inl (mem_eraseIdx.mpr ⟨j, Ne.symm hi, hj⟩)

theorem rel (h : Apart R l) (ha : l[i]? = some a) (hb : b ∈ l.eraseIdx i) : R a b := by
  have ⟨j, hj, hb⟩ := mem_eraseIdx.mp hb
  exact h i j a b hj.symm ha hb

-- An element may be replaced if the new one is related to all the others.
theorem set (h : Apart R l) (hs : ∀ a b, R a b → R b a) (ha : ∀ b ∈ l.eraseIdx i, R a b) :
    Apart R (l.set i a) := by
  intro j k b c hjk hb hc
  by_cases hj : i = j
  case pos =>
    subst hj
    rw [List.getElem?_set_ne hjk] at hc
    exact eq_of_set hb ▸ ha c (mem_eraseIdx.mpr ⟨k, hjk.symm, hc⟩)
  case neg =>
    rw [List.getElem?_set_ne hj] at hb
    by_cases hk : i = k
    case neg =>
      rw [List.getElem?_set_ne hk] at hc
      exact h j k b c hjk hb hc
    case pos =>
      subst hk
      exact hs _ _ <| eq_of_set hc ▸ ha b (mem_eraseIdx.mpr ⟨j, hjk, hb⟩)

theorem snoc (h : Apart R l) (hs : ∀ a b, R a b → R b a) (ha : ∀ b ∈ l, R a b) : Apart R (l ++ [a]) := by
  have hc (j : Nat) (b : α) (hb : (l ++ [a])[j]? = some b) : l[j]? = some b ∨ (j = l.length ∧ b = a) := by
    rw [List.getElem?_append] at hb
    split at hb
    case isTrue  => exact .inl hb
    case isFalse hn =>
      have ⟨hj, hb⟩ := List.getElem?_eq_some_iff.mp hb
      simp only [List.length_singleton] at hj
      exact .inr ⟨by omega, by simpa using hb.symm⟩
  intro j k b c hjk hb hc'
  match hc j b hb, hc k c hc' with
  | .inl hb, .inl hc             => exact h j k b c hjk hb hc
  | .inl hb, .inr ⟨_, hc⟩        => exact hs _ _ (hc ▸ ha b (List.mem_of_getElem? hb))
  | .inr ⟨_, hb⟩, .inl hc        => exact hb ▸ ha c (List.mem_of_getElem? hc)
  | .inr ⟨hj, _⟩, .inr ⟨hk, _⟩   => exact absurd (hj.trans hk.symm) hjk

end Apart
