import Mathlib.Data.List.Basic

-- Texts that are joined by a separator.
namespace Text

variable {c : Char} {k k' l l' : List Char} {s s' t t' : String}

theorem append_cons_inj (hk : c ∉ k) (hk' : c ∉ k') (h : k ++ c :: l = k' ++ c :: l') : k = k' ∧ l = l' := by
  induction k generalizing k'
  case nil =>
    cases k'
    case nil       => exact ⟨rfl, List.cons.inj h |>.right⟩
    case cons d k' => simp [(List.cons.inj h).left] at hk'
  case cons d k hi =>
    cases k'
    case nil       => simp [(List.cons.inj h).left] at hk
    case cons e k' =>
      have ⟨hd, h⟩   := List.cons.inj h
      have ⟨hk, hl⟩  := hi (List.not_mem_of_not_mem_cons hk) (List.not_mem_of_not_mem_cons hk') h
      exact ⟨by rw [hd, hk], hl⟩

theorem toList_join (h : s ++ c.toString ++ t = s' ++ c.toString ++ t') :
    s.toList ++ c :: t.toList = s'.toList ++ c :: t'.toList := by
  simpa using congrArg String.toList h

-- The first part is determined if it does not contain the separator.
theorem join_inj_left (hs : c ∉ s.toList) (hs' : c ∉ s'.toList)
    (h : s ++ c.toString ++ t = s' ++ c.toString ++ t') : s = s' ∧ t = t' := by
  have ⟨hs, ht⟩ := append_cons_inj hs hs' (toList_join h)
  exact ⟨String.toList_injective hs, String.toList_injective ht⟩

-- The last part is determined if it does not contain the separator.
theorem join_inj_right (ht : c ∉ t.toList) (ht' : c ∉ t'.toList)
    (h : s ++ c.toString ++ t = s' ++ c.toString ++ t') : s = s' ∧ t = t' := by
  have h : t.toList.reverse ++ c :: s.toList.reverse = t'.toList.reverse ++ c :: s'.toList.reverse := by
    simpa using congrArg List.reverse (toList_join h)
  have ⟨ht, hs⟩ := append_cons_inj (by simpa using ht) (by simpa using ht') h
  exact ⟨String.toList_injective <| List.reverse_injective hs, String.toList_injective <| List.reverse_injective ht⟩

theorem not_mem_toDigits {n : Nat} (h : c.isDigit = false) : c ∉ Nat.toDigits 10 n := by
  intro hm
  have hd := Nat.isDigit_of_mem_toDigits (by decide) (by decide) hm
  simp [h] at hd

theorem toList_toString_ofNat (n : Nat) : (toString (Int.ofNat n)).toList = Nat.toDigits 10 n := by
  have hs : toString (Int.ofNat n) = toString n := rfl
  rw [hs, Nat.toString_eq_ofList_toDigits, String.toList_ofList]

theorem toList_toString_negSucc (n : Nat) :
    (toString (Int.negSucc n)).toList = '-' :: Nat.toDigits 10 (n + 1) := by
  have hs : toString (Int.negSucc n) = "-" ++ toString (n + 1) := rfl
  simp only [hs, Nat.toString_eq_ofList_toDigits, String.toList_append, String.toList_ofList]
  rfl

-- The decimal text of a number only contains digits and maybe a sign.
theorem not_mem_toString {n : Int} (h : c.isDigit = false) (hn : c ≠ '-') : c ∉ (toString n).toList := by
  cases n
  case ofNat m   =>
    rw [toList_toString_ofNat]
    exact not_mem_toDigits h
  case negSucc m =>
    rw [toList_toString_negSucc]
    exact List.not_mem_cons_of_ne_of_not_mem hn (not_mem_toDigits h)

theorem toDigits_injective {m n : Nat} (h : Nat.toDigits 10 m = Nat.toDigits 10 n) : m = n := by
  have hd := congrArg (Nat.ofDigitChars 10 · 0) h
  simpa only [Nat.ofDigitChars_ten_toDigits] using hd

theorem toString_injective {m n : Int} (h : toString m = toString n) : m = n := by
  have hm {n : Nat} : '-' ∉ Nat.toDigits 10 n := not_mem_toDigits (by decide)
  have hl := congrArg String.toList h
  cases m <;> cases n <;> simp only [toList_toString_ofNat, toList_toString_negSucc] at hl
  case ofNat.ofNat m n     => rw [toDigits_injective hl]
  case ofNat.negSucc m n   => exact absurd (hl ▸ List.mem_cons_self) hm
  case negSucc.ofNat m n   => exact absurd (hl ▸ List.mem_cons_self) hm
  case negSucc.negSucc m n => rw [Nat.succ.inj <| toDigits_injective (List.cons.inj hl).right]

end Text
