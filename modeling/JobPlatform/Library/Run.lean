import Mathlib.Data.List.Basic

namespace Run

variable {σ α : Type*} {step : σ → α → σ} {ok ok' : σ → α → Prop} {s : σ} {as bs : List α}

-- The state in which the labels `as` end when they are taken from `s` one after the other.
abbrev last (step : σ → α → σ) (s : σ) (as : List α) : σ :=
  as.foldl step s

-- A run is guarded by `ok` if each of its labels is allowed in the state in which it is taken.
def Guarded (step : σ → α → σ) (ok : σ → α → Prop) : σ → List α → Prop
  | _, []      => True
  | s, a :: as => ok s a ∧ Guarded step ok (step s a) as

instance Guarded.decidable [∀ s a, Decidable (ok s a)] :
    (s : σ) → (as : List α) → Decidable (Guarded step ok s as)
  | _, []      => .isTrue trivial
  | s, a :: as => @instDecidableAnd _ _ _ (Guarded.decidable (step s a) as)

namespace Guarded

theorem append : Guarded step ok s (as ++ bs) ↔
    Guarded step ok s as ∧ Guarded step ok (last step s as) bs := by
  induction as generalizing s
  case nil          => simp [Guarded]
  case cons a as hi => simp [Guarded, hi, and_assoc]

theorem snoc (a : α) : Guarded step ok s (as ++ [a]) ↔
    Guarded step ok s as ∧ ok (last step s as) a := by
  simp [append, Guarded]

theorem map {β : Type*} {f : β → α} {bs : List β} : Guarded step ok s (bs.map f) ↔
    Guarded (fun s b => step s (f b)) (fun s b => ok s (f b)) s bs := by
  induction bs generalizing s
  case nil          => rfl
  case cons b bs hi => exact and_congr_right fun _ => hi

theorem mono (h : ∀ s a, ok s a → ok' s a) (hg : Guarded step ok s as) :
    Guarded step ok' s as := by
  induction as generalizing s
  case nil          => trivial
  case cons a as hi => exact ⟨h _ _ hg.left, hi hg.right⟩

theorem of_forall {ok : α → Prop} (step : σ → α → σ) (s : σ) (h : ∀ a ∈ as, ok a) :
    Guarded step (fun _ => ok) s as := by
  induction as generalizing s
  case nil          => trivial
  case cons a as hi => exact ⟨h a List.mem_cons_self, hi _ fun b hb => h b (List.mem_cons_of_mem _ hb)⟩

-- An invariant that each allowed label preserves holds in the last state of a guarded run, and
-- thus in every state of the run, as the beginning of a guarded run is guarded itself.
theorem invariant {Inv : σ → Prop} (hs : ∀ s a, Inv s → ok s a → Inv (step s a))
    (h : Inv s) (hg : Guarded step ok s as) : Inv (last step s as) := by
  induction as generalizing s
  case nil          => exact h
  case cons a as hi => exact hi (hs _ _ h hg.left) hg.right

-- Two guards are the same along a run if they agree wherever an invariant holds.
theorem congr {Inv : σ → Prop} (hs : ∀ s a, Inv s → ok s a → Inv (step s a))
    (he : ∀ s a, Inv s → (ok s a ↔ ok' s a)) (h : Inv s) : Guarded step ok s as ↔ Guarded step ok' s as := by
  induction as generalizing s
  case nil          => rfl
  case cons a as hi => exact (and_congr_right fun ha => hi (hs s a h ha)).trans <| and_congr_left' (he s a h)

-- A guard may be strengthened by what is invariant along the run.
theorem strengthen {Inv : σ → Prop} (hs : ∀ s a, Inv s → ok s a → Inv (step s a))
    (h : Inv s) (hg : Guarded step ok s as) : Guarded step (fun s a => Inv s ∧ ok s a) s as := by
  induction as generalizing s
  case nil          => trivial
  case cons a as hi => exact ⟨⟨h, hg.left⟩, hi (hs _ _ h hg.left) hg.right⟩

end Guarded
end Run
