import JobPlatform.Library.Run

-- The runs of a specification, with what can be seen of each step.
inductive Trace {τ β : Type*} (next : τ → β → τ → Prop) : τ → List β → τ → Prop
  | nil (t : τ) : Trace next t [] t
  | cons {t t' t'' : τ} {b : β} {bs : List β} (h : next t b t') (ht : Trace next t' bs t'') :
      Trace next t (b :: bs) t''

namespace Run

variable {σ τ α β : Type*} {step : σ → α → σ} {ok : σ → α → Prop} {next : τ → β → τ → Prop} {s : σ} {as : List α}

-- What can be seen of a run.
def observe (step : σ → α → σ) (see : σ → α → β) : σ → List α → List β
  | _, []      => []
  | s, a :: as => see s a :: observe step see (step s a) as

-- If the specification does each step that the system takes where an invariant holds, it does the whole run.
theorem Guarded.trace {Inv : σ → Prop} (abs : σ → τ) {see : σ → α → β} (hi : ∀ s a, Inv s → ok s a → Inv (step s a))
    (hs : ∀ s a, Inv s → ok s a → next (abs s) (see s a) (abs (step s a))) (h : Inv s) (hg : Guarded step ok s as) :
    Trace next (abs s) (observe step see s as) (abs (last step s as)) := by
  induction as generalizing s
  case nil          => exact .nil _
  case cons a as ih => exact .cons (hs s a h hg.left) (ih (hi s a h hg.left) hg.right)

end Run
