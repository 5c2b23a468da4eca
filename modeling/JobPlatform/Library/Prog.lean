import Mathlib.Logic.Function.Basic

-- A program that computes an `α` by a sequence of calls, each of which is answered by the
-- environment before the program continues.
inductive Prog (Call : Type) (Resp : Call → Type) (α : Type) : Type
  | ret (a : α)
  | call (c : Call) (k : Resp c → Prog Call Resp α)

namespace Prog

variable {Call : Type} {Resp : Call → Type} {α β γ : Type}

def bind (f : α → Prog Call Resp β) : Prog Call Resp α → Prog Call Resp β
  | ret a    => f a
  | call c k => call c (fun r => (k r).bind f)

instance : Monad (Prog Call Resp) where
  pure     := ret
  bind p f := p.bind f

-- The program that only makes the call `c` and returns its answer.
def perform (c : Call) : Prog Call Resp (Resp c) :=
  call c ret

def isRet : Prog Call Resp α → Bool
  | ret _    => true
  | call _ _ => false

@[simp]
theorem pure_eq (a : α) : (pure a : Prog Call Resp α) = ret a :=
  rfl

@[simp]
theorem bind_eq (p : Prog Call Resp α) (f : α → Prog Call Resp β) : p >>= f = p.bind f :=
  rfl

@[simp]
theorem ret_bind (a : α) (f : α → Prog Call Resp β) : (ret a).bind f = f a :=
  rfl

@[simp]
theorem call_bind (c : Call) (k : Resp c → Prog Call Resp α) (f : α → Prog Call Resp β) :
    (call c k).bind f = call c (fun r => (k r).bind f) :=
  rfl

@[simp]
theorem perform_bind (c : Call) (f : Resp c → Prog Call Resp β) : (perform c).bind f = call c f :=
  rfl

@[simp]
theorem bind_assoc (p : Prog Call Resp α) (f : α → Prog Call Resp β) (g : β → Prog Call Resp γ) :
    (p.bind f).bind g = p.bind (fun a => (f a).bind g) := by
  induction p
  case ret a       => rfl
  case call c k hi => simp [hi]

-- A program runs alone if every call is answered at once by `exec`.
def run {W : Type} (exec : W → (c : Call) → W × Resp c) : Prog Call Resp α → W → W × α
  | ret a,    w => (w, a)
  | call c k, w => (k (exec w c).2).run exec (exec w c).1

section

variable {W : Type} {exec : W → (c : Call) → W × Resp c} {w : W}

@[simp]
theorem run_ret (a : α) : (ret a : Prog Call Resp α).run exec w = (w, a) :=
  rfl

@[simp]
theorem run_call (c : Call) (k : Resp c → Prog Call Resp α) :
    (call c k).run exec w = (k (exec w c).2).run exec (exec w c).1 :=
  rfl

@[simp]
theorem run_perform (c : Call) : (perform c : Prog Call Resp _).run exec w = exec w c :=
  rfl

theorem run_bind (p : Prog Call Resp α) (f : α → Prog Call Resp β) :
    (p.bind f).run exec w = (f (p.run exec w).2).run exec (p.run exec w).1 := by
  induction p generalizing w
  case ret a       => rfl
  case call c k hi => simp [hi]

-- What every call preserves is preserved by running a program.
theorem run_preserves {Inv : W → Prop} (h : ∀ w c, Inv w → Inv (exec w c).1)
    (p : Prog Call Resp α) (hw : Inv w) : Inv (p.run exec w).1 := by
  induction p generalizing w
  case ret a       => exact hw
  case call c k hi => exact hi _ (h _ _ hw)

-- Each call that the program makes when it runs alone is allowed in the world in which it is made.
def Guarded (exec : W → (c : Call) → W × Resp c) (ok : W → Call → Prop) : Prog Call Resp α → W → Prop
  | ret _,    _ => True
  | call c k, w => ok w c ∧ (k (exec w c).2).Guarded exec ok (exec w c).1

instance Guarded.decidable {ok : W → Call → Prop} [∀ w c, Decidable (ok w c)] :
    (p : Prog Call Resp α) → (w : W) → Decidable (p.Guarded exec ok w)
  | ret _,    _ => .isTrue trivial
  | call c k, w => @instDecidableAnd _ _ _ (Guarded.decidable (k (exec w c).2) (exec w c).1)

theorem guarded_bind {ok : W → Call → Prop} {p : Prog Call Resp α} {f : α → Prog Call Resp β} :
    (p.bind f).Guarded exec ok w ↔
    p.Guarded exec ok w ∧ (f (p.run exec w).2).Guarded exec ok (p.run exec w).1 := by
  induction p generalizing w
  case ret a       => simp [Guarded]
  case call c k hi => simp [Guarded, hi, and_assoc]

-- What every allowed call preserves is preserved by running a guarded program.
theorem Guarded.preserves {ok : W → Call → Prop} {Inv : W → Prop} {p : Prog Call Resp α}
    (hs : ∀ w c, Inv w → ok w c → Inv (exec w c).1) (hg : p.Guarded exec ok w) (hw : Inv w) : Inv (p.run exec w).1 := by
  induction p generalizing w
  case ret a       => exact hw
  case call c k hi => exact hi _ hg.right (hs _ _ hw hg.left)

end
end Prog

-- A protocol says which calls a program may make after the answers that it has got so far. Only
-- the answers that are `Expected` are considered.
structure Protocol (Call : Type) (Resp : Call → Type) where
  State    : Type
  Allows   : State → Call → Prop
  Expected : (c : Call) → Resp c → Prop
  next     : State → (c : Call) → Resp c → State

-- The protocol of any program.
def Protocol.any (Call : Type) (Resp : Call → Type) : Protocol Call Resp where
  State        := Unit
  Allows _ _   := True
  Expected _ _ := True
  next _ _ _   := ()

namespace Prog

variable {Call : Type} {Resp : Call → Type} {α β : Type} {P : Protocol Call Resp}

-- The program follows the protocol from `q` on, and `post` holds of its result and of the state
-- of the protocol in which it ends.
def Follows (P : Protocol Call Resp) (post : α → P.State → Prop) :
    Prog Call Resp α → P.State → Prop
  | ret a,    q => post a q
  | call c k, q => P.Allows q c ∧ ∀ r, P.Expected c r → (k r).Follows P post (P.next q c r)

variable {p : Prog Call Resp α} {q : P.State}

@[simp]
theorem follows_ret {post : α → P.State → Prop} (a : α) :
    (ret a : Prog Call Resp α).Follows P post q ↔ post a q :=
  Iff.rfl

@[simp]
theorem follows_call {post : α → P.State → Prop} (c : Call) (k : Resp c → Prog Call Resp α) :
    (call c k).Follows P post q ↔
    P.Allows q c ∧ ∀ r, P.Expected c r → (k r).Follows P post (P.next q c r) :=
  Iff.rfl

theorem Follows.mono {post post' : α → P.State → Prop} (h : ∀ a q, post a q → post' a q)
    (hp : p.Follows P post q) : p.Follows P post' q := by
  induction p generalizing q
  case ret a       => exact h _ _ hp
  case call c k hi => exact ⟨hp.left, fun r hr => hi r (hp.right r hr)⟩

theorem Follows.bind {post : β → P.State → Prop} {f : α → Prog Call Resp β}
    (h : p.Follows P (fun a q => (f a).Follows P post q) q) : (p.bind f).Follows P post q := by
  induction p generalizing q
  case ret a       => exact h
  case call c k hi => exact ⟨h.left, fun r hr => hi r (h.right r hr)⟩

-- All calls of the program are of the given kind.
def Only (ok : Call → Prop) : Prog Call Resp α → Prop
  | ret _    => True
  | call c k => ok c ∧ ∀ r, (k r).Only ok

theorem Only.bind {ok : Call → Prop} {f : α → Prog Call Resp β} (hp : p.Only ok) (hf : ∀ a, (f a).Only ok) :
    (p.bind f).Only ok := by
  induction p
  case ret a       => exact hf a
  case call c k hi => exact ⟨hp.left, fun r => hi r (hp.right r)⟩

theorem Only.mono {ok ok' : Call → Prop} (hs : ∀ c, ok c → ok' c) (h : p.Only ok) : p.Only ok' := by
  induction p
  case ret a       => trivial
  case call c k hi => exact ⟨hs c h.left, fun r => hi r (h.right r)⟩

-- Calls which are allowed in a state, and which do not lead out of it, may be made in any number.
theorem Only.follows {ok : Call → Prop} (hq : ∀ c, ok c → P.Allows q c ∧ ∀ r, P.next q c r = q) (h : p.Only ok) :
    p.Follows P (fun _ q' => q' = q) q := by
  induction p
  case ret a       => rfl
  case call c k hi =>
    have ⟨ha, hn⟩ := hq c h.left
    refine ⟨ha, fun r _ => ?_⟩
    rw [hn]
    exact hi r (h.right r)

-- Calls which are allowed wherever an invariant holds, and which keep it, may be made in any number, too.
theorem Only.follows_invariant {ok : Call → Prop} {I : P.State → Prop}
    (hs : ∀ q c, I q → ok c → P.Allows q c ∧ ∀ r, I (P.next q c r)) (h : p.Only ok) (hq : I q) :
    p.Follows P (fun _ q' => I q') q := by
  induction p generalizing q
  case ret a       => exact hq
  case call c k hi =>
    have ⟨ha, hn⟩ := hs q c hq h.left
    exact ⟨ha, fun r _ => hi r (h.right r) (hn r)⟩

theorem Only.preserves {W : Type} {exec : W → (c : Call) → W × Resp c} {ok : Call → Prop} {Inv : W → Prop} {w : W}
    (hs : ∀ w c, ok c → Inv w → Inv (exec w c).1) (h : p.Only ok) (hw : Inv w) : Inv (p.run exec w).1 := by
  induction p generalizing w
  case ret a       => exact hw
  case call c k hi => exact hi _ (h.right _) (hs w c h.left hw)

-- Two worlds in which all calls are answered alike cannot be told apart by the program.
theorem Only.simulates {W : Type} {exec : W → (c : Call) → W × Resp c} {ok : Call → Prop} {R : W → W → Prop}
    {w w' : W} (hs : ∀ w w' c, ok c → R w w' → (exec w' c).2 = (exec w c).2 ∧ R (exec w c).1 (exec w' c).1)
    (h : p.Only ok) (hw : R w w') :
    (p.run exec w').2 = (p.run exec w).2 ∧ R (p.run exec w).1 (p.run exec w').1 := by
  induction p generalizing w w'
  case ret a       => exact ⟨rfl, hw⟩
  case call c k hi =>
    have ⟨hr, hw⟩ := hs w w' c h.left hw
    rw [run_call, run_call, hr]
    exact hi _ (h.right _) hw

end Prog
