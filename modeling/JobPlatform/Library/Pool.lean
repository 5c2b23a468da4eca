import JobPlatform.Library.Prog
import JobPlatform.Library.Run
import Mathlib.Data.List.Perm.Subperm
import Mathlib.Order.Defs.Unbundled

-- A process runs a program and remembers in which state of its protocol it is.
structure Proc {Call : Type} {Resp : Call → Type} (P : Protocol Call Resp) (ρ : Type) where
  prog  : Prog Call Resp ρ
  state : P.State

-- Processes take turns in calling the world that they share.
structure Pool {Call : Type} {Resp : Call → Type} (P : Protocol Call Resp) (ρ W : Type) where
  world : W
  procs : List (Proc P ρ)

namespace Pool

variable {Call : Type} {Resp : Call → Type} {P : Protocol Call Resp} {ρ W : Type}

inductive Label (P : Protocol Call Resp) (ρ : Type)
  | spawn (p : Proc P ρ)
  | run (i : Nat)

-- A call can start further processes, which are those of `forks`.
structure Semantics (P : Protocol Call Resp) (ρ W : Type) where
  exec  : W → (c : Call) → W × Resp c
  forks : Call → List (Proc P ρ)

variable (S : Semantics P ρ W)

def step (s : Pool P ρ W) : Label P ρ → Pool P ρ W
  | .spawn p => { s with procs := s.procs ++ [p] }
  | .run i   =>
    match s.procs[i]? with
    | some ⟨.call c k, q⟩ =>
      let (world, r) := S.exec s.world c
      { world, procs := s.procs.set i ⟨k r, P.next q c r⟩ ++ S.forks c }
    | _ => s

theorem step_call {s : Pool P ρ W} {i : Nat} {c : Call} {k : Resp c → Prog Call Resp ρ} {q : P.State}
    (h : s.procs[i]? = some ⟨.call c k, q⟩) : step S s (.run i) = {
      world := (S.exec s.world c).1
      procs := s.procs.set i ⟨k (S.exec s.world c).2, P.next q c (S.exec s.world c).2⟩ ++ S.forks c
    } := by
  simp only [step, h]

-- A process which has ended, or which is not there, does nothing.
theorem step_idle {s : Pool P ρ W} {i : Nat} (h : ∀ c k q, s.procs[i]? ≠ some ⟨.call c k, q⟩) :
    step S s (.run i) = s := by
  unfold step
  dsimp only
  split
  case h_1 hp => exact absurd hp (h _ _ _)
  case h_2    => rfl

-- When it is the turn of a process, it makes a call, or else nothing happens.
theorem step_run_rule {s : Pool P ρ W} {i : Nat} {Q : Pool P ρ W → Prop} (idle : Q s)
    (call : ∀ c k q, s.procs[i]? = some ⟨.call c k, q⟩ → Q {
      world := (S.exec s.world c).1
      procs := s.procs.set i ⟨k (S.exec s.world c).2, P.next q c (S.exec s.world c).2⟩ ++ S.forks c
    }) : Q (step S s (.run i)) := by
  by_cases hp : ∃ c k q, s.procs[i]? = some ⟨.call c k, q⟩
  case pos =>
    have ⟨c, k, q, hi⟩ := hp
    exact step_call S hi ▸ call c k q hi
  case neg =>
    have hp : ∀ c k q, s.procs[i]? ≠ some ⟨.call c k, q⟩ := by simpa using hp
    exact (step_idle S hp).symm ▸ idle

-- The programs that the processes have yet to run.
def progs (s : Pool P ρ W) : List (Prog Call Resp ρ) :=
  s.procs.map (·.prog)

section

variable {S : Semantics P ρ W} {s : Pool P ρ W} {c : Call} {k : Resp c → Prog Call Resp ρ}
         {ps : List (Prog Call Resp ρ)}

theorem progs_spawn (p : Proc P ρ) : (step S s (.spawn p)).progs = s.progs ++ [p.prog] := by
  simp [progs, step]

-- The processes that run some of the programs can take any step of them.
theorem exists_run (h : (.call c k :: ps).Subperm s.progs) : ∃ i,
    (step S s (.run i)).world = (S.exec s.world c).1 ∧
    (k (S.exec s.world c).2 :: ps ++ (S.forks c).map (·.prog)).Subperm (step S s (.run i)).progs := by
  obtain ⟨⟨p, q⟩, hm, rfl⟩ := List.mem_map.mp (h.subset List.mem_cons_self)
  obtain ⟨i, hi, he⟩ := List.getElem_of_mem hm
  have hs := step_call S (List.getElem?_eq_some_iff.mpr ⟨hi, he⟩)
  -- The other programs are those of the other processes.
  have hr : ps.Subperm ((s.procs.eraseIdx i).map (·.prog)) := by
    have hp := (List.getElem_cons_eraseIdx_perm hi).map (·.prog)
    rw [he] at hp
    exact (List.subperm_cons _).mp (hp.subperm_left.mpr h)
  have hp (p : Proc P ρ) : ((s.procs.set i p).map (·.prog)).Perm (p.prog :: (s.procs.eraseIdx i).map (·.prog)) :=
    (List.set_perm_cons_eraseIdx hi p).map _
  refine ⟨i, by rw [hs], ?_⟩
  rw [progs, hs, List.map_append]
  exact .append ((hp _).subperm_left.mpr ((List.subperm_cons _).mpr hr)) (.refl _)

end

-- The pool whose only process runs the program `p`.
def alone (w : W) (p : Prog Call Resp ρ) (q : P.State) : Pool P ρ W where
  world := w
  procs := [⟨p, q⟩]

end Pool

namespace Prog

variable {Call : Type} {Resp : Call → Type} {P : Protocol Call Resp} {ρ W α β : Type}
         {S : Pool.Semantics P ρ W} {Env : W → W → Prop} {post : α → W → Prop} {w w' : W}

-- No call of the program starts a process.
def ForkFree (S : Pool.Semantics P ρ W) : Prog Call Resp α → Prop
  | ret _    => True
  | call c k => S.forks c = [] ∧ ∀ r, (k r).ForkFree S

-- The program does no more than what the environment does.
def Quiet (S : Pool.Semantics P ρ W) (Env : W → W → Prop) : Prog Call Resp α → Prop
  | ret _    => True
  | call c k => S.forks c = [] ∧ (∀ w, Env w (S.exec w c).1) ∧ ∀ r, (k r).Quiet S Env

-- The program ends in `post` although the environment changes the world between its calls.
def Ensures (S : Pool.Semantics P ρ W) (Env : W → W → Prop) (post : α → W → Prop) :
    Prog Call Resp α → W → Prop
  | ret a,    w => ∀ w', Env w w' → post a w'
  | call c k, w => ∀ w', Env w w' → (k (S.exec w' c).2).Ensures S Env post (S.exec w' c).1

-- There is no environment until a call of the program starts a process.
def EnsuresAlone (S : Pool.Semantics P ρ W) (Env : W → W → Prop) (post : α → W → Prop) :
    Prog Call Resp α → W → Prop
  | ret a,    w => post a w
  | call c k, w =>
    if (S.forks c).isEmpty
    then (k (S.exec w c).2).EnsuresAlone S Env post (S.exec w c).1
    else (k (S.exec w c).2).Ensures S Env post (S.exec w c).1

section

variable {p : Prog Call Resp α} {f : α → Prog Call Resp β} {c : Call} {k : Resp c → Prog Call Resp α} {a : α}

@[simp]
theorem forkFree_ret : (ret a : Prog Call Resp α).ForkFree S :=
  trivial

@[simp]
theorem forkFree_call : (call c k).ForkFree S ↔ S.forks c = [] ∧ ∀ r, (k r).ForkFree S :=
  Iff.rfl

@[simp]
theorem quiet_ret : (ret a : Prog Call Resp α).Quiet S Env :=
  trivial

@[simp]
theorem quiet_call : (call c k).Quiet S Env ↔
    S.forks c = [] ∧ (∀ w, Env w (S.exec w c).1) ∧ ∀ r, (k r).Quiet S Env :=
  Iff.rfl

@[simp]
theorem ensures_ret : (ret a : Prog Call Resp α).Ensures S Env post w ↔ ∀ w', Env w w' → post a w' :=
  Iff.rfl

@[simp]
theorem ensures_call : (call c k).Ensures S Env post w ↔
    ∀ w', Env w w' → (k (S.exec w' c).2).Ensures S Env post (S.exec w' c).1 :=
  Iff.rfl

theorem ensures_of_exec
    (h : ∀ w', Env w w' → ∀ w'' r, S.exec w' c = (w'', r) → (k r).Ensures S Env post w'') :
    (call c k).Ensures S Env post w :=
  fun w' hw => h w' hw _ _ rfl

theorem ForkFree.bind (hp : p.ForkFree S) (hf : ∀ a, (f a).ForkFree S) : (p.bind f).ForkFree S := by
  induction p
  case ret a       => exact hf a
  case call c k hi => exact ⟨hp.left, fun r => hi r (hp.right r)⟩

-- A program that starts no process before it goes on runs until there.
theorem ForkFree.ensuresAlone_bind {post : β → W → Prop} (h : p.ForkFree S) :
    (p.bind f).EnsuresAlone S Env post w ↔
    (f (p.run S.exec w).2).EnsuresAlone S Env post (p.run S.exec w).1 := by
  induction p generalizing w
  case ret a       => rfl
  case call c k hi => simp [EnsuresAlone, h.left, hi _ (h.right _)]

theorem ForkFree.ensuresAlone (h : p.ForkFree S) :
    p.EnsuresAlone S Env post w ↔ post (p.run S.exec w).2 (p.run S.exec w).1 := by
  induction p generalizing w
  case ret a       => rfl
  case call c k hi => simp [EnsuresAlone, h.left, hi _ (h.right _)]

theorem Ensures.bind {post : β → W → Prop} [Std.Refl Env]
    (h : p.Ensures S Env (fun a w => (f a).Ensures S Env post w) w) : (p.bind f).Ensures S Env post w := by
  induction p generalizing w
  case ret a       => exact h w (refl w)
  case call c k hi => exact fun w' hw => hi _ (h w' hw)

theorem Quiet.bind (hp : p.Quiet S Env) (hf : ∀ a, (f a).Quiet S Env) : (p.bind f).Quiet S Env := by
  induction p
  case ret a       => exact hf a
  case call c k hi => exact ⟨hp.left, hp.right.left, fun r => hi r (hp.right.right r)⟩

-- What comes after a quiet part of a program only sees what the environment does.
theorem Quiet.ensures_bind {post : β → W → Prop} [Std.Refl Env] [IsTrans W Env] (h : p.Quiet S Env)
    (hf : ∀ a w', Env w w' → (f a).Ensures S Env post w') : (p.bind f).Ensures S Env post w := by
  induction p generalizing w
  case ret a       => exact hf a w (refl w)
  case call c k hi =>
    refine fun w' hw => hi _ (h.right.right _) fun a w'' hw' => hf a w'' ?_
    exact IsTrans.trans _ _ _ (IsTrans.trans _ _ _ hw (h.right.left w')) hw'

theorem Quiet.ensures [Std.Refl Env] [IsTrans W Env] (h : p.Quiet S Env)
    (hp : ∀ a w', Env w w' → post a w') : p.Ensures S Env post w := by
  induction p generalizing w
  case ret a       => exact hp a
  case call c k hi =>
    refine fun w' hw => hi _ (h.right.right _) fun a w'' hw' => hp a w'' ?_
    exact IsTrans.trans _ _ _ (IsTrans.trans _ _ _ hw (h.right.left w')) hw'

theorem Ensures.mono {post' : α → W → Prop} (hp : ∀ a w, post a w → post' a w)
    (h : p.Ensures S Env post w) : p.Ensures S Env post' w := by
  induction p generalizing w
  case ret a       => exact fun w' hw => hp _ _ (h w' hw)
  case call c k hi => exact fun w' hw => hi _ (h w' hw)

theorem Ensures.map {g : α → β} {post' : β → W → Prop} (hp : ∀ a w, post a w → post' (g a) w)
    (h : p.Ensures S Env post w) : (p.bind fun a => ret (g a)).Ensures S Env post' w := by
  induction p generalizing w
  case ret a       => exact fun w' hw => hp _ _ (h w' hw)
  case call c k hi => exact fun w' hw => hi _ (h w' hw)

theorem EnsuresAlone.map {g : α → β} {post' : β → W → Prop} (hp : ∀ a w, post a w → post' (g a) w)
    (h : p.EnsuresAlone S Env post w) : (p.bind fun a => ret (g a)).EnsuresAlone S Env post' w := by
  induction p generalizing w
  case ret a       => exact hp _ _ h
  case call c k hi =>
    simp only [call_bind]
    unfold EnsuresAlone at h ⊢
    split at h
    case isTrue hc  => simpa [hc] using hi _ h
    case isFalse hc => simpa [hc] using h.map hp

theorem EnsuresAlone.mono {post' : α → W → Prop} (hp : ∀ a w, post a w → post' a w)
    (h : p.EnsuresAlone S Env post w) : p.EnsuresAlone S Env post' w := by
  induction p generalizing w
  case ret a       => exact hp _ _ h
  case call c k hi =>
    unfold EnsuresAlone at h ⊢
    split at h
    case isTrue hc  => simpa [hc] using hi _ h
    case isFalse hc => simpa [hc] using h.mono hp

-- What is ensured in any environment is ensured without one.
theorem Ensures.alone [Std.Refl Env] (h : p.Ensures S Env post w) : p.EnsuresAlone S Env post w := by
  induction p generalizing w
  case ret a       => exact h w (refl w)
  case call c k hi =>
    have h := h w (refl w)
    unfold EnsuresAlone
    split
    case isTrue  => exact hi _ h
    case isFalse => exact h

theorem EnsuresAlone.bind {post : β → W → Prop} [Std.Refl Env]
    (h : p.EnsuresAlone S Env (fun a w => (f a).Ensures S Env post w) w) :
    (p.bind f).EnsuresAlone S Env post w := by
  induction p generalizing w
  case ret a       => exact h.alone
  case call c k hi =>
    unfold EnsuresAlone at h
    simp only [call_bind]
    unfold EnsuresAlone
    split
    case isTrue hc  => exact hi _ (by simpa [hc] using h)
    case isFalse hc => exact .bind (by simpa [hc] using h)

theorem Quiet.forkFree (h : p.Quiet S Env) : p.ForkFree S := by
  induction p
  case ret a       => trivial
  case call c k hi => exact ⟨h.left, fun r => hi r (h.right.right r)⟩

theorem Quiet.run [Std.Refl Env] [IsTrans W Env] (h : p.Quiet S Env) : Env w (p.run S.exec w).1 := by
  induction p generalizing w
  case ret a       => exact refl w
  case call c k hi => exact IsTrans.trans _ _ _ (h.right.left w) (hi _ (h.right.right _))

theorem Ensures.env [IsTrans W Env] (hw : Env w w') (h : p.Ensures S Env post w) :
    p.Ensures S Env post w' := by
  cases p
  case ret a    => exact fun w'' hw' => h w'' (IsTrans.trans _ _ _ hw hw')
  case call c k => exact fun w'' hw' => h w'' (IsTrans.trans _ _ _ hw hw')

end
end Prog

namespace Pool

variable {Call : Type} {Resp : Call → Type} {P : Protocol Call Resp} {ρ W : Type}
         {S : Semantics P ρ W} {Env : W → W → Prop} {post : ρ → W → Prop}

-- The first process is on its way to `post`, and all the others are part of its environment.
inductive Ensuring (S : Semantics P ρ W) (Env : W → W → Prop) (post : ρ → W → Prop) : Pool P ρ W → Prop
  | alone {w p q} (first : p.EnsuresAlone S Env post w) : Ensuring S Env post (alone w p q)
  | beside {w p q rest} (first : p.Ensures S Env post w) (rest_quiet : ∀ r ∈ rest, r.prog.Quiet S Env) :
    Ensuring S Env post { world := w, procs := ⟨p, q⟩ :: rest }

namespace Ensuring

variable {s : Pool P ρ W} {i : Nat} {is : List Nat}

theorem run [Std.Refl Env] [IsTrans W Env] (hf : ∀ c, ∀ p ∈ S.forks c, p.prog.Quiet S Env)
    (h : Ensuring S Env post s) : Ensuring S Env post (step S s (.run i)) := by
  cases h
  case alone w p q h =>
    cases p <;> cases i
    case call.zero c k =>
      unfold Prog.EnsuresAlone at h
      split at h
      case isTrue hc  => simpa [step, Pool.alone, List.isEmpty_iff.mp hc] using alone h
      case isFalse hc => exact .beside h (hf c)
    all_goals exact .alone h
  case beside w p q rest h hr =>
    cases i
    case zero =>
      cases p
      case ret a    => exact .beside h hr
      case call c k =>
        refine .beside (h w (refl w)) fun r hm => ?_
        exact (List.mem_append.mp hm).elim (hr r) (hf c r)
    case succ i =>
      cases hi : rest[i]?
      case none   => simpa [step, hi] using .beside h hr
      case some r =>
        have hq := hr r <| List.mem_of_getElem? hi
        match r with
        | ⟨.ret a, _⟩    => simpa [step, hi] using .beside h hr
        | ⟨.call c k, _⟩ =>
          have ⟨hc, hw, hq⟩ := hq
          simp only [step, List.getElem?_cons_succ, hi, List.set_cons_succ, hc, List.append_nil]
          refine .beside (h.env (hw w)) fun r hm => ?_
          match List.mem_or_eq_of_mem_set hm with
          | .inl hm => exact hr r hm
          | .inr he => exact he ▸ hq _

-- Whatever the turns are that the processes take, the first of them ends in `post`.
theorem last [Std.Refl Env] [IsTrans W Env] {w : W} {p : Prog Call Resp ρ} {q q' : P.State} {a : ρ}
    (hf : ∀ c, ∀ p ∈ S.forks c, p.prog.Quiet S Env) (h : p.EnsuresAlone S Env post w)
    (hr : (Run.last (step S) (Pool.alone w p q) (is.map .run)).procs[0]? = some ⟨.ret a, q'⟩) :
    post a (Run.last (step S) (Pool.alone w p q) (is.map .run)).world := by
  have hl : Ensuring S Env post (Run.last (step S) (Pool.alone w p q) (is.map .run)) := by
    generalize hs : Pool.alone w p q = s
    have hi : Ensuring S Env post s := hs ▸ .alone h
    clear hs hr
    induction is generalizing s
    case nil          => exact hi
    case cons i is hd => exact hd _ (hi.run hf)
  generalize Run.last (step S) (Pool.alone w p q) (is.map .run) = s at hl hr
  cases hl
  case alone h    => cases hr; exact h
  case beside h _ => cases hr; exact h _ (refl _)

end Ensuring
end Pool
