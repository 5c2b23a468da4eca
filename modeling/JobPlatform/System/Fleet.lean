import JobPlatform.System.Precedence
import JobPlatform.Worker.Loop

namespace JobPlatform

-- The loops that a call starts.
def Call.forks : Call → List (Program (Except Error Unit))
  | heartbeats r job leaseToken policies rounds => [do return .ok (← r.heartbeatLoop job leaseToken policies rounds)]
  | _                                           => []

theorem platform_forks {P : Protocol Call Call.Resp} {beating : Job → Token → P.State} {c : Call} :
    ((platform P beating).forks c).map (·.prog) = c.forks := by
  cases c <;> rfl

-- The running workers, and the other processes of the platform, which are their heartbeat loops among others.
structure Fleet (W : Type) where
  world : W
  loops : List Runtime.Loop
  procs : List (Program (Except Error Unit))

namespace Fleet

inductive Label
  | boot (r : Runtime) (concurrency : Nat)
  | cancel (i : Nat)
  | next (i : Nat) (choice : Runtime.Choice)
  | run (i k : Nat)
  | launch (op : Operation)
  | turn (k : Nat)

variable {W : Type} (exec : W → (c : Call) → W × c.Resp)

def perform (s : Fleet W) (c : Call) : Fleet W × c.Resp :=
  let (world, res) := exec s.world c
  ({ s with world, procs := s.procs ++ c.forks }, res)

def set (s : Fleet W) (i : Nat) (l : Runtime.Loop) : Fleet W :=
  { s with loops := s.loops.set i l }

-- The main goroutine of a worker takes a step.
def next (s : Fleet W) (i : Nat) (l : Runtime.Loop) (choice : Runtime.Choice) : Fleet W :=
  match l.phase with
  | .dequeuing (.call c k) policies handler =>
    let (s, res) := s.perform exec c
    s.set i { l with phase := .dequeuing (k res) policies handler }
  | _ => s.set i (l.next choice)

-- The goroutine of a job takes a step.
def run (s : Fleet W) (i : Nat) (l : Runtime.Loop) (k : Nat) : Fleet W :=
  match l.jobs[k]? with
  | some (.call c p) =>
    let (s, res) := s.perform exec c
    s.set i { l with jobs := l.jobs.set k (p res) }
  | some (.ret ())   => s.set i (l.release k)
  | none             => s

def turn (s : Fleet W) (k : Nat) : Fleet W :=
  match s.procs[k]? with
  | some (.call c p) =>
    let (s, res) := s.perform exec c
    { s with procs := s.procs.set k (p res) }
  | _                => s

def step (s : Fleet W) : Label → Fleet W
  | .boot r concurrency => { s with loops := s.loops ++ [.start r concurrency] }
  | .cancel i           => s.loops[i]?.elim s fun l => s.set i { l with done := true }
  | .next i choice      => s.loops[i]?.elim s (s.next exec i · choice)
  | .run i k            => s.loops[i]?.elim s (s.run exec i · k)
  | .launch op          => { s with procs := s.procs ++ [op.program] }
  | .turn k             => s.turn exec k

def start (w : W) : Fleet W where
  world := w
  loops := []
  procs := []

-- What a step does to a loop.
inductive Moves : Runtime.Loop → Runtime.Loop → Prop
  | cancel (l : Runtime.Loop) : Moves l { l with done := true }
  | call {l : Runtime.Loop} {dequeue dequeue' : Program (Except Error (Option LeasedJob))}
      {policies : List RateLimitPolicy} {handler : Job → Option Handling}
      (h : l.phase = .dequeuing dequeue policies handler) :
      Moves l { l with phase := .dequeuing dequeue' policies handler }
  | next (l : Runtime.Loop) (choice : Runtime.Choice) : Moves l (l.next choice)
  | run (l : Runtime.Loop) (k : Nat) (p : Program Unit) : Moves l { l with jobs := l.jobs.set k p }
  | release {l : Runtime.Loop} {k : Nat} (h : k < l.jobs.length) : Moves l (l.release k)

namespace Moves

variable {l l' : Runtime.Loop}

theorem sound (h : Moves l l') (hl : l.Sound) : l'.Sound := by
  cases h
  case cancel         => exact hl.cancel
  case call hp        => exact hl.call hp
  case next choice    => exact hl.next choice
  case run            => exact hl.replace List.length_set
  case release hk     => exact hl.release hk

end Moves

-- What a step does to the loops of all workers.
inductive Changes (loops : List Runtime.Loop) : List Runtime.Loop → Prop
  | same : Changes loops loops
  | boot (r : Runtime) (concurrency : Nat) : Changes loops (loops ++ [.start r concurrency])
  | move {i : Nat} {l l' : Runtime.Loop} (h : loops[i]? = some l) (hm : Moves l l') : Changes loops (loops.set i l')

namespace Changes

variable {loops loops' : List Runtime.Loop} {i : Nat} {l l' : Runtime.Loop}

theorem sound (h : Changes loops loops') (hs : ∀ l ∈ loops, l.Sound) : ∀ l ∈ loops', l.Sound := by
  cases h
  case same       => exact hs
  case boot       => simpa [or_imp, forall_and] using ⟨hs, Runtime.Loop.Sound.start⟩
  case move hl hm =>
    intro x hx
    obtain hx | rfl := List.mem_or_eq_of_mem_set hx
    · exact hs x hx
    · exact hm.sound (hs _ (List.mem_of_getElem? hl))

end Changes

variable {exec} {s : Fleet W} {w : W} {label : Label} {i : Nat} {l l' : Runtime.Loop}

variable (exec) (ls : List Label)

variable {exec} {ls}

-- A goroutine does not report an error of its own.
def lift (p : Program Unit) : Program (Except Error Unit) := do
  return .ok (← p)

-- What is left of the round that begins with the call of `Dequeue`.
def begun (l : Runtime.Loop) : List (Program (Except Error Unit)) :=
  match l.phase with
  | .dequeuing dequeue policies handler => [lift (dequeue.bind (l.runtime.handle policies handler))]
  | _                                   => []

-- What is left of the rounds of a loop.
def rounds (l : Runtime.Loop) : List (Program (Except Error Unit)) :=
  begun l ++ l.jobs.map lift

def progs (s : Fleet W) : List (Program (Except Error Unit)) :=
  s.loops.flatMap rounds ++ s.procs

theorem rounds_dequeuing {dequeue : Program (Except Error (Option LeasedJob))} {policies : List RateLimitPolicy}
    {handler : Job → Option Handling} (h : l.phase = .dequeuing dequeue policies handler) :
    rounds l = lift (dequeue.bind (l.runtime.handle policies handler)) :: l.jobs.map lift := by
  simp [rounds, begun, h]

theorem rounds_eq (h : l.phase.slots = 0) : rounds l = l.jobs.map lift := by
  unfold rounds begun
  split
  case h_1 hp => rw [hp] at h; cases h
  case h_2    => rfl

theorem rounds_congr (h : l.phase.slots = 0) (h' : l'.phase.slots = 0) (hj : l'.jobs = l.jobs) :
    (rounds l').Subperm (rounds l) := by
  rw [rounds_eq h, rounds_eq h', hj]

-- The main goroutine leaves the rounds alone, or drops one that is over, unless it starts a new one.
theorem rounds_next (choice : Runtime.Choice) : (rounds (l.next choice)).Subperm (rounds l) ∨
    ∃ policies handler, rounds (l.next choice) = (Operation.work l.runtime policies handler).program :: rounds l := by
  unfold Runtime.Loop.next
  split
  case h_5 hp                | h_10 hp =>
    refine .inl ?_
    split
    case isTrue  => exact rounds_congr (by rw [hp]; rfl) rfl rfl
    case isFalse => exact .refl _
  case h_6 policies handler hp =>
    split
    case isTrue  =>
      refine .inr ⟨policies, handler, ?_⟩
      rw [rounds_eq (l := l) (by rw [hp]; rfl), Operation.program, Runtime.work_eq]
      rfl
    case isFalse => exact .inl (.refl _)
  case h_7 res policies handler hp =>
    rw [rounds_dequeuing hp]
    refine .inl ?_
    split
    case h_1 | h_2  => exact (List.sublist_cons_self ..).subperm
    case h_3 leased =>
      have hr : rounds (l.go (l.runtime.process leased policies (handler leased.job))) =
          l.jobs.map lift ++ [lift (l.runtime.process leased policies (handler leased.job))] := by
        simp [rounds, begun, Runtime.Loop.go]
      rw [hr]
      exact List.perm_append_comm.subperm
  case h_13 => exact .inl (.refl _)
  all_goals
    rename_i hp
    exact .inl (rounds_congr (by rw [hp]; rfl) rfl rfl)

theorem rounds_set {k : Nat} (hk : k < l.jobs.length) (p : Program Unit) :
    (rounds { l with jobs := l.jobs.set k p }).Perm (lift p :: rounds (l.release k)) :=
  (((List.set_perm_cons_eraseIdx hk p).map lift).append_left (begun l)).trans List.perm_middle

theorem rounds_release {k : Nat} (hk : k < l.jobs.length) :
    (rounds l).Perm (lift l.jobs[k] :: rounds (l.release k)) :=
  (((List.getElem_cons_eraseIdx_perm hk).symm.map lift).append_left (begun l)).trans List.perm_middle

-- What is left of the other processes than the rounds of a loop.
def others (s : Fleet W) (i : Nat) : List (Program (Except Error Unit)) :=
  (s.loops.eraseIdx i).flatMap rounds ++ s.procs

theorem progs_set (hl : s.loops[i]? = some l) (l' : Runtime.Loop) :
    (s.set i l').progs.Perm (rounds l' ++ s.others i) := by
  have hi := (List.getElem?_eq_some_iff.mp hl).choose
  have hp := (List.set_perm_cons_eraseIdx hi l').flatMap_right rounds
  rw [List.flatMap_cons] at hp
  exact (hp.append_right _).trans (by rw [List.append_assoc]; rfl)

theorem progs_perm (hl : s.loops[i]? = some l) : s.progs.Perm (rounds l ++ s.others i) := by
  obtain ⟨hi, rfl⟩ := List.getElem?_eq_some_iff.mp hl
  have hp := progs_set hl s.loops[i]
  rwa [set, List.set_getElem_self] at hp

theorem set_subperm (hl : s.loops[i]? = some l) (hr : (rounds l').Subperm (rounds l)) :
    (s.set i l').progs.Subperm s.progs :=
  (progs_set hl l').subperm.trans <| (hr.append (.refl _)).trans (progs_perm hl).symm.subperm

theorem perform_set {c : Call} (hl : s.loops[i]? = some l) (l' : Runtime.Loop) :
    (((s.perform exec c).1.set i l').progs).Perm (rounds l' ++ s.others i ++ c.forks) :=
  (progs_set (s := (s.perform exec c).1) hl l').trans (by simp [others, perform])

section

variable {P : Protocol Call Call.Resp} {S : Pool.Semantics P (Except Error Unit) W} {q : P.State} {s' : Fleet W}
         {t : Pool P (Except Error Unit) W}

-- The processes of the pool run what is left for the fleet to run, and what runs beside it.
structure Refines (more : List (Program (Except Error Unit))) (s : Fleet W) (t : Pool P (Except Error Unit) W) :
    Prop where
  world : t.world = s.world
  progs : (more ++ s.progs).Subperm t.progs

-- The processes that a pool starts are the procedures of the platform.
def Launches (q : P.State) : Pool.Label P (Except Error Unit) → Prop
  | .spawn p => p.state = q ∧ ∃ op : Operation, p.prog = op.program
  | .run _   => True

variable {more more' : List (Program (Except Error Unit))}

namespace Refines

-- Nothing runs yet.
theorem start (w : W) : (start w).Refines [] (⟨w, []⟩ : Pool P (Except Error Unit) W) :=
  ⟨rfl, .refl _⟩

theorem drop (h : s.Refines more t) (hw : s'.world = s.world) (hp : s'.progs.Subperm s.progs) : s'.Refines more t :=
  ⟨h.world.trans hw.symm, ((List.Subperm.refl more).append hp).trans h.progs⟩

theorem launch (h : s.Refines more t) {op : Operation} (hw : s'.world = s.world)
    (hp : (more' ++ s'.progs).Perm (op.program :: (more ++ s.progs))) :
    s'.Refines more' (Pool.step S t (.spawn ⟨op.program, q⟩)) where
  world := h.world.trans hw.symm
  progs := by
    rw [Pool.progs_spawn]
    have hq := ((List.subperm_cons op.program).mpr h.progs).trans (List.perm_append_singleton ..).symm.subperm
    exact hp.subperm.trans hq

-- A call that is made by one of the programs is a call of a process.
theorem perform (h : s.Refines more t) (he : S.exec = exec) (hf : ∀ c, (S.forks c).map (·.prog) = c.forks) {c : Call}
    {k : c.Resp → Program (Except Error Unit)} {rest : List (Program (Except Error Unit))}
    (hp : (more ++ s.progs).Perm (.call c k :: rest)) (hw : s'.world = (exec s.world c).1)
    (hq : (more' ++ s'.progs).Perm (k (exec s.world c).2 :: rest ++ c.forks)) :
    ∃ i, s'.Refines more' (Pool.step S t (.run i)) := by
  obtain ⟨i, hi, hr⟩ := Pool.exists_run (S := S) (hp.symm.subperm.trans h.progs)
  rw [he, h.world] at hi hr
  rw [hf] at hr
  exact ⟨i, hi.trans hw.symm, hq.subperm.trans hr⟩

-- The fleet makes the call.
theorem call (h : s.Refines more t) (he : S.exec = exec) (hf : ∀ c, (S.forks c).map (·.prog) = c.forks) {c : Call}
    {k : c.Resp → Program (Except Error Unit)} {rest : List (Program (Except Error Unit))}
    (hp : s.progs.Perm (.call c k :: rest)) (hw : s'.world = (exec s.world c).1)
    (hq : s'.progs.Perm (k (exec s.world c).2 :: rest ++ c.forks)) : ∃ i, s'.Refines more (Pool.step S t (.run i)) := by
  refine h.perform he hf ((hp.append_left more).trans List.perm_middle) hw ?_
  rw [List.cons_append, List.append_assoc]
  exact (hq.append_left more).trans List.perm_middle

end Refines

-- The pool can go on to where the fleet is.
def Reaches (S : Pool.Semantics P (Except Error Unit) W) (q : P.State) (more : List (Program (Except Error Unit)))
    (t : Pool P (Except Error Unit) W) (s : Fleet W) : Prop :=
  ∃ labels, (∀ a ∈ labels, Launches q a) ∧ s.Refines more (Run.last (Pool.step S) t labels)

namespace Reaches

theorem rest (h : s.Refines more t) : s.Reaches S q more t :=
  ⟨[], List.forall_mem_nil _, h⟩

theorem run (h : ∃ i, s.Refines more (Pool.step S t (.run i))) : s.Reaches S q more t :=
  h.elim fun i hi => ⟨[.run i], List.forall_mem_singleton.mpr trivial, hi⟩

theorem spawn {op : Operation} (h : s.Refines more (Pool.step S t (.spawn ⟨op.program, q⟩))) : s.Reaches S q more t :=
  ⟨[.spawn ⟨op.program, q⟩], List.forall_mem_singleton.mpr ⟨rfl, op, rfl⟩, h⟩

end Reaches

theorem elim_reaches (h : s.Refines more t) {f : Runtime.Loop → Fleet W}
    (hf : ∀ l, s.loops[i]? = some l → Reaches S q more t (f l)) : Reaches S q more t (s.loops[i]?.elim s f) := by
  cases hl : s.loops[i]?
  case none => exact .rest h
  case some => exact hf _ hl

variable (he : S.exec = exec) (hf : ∀ c, (S.forks c).map (·.prog) = c.forks) (h : s.Refines more t)

include he hf h

theorem next_reaches (hl : s.loops[i]? = some l) (choice : Runtime.Choice) :
    Reaches S q more t (s.next exec i l choice) := by
  unfold next
  split
  case h_1 c k policies handler hp =>
    have hr := rounds_dequeuing hp ▸ progs_perm hl
    exact .run (h.call he hf hr rfl (perform_set hl _))
  case h_2                         =>
    obtain hr | ⟨policies, handler, hr⟩ := rounds_next (l := l) choice
    · exact .rest (h.drop rfl (set_subperm hl hr))
    · have hq := progs_set hl (l.next choice)
      rw [hr] at hq
      have hq := hq.trans ((progs_perm hl).symm.cons _)
      exact .spawn (h.launch rfl ((hq.append_left more).trans List.perm_middle))

theorem run_reaches (hl : s.loops[i]? = some l) (k : Nat) : Reaches S q more t (s.run exec i l k) := by
  unfold Fleet.run
  split
  case h_1 c p hk =>
    obtain ⟨hk, hc⟩ := List.getElem?_eq_some_iff.mp hk
    have hr := (progs_perm hl).trans ((rounds_release hk).append_right _)
    rw [hc] at hr
    have hq (p' : Program Unit) := ((rounds_set hk p').append_right (s.others i)).append_right c.forks
    exact .run (h.call he hf hr rfl ((perform_set hl _).trans (hq _)))
  case h_2 hk     =>
    have hr := rounds_release (List.getElem?_eq_some_iff.mp hk).choose
    exact .rest (h.drop rfl (set_subperm hl ((List.sublist_cons_self ..).subperm.trans hr.symm.subperm)))
  case h_3        => exact .rest h

theorem turn_reaches (k : Nat) : Reaches S q more t (s.turn exec k) := by
  unfold turn
  split
  case h_1 c p hk =>
    obtain ⟨hk, hc⟩ := List.getElem?_eq_some_iff.mp hk
    have hr := ((List.getElem_cons_eraseIdx_perm hk).symm.append_left (s.loops.flatMap rounds)).trans List.perm_middle
    rw [hc] at hr
    have hk' : k < (s.procs ++ c.forks).length := hk.trans_le (by simp)
    have hq (p' : Program (Except Error Unit)) :
        ({ (s.perform exec c).1 with procs := (s.perform exec c).1.procs.set k p' } : Fleet W).progs.Perm
          (p' :: (s.loops.flatMap rounds ++ s.procs.eraseIdx k) ++ c.forks) := by
      have hp := ((List.set_perm_cons_eraseIdx hk' p').append_left (s.loops.flatMap rounds)).trans List.perm_middle
      rw [List.eraseIdx_append_of_lt_length hk, ← List.append_assoc] at hp
      exact hp
    exact .run (h.call he hf hr rfl (hq _))
  case h_2        => exact .rest h

-- The processes of the fleet are those of a pool.
theorem step_reaches (label : Label) : Reaches S q more t (s.step exec label) := by
  cases label
  case boot r n      =>
    have hp : (s.step exec (.boot r n)).progs = s.progs := by
      simp [progs, step, rounds, begun, Runtime.Loop.start]
    exact .rest (h.drop rfl (hp ▸ .refl _))
  case launch op     =>
    have hp : (s.step exec (.launch op)).progs = s.progs ++ [op.program] := by
      simp [progs, step]
    have hq := (List.perm_append_singleton op.program s.progs).append_left more
    exact .spawn (h.launch rfl (hp ▸ hq.trans List.perm_middle))
  case turn k        => exact turn_reaches he hf h k
  case cancel i      => exact elim_reaches h fun l hl => .rest (h.drop rfl (set_subperm hl (.refl _)))
  case next i choice => exact elim_reaches h fun l hl => next_reaches he hf h hl choice
  case run i k       => exact elim_reaches h fun l hl => run_reaches he hf h hl k

theorem last_reaches (ls : List Label) : Reaches S q more t (Run.last (step exec) s ls) := by
  induction ls generalizing s t
  case nil              => exact .rest h
  case cons label ls hi =>
    obtain ⟨labels, hl, hr⟩ := step_reaches (q := q) he hf h label
    obtain ⟨labels', hl', hr'⟩ := hi hr
    refine ⟨labels ++ labels', List.forall_mem_append.mpr ⟨hl, hl'⟩, ?_⟩
    simpa only [Run.last, List.foldl_append, List.foldl_cons] using hr'

end

-- Whatever the loops of the workers do could be done by rounds that are started one by one at any time.
theorem world_of_run {P : Protocol Call Call.Resp} (beating : Job → Token → P.State) (q : P.State) (w : W)
    (ls : List Label) : ∃ labels : List (Pool.Label P (Except Error Unit)), (∀ a ∈ labels, Launches q a) ∧
    (Run.last (Pool.step ⟨exec, (platform P beating).forks⟩) ⟨w, []⟩ labels).world =
    (Run.last (step exec) (start w) ls).world := by
  obtain ⟨labels, hl, hr⟩ := last_reaches (S := ⟨exec, (platform P beating).forks⟩) (q := q) rfl
    (fun _ => platform_forks) (.start w) ls
  exact ⟨labels, hl, hr.world⟩

-- No worker gets a job before its dependencies have let it run, or an operator has.
theorem served_of_run {faults : Nat → Fault} {w : World} (ls : List Label) (j : JobID) :
    let a := (Run.last (step (Annals.exec faults)) (start (Preceders.start w).world) ls).world
    a.world.redis.Asleep j ∨ a.Served j ∨ a.forced j := by
  obtain ⟨labels, hl, hr⟩ := last_reaches (S := Preceders.semantics faults) (q := .idle) rfl (fun _ => platform_forks)
    (.start (Preceders.start w).world) ls
  have hp : ∀ a ∈ labels, Preceders.Launched a := by
    intro a ha
    have ha := hl a ha
    cases a <;> exact ha
  have hg := Run.Guarded.of_forall (Pool.step (Preceders.semantics faults)) (Preceders.start w) hp
  have hs := hg.invariant (fun _ _ => Preceders.Ordered.step) Preceders.Ordered.start
  exact hr.world ▸ hs.released j

end Fleet
end JobPlatform
