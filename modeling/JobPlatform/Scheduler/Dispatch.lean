import JobPlatform.Library.Apart
import JobPlatform.Library.Pool
import JobPlatform.Scheduler.Cron

namespace JobPlatform

-- Two claims of the same slot are a day apart.
def Claim.Far (c c' : Claim) : Prop :=
  c.scheduleID = c'.scheduleID → c.slot = c'.slot →
    c.claimedAt + Scheduler.dispatchTTL.milliseconds ≤ c'.claimedAt ∨
    c'.claimedAt + Scheduler.dispatchTTL.milliseconds ≤ c.claimedAt

theorem Claim.Far.symm {c c' : Claim} (h : c.Far c') : c'.Far c :=
  fun hi hs => (h hi.symm hs.symm).symm

-- A process may only call `EnqueueJob` for the claim that it has made last, and only once.
def Dispatcher : Protocol CronCall CronCall.Resp where
  State := Option Claim
  Allows
    | claim, .enqueueJob c _                 => claim = some c
    | _,     .claimScheduleDispatch _ _ ttl  => ttl = Scheduler.dispatchTTL
    | _,     _                               => True
  Expected
    | .claimScheduleDispatch scheduleID slot _, res =>
      ∀ c, res = .ok (some c) → c.scheduleID = scheduleID ∧ c.slot = slot
    | _, _ => True
  next
    | _,     .claimScheduleDispatch .., res => res.toOption.join
    | _,     .enqueueJob ..,            _   => none
    | claim, _,                         _   => claim

namespace Dispatcher

variable {cron : CronPackages} {now : Time} {schedule : Schedule} {schedules : List Schedule}
         {req : ScheduleRequest} {claim : Option Claim}

theorem dispatch : (Scheduler.dispatch cron now schedule).Follows Dispatcher (fun _ _ => True) claim := by
  refine ⟨rfl, fun r _ => ?_⟩
  match r with
  | .error _          => trivial
  | .ok none          => trivial
  | .ok (some claim)  =>
    refine ⟨rfl, fun r _ => ?_⟩
    match r with
    | .error _ => trivial
    | .ok ()   =>
      dsimp only
      split
      · trivial
      · exact ⟨trivial, fun _ _ => trivial⟩

theorem dispatchAll : (Scheduler.dispatchAll cron now schedules).Follows Dispatcher (fun _ _ => True) claim := by
  induction schedules generalizing claim
  case nil          => trivial
  case cons _ _ hi  =>
    refine Prog.Follows.bind (dispatch.mono fun _ q _ => ?_)
    exact hi

theorem runDueSchedules : (Scheduler.runDueSchedules cron).Follows Dispatcher (fun _ _ => True) claim := by
  refine ⟨trivial, fun now _ => ⟨trivial, fun r _ => ?_⟩⟩
  match r with
  | .error _      => trivial
  | .ok schedules =>
    have h : ((Scheduler.dispatchAll cron now schedules).bind fun _ => .ret (.ok () : Except Error Unit)).Follows
        Dispatcher (fun _ _ => True) claim := Prog.Follows.bind (dispatchAll.mono fun _ _ _ => trivial)
    exact h

theorem upsertSchedule : (upsertSchedule cron req).Follows Dispatcher (fun _ _ => True) claim := by
  unfold JobPlatform.upsertSchedule
  split
  · trivial
  · split
    · trivial
    · split
      · trivial
      · exact ⟨trivial, fun now _ => ⟨trivial, fun _ _ => trivial⟩⟩

end Dispatcher

namespace Crontab

-- As long as a day has not gone by since the claim, its key is live.
def Keeps (w : Crontab) (c : Claim) : Prop :=
  c.claimedAt + Scheduler.dispatchTTL.milliseconds ≤ w.now.unixMilli ∨
  ∃ e, w.keys (scheduleDispatchKey c.scheduleID c.slot) = some e ∧
    c.claimedAt + Scheduler.dispatchTTL.milliseconds ≤ e

-- The claim that is made by a call.
def made (w : Crontab) : CronCall → Option Claim
  | .claimScheduleDispatch scheduleID slot ttl => (w.claimScheduleDispatch scheduleID slot ttl).2
  | _                                          => none

variable {accepts : JobRequest → Except Error Unit} {faults : Nat → Fault} {w w' : Crontab} {c : CronCall}
         {claim claim' : Claim} {scheduleID : String} {slot : Time} {ttl : Duration}

theorem claimScheduleDispatch_cases (w : Crontab) (scheduleID : String) (slot : Time) (ttl : Duration) :
    (w.live (scheduleDispatchKey scheduleID slot) = true ∧
      w.claimScheduleDispatch scheduleID slot ttl = (w, none)) ∨
    (w.live (scheduleDispatchKey scheduleID slot) = false ∧
      w.claimScheduleDispatch scheduleID slot ttl =
        ({ w with
          keys := Function.update w.keys (scheduleDispatchKey scheduleID slot)
            (some (w.now.unixMilli + ttl.milliseconds))
        }, some { scheduleID, slot, claimedAt := w.now.unixMilli })) := by
  cases hl : w.live (scheduleDispatchKey scheduleID slot)
  case true  => exact .inl ⟨rfl, by simp [claimScheduleDispatch, hl]⟩
  case false => exact .inr ⟨rfl, by simp [claimScheduleDispatch, hl]⟩

-- The calls which neither make claims nor use them.
def Silent : CronCall → Prop
  | .claimScheduleDispatch .. => False
  | .enqueueJob ..            => False
  | _                         => True

theorem upsertSchedule_frame {schedule : Schedule} :
    ∃ schedules, (w.upsertSchedule schedule).1 = { w with schedules } := by
  unfold upsertSchedule
  split
  · exact ⟨_, rfl⟩
  · split
    · exact ⟨_, rfl⟩
    · split
      · exact ⟨_, rfl⟩
      · split <;> exact ⟨_, rfl⟩

theorem claimScheduleDispatch_frame :
    ∃ keys, (w.claimScheduleDispatch scheduleID slot ttl).1 = { w with keys } := by
  match w.claimScheduleDispatch_cases scheduleID slot ttl with
  | .inl ⟨_, he⟩ => exact ⟨w.keys, by rw [he]⟩
  | .inr ⟨_, he⟩ => exact ⟨_, by rw [he]⟩

variable (accepts faults w)

theorem exec_silent {c : CronCall} (h : Silent c) :
    ∃ schedules, (w.exec accepts faults c).1 = { w with schedules, calls := w.calls + 1 } := by
  unfold exec
  cases c
  case claimScheduleDispatch => exact h.elim
  case enqueueJob            => exact h.elim
  case upsertSchedule schedule =>
    have ⟨schedules, hs⟩ := @upsertSchedule_frame w schedule
    cases faults w.calls <;> simp [effect, failed, hs]
  all_goals cases faults w.calls <;> exact ⟨_, rfl⟩

theorem exec_enqueueJob (claim : Claim) (req : JobRequest) : ∃ enqueued, (w.exec accepts faults (.enqueueJob claim req)).1 =
      { w.logged claim enqueued with calls := w.calls + 1 } := by
  unfold exec
  cases faults w.calls <;> exact ⟨_, rfl⟩

-- The claim is refused, or the key is set, and then the answer may be lost.
theorem exec_claim (scheduleID : String) (slot : Time) (ttl : Duration) :
    let x := w.exec accepts faults (.claimScheduleDispatch scheduleID slot ttl)
    (x.1 = { w with calls := w.calls + 1 } ∨
      x.1 = { (w.claimScheduleDispatch scheduleID slot ttl).1 with calls := w.calls + 1 }) ∧
    ∀ claim, x.2 = .ok (some claim) → x.1 = { (w.claimScheduleDispatch scheduleID slot ttl).1 with calls := w.calls + 1 } ∧
      (w.claimScheduleDispatch scheduleID slot ttl).2 = some claim := by
  unfold exec
  cases faults w.calls
  case none    => exact ⟨.inr rfl, fun claim hr => ⟨rfl, Except.ok.inj hr⟩⟩
  case refused => exact ⟨.inl rfl, fun claim hr => (nomatch hr)⟩
  case lost    => exact ⟨.inr rfl, fun claim hr => (nomatch hr)⟩

variable {accepts faults w}

namespace Keeps

-- A key that is not live any more can be set again.
theorem not_live (h : w.Keeps claim)
    (hl : w.live (scheduleDispatchKey claim.scheduleID claim.slot) = false) :
    claim.claimedAt + Scheduler.dispatchTTL.milliseconds ≤ w.now.unixMilli := by
  cases h
  case inl h => exact h
  case inr h =>
    have ⟨e, hk, he⟩ := h
    have hl : e ≤ w.now.unixMilli := by simpa [live, hk] using hl
    exact he.trans hl

theorem wait (h : w.Keeps claim) (hk : w'.keys = w.keys) (hn : w.now ≤ w'.now) : w'.Keeps claim := by
  cases h
  case inl h => exact .inl (h.trans (Time.unixMilli_mono hn))
  case inr h => exact .inr (hk ▸ h)

theorem claimed (h : w.Keeps claim) : (w.claimScheduleDispatch scheduleID slot ttl).1.Keeps claim := by
  match w.claimScheduleDispatch_cases scheduleID slot ttl with
  | .inl ⟨_, he⟩  => exact he ▸ h
  | .inr ⟨hl, he⟩ =>
    rw [he]
    by_cases hk : scheduleDispatchKey claim.scheduleID claim.slot = scheduleDispatchKey scheduleID slot
    case pos => exact .inl (h.not_live (hk ▸ hl))
    case neg => exact h.imp_right fun ⟨e, hs, he⟩ => ⟨e, (Function.update_of_ne hk ..).trans hs, he⟩

theorem exec (h : w.Keeps claim) (c : CronCall) : (w.exec accepts faults c).1.Keeps claim := by
  have hn : w.now ≤ w.clock.time (w.calls + 1) := w.clock.mono (Nat.le_succ w.calls)
  by_cases hs : Silent c
  case pos =>
    have ⟨_, he⟩ := exec_silent accepts faults w hs
    exact he ▸ h.wait rfl hn
  case neg =>
    cases c
    case claimScheduleDispatch scheduleID slot ttl =>
      match (exec_claim accepts faults w scheduleID slot ttl).left with
      | .inl he => exact he ▸ h.wait rfl hn
      | .inr he =>
        have hc : (w.claimScheduleDispatch scheduleID slot ttl).1.Keeps claim := h.claimed
        have ⟨keys, hk⟩ := @claimScheduleDispatch_frame w scheduleID slot ttl
        rw [he]
        rw [hk] at hc ⊢
        exact hc.wait rfl hn
    case enqueueJob claim' req =>
      have ⟨_, he⟩ := exec_enqueueJob accepts faults w claim' req
      exact he ▸ h.wait rfl hn
    all_goals exact absurd trivial hs

-- A new claim keeps its own key, and it is far from every claim that was made before.
theorem new (hc : (w.claimScheduleDispatch scheduleID slot Scheduler.dispatchTTL).2 = some claim) :
    (w.claimScheduleDispatch scheduleID slot Scheduler.dispatchTTL).1.Keeps claim ∧
    claim.claimedAt = w.now.unixMilli ∧ claim.scheduleID = scheduleID ∧ claim.slot = slot ∧
    ∀ claim', w.Keeps claim' → claim'.Far claim := by
  match w.claimScheduleDispatch_cases scheduleID slot Scheduler.dispatchTTL with
  | .inl ⟨_, he⟩  => rw [he] at hc; cases hc
  | .inr ⟨hl, he⟩ =>
    rw [he] at hc ⊢
    cases hc
    refine ⟨.inr ⟨_, Function.update_self .., le_rfl⟩, rfl, rfl, rfl, fun claim' hk hi hs => .inl ?_⟩
    exact hk.not_live (by rw [hi, hs]; exact hl)

end Keeps

end Crontab

theorem Dispatcher.silent {c : CronCall} (h : Crontab.Silent c) (r : c.Resp) :
    (∀ q, Dispatcher.next q c r = q) ∧ Dispatcher.Expected c r := by
  cases c
  case claimScheduleDispatch => exact h.elim
  case enqueueJob            => exact h.elim
  all_goals exact ⟨fun _ => rfl, trivial⟩

-- The processes that share the table of schedules and the dispatch keys. A process that is never run
-- again has crashed, and one that is spawned may be a restarted one.
abbrev Dispatchers :=
  Pool Dispatcher (Except Error Unit) Crontab

namespace Dispatchers

def semantics (accepts : JobRequest → Except Error Unit) (faults : Nat → Fault) :
    Pool.Semantics Dispatcher (Except Error Unit) Crontab where
  exec    := Crontab.exec accepts faults
  forks _ := []

def start (w : Crontab) : Dispatchers where
  world := { w with log := [] }
  procs := []

-- Schedulers execute due schedules, and schedules are stored by requests.
def Allowed (_ : Dispatchers) : Pool.Label Dispatcher (Except Error Unit) → Prop
  | .spawn p => p.state = none ∧ ∃ cron,
      p.prog = Scheduler.runDueSchedules cron ∨ ∃ req, p.prog = upsertSchedule cron req
  | .run _   => True

def heldFar (p p' : Proc Dispatcher (Except Error Unit)) : Prop :=
  ∀ c c', p.state = some c → p'.state = some c' → c.Far c'

-- The invariant of the processes.
structure Separate (s : Dispatchers) : Prop where
  follows  : ∀ p ∈ s.procs, p.prog.Follows Dispatcher (fun _ _ => True) p.state
  log      : s.world.log.Pairwise fun d d' => d.toClaim.Far d'.toClaim
  order    : ∀ d ∈ s.world.log, d.claimedAt ≤ d.calledAt
  kept     : ∀ d ∈ s.world.log, s.world.Keeps d.toClaim
  held     : Apart heldFar s.procs
  heldKept : ∀ p ∈ s.procs, ∀ c, p.state = some c → s.world.Keeps c ∧ c.claimedAt ≤ s.world.now.unixMilli
  heldLog  : ∀ p ∈ s.procs, ∀ c, p.state = some c → ∀ d ∈ s.world.log, d.toClaim.Far c

theorem heldFar.symm {p p' : Proc Dispatcher (Except Error Unit)} (h : heldFar p p') : heldFar p' p :=
  fun c c' hc hc' => (h c' c hc' hc).symm

namespace Separate

variable {s : Dispatchers} {accepts : JobRequest → Except Error Unit} {faults : Nat → Fault} {w : Crontab}
         {p p' : Proc Dispatcher (Except Error Unit)} {i : Nat}

theorem start : Separate (start w) where
  follows  := by simp [Dispatchers.start]
  log      := .nil
  order    := by simp [Dispatchers.start]
  kept     := by simp [Dispatchers.start]
  held     := .nil
  heldKept := by simp [Dispatchers.start]
  heldLog  := by simp [Dispatchers.start]

theorem spawn (h : Separate s) (hp : p.prog.Follows Dispatcher (fun _ _ => True) p.state) (hn : p.state = none) :
    Separate { s with procs := s.procs ++ [p] } where
  follows  := by simpa [or_imp, forall_and] using ⟨h.follows, hp⟩
  log      := h.log
  order    := h.order
  kept     := h.kept
  held     := h.held.snoc (fun _ _ => heldFar.symm) fun p' _ c c' hc => by simp [hn] at hc
  heldKept := by simpa [or_imp, forall_and, hn] using h.heldKept
  heldLog  := by simpa [or_imp, forall_and, hn] using h.heldLog

-- The other processes do not notice a call.
theorem call {w' : Crontab} (h : Separate s) (hi : s.procs[i]? = some p)
    (p' : Proc Dispatcher (Except Error Unit))
    (hf : p'.prog.Follows Dispatcher (fun _ _ => True) p'.state)
    (hk : ∀ c, s.world.Keeps c → w'.Keeps c) (hn : s.world.now ≤ w'.now) (hl : w'.log = s.world.log)
    (hs : ∀ c, p'.state = some c → p.state = some c ∨
      w'.Keeps c ∧ c.claimedAt ≤ w'.now.unixMilli ∧ ∀ c', s.world.Keeps c' → c'.Far c) :
    Separate { world := w', procs := s.procs.set i p' } := by
  have hm (q) (hq : q ∈ s.procs.set i p') : q ∈ s.procs.eraseIdx i ∨ q = p' := Apart.mem_of_mem_set hq
  have ho {q} (hq : q ∈ s.procs.eraseIdx i) : q ∈ s.procs := List.mem_of_mem_eraseIdx hq
  have hp : p ∈ s.procs := List.mem_of_getElem? hi
  constructor
  case log   => exact hl ▸ h.log
  case order => exact hl ▸ h.order
  case kept  => exact fun d hd => hk _ (h.kept d (hl ▸ hd))
  case follows =>
    intro q hq
    match hm q hq with
    | .inl hq => exact h.follows q (ho hq)
    | .inr he => exact he ▸ hf
  case held =>
    refine h.held.set (fun _ _ => heldFar.symm) fun q hq c c' hc hc' => ?_
    match hs c hc with
    | .inl hc            => exact h.held.rel hi hq c c' hc hc'
    | .inr ⟨_, _, hfar⟩ => exact (hfar c' (h.heldKept q (ho hq) c' hc').left).symm
  case heldKept =>
    have hold (q) (hq : q ∈ s.procs) (c) (hc : q.state = some c) : w'.Keeps c ∧ c.claimedAt ≤ w'.now.unixMilli :=
      have ⟨hkc, ht⟩ := h.heldKept q hq c hc
      ⟨hk c hkc, ht.trans (Time.unixMilli_mono hn)⟩
    intro q hq c hc
    match hm q hq with
    | .inl hq => exact hold q (ho hq) c hc
    | .inr he =>
      match hs c (he ▸ hc) with
      | .inl hc            => exact hold p hp c hc
      | .inr ⟨hkc, ht, _⟩ => exact ⟨hkc, ht⟩
  case heldLog =>
    intro q hq c hc d hd
    have hd : d ∈ s.world.log := hl ▸ hd
    match hm q hq with
    | .inl hq => exact h.heldLog q (ho hq) c hc d hd
    | .inr he =>
      match hs c (he ▸ hc) with
      | .inl hc            => exact h.heldLog p hp c hc d hd
      | .inr ⟨_, _, hfar⟩ => exact hfar _ (h.kept d hd)

-- A process uses the claim that it holds.
theorem enqueue {w' : Crontab} {d : Dispatch} (h : Separate s) (hi : s.procs[i]? = some p)
    (p' : Proc Dispatcher (Except Error Unit))
    (hf : p'.prog.Follows Dispatcher (fun _ _ => True) p'.state)
    (hk : ∀ c, s.world.Keeps c → w'.Keeps c) (hn : s.world.now ≤ w'.now) (hl : w'.log = s.world.log ++ [d])
    (hd : p.state = some d.toClaim) (ht : d.calledAt = s.world.now.unixMilli) (hs : p'.state = none) :
    Separate { world := w', procs := s.procs.set i p' } := by
  have hm (q) (hq : q ∈ s.procs.set i p') : q ∈ s.procs.eraseIdx i ∨ q = p' := Apart.mem_of_mem_set hq
  have ho {q} (hq : q ∈ s.procs.eraseIdx i) : q ∈ s.procs := List.mem_of_mem_eraseIdx hq
  have hp : p ∈ s.procs := List.mem_of_getElem? hi
  have ⟨hkd, hc⟩ := h.heldKept p hp _ hd
  constructor
  case log =>
    rw [hl]
    refine List.pairwise_append.mpr ⟨h.log, by simp, fun d' hd' d'' hd'' => ?_⟩
    cases List.mem_singleton.mp hd''
    exact h.heldLog p hp _ hd d' hd'
  case order => simpa [hl, or_imp, forall_and] using ⟨h.order, ht ▸ hc⟩
  case kept  =>
    have hkept (d) (hd : d ∈ s.world.log) : w'.Keeps d.toClaim := hk _ (h.kept d hd)
    simpa [hl, or_imp, forall_and] using ⟨hkept, hk _ hkd⟩
  case follows =>
    intro q hq
    match hm q hq with
    | .inl hq => exact h.follows q (ho hq)
    | .inr he => exact he ▸ hf
  case held =>
    refine h.held.set (fun _ _ => heldFar.symm) fun q hq c c' hc => ?_
    rw [hs] at hc
    cases hc
  case heldKept =>
    intro q hq c hc
    match hm q hq with
    | .inr he => rw [he, hs] at hc; cases hc
    | .inl hq =>
      have ⟨hkc, ht⟩ := h.heldKept q (ho hq) c hc
      exact ⟨hk c hkc, ht.trans (Time.unixMilli_mono hn)⟩
  case heldLog =>
    intro q hq c hc d' hd'
    match hm q hq with
    | .inr he => rw [he, hs] at hc; cases hc
    | .inl hq =>
      rw [hl] at hd'
      cases List.mem_append.mp hd'
      case inl hd' => exact h.heldLog q (ho hq) c hc d' hd'
      case inr hd' =>
        cases List.mem_singleton.mp hd'
        exact h.held.rel hi hq _ _ hd hc

-- What a call that answers a claim leaves behind.
theorem claimed {scheduleID : String} {slot : Time} {claim : Claim}
    (hr : (w.exec accepts faults (.claimScheduleDispatch scheduleID slot Scheduler.dispatchTTL)).2 = .ok (some claim)) :
    let w' := (w.exec accepts faults (.claimScheduleDispatch scheduleID slot Scheduler.dispatchTTL)).1
    w'.Keeps claim ∧ claim.claimedAt ≤ w'.now.unixMilli ∧ claim.scheduleID = scheduleID ∧ claim.slot = slot ∧
    ∀ claim', w.Keeps claim' → claim'.Far claim := by
  have ⟨he, hc⟩ := (Crontab.exec_claim accepts faults w scheduleID slot Scheduler.dispatchTTL).right claim hr
  have ⟨hk, ht, hi, hs, hf⟩ := Crontab.Keeps.new hc
  have hn : w.now ≤ w.clock.time (w.calls + 1) := w.clock.mono (Nat.le_succ w.calls)
  have ⟨keys, hw⟩ := @Crontab.claimScheduleDispatch_frame w scheduleID slot Scheduler.dispatchTTL
  dsimp only
  rw [he]
  rw [hw] at hk ⊢
  exact ⟨hk.wait rfl hn, ht ▸ Time.unixMilli_mono hn, hi, hs, hf⟩

theorem run (h : Separate s) (i : Nat) : Separate (Pool.step (semantics accepts faults) s (.run i)) := by
  refine Pool.step_run_rule _ h fun c k q hi => ?_
  have ⟨ha, hf⟩ := h.follows _ (List.mem_of_getElem? hi)
  have hn : s.world.now ≤ s.world.clock.time (s.world.calls + 1) :=
    s.world.clock.mono (Nat.le_succ s.world.calls)
  have hk (claim) (hc : s.world.Keeps claim) : (s.world.exec accepts faults c).1.Keeps claim := hc.exec c
  simp only [semantics, List.append_nil]
  by_cases hs : Crontab.Silent c
  case pos =>
    have ⟨_, hx⟩ := Crontab.exec_silent accepts faults s.world hs
    have ⟨he, hp⟩ := Dispatcher.silent hs (s.world.exec accepts faults c).2
    refine h.call hi ⟨k _, _⟩ (hf _ hp) hk ?_ ?_ fun claim hc => .inl ((he q).symm.trans hc)
    · rw [hx]; exact hn
    · rw [hx]
  case neg =>
    cases c
    case claimScheduleDispatch scheduleID slot ttl =>
      cases (ha : ttl = Scheduler.dispatchTTL)
      have ⟨keys, hw⟩ := @Crontab.claimScheduleDispatch_frame s.world scheduleID slot Scheduler.dispatchTTL
      have hx := (Crontab.exec_claim accepts faults s.world scheduleID slot Scheduler.dispatchTTL).left
      rw [hw] at hx
      refine h.call hi ⟨k _, _⟩ (hf _ fun claim hr => ?_) hk ?_ ?_ fun claim hc => .inr ?_
      · have ⟨_, _, hi, hs, _⟩ := claimed hr
        exact ⟨hi, hs⟩
      · cases hx
        case inl hx => rw [hx]; exact hn
        case inr hx => rw [hx]; exact hn
      · cases hx
        case inl hx => rw [hx]
        case inr hx => rw [hx]
      · have hr : (s.world.exec accepts faults (.claimScheduleDispatch scheduleID slot Scheduler.dispatchTTL)).2 =
            .ok (some claim) := by
          generalize (s.world.exec accepts faults _).2 = r at hc
          match r with
          | .error _      => cases hc
          | .ok none      => cases hc
          | .ok (some _)  => cases hc; rfl
        have ⟨hk, ht, _, _, hf⟩ := claimed hr
        exact ⟨hk, ht, hf⟩
    case enqueueJob claim req =>
      have ⟨enqueued, hx⟩ := Crontab.exec_enqueueJob accepts faults s.world claim req
      have hl : (s.world.exec accepts faults (.enqueueJob claim req)).1.log =
          s.world.log ++ [{ claim with calledAt := s.world.now.unixMilli, enqueued }] := by
        rw [hx]
        rfl
      refine h.enqueue hi ⟨k _, none⟩ (hf _ trivial) hk ?_ hl ha rfl rfl
      rw [hx]
      exact hn
    all_goals exact absurd trivial hs

theorem step {l : Pool.Label Dispatcher (Except Error Unit)} (h : Separate s) (ha : s.Allowed l) :
    Separate (Pool.step (semantics accepts faults) s l) := by
  cases l
  case run i   => exact h.run i
  case spawn p =>
    have ⟨hn, cron, hp⟩ := ha
    refine h.spawn ?_ hn
    match hp with
    | .inl hp        => exact hp ▸ Dispatcher.runDueSchedules
    | .inr ⟨_, hp⟩ => exact hp ▸ Dispatcher.upsertSchedule

end Separate

-- Each call of `EnqueueJob` is preceded by a claim of its own, and the claims of a slot are a day apart.
structure OncePerClaim (log : List Dispatch) : Prop where
  order : ∀ d ∈ log, d.claimedAt ≤ d.calledAt
  apart : log.Pairwise fun d d' => d.toClaim.Far d'.toClaim

-- The calls themselves are a day apart.
def OncePerDay (log : List Dispatch) : Prop :=
  log.Pairwise fun d d' => d.scheduleID = d'.scheduleID → d.slot = d'.slot →
    d.calledAt + Scheduler.dispatchTTL.milliseconds ≤ d'.calledAt

instance {log : List Dispatch} : Decidable (OncePerDay log) :=
  inferInstanceAs (Decidable (List.Pairwise ..))

-- However the processes take turns, and whatever fails, each claim leads to at most one call.
theorem oncePerClaim_of_allowed {accepts : JobRequest → Except Error Unit} {faults : Nat → Fault} {w : Crontab}
    {ls : List (Pool.Label Dispatcher (Except Error Unit))}
    (hg : Run.Guarded (Pool.step (semantics accepts faults)) Allowed (start w) ls) :
    OncePerClaim (Run.last (Pool.step (semantics accepts faults)) (start w) ls).world.log := by
  have h := hg.invariant (fun _ _ => Separate.step) Separate.start
  exact ⟨h.order, h.log⟩

namespace Sample

-- Every schedule runs once an hour.
def cron : CronPackages where
  Location        := Unit
  utc             := ()
  loadLocation _  := .ok ()
  Spec            := Unit
  parseStandard _ := .ok ()
  next _ _ now    := now + 60 * Duration.minute
  newSHA1 name    := name

def schedule : Schedule where
  id             := "schedule-1"
  name           := "hourly"
  cronExpression := "0 * * * *"
  queue          := "default"
  type           := "email.send"
  payload        := "\x7b\x7d"
  priority       := 5
  maxAttempts    := 5
  timeoutSeconds := 0
  enabled        := true
  timezone       := "UTC"
  nextRunAt      := .ofUnixMilli 1699999200000
  lastRunAt      := none
  createdAt      := .ofUnixMilli 1699990000000
  updatedAt      := .ofUnixMilli 1699990000000

-- The clock of a scheduler that does nothing for a day after its third call.
def pausing : Clock where
  time calls := .ofUnixMilli <| 1700000000000 + calls + if calls < 3 then 0 else 86400000
  mono       := by
    intro i j h
    refine Int.mul_le_mul_of_nonneg_right ?_ (by decide)
    split <;> split <;> omega

def crontab (clock : Clock) : Crontab where
  clock     := clock
  calls     := 0
  schedules := [schedule]
  keys _    := none
  log       := []

def pass : Pool.Label Dispatcher (Except Error Unit) :=
  .spawn ⟨Scheduler.runDueSchedules cron, none⟩

-- Another scheduler comes while the first one pauses between the claim and the call of `EnqueueJob`.
def labels : List (Pool.Label Dispatcher (Except Error Unit)) :=
  [pass, .run 0, .run 0, .run 0, pass, .run 1, .run 1, .run 1, .run 1, .run 0]

end Sample

theorem guarded_sample {accepts : JobRequest → Except Error Unit} {faults : Nat → Fault} {w : Crontab} :
    Run.Guarded (Pool.step (semantics accepts faults)) Allowed (start w) Sample.labels := by
  have hp (s : Dispatchers) : s.Allowed Sample.pass := ⟨rfl, Sample.cron, .inl rfl⟩
  exact ⟨hp _, trivial, trivial, trivial, hp _, trivial, trivial, trivial, trivial, trivial, trivial⟩

theorem oncePerClaim_of_allowed_sample : OncePerClaim (Run.last
    (Pool.step (semantics (fun _ => .ok ()) (fun _ => .none))) (start (Sample.crontab .sample)) Sample.labels).world.log :=
  oncePerClaim_of_allowed guarded_sample

example : (Run.last (Pool.step (semantics (fun _ => .ok ()) (fun _ => .none)))
    (start (Sample.crontab .sample)) Sample.labels).world.log.length = 1 := by
  decide +kernel

-- A scheduler that pauses for a day calls `EnqueueJob` for a slot that was claimed again.
theorem not_oncePerDay :
    let step := Pool.step (semantics (fun _ => .ok ()) (fun _ => .none))
    Run.Guarded step Allowed (start (Sample.crontab Sample.pausing)) Sample.labels ∧
    ¬OncePerDay (Run.last step (start (Sample.crontab Sample.pausing)) Sample.labels).world.log :=
  ⟨guarded_sample, by decide +kernel⟩

end Dispatchers
end JobPlatform
