import Mathlib.Data.Finset.Basic
import Mathlib.Data.List.Basic
import Mathlib.Logic.Function.Basic

namespace JobPlatform.Live

inductive Panic
  | closeOfClosedChannel
  | sendOnClosedChannel
  deriving DecidableEq

structure Channel where
  buffer : List String
  closed : Bool

namespace Channel

-- The size of the buffer that `RegisterSSE` asks for.
def capacity : Nat := 32

def new : Channel where
  buffer := []
  closed := false

def close (c : Channel) : Except Panic Channel :=
  if c.closed then .error .closeOfClosedChannel else .ok { c with closed := true }

-- The send in a `select` with a default case, which is taken if the buffer is full.
def trySend (payload : String) (c : Channel) : Except Panic (Option Channel) :=
  if c.closed then .error .sendOnClosedChannel
  else if c.buffer.length < capacity then .ok (some { c with buffer := c.buffer ++ [payload] })
  else .ok none

end Channel

-- Where a call of `RegisterSSE` has got to.
inductive Stage
  | registering
  | reading
  | leaving
  | done
  deriving DecidableEq

-- A stream with the payloads that its loop has read, and the broadcasts that have been made since it registered.
structure Stream where
  channel  : Channel
  stage    : Stage
  received : List String
  since    : List String

-- What the method that holds the mutex still has to do for the streams.
inductive Method
  | broadcast (payload : String) (pending : Finset Nat)
  | closeAll (pending : Finset Nat)

structure Hub where
  streamClients : Finset Nat
  streams       : Nat → Option Stream
  mu            : Option Method

-- The calls to the hub's methods, and what happens in the loop of a stream. The methods take the mutex, and those
-- that go through the clients visit them in any order.
inductive HubLabel
  | connect (i : Nat)
  | registerStream (i : Nat)
  | read (i : Nat)
  | leave (i : Nat)
  | unregisterStream (i : Nat)
  | broadcast (payload : String)
  | closeAll
  | visit (i : Nat)
  | unlock

namespace Stream

def new : Stream where
  channel  := .new
  stage    := .registering
  received := []
  since    := []

def registered (s : Stream) : Bool :=
  s.stage ≠ .registering

-- A stream that has registered will see the payload if it keeps up.
def announce (payload : String) (s : Stream) : Stream :=
  if s.registered then { s with since := s.since ++ [payload] } else s

-- The loop ends when the channel is closed and everything has been read from it.
def read (s : Stream) : Stream :=
  match s.channel.buffer with
  | payload :: rest => { s with channel.buffer := rest, received := s.received ++ [payload] }
  | []              => if s.channel.closed then { s with stage := .leaving } else s

end Stream

namespace Hub

def initial : Hub where
  streamClients := ∅
  streams _     := none
  mu            := none

def set (h : Hub) (i : Nat) (s : Stream) : Hub :=
  { h with streams := Function.update h.streams i (some s) }

def connect (i : Nat) (h : Hub) : Hub :=
  if h.streams i = none then h.set i .new else h

def registerStream (i : Nat) (h : Hub) : Hub :=
  match h.streams i, h.mu with
  | some s, none =>
    if s.stage = .registering then
      { h.set i { s with stage := .reading } with streamClients := insert i h.streamClients }
    else
      h
  | _, _ => h

def read (i : Nat) (h : Hub) : Hub :=
  match h.streams i with
  | some s => if s.stage = .reading then h.set i s.read else h
  | none   => h

-- The request is over, or a write fails.
def leave (i : Nat) (h : Hub) : Hub :=
  match h.streams i with
  | some s => if s.stage = .reading then h.set i { s with stage := .leaving } else h
  | none   => h

def unregisterStream (i : Nat) (h : Hub) : Except Panic Hub :=
  match h.streams i, h.mu with
  | some s, none =>
    if s.stage = .leaving then
      if i ∈ h.streamClients then do
        let channel ← s.channel.close
        return { h.set i { s with stage := .done, channel } with streamClients := h.streamClients.erase i }
      else
        return h.set i { s with stage := .done }
    else
      return h
  | _, _ => return h

def broadcast (payload : String) (h : Hub) : Hub :=
  match h.mu with
  | none   =>
    { h with
      streams i := (h.streams i).map (·.announce payload)
      mu        := some (.broadcast payload h.streamClients) }
  | some _ => h

def closeAll (h : Hub) : Hub :=
  match h.mu with
  | none   => { h with mu := some (.closeAll h.streamClients) }
  | some _ => h

def cutOff (i : Nat) (s : Stream) (h : Hub) : Except Panic Hub := do
  let channel ← s.channel.close
  return { h.set i { s with channel } with streamClients := h.streamClients.erase i }

def send (payload : String) (i : Nat) (s : Stream) (h : Hub) : Except Panic Hub := do
  match ← s.channel.trySend payload with
  | some channel => return h.set i { s with channel }
  | none         => h.cutOff i s

def visit (i : Nat) (h : Hub) : Except Panic Hub :=
  match h.mu, h.streams i with
  | some (.broadcast payload pending), some s =>
    if i ∈ pending then
      send payload i s { h with mu := some (.broadcast payload (pending.erase i)) }
    else
      return h
  | some (.closeAll pending), some s          =>
    if i ∈ pending then
      cutOff i s { h with mu := some (.closeAll (pending.erase i)) }
    else
      return h
  | _, _                                      => return h

-- The method returns when it has visited all of the clients.
def unlock (h : Hub) : Hub :=
  match h.mu with
  | some (.broadcast _ pending) | some (.closeAll pending) => if pending = ∅ then { h with mu := none } else h
  | none                                                   => h

def step (h : Hub) : HubLabel → Except Panic Hub
  | .connect i          => return h.connect i
  | .registerStream i   => return h.registerStream i
  | .read i             => return h.read i
  | .leave i            => return h.leave i
  | .unregisterStream i => h.unregisterStream i
  | .broadcast payload  => return h.broadcast payload
  | .closeAll           => return h.closeAll
  | .visit i            => h.visit i
  | .unlock             => return h.unlock

def run (ls : List HubLabel) : Except Panic Hub :=
  ls.foldlM step initial

-- The clients that the loop of a method has not visited yet.
def pending (h : Hub) : Finset Nat :=
  match h.mu with
  | some (.broadcast _ pending) | some (.closeAll pending) => pending
  | none                                                   => ∅

-- What is still to be sent to the stream in the broadcast that is going on.
def underway (h : Hub) (i : Nat) : List String :=
  match h.mu with
  | some (.broadcast payload pending) => if i ∈ pending then [payload] else []
  | _                                 => []

end Hub

structure Stream.Sound (s : Stream) (underway : List String) : Prop where
  room    : s.channel.buffer.length ≤ Channel.capacity
  fresh   : ¬s.registered → s.channel = .new ∧ s.received = [] ∧ s.since = []
  entire  : s.registered → ¬s.channel.closed → s.received ++ s.channel.buffer ++ underway = s.since
  gapless : s.received ++ s.channel.buffer <+: s.since

namespace Stream.Sound

variable {s : Stream} {underway : List String} {payload : String}

-- A payload moves from the buffer to what has been read, and no payload is lost.
theorem read (h : s.Sound underway) (hr : s.registered) : s.read.Sound underway := by
  unfold Stream.read
  split
  case h_1 payload rest hb =>
    have hl := h.room
    have he := h.entire hr
    have hg := h.gapless
    simp only [hb, List.length_cons, List.append_assoc, List.cons_append] at hl he hg
    refine ⟨Nat.le_of_succ_le hl, fun hn => absurd hr hn, fun _ hc => ?_, ?_⟩
    · simpa using he hc
    · simpa using hg
  case h_2 hb =>
    split
    case isFalse    => exact h
    case isTrue hcl => exact ⟨h.room, nofun, fun _ hn => absurd hcl hn, h.gapless⟩

theorem leave {stage : Stage} (h : s.Sound underway) (hr : s.registered) (hn : stage ≠ .registering) :
    Sound { s with stage } underway where
  room        := h.room
  fresh hn'   := absurd (decide_eq_true hn) hn'
  entire _ hc := h.entire hr hc
  gapless     := h.gapless

-- Whatever has been sent to a closed stream can still be read.
theorem close (h : s.Sound underway) (hr : s.registered) : Sound { s with channel.closed := true } [] where
  room        := h.room
  fresh hn    := absurd hr hn
  entire _ hc := absurd rfl hc
  gapless     := h.gapless

theorem announce (h : s.Sound []) (ho : s.registered → ¬s.channel.closed → underway = [payload])
    (hc : ¬s.registered ∨ s.channel.closed → underway = []) : (s.announce payload).Sound underway := by
  unfold Stream.announce
  split
  case isFalse hr =>
    rw [hc (.inl hr)]
    exact h
  case isTrue hr  =>
    refine ⟨h.room, fun hn => absurd hr hn, fun _ hn => ?_, h.gapless.trans (List.prefix_append ..)⟩
    have he := h.entire hr hn
    rw [List.append_nil] at he
    rw [ho hr hn, he]

theorem send (h : s.Sound [payload]) (hr : s.registered) (hc : ¬s.channel.closed)
    (hl : s.channel.buffer.length < Channel.capacity) :
    Sound { s with channel.buffer := s.channel.buffer ++ [payload] } [] := by
  have he := h.entire hr hc
  refine ⟨by simpa using Nat.succ_le_of_lt hl, fun hn => absurd hr hn, fun _ _ => ?_, ?_⟩
  · simpa using he
  · simp [← he]

end Stream.Sound

namespace Hub

structure Inv (h : Hub) : Prop where
  members : ∀ i, i ∈ h.streamClients ↔ ∃ s, h.streams i = some s ∧ s.registered ∧ ¬s.channel.closed
  pending : h.pending ⊆ h.streamClients
  sound   : ∀ i s, h.streams i = some s → s.Sound (h.underway i)

variable {h h' : Hub} {i : Nat} {s s' : Stream} {payload : String} {pending : Finset Nat}

theorem initial_inv : Inv initial where
  members _   := iff_of_false (Finset.notMem_empty _) nofun
  pending     := Finset.Subset.refl _
  sound _ _ h := nomatch h

-- Only one stream has changed.
theorem Inv.replace (hi : Inv h) (hs : h'.streams = Function.update h.streams i (some s'))
    (hc : ∀ j ≠ i, j ∈ h'.streamClients ↔ j ∈ h.streamClients)
    (hu : ∀ j ≠ i, h'.underway j = h.underway j)
    (hm : i ∈ h'.streamClients ↔ s'.registered ∧ ¬s'.channel.closed) (hp : h'.pending ⊆ h'.streamClients)
    (hsound : s'.Sound (h'.underway i)) : Inv h' where
  members j := by
    rw [hs]
    by_cases hj : j = i
    case pos => subst hj; simpa using hm
    case neg => rw [hc j hj, Function.update_of_ne hj]; exact hi.members j
  pending := hp
  sound j s h := by
    rw [hs] at h
    by_cases hj : j = i
    case pos =>
      subst hj
      rw [Function.update_self] at h
      cases h
      exact hsound
    case neg =>
      rw [Function.update_of_ne hj] at h
      exact hu j hj ▸ hi.sound j s h

-- The clients, the mutex and whether the channel is closed stay as they are.
theorem Inv.set (hi : Inv h) (hs : h.streams i = some s) (hr : s'.registered = s.registered)
    (hc : s'.channel.closed = s.channel.closed) (hsound : s'.Sound (h.underway i)) : Inv (h.set i s') := by
  refine hi.replace rfl (fun _ _ => .rfl) (fun _ _ => rfl) ?_ hi.pending hsound
  rw [hr, hc]
  exact (hi.members i).trans ⟨fun ⟨s', hs', h⟩ => Option.some.inj (hs.symm.trans hs') ▸ h, fun h => ⟨s, hs, h⟩⟩

@[simp]
theorem announce_registered : (s.announce payload).registered = s.registered := by
  unfold Stream.announce
  split <;> rfl

@[simp]
theorem announce_channel : (s.announce payload).channel = s.channel := by
  unfold Stream.announce
  split <;> rfl

theorem connect_inv (hi : Inv h) : Inv (h.connect i) := by
  unfold connect
  split
  case isFalse   => exact hi
  case isTrue hn =>
    have hm : i ∉ h.streamClients := fun hm => by simpa [hn] using (hi.members i).mp hm
    refine hi.replace rfl (fun _ _ => .rfl) (fun _ _ => rfl) (iff_of_false hm nofun) hi.pending ?_
    exact ⟨Nat.zero_le _, fun _ => ⟨rfl, rfl, rfl⟩, nofun, List.nil_prefix⟩

theorem registerStream_inv (hi : Inv h) : Inv (h.registerStream i) := by
  unfold registerStream
  split
  case h_2          => exact hi
  case h_1 s hs hmu =>
    split
    case isFalse   => exact hi
    case isTrue hr =>
      have hsound := hi.sound i s hs
      have ⟨hch, hrec, hsince⟩ := hsound.fresh (by simp [Stream.registered, hr])
      refine hi.replace rfl (fun j hj => by simp [hj]) (fun _ _ => rfl) ?_ ?_ ?_
      · exact iff_of_true (Finset.mem_insert_self i _) ⟨rfl, by simp [hch, Channel.new]⟩
      · exact hi.pending.trans (Finset.subset_insert i _)
      · refine ⟨hsound.room, nofun, fun _ _ => ?_, hsound.gapless⟩
        simp [underway, set, hmu, hch, hrec, hsince, Channel.new]

theorem read_inv (hi : Inv h) : Inv (h.read i) := by
  unfold read
  split
  case h_2      => exact hi
  case h_1 s hs =>
    split
    case isFalse   => exact hi
    case isTrue hr =>
      have hr : s.registered := by simp [Stream.registered, hr]
      refine hi.set hs ?_ ?_ ((hi.sound i s hs).read hr)
      · unfold Stream.read
        split
        · rfl
        · split
          · exact hr.symm
          · rfl
      · unfold Stream.read
        split
        · rfl
        · split <;> rfl

theorem leave_inv (hi : Inv h) : Inv (h.leave i) := by
  unfold leave
  split
  case h_2      => exact hi
  case h_1 s hs =>
    split
    case isFalse   => exact hi
    case isTrue hr =>
      have hr : s.registered := by simp [Stream.registered, hr]
      exact hi.set hs hr.symm rfl ((hi.sound i s hs).leave hr nofun)

theorem underway_eq_nil (hn : i ∉ h.pending) : h.underway i = [] := by
  unfold underway
  split
  case h_1 hmu => exact if_neg <| by simpa [Hub.pending, hmu] using hn
  case h_2     => rfl

-- A client is registered, and its channel is open.
theorem Inv.client (hi : Inv h) (hs : h.streams i = some s) (hm : i ∈ h.streamClients) :
    s.registered ∧ ¬s.channel.closed := by
  obtain ⟨s', hs', h⟩ := (hi.members i).mp hm
  exact Option.some.inj (hs.symm.trans hs') ▸ h

theorem Inv.close (hi : Inv h) (hsound : s'.Sound []) (hcl : s'.channel.closed)
    (hs : h'.streams = Function.update h.streams i (some s')) (hc : h'.streamClients = h.streamClients.erase i)
    (hp : h'.pending = h.pending.erase i) (hu : ∀ j ≠ i, h'.underway j = h.underway j) : Inv h' := by
  refine hi.replace hs (fun j hj => by simp [hc, hj]) hu ?_ ?_ ?_
  · exact iff_of_false (by simp [hc]) fun hn => hn.right hcl
  · rw [hp, hc]
    exact Finset.erase_subset_erase i hi.pending
  · rwa [underway_eq_nil (by simp [hp])]

-- The call ends without a panic.
def Safe (r : Except Panic Hub) : Prop :=
  ∃ h, r = .ok h ∧ Inv h

theorem unregisterStream_safe (hi : Inv h) : Safe (h.unregisterStream i) := by
  unfold unregisterStream
  split
  case h_2          => exact ⟨h, rfl, hi⟩
  case h_1 s hs hmu =>
    split
    case isFalse   => exact ⟨h, rfl, hi⟩
    case isTrue hl =>
      have hr : s.registered := by simp [Stream.registered, hl]
      have hu (j) : h.underway j = [] := underway_eq_nil (by simp [Hub.pending, hmu])
      have hsound := hi.sound i s hs
      split
      case isTrue hm  =>
        have ho := (hi.client hs hm).right
        refine ⟨_, by simp only [Channel.close, if_neg ho]; rfl, ?_⟩
        have hn : Stage.done ≠ .registering := nofun
        refine hi.close ((hsound.leave hr hn).close rfl) rfl rfl rfl ?_ fun _ _ => rfl
        simp [Hub.pending, set, hmu]
      case isFalse hm => exact ⟨_, rfl, hi.set hs hr.symm rfl (hsound.leave hr nofun)⟩

theorem broadcast_inv (hi : Inv h) : Inv (h.broadcast payload) := by
  unfold broadcast
  split
  case h_2     => exact hi
  case h_1 hmu =>
    constructor
    case members =>
      intro i
      rw [hi.members i]
      cases hs : h.streams i
      case none   => simp [hs]
      case some s => simp [hs]
    case pending => exact Finset.Subset.refl _
    case sound   =>
      intro i s hs
      obtain ⟨s, hs', rfl⟩ := Option.map_eq_some_iff.mp hs
      have hsound := hi.sound i s hs'
      rw [underway_eq_nil (by simp [Hub.pending, hmu])] at hsound
      refine hsound.announce (fun hr hc => ?_) fun hn => ?_
      · exact if_pos <| (hi.members i).mpr ⟨s, hs', hr, hc⟩
      · refine if_neg fun hm => ?_
        have ⟨hr, hc⟩ := hi.client hs' hm
        exact hn.elim (absurd hr) hc

theorem closeAll_inv (hi : Inv h) : Inv h.closeAll := by
  unfold closeAll
  split
  case h_2     => exact hi
  case h_1 hmu =>
    refine ⟨hi.members, Finset.Subset.refl _, fun i s hs => ?_⟩
    have hsound := hi.sound i s hs
    rwa [underway_eq_nil (by simp [Hub.pending, hmu])] at hsound

theorem visit_safe (hi : Inv h) : Safe (h.visit i) := by
  unfold visit
  split
  case h_1 payload pending s hmu hs =>
    split
    case isFalse   => exact ⟨h, rfl, hi⟩
    case isTrue hm =>
      have hp : h.pending = pending := by simp [Hub.pending, hmu]
      have hmem : i ∈ h.streamClients := hi.pending (hp.symm ▸ hm)
      have ⟨hr, hc⟩ := hi.client hs hmem
      have hsound := hi.sound i s hs
      have hu (j) (hj : j ≠ i) :
          underway { h with mu := some (.broadcast payload (pending.erase i)) } j = h.underway j := by
        simp [underway, hmu, hj]
      have hui : h.underway i = [payload] := by simp [underway, hmu, hm]
      rw [hui] at hsound
      by_cases hl : s.channel.buffer.length < Channel.capacity
      case pos =>
        refine ⟨_, by simp only [send, Channel.trySend, if_neg hc, if_pos hl]; rfl, ?_⟩
        refine hi.replace rfl (fun _ _ => .rfl) hu (iff_of_true hmem ⟨hr, hc⟩) ?_ ?_
        · exact (Finset.erase_subset i pending).trans (hp ▸ hi.pending)
        · rw [underway_eq_nil (Finset.notMem_erase i pending)]
          exact hsound.send hr hc hl
      case neg =>
        refine ⟨_, by simp only [send, Channel.trySend, if_neg hc, if_neg hl, cutOff, Channel.close]; rfl, ?_⟩
        exact hi.close (hsound.close hr) rfl rfl rfl (by simp [Hub.pending, set, hmu]) hu
  case h_2 pending s hmu hs         =>
    split
    case isFalse   => exact ⟨h, rfl, hi⟩
    case isTrue hm =>
      have ⟨hr, hc⟩ := hi.client hs (hi.pending (by simpa [Hub.pending, hmu] using hm))
      refine ⟨_, by simp only [cutOff, Channel.close, if_neg hc]; rfl, ?_⟩
      refine hi.close ((hi.sound i s hs).close hr) rfl rfl rfl (by simp [Hub.pending, set, hmu]) fun j _ => ?_
      simp [underway, set, hmu]
  case h_3 => exact ⟨h, rfl, hi⟩

theorem unlock_inv (hi : Inv h) : Inv h.unlock := by
  have hf (hp : h.pending = ∅) : Inv { h with mu := none } := by
    refine ⟨hi.members, Finset.empty_subset _, fun i s hs => ?_⟩
    have hsound := hi.sound i s hs
    rwa [underway_eq_nil (by simp [hp])] at hsound
  unfold unlock
  split
  · split
    · exact hf <| by simp_all [Hub.pending]
    · exact hi
  · split
    · exact hf <| by simp_all [Hub.pending]
    · exact hi
  · exact hi

theorem step_safe (hi : Inv h) : (l : HubLabel) → Safe (h.step l)
  | .connect _          => ⟨_, rfl, connect_inv hi⟩
  | .registerStream _   => ⟨_, rfl, registerStream_inv hi⟩
  | .read _             => ⟨_, rfl, read_inv hi⟩
  | .leave _            => ⟨_, rfl, leave_inv hi⟩
  | .unregisterStream _ => unregisterStream_safe hi
  | .broadcast _        => ⟨_, rfl, broadcast_inv hi⟩
  | .closeAll           => ⟨_, rfl, closeAll_inv hi⟩
  | .visit _            => visit_safe hi
  | .unlock             => ⟨_, rfl, unlock_inv hi⟩

theorem run_safe (ls : List HubLabel) : Safe (run ls) := by
  have hf {h : Hub} (hi : Inv h) : Safe (ls.foldlM step h) := by
    induction ls generalizing h
    case nil          => exact ⟨h, rfl, hi⟩
    case cons l ls hl =>
      obtain ⟨h', hs, hi⟩ := step_safe hi l
      rw [List.foldlM_cons, hs]
      exact hl hi
  exact hf initial_inv

-- What the clients can rely on. Between two broadcasts, nothing is missing from what a client that is not cut off has
-- read and can read, and it is at most the buffer behind.
structure FanOut (h : Hub) : Prop where
  members : ∀ i, i ∈ h.streamClients ↔ ∃ s, h.streams i = some s ∧ s.registered ∧ ¬s.channel.closed
  inOrder : ∀ i s, h.streams i = some s → s.received <+: s.since
  entire  : ∀ i s, h.streams i = some s → h.mu = none → ¬s.channel.closed → s.received ++ s.channel.buffer = s.since
  cutOff  : ∀ i s, h.streams i = some s → h.mu = none →
    s.received.length + Channel.capacity < s.since.length → s.channel.closed

theorem Inv.entire (hi : Inv h) (hs : h.streams i = some s) (hmu : h.mu = none) (hc : ¬s.channel.closed) :
    s.received ++ s.channel.buffer = s.since := by
  have hsound := hi.sound i s hs
  rw [underway_eq_nil (by simp [Hub.pending, hmu])] at hsound
  by_cases hr : s.registered
  case pos => exact (List.append_nil _).symm.trans (hsound.entire hr hc)
  case neg =>
    have ⟨hch, hrec, hsince⟩ := hsound.fresh hr
    rw [hch, hrec, hsince]
    rfl

theorem Inv.fanOut (hi : Inv h) : FanOut h where
  members       := hi.members
  inOrder i s h := (List.prefix_append ..).trans (hi.sound i s h).gapless
  entire _ _ hs := hi.entire hs
  cutOff i s hs hmu hl := by
    by_contra hc
    have he := congrArg List.length (hi.entire hs hmu hc)
    have hroom := (hi.sound i s hs).room
    rw [List.length_append] at he
    omega

-- No call panics, whatever the order of the calls.
theorem fanOut_run (ls : List HubLabel) : ∃ h, run ls = .ok h ∧ FanOut h := by
  obtain ⟨h, hr, hi⟩ := run_safe ls
  exact ⟨h, hr, hi.fanOut⟩

end Hub
end JobPlatform.Live
