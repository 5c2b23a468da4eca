import JobPlatform.Live.Transport

namespace JobPlatform.Live

-- What becomes of the connections that the manager opens. It also starts over, without a failure.
inductive Happening
  | opened (mode : RealtimeMode)
  | failed (mode : RealtimeMode)
  | restarted
  deriving DecidableEq

def RealtimeMode.limit : RealtimeMode → Nat
  | websocket => websocketAttemptLimit
  | sse       => sseAttemptLimit

namespace LiveTransportManager

-- The current connection, if the event is one of it.
def heardSocket (m : LiveTransportManager) (i : Nat) : Option Socket :=
  (m.window.sockets i).filter fun s => s.handled ∧ m.socket = some i ∧ ¬m.stopped

def heardSource (m : LiveTransportManager) (i : Nat) : Option Source :=
  (m.window.sources i).filter fun s => s.handled ∧ m.eventSource = some i ∧ ¬m.stopped

-- The connection that fails or is closed, with the number of the attempt in which it was made.
def dropped (m : LiveTransportManager) : TransportLabel → Option (RealtimeMode × Nat)
  | .socket i (.closed ..) => (m.heardSocket i).map fun s => (.websocket, s.attempt)
  | .source i type _       => if type = "error" then (m.heardSource i).map fun s => (.sse, s.attempt) else none
  | _                      => none

def opens (m : LiveTransportManager) : TransportLabel → Option RealtimeMode
  | .socket i .opened => (m.heardSocket i).map fun _ => .websocket
  | .source i type _  => if type = "open" then (m.heardSource i).map fun _ => .sse else none
  | _                 => none

-- A WebSocket that cannot even be constructed has failed, too.
def construct (page : Page) (t : Moment) : List Happening :=
  if page.socketUrl.isSome ∧ t.throws then [.failed .websocket] else []

def happenings (page : Page) (m : LiveTransportManager) : Moment × TransportLabel → List Happening
  | (_, .stop _)   => [.restarted]
  | (t, .retryNow) => if m.stopped then [] else .restarted :: construct page t
  | (t, .timer i)  =>
    if m.stopped then [] else
      match m.window.timers i with
      | some (.probe _)                => .restarted :: construct page t
      | some (.retry .websocket _ _) => construct page t
      | _                              => []
  | (_, l)         => ((m.dropped l).map fun d => Happening.failed d.1).toList ++ ((m.opens l).map .opened).toList

-- The manager waits to make the attempt.
def Retries (m : LiveTransportManager) (mode : RealtimeMode) (attempt : Nat) : Prop :=
  ∃ i reason, m.retryTimer = some i ∧ m.window.timers i = some (.retry mode attempt reason)

end LiveTransportManager

-- The manager with all that has happened since its start.
structure Watched where
  manager : LiveTransportManager
  log     : List Happening

namespace Watched

open LiveTransportManager

variable (page : Page)

def initial : Watched where
  manager := LiveTransportManager.initial.start
  log     := []

def step (w : Watched) (l : Moment × TransportLabel) : Watched where
  manager := w.manager.step page l
  log     := w.log ++ w.manager.happenings page l

-- No connection which has been open is dropped unless it was made in a first attempt.
def FirstAttempt (w : Watched) (l : Moment × TransportLabel) : Prop :=
  ∀ mode attempt, w.manager.dropped l.2 = some (mode, attempt) → w.log.getLast? = some (.opened mode) → attempt = 0

end Watched

-- Where the manager stands.
inductive Phase
  | polling
  | connected (mode : RealtimeMode) (attempt : Nat)
  | waiting (mode : RealtimeMode) (attempt : Nat)
  | stopped (mode : TransportMode)

namespace Phase

variable (page : Page)

-- The mode that the manager shows. It has none of its own before its first attempt.
def Shows (shown : TransportMode) : Phase → Prop
  | polling              => shown = .polling
  | connected mode _     => shown = mode.transport
  | waiting mode attempt => shown = mode.transport ∨ attempt = 0 ∧ mode = .websocket ∧ shown = .polling
  | stopped mode         => shown = mode

-- What follows on the failure of an attempt.
def next : RealtimeMode → Nat → Phase
  | .websocket, attempt =>
    if attempt + 1 < websocketAttemptLimit then .waiting .websocket (attempt + 1)
    else if page.eventSource ∧ page.streamUrl.isSome then .connected .sse 0
    else .polling
  | .sse, attempt       => if attempt + 1 < sseAttemptLimit then .waiting .sse (attempt + 1) else .polling

-- What follows when the manager makes an attempt to open a WebSocket.
def tried (t : Moment) (attempt : Nat) : Phase :=
  match page.socketUrl with
  | none   => .polling
  | some _ => if t.throws then next page .websocket attempt else .connected .websocket attempt

-- How the manager goes on, and what happens then.
inductive Moves : Phase → List Happening → Phase → Prop
  | stay (p : Phase) : Moves p [] p
  | opened (mode : RealtimeMode) (attempt : Nat) :
    Moves (.connected mode attempt) [.opened mode] (.connected mode attempt)
  | failed (mode : RealtimeMode) (attempt : Nat) :
    Moves (.connected mode attempt) [.failed mode] (.next page mode attempt)
  | retried (t : Moment) (attempt : Nat) :
    Moves (.waiting .websocket attempt) (LiveTransportManager.construct page t) (.tried page t attempt)
  | retriedSse (attempt : Nat) : Moves (.waiting .sse attempt) [] (.connected .sse attempt)
  | restarted (p : Phase) (t : Moment) (h : ∀ mode, p ≠ .stopped mode) :
    Moves p (.restarted :: LiveTransportManager.construct page t) (.tried page t 0)
  | stopped (p : Phase) (mode : TransportMode) (h : p.Shows mode) : Moves p [.restarted] (.stopped mode)

-- There is an event source only if the page allows for it, and after WebSockets have failed.
def Possible : Phase → Prop
  | .connected .websocket _             => page.socketUrl.isSome
  | .connected .sse _ | .waiting .sse _ => page.eventSource ∧ page.streamUrl.isSome ∧ page.socketUrl.isSome
  | _                                   => True

end Phase

namespace LiveTransportManager

def NoRetry (m : LiveTransportManager) : Prop :=
  ∀ i mode attempt reason, m.window.timers i ≠ some (.retry mode attempt reason)

-- The timer of every attempt to be made is known to the manager.
def Tidy (m : LiveTransportManager) : Prop :=
  ∀ i mode attempt reason, m.window.timers i = some (.retry mode attempt reason) → m.retryTimer = some i

-- There is neither a connection nor an attempt to be made.
structure Resting (m : LiveTransportManager) : Prop where
  started     : ¬m.stopped
  socket      : m.socket = none
  eventSource : m.eventSource = none
  noRetry     : NoRetry m

-- The number which the handlers of the current connection have captured.
def captured (m : LiveTransportManager) : RealtimeMode → Option Nat
  | .websocket => m.socket.bind fun i => (m.window.sockets i).map (·.attempt)
  | .sse       => m.eventSource.bind fun i => (m.window.sources i).map (·.attempt)

def Unused (m : LiveTransportManager) : RealtimeMode → Prop
  | .websocket => m.socket = none
  | .sse       => m.eventSource = none

structure Connected (m : LiveTransportManager) (mode : RealtimeMode) (attempt : Nat) : Prop where
  started   : ¬m.stopped
  transport : m.mode = mode.transport
  noRetry   : NoRetry m
  captured  : m.captured mode = some attempt
  unused    : ∀ mode', mode' ≠ mode → m.Unused mode'

structure Waiting (m : LiveTransportManager) (mode : RealtimeMode) (attempt : Nat) : Prop where
  started     : ¬m.stopped
  transport   : m.mode = mode.transport ∨ attempt = 0 ∧ mode = .websocket ∧ m.mode = .polling
  socket      : m.socket = none
  eventSource : m.eventSource = none
  retries     : Retries m mode attempt
  tidy        : Tidy m

def At (m : LiveTransportManager) : Phase → Prop
  | .polling                => m.Resting ∧ m.mode = .polling
  | .connected mode attempt => m.Connected mode attempt
  | .waiting mode attempt   => m.Waiting mode attempt
  | .stopped mode           => m.stopped ∧ m.mode = mode

variable {page : Page} {t : Moment} {m : LiveTransportManager} {mode : RealtimeMode} {attempt i : Nat}
         {reason data type : String} {m' : LiveTransportManager} {e : SocketEvent} {l : TransportLabel}

theorem NoRetry.tidy (h : NoRetry m) : Tidy m :=
  fun i mode attempt reason hi => absurd hi (h i mode attempt reason)

theorem clearTimers_timers : m.clearTimers.window.timers i =
    if m.retryTimer = some i ∨ m.probeTimer = some i then none else m.window.timers i := by
  unfold clearTimers
  cases hr : m.retryTimer <;> cases hp : m.probeTimer <;>
    simp [clearTimeout, Function.update_apply, hp, eq_comm, ← ite_or, or_comm]

theorem clearTimers_noRetry (h : Tidy m) : NoRetry m.clearTimers := by
  intro i mode attempt reason hi
  rw [clearTimers_timers] at hi
  split at hi
  case isTrue     => cases hi
  case isFalse hn => exact hn (.inl <| h i mode attempt reason hi)

theorem closeCurrent_timers : m.closeCurrent.window.timers = m.window.timers := by
  unfold closeCurrent
  cases hs : m.socket <;> cases he : m.eventSource <;> simp [setSocket, setSource, he]

theorem closeCurrent_noRetry (h : Tidy m) : NoRetry m.clearTimers.closeCurrent := by
  have hn := clearTimers_noRetry h
  rwa [NoRetry, ← closeCurrent_timers] at hn

-- Only timers and what is shown may differ.
structure Alike (m m' : LiveTransportManager) : Prop where
  stopped     : m'.stopped = m.stopped
  mode        : m'.mode = m.mode
  socket      : m'.socket = m.socket
  eventSource : m'.eventSource = m.eventSource
  sockets     : m'.window.sockets = m.window.sockets
  sources     : m'.window.sources = m.window.sources

theorem scheduleProbe_alike : Alike m (m.scheduleProbe t reason) := by
  unfold scheduleProbe
  split <;> exact ⟨rfl, rfl, rfl, rfl, rfl, rfl⟩

theorem NoRetry.scheduleProbe (h : NoRetry m) : NoRetry (m.scheduleProbe t reason) := by
  unfold LiveTransportManager.scheduleProbe
  split
  case isTrue  => exact h
  case isFalse =>
    intro i mode attempt reason' hi
    simp only [setTimeout, emitStatus, emit, Function.update_apply] at hi
    split at hi
    · cases hi
    · exact h i mode attempt reason' hi

theorem Resting.alike (h : Resting m) (ha : Alike m m') (hn : NoRetry m') : Resting m' where
  started     := ha.stopped ▸ h.started
  socket      := ha.socket.trans h.socket
  eventSource := ha.eventSource.trans h.eventSource
  noRetry     := hn

theorem Connected.alike (h : Connected m mode attempt) (ha : Alike m m') (hn : NoRetry m') :
    Connected m' mode attempt where
  started       := ha.stopped ▸ h.started
  transport     := ha.mode.trans h.transport
  noRetry       := hn
  captured      := by
    have hc := h.captured
    cases mode <;> simpa only [LiveTransportManager.captured, ha.socket, ha.eventSource, ha.sockets, ha.sources] using hc
  unused mode' hn' := by
    have hu := h.unused mode' hn'
    cases mode' <;> simpa only [Unused, ha.socket, ha.eventSource] using hu

theorem enterPolling_at (hs : ¬m.stopped) (ht : Tidy m) : At (enterPolling t reason m) .polling := by
  have hi := closeCurrent_idle m
  have hn := closeCurrent_noRetry ht
  refine ⟨Resting.alike ?_ scheduleProbe_alike (NoRetry.scheduleProbe hn), scheduleProbe_alike.mode⟩
  exact ⟨closeCurrent_stopped m ▸ hs, hi.socket, hi.eventSource, hn⟩

theorem connecting_resting (hs : ¬m.stopped) (ht : Tidy m) : Resting (connecting mode attempt reason m) where
  started     := connecting_stopped hs
  socket      := (connecting_idle m).socket
  eventSource := (connecting_idle m).eventSource
  noRetry     := closeCurrent_noRetry ht

theorem scheduleRetry_at (h : Resting m) : At (scheduleRetry t mode attempt reason m) (.waiting mode attempt) where
  started     := h.started
  transport   := .inl rfl
  socket      := h.socket
  eventSource := h.eventSource
  retries     := ⟨m.window.next, reason, rfl, by simp [scheduleRetry, setTimeout, emitStatus, emit]⟩
  tidy        := by
    intro i mode' attempt' reason' hi
    simp only [scheduleRetry, setTimeout, emitStatus, emit, Function.update_apply] at hi
    split at hi
    case isTrue he => rw [he]; rfl
    case isFalse   => exact absurd hi (h.noRetry i mode' attempt' reason')

theorem openEventSource_at (h : Resting m) (hm : m.mode = .sse) (he : page.eventSource) (hu : page.streamUrl.isSome) :
    At (openEventSource page t attempt m) (.connected .sse attempt) := by
  obtain ⟨streamUrl, hu⟩ := Option.isSome_iff_exists.mp hu
  rw [openEventSource, if_pos he, hu]
  refine Connected.mk h.started hm h.noRetry (by simp [captured]) fun mode hn => ?_
  cases mode
  case websocket => exact h.socket
  case sse       => exact absurd rfl hn

theorem connectSse_at (hs : ¬m.stopped) (ht : Tidy m) (he : page.eventSource) (hu : page.streamUrl.isSome) :
    At (connectSse page t attempt reason m) (.connected .sse attempt) := by
  rw [connectSse, if_neg hs]
  exact openEventSource_at (connecting_resting hs ht) rfl he hu

theorem handleRealtimeFailure_at (h : Resting m) :
    At (handleRealtimeFailure page t mode attempt reason m) (.next page mode attempt) := by
  rw [handleRealtimeFailure, if_neg h.started]
  have h' : Resting { m with lastFailureAt := some t.now, lastError := reason } := { h with }
  cases mode
  case websocket =>
    dsimp only [Phase.next]
    split
    case isTrue  => exact scheduleRetry_at h'
    case isFalse =>
      split
      case isTrue hp => exact connectSse_at h'.started h'.noRetry.tidy hp.left hp.right
      case isFalse   => exact enterPolling_at h'.started h'.noRetry.tidy
  case sse       =>
    dsimp only [Phase.next]
    split
    case isTrue  => exact scheduleRetry_at h'
    case isFalse => exact enterPolling_at h'.started h'.noRetry.tidy

theorem openWebSocket_at (h : Resting m) (hm : m.mode = .websocket) :
    At (openWebSocket page t attempt m) (.tried page t attempt) := by
  unfold openWebSocket Phase.tried
  cases page.socketUrl
  case none   => exact enterPolling_at h.started h.noRetry.tidy
  case some _ =>
    dsimp only
    split
    case isTrue  => exact handleRealtimeFailure_at h
    case isFalse =>
      refine Connected.mk h.started hm h.noRetry (by simp [captured]) fun mode hn => ?_
      cases mode
      case websocket => exact absurd rfl hn
      case sse       => exact h.eventSource

theorem connect_at (hs : ¬m.stopped) (ht : Tidy m) :
    At (connect page t .websocket attempt reason m) (.tried page t attempt) := by
  rw [connect, if_neg hs]
  exact openWebSocket_at (connecting_resting hs ht) rfl

theorem connect_sse_at (hs : ¬m.stopped) (ht : Tidy m) (he : page.eventSource) (hu : page.streamUrl.isSome) :
    At (connect page t .sse attempt reason m) (.connected .sse attempt) := by
  rw [connect, if_neg hs]
  exact openEventSource_at (connecting_resting hs ht) rfl he hu

variable {p : Phase}

theorem At.tidy (h : At m p) (hs : ¬m.stopped) : Tidy m := by
  cases p
  case polling   => exact NoRetry.tidy h.left.noRetry
  case connected => exact NoRetry.tidy (Connected.noRetry h)
  case waiting   => exact Waiting.tidy h
  case stopped   => exact absurd h.left hs

theorem At.alike (h : At m p) (ha : Alike m m') (ht : m'.window.timers = m.window.timers)
    (hr : m'.retryTimer = m.retryTimer) : At m' p := by
  have hn (h : NoRetry m) : NoRetry m' := by rwa [NoRetry, ht]
  cases p
  case polling      => exact ⟨h.left.alike ha (hn h.left.noRetry), ha.mode.trans h.right⟩
  case connected    => exact Connected.alike h ha (hn h.noRetry)
  case stopped      => exact ⟨ha.stopped.trans h.left, ha.mode.trans h.right⟩
  case waiting mode =>
    constructor
    case started     => exact ha.stopped ▸ h.started
    case transport   => exact ha.mode ▸ h.transport
    case socket      => exact ha.socket.trans h.socket
    case eventSource => exact ha.eventSource.trans h.eventSource
    case retries     => simpa only [Retries, ht, hr] using h.retries
    case tidy        => exact fun i mode attempt reason hi => hr.trans <| Waiting.tidy h i mode attempt reason (ht ▸ hi)

-- What the browser does with a socket does not change what its handlers have captured.
theorem At.setSocket {f : Socket → Socket} (h : At m p) (hf : ∀ s, (f s).attempt = s.attempt) :
    At (m.setSocket i f) p := by
  cases p
  case polling   => exact ⟨{ h.left with }, h.right⟩
  case waiting   => exact { h with }
  case stopped   => exact h
  case connected mode attempt =>
    refine { h with captured := ?_ }
    have hc := h.captured
    cases mode
    case sse       => exact hc
    case websocket =>
      obtain ⟨j, hj, hs⟩ := Option.bind_eq_some_iff.mp hc
      refine Option.bind_eq_some_iff.mpr ⟨j, hj, ?_⟩
      by_cases he : j = i
      case pos => simpa [LiveTransportManager.setSocket, he, Function.comp_def, hf] using hs
      case neg => simpa [LiveTransportManager.setSocket, he] using hs

theorem heardSocket_eq_some {s : Socket} : m.heardSocket i = some s ↔
    m.window.sockets i = some s ∧ s.handled ∧ m.socket = some i ∧ ¬m.stopped := by
  simp [heardSocket, Option.filter_eq_some_iff]

theorem heardSource_eq_some {s : Source} : m.heardSource i = some s ↔
    m.window.sources i = some s ∧ s.handled ∧ m.eventSource = some i ∧ ¬m.stopped := by
  simp [heardSource, Option.filter_eq_some_iff]

theorem At.of_socket {s : Socket} (h : At m p) (hh : m.heardSocket i = some s) :
    p = .connected .websocket s.attempt := by
  have ⟨hs, _, hi, hn⟩ := heardSocket_eq_some.mp hh
  cases p
  case polling   => cases hi.symm.trans h.left.socket
  case waiting   => cases hi.symm.trans h.socket
  case stopped   => exact absurd h.left hn
  case connected mode attempt =>
    cases mode
    case sse       => cases hi.symm.trans (h.unused .websocket nofun)
    case websocket =>
      have hc : m.captured .websocket = some s.attempt := by simp [captured, hi, hs]
      rw [Option.some.inj (h.captured.symm.trans hc)]

theorem At.of_source {s : Source} (h : At m p) (hh : m.heardSource i = some s) :
    p = .connected .sse s.attempt := by
  have ⟨hs, _, hi, hn⟩ := heardSource_eq_some.mp hh
  cases p
  case polling   => cases hi.symm.trans h.left.eventSource
  case waiting   => cases hi.symm.trans h.eventSource
  case stopped   => exact absurd h.left hn
  case connected mode attempt =>
    cases mode
    case websocket => cases hi.symm.trans (h.unused .sse nofun)
    case sse       =>
      have hc : m.captured .sse = some s.attempt := by simp [captured, hi, hs]
      rw [Option.some.inj (h.captured.symm.trans hc)]

theorem receive_at (h : At m p) : At (m.receive t data) p := by
  unfold receive
  split
  case h_1 => exact h.alike ⟨rfl, rfl, rfl, rfl, rfl, rfl⟩ rfl rfl
  case h_2 => exact h.alike ⟨rfl, rfl, rfl, rfl, rfl, rfl⟩ rfl rfl

theorem apply_attempt (e : SocketEvent) (s : Socket) : (e.apply s).attempt = s.attempt := by
  cases e <;> rfl

theorem socketEvent_moves (h : At m p) :
    ∃ p', At (m.socketEvent page t i e) p' ∧ p.Moves page (m.happenings page (t, .socket i e)) p' := by
  have h' : At (m.setSocket i e.apply) p := h.setSocket (apply_attempt e)
  cases hh : m.heardSocket i
  case none   =>
    have hl : m.happenings page (t, .socket i e) = [] := by cases e <;> simp [happenings, dropped, opens, hh]
    rw [hl]
    refine ⟨p, ?_, .stay p⟩
    unfold socketEvent
    split
    case h_1      => exact h
    case h_2 s hs =>
      dsimp only
      rw [if_pos]
      · exact h'
      · by_contra hn
        simp only [not_or, not_not] at hn
        cases hh.symm.trans <| heardSocket_eq_some.mpr ⟨hs, hn.left, hn.right.left, hn.right.right⟩
  case some s =>
    obtain ⟨hs, hd, hi, hn⟩ := heardSocket_eq_some.mp hh
    cases h.of_socket hh
    have hc : ¬(¬s.handled ∨ (m.setSocket i e.apply).socket ≠ some i ∨ (m.setSocket i e.apply).stopped) := by
      simpa [hd, hi, LiveTransportManager.setSocket] using hn
    rw [socketEvent, hs]
    dsimp only
    rw [if_neg hc]
    cases e
    case opened  =>
      have hl : m.happenings page (t, .socket i .opened) = [.opened .websocket] := by
        simp [happenings, dropped, opens, hh]
      rw [hl]
      have hc : Connected ((m.setSocket i _).setSocket i ({ · with opened := true })) .websocket s.attempt :=
        h'.setSocket (p := .connected ..) fun _ => rfl
      exact ⟨.connected .websocket s.attempt, { hc with transport := rfl }, .opened ..⟩
    case message data =>
      have hl : m.happenings page (t, .socket i (.message data)) = [] := by simp [happenings, dropped, opens]
      rw [hl]
      exact ⟨_, receive_at h', .stay _⟩
    case error   =>
      have hl : m.happenings page (t, .socket i .error) = [] := by simp [happenings, dropped, opens]
      rw [hl]
      exact ⟨_, h'.alike ⟨rfl, rfl, rfl, rfl, rfl, rfl⟩ rfl rfl, .stay _⟩
    case closed code text =>
      have hl : m.happenings page (t, .socket i (.closed code text)) = [.failed .websocket] := by
        simp [happenings, dropped, opens, hh]
      rw [hl]
      dsimp only [onSocket]
      refine ⟨_, handleRealtimeFailure_at ?_, .failed ..⟩
      exact { started := hn, socket := rfl, eventSource := h.unused .sse (fun he => by cases he), noRetry := h.noRetry }

theorem sourceEvent_moves (h : At m p) :
    ∃ p', At (m.sourceEvent page t i type data) p' ∧
      p.Moves page (m.happenings page (t, .source i type data)) p' := by
  cases hh : m.heardSource i
  case none   =>
    have hl : m.happenings page (t, .source i type data) = [] := by simp [happenings, dropped, opens, hh]
    have he : m.sourceEvent page t i type data = m := by
      unfold sourceEvent
      split
      case h_1      => rfl
      case h_2 s hs =>
        refine if_pos ?_
        by_contra hn
        simp only [not_or, not_not] at hn
        cases hh.symm.trans <| heardSource_eq_some.mpr ⟨hs, hn.left, hn.right.left, hn.right.right⟩
    rw [hl, he]
    exact ⟨p, h, .stay p⟩
  case some s =>
    have ⟨hs, hd, hi, hn⟩ := heardSource_eq_some.mp hh
    cases h.of_source hh
    have hc : ¬(¬s.handled ∨ m.eventSource ≠ some i ∨ m.stopped) := by simpa [hd, hi] using hn
    rw [sourceEvent, hs]
    dsimp only
    rw [if_neg hc, onSource]
    split_ifs with ho hm he
    · have hl : m.happenings page (t, .source i type data) = [.opened .sse] := by
        simp [happenings, dropped, opens, hh, ho]
      have hc : Connected (m.live .sse) .sse s.attempt := { h with transport := rfl }
      rw [hl]
      exact ⟨.connected .sse s.attempt, hc.alike scheduleProbe_alike hc.noRetry.scheduleProbe, .opened ..⟩
    · have hl : m.happenings page (t, .source i type data) = [] := by simp [happenings, dropped, opens, hm]
      rw [hl]
      exact ⟨_, receive_at h, .stay _⟩
    · have hl : m.happenings page (t, .source i type data) = [.failed .sse] := by
        simp [happenings, dropped, opens, hh, he]
      rw [hl]
      refine ⟨_, handleRealtimeFailure_at ?_, .failed ..⟩
      exact { started := hn, socket := h.unused .websocket nofun, eventSource := rfl, noRetry := h.noRetry }
    · have hl : m.happenings page (t, .source i type data) = [] := by simp [happenings, dropped, opens, ho, he]
      rw [hl]
      exact ⟨_, h, .stay _⟩

theorem At.shows (h : At m p) : p.Shows m.mode := by
  cases p
  case polling   => exact h.right
  case connected => exact Connected.transport h
  case waiting   => exact Waiting.transport h
  case stopped   => exact h.right

theorem At.of_stopped (h : At m p) (hs : m.stopped) : p = .stopped m.mode := by
  cases p
  case polling   => exact absurd hs h.left.started
  case connected => exact absurd hs (Connected.started h)
  case waiting   => exact absurd hs (Waiting.started h)
  case stopped   => rw [h.right]

theorem At.unstopped (h : At m p) (hs : ¬m.stopped) (shown : TransportMode) : p ≠ .stopped shown := by
  rintro rfl
  exact hs h.left

theorem Retries.unique {mode' : RealtimeMode} {attempt' : Nat} (h : Retries m mode attempt)
    (h' : Retries m mode' attempt') : mode' = mode ∧ attempt' = attempt := by
  obtain ⟨i, _, hr, hi⟩ := h
  obtain ⟨i', _, hr', hi'⟩ := h'
  cases hr.symm.trans hr'
  cases hi.symm.trans hi'
  exact ⟨rfl, rfl⟩

-- Only a manager that waits makes another attempt, and it makes the one that it waits for.
theorem At.retries (h : At m p) (hs : ¬m.stopped) (hi : m.window.timers i = some (.retry mode attempt reason)) :
    p = .waiting mode attempt := by
  cases p
  case polling   => exact absurd hi <| h.left.noRetry i mode attempt reason
  case connected => exact absurd hi <| Connected.noRetry h i mode attempt reason
  case stopped   => exact absurd h.left hs
  case waiting   =>
    have ⟨hm, ha⟩ := Retries.unique (Waiting.retries h) ⟨i, reason, Waiting.tidy h i mode attempt reason hi, hi⟩
    rw [hm, ha]

theorem clearTimeout_tidy (h : Tidy m) : Tidy (m.clearTimeout i) := by
  intro j mode attempt reason hj
  simp only [clearTimeout, Function.update_apply] at hj
  split at hj
  case isTrue  => cases hj
  case isFalse => exact h j mode attempt reason hj

theorem clearTimeout_noRetry (h : Tidy m) (hi : m.retryTimer = some i) : NoRetry (m.clearTimeout i) := by
  intro j mode attempt reason hj
  simp only [clearTimeout, Function.update_apply] at hj
  split at hj
  case isTrue     => cases hj
  case isFalse hn => exact hn <| Option.some.inj <| (h j mode attempt reason hj).symm.trans hi

theorem connect_of_stopped_at {shown : TransportMode} (h : m.stopped) (hm : m.mode = shown) :
    At (connect page t mode attempt reason m) (.stopped shown) := by
  rw [connect, if_pos h]
  exact ⟨h, hm⟩

theorem fire_moves (h : At m p) (hp : p.Possible page) :
    ∃ p', At (m.fire page t i) p' ∧ p.Moves page (m.happenings page (t, .timer i)) p' := by
  by_cases hs : m.stopped
  case pos =>
    cases h.of_stopped hs
    have hl : m.happenings page (t, .timer i) = [] := by simp [happenings, hs]
    rw [hl]
    refine ⟨_, ?_, .stay _⟩
    unfold fire
    split
    case h_1 => exact h
    case h_2 => exact connect_of_stopped_at hs rfl
    case h_3 => exact connect_of_stopped_at hs rfl
  case neg =>
    have ht := h.tidy hs
    cases hi : m.window.timers i
    case none      =>
      simp only [happenings, if_neg hs, fire, hi]
      exact ⟨p, h, .stay p⟩
    case some task =>
      cases task
      case probe reason              =>
        simp only [happenings, if_neg hs, fire, hi]
        exact ⟨_, connect_at hs (clearTimeout_tidy ht), .restarted p t (h.unstopped hs)⟩
      case retry mode attempt reason =>
        cases h.retries hs hi
        have hn : NoRetry { m.clearTimeout i with retryTimer := none } :=
          clearTimeout_noRetry ht <| ht i mode attempt reason hi
        cases mode
        case websocket =>
          simp only [happenings, if_neg hs, fire, hi]
          exact ⟨_, connect_at hs hn.tidy, .retried t attempt⟩
        case sse       =>
          simp only [happenings, if_neg hs, fire, hi]
          exact ⟨_, connect_sse_at hs hn.tidy hp.left hp.right.left, .retriedSse attempt⟩

theorem retryNow_moves (h : At m p) :
    ∃ p', At (m.retryNow page t) p' ∧ p.Moves page (m.happenings page (t, .retryNow)) p' := by
  unfold retryNow
  by_cases hs : m.stopped
  case pos =>
    simp only [happenings, if_pos hs]
    exact ⟨p, h, .stay p⟩
  case neg =>
    simp only [happenings, if_neg hs]
    refine ⟨_, connect_at ?_ ?_, .restarted p t (h.unstopped hs)⟩
    · exact (clearTimers_untimed m).stopped ▸ hs
    · exact (clearTimers_noRetry (h.tidy hs)).tidy

theorem stop_mode (nextState : ConnectionState) (m : LiveTransportManager) : (m.stop nextState).mode = m.mode := by
  unfold stop closeCurrent clearTimers
  dsimp only
  split <;> split <;> split <;> split <;> rfl

theorem step_moves (h : At m p) (hp : p.Possible page) :
    (l : Moment × TransportLabel) → ∃ p', At (m.step page l) p' ∧ p.Moves page (m.happenings page l) p'
  | (_, .timer _)        => fire_moves h hp
  | (_, .socket _ _)     => socketEvent_moves h
  | (_, .source _ _ _)   => sourceEvent_moves h
  | (_, .retryNow)       => retryNow_moves h
  | (_, .stop nextState) =>
    ⟨.stopped m.mode, ⟨stop_stopped nextState m, stop_mode nextState m⟩, .stopped p _ h.shows⟩

end LiveTransportManager

namespace Phase

open LiveTransportManager

variable {page : Page} {p p' : Phase} {log hs : List Happening} {mode : RealtimeMode} {attempt : Nat}
         {shown : TransportMode}

theorem Shows.not_polling (h : Shows .sse p) : ¬Shows .polling p := by
  cases p
  case polling          => cases h
  case stopped          => cases h; nofun
  case connected mode _ => cases mode <;> nofun
  case waiting mode _   => cases mode <;> simp_all [Shows, RealtimeMode.transport]

theorem next_cases (page : Page) (mode : RealtimeMode) (attempt : Nat) :
    (attempt + 1 < mode.limit ∧ next page mode attempt = waiting mode (attempt + 1)) ∨
    (mode.limit ≤ attempt + 1 ∧ mode = .websocket ∧ page.eventSource ∧ page.streamUrl.isSome ∧
      next page mode attempt = connected .sse 0) ∨
    (mode.limit ≤ attempt + 1 ∧ next page mode attempt = polling) := by
  cases mode <;> dsimp only [next, RealtimeMode.limit] <;> split_ifs <;> simp_all

theorem tried_cases (page : Page) (t : Moment) (attempt : Nat) :
    (page.socketUrl = none ∧ construct page t = [] ∧ tried page t attempt = polling) ∨
    (page.socketUrl.isSome ∧ construct page t = [.failed .websocket] ∧
      tried page t attempt = next page .websocket attempt) ∨
    (page.socketUrl.isSome ∧ construct page t = [] ∧ tried page t attempt = connected .websocket attempt) := by
  unfold tried construct
  cases page.socketUrl <;> cases t.throws <;> simp

theorem next_exhausted (h : (next page .websocket attempt).Shows .sse) : websocketAttemptLimit ≤ attempt + 1 := by
  obtain ⟨_, hn⟩ | ⟨ha, _⟩ | ⟨ha, _⟩ := next_cases page .websocket attempt
  · rw [hn] at h
    cases h.resolve_left nofun |>.left
  · exact ha
  · exact ha

theorem Possible.next (h : Possible page (connected mode attempt)) : Possible page (next page mode attempt) := by
  obtain ⟨_, hn⟩ | ⟨_, rfl, he, hu, hn⟩ | ⟨_, hn⟩ := next_cases page mode attempt
  · rw [hn]
    cases mode
    case websocket => trivial
    case sse       => exact h
  · rw [hn]
    exact ⟨he, hu, h⟩
  · rw [hn]
    trivial

theorem Possible.tried (page : Page) (t : Moment) (attempt : Nat) : Possible page (tried page t attempt) := by
  obtain ⟨_, _, hp⟩ | ⟨hs, _, hp⟩ | ⟨hs, _, hp⟩ := tried_cases page t attempt
  · rw [hp]
    trivial
  · rw [hp]
    have hc : Possible page (connected .websocket attempt) := hs
    exact hc.next
  · rw [hp]
    exact hs

theorem Possible.moves (h : Possible page p) (hm : Moves page p hs p') : Possible page p' := by
  cases hm
  case stay              => exact h
  case opened            => exact h
  case failed            => exact h.next
  case retried t attempt => exact Possible.tried page t attempt
  case retriedSse        => exact h
  case restarted t _     => exact Possible.tried page t 0
  case stopped           => trivial

-- The last connections have failed, none of them after it had been open for a second time.
structure Row (mode : RealtimeMode) (attempt : Nat) (log : List Happening) : Prop where
  unopened : ∀ mode', log.getLast? ≠ some (.opened mode')
  failures : List.replicate attempt (.failed mode) <:+ log

theorem Row.zero {h : Happening} (hn : ∀ mode', h ≠ .opened mode') : Row mode 0 (log ++ [h]) where
  unopened mode' hl := hn mode' <| by simpa using hl
  failures          := List.nil_suffix

theorem Row.succ (h : List.replicate attempt (.failed mode) <:+ log) :
    Row mode (attempt + 1) (log ++ [.failed mode]) where
  unopened := by simp
  failures := by
    rw [List.replicate_succ']
    exact List.suffix_append_self_iff.mpr h

-- The number of an attempt tells how many have failed before it.
def Fits (log : List Happening) : Phase → Prop
  | .connected mode attempt => attempt < mode.limit ∧ (log.getLast? = some (.opened mode) ∨ Row mode attempt log)
  | .waiting mode attempt   => attempt < mode.limit ∧ Row mode attempt log
  | _                       => True

-- Only a connection made in a first attempt fails after it has been open.
def First (log hs : List Happening) (p : Phase) : Prop :=
  ∀ mode attempt, p = connected mode attempt → hs = [.failed mode] → log.getLast? = some (.opened mode) → attempt = 0

theorem Fits.failed (h : Fits log (connected mode attempt)) (hf : First log [.failed mode] (connected mode attempt)) :
    Row mode (attempt + 1) (log ++ [.failed mode]) := by
  obtain ho | hr := h.right
  · cases hf mode attempt rfl rfl ho
    exact .succ List.nil_suffix
  · exact .succ hr.failures

theorem Row.next (h : Row mode (attempt + 1) log) : Fits log (next page mode attempt) := by
  obtain ⟨hl, hn⟩ | ⟨_, _, _, _, hn⟩ | ⟨_, hn⟩ := next_cases page mode attempt
  · rw [hn]
    exact ⟨hl, h⟩
  · rw [hn]
    exact ⟨Nat.two_pos, .inr ⟨h.unopened, List.nil_suffix⟩⟩
  · rw [hn]
    trivial

theorem Row.tried {t : Moment} (h : Row .websocket attempt log) (ha : attempt < websocketAttemptLimit) :
    Fits (log ++ construct page t) (tried page t attempt) := by
  obtain ⟨_, hc, hp⟩ | ⟨_, hc, hp⟩ | ⟨_, hc, hp⟩ := tried_cases page t attempt
  · rw [hp]
    trivial
  · rw [hp, hc]
    exact (Row.succ h.failures).next
  · rw [hp, hc, List.append_nil]
    exact ⟨ha, .inr h⟩

theorem Fits.moves (h : Fits log p) (hf : First log hs p) (hm : Moves page p hs p') : Fits (log ++ hs) p' := by
  cases hm
  case stay                    => rwa [List.append_nil]
  case opened mode attempt     => exact ⟨h.left, .inl <| by simp⟩
  case failed mode attempt     => exact (h.failed hf).next
  case retried t attempt       => exact h.right.tried h.left
  case retriedSse              => exact ⟨h.left, .inr <| by simpa using h.right⟩
  case stopped                 => trivial
  case restarted t _           =>
    have hr : Row .websocket 0 (log ++ [.restarted]) := .zero nofun
    have hf : Fits (log ++ [.restarted] ++ construct page t) (tried page t 0) := hr.tried (Nat.succ_pos _)
    simpa using hf

-- The manager leaves WebSockets for event sources when the last attempt of a row has failed.
theorem Moves.sse (hm : Moves page p hs p') (h : Fits log p) (hf : First log hs p) (hp : ¬p.Shows .sse)
    (hp' : p'.Shows .sse) : List.replicate websocketAttemptLimit (.failed .websocket) <:+ log ++ hs := by
  cases hm
  case stay                => exact absurd hp' hp
  case opened              => exact absurd hp' hp
  case retriedSse          => exact absurd (.inl rfl) hp
  case stopped shown hm    => cases hp'; exact absurd hm hp
  case failed mode attempt =>
    obtain ⟨_, hn⟩ | ⟨ha, rfl, _, _, _⟩ | ⟨_, hn⟩ := next_cases page mode attempt
    · rw [hn] at hp'
      exact absurd (hp'.resolve_right nofun) hp
    · have he : attempt + 1 = websocketAttemptLimit := Nat.le_antisymm h.left ha
      exact he ▸ (h.failed hf).failures
    · rw [hn] at hp'
      cases hp'
  case retried t attempt   =>
    obtain ⟨_, _, hn⟩ | ⟨_, hc, hn⟩ | ⟨_, _, hn⟩ := tried_cases page t attempt
    · rw [hn] at hp'
      cases hp'
    · rw [hn] at hp'
      have he : attempt + 1 = websocketAttemptLimit := Nat.le_antisymm h.left (next_exhausted hp')
      rw [hc, ← he]
      exact (Row.succ h.right.failures).failures
    · rw [hn] at hp'
      cases hp'
  case restarted t _       =>
    obtain ⟨_, _, hn⟩ | ⟨_, _, hn⟩ | ⟨_, _, hn⟩ := tried_cases page t 0
    · rw [hn] at hp'
      cases hp'
    · rw [hn] at hp'
      exact absurd (next_exhausted hp') (by decide)
    · rw [hn] at hp'
      cases hp'

theorem Possible.socketUrl (h : Possible page p) (hp : p.Shows .sse) (hn : ∀ shown, p ≠ .stopped shown) :
    page.socketUrl.isSome := by
  cases p
  case polling          => cases hp
  case stopped shown    => exact absurd rfl (hn shown)
  case connected mode _ =>
    cases mode
    case websocket => exact h
    case sse       => exact h.right.right
  case waiting mode _   =>
    cases mode
    case websocket => cases hp.resolve_left nofun |>.right.right
    case sse       => exact h.right.right

theorem Moves.polling (hm : Moves page p hs p') (h : Fits log p) (hf : First log hs p) (hn : Possible page p)
    (hp : p.Shows .sse) (hp' : p'.Shows .polling) :
    List.replicate sseAttemptLimit (.failed .sse) <:+ log ++ hs := by
  cases hm
  case stay                => exact absurd hp' hp.not_polling
  case opened              => exact absurd hp' hp.not_polling
  case retriedSse          => cases hp'
  case retried             => cases hp.resolve_left nofun |>.right.right
  case stopped shown hm    => cases hp'; exact absurd hm hp.not_polling
  case failed mode attempt =>
    cases mode
    case websocket => cases hp
    case sse       =>
      obtain ⟨_, hn⟩ | ⟨_, hc, _⟩ | ⟨ha, _⟩ := next_cases page .sse attempt
      · rw [hn] at hp'
        cases hp'.resolve_left nofun |>.left
      · cases hc
      · have he : attempt + 1 = sseAttemptLimit := Nat.le_antisymm h.left ha
        exact he ▸ (h.failed hf).failures
  case restarted t hs      =>
    obtain ⟨hu, _, _⟩ | ⟨_, _, hn⟩ | ⟨_, _, hn⟩ := tried_cases page t 0
    · have hs := hn.socketUrl hp hs
      simp [hu] at hs
    · rw [hn] at hp'
      cases hp'.resolve_left nofun |>.left
    · rw [hn] at hp'
      cases hp'

end Phase

namespace LiveTransportManager

variable {page : Page} {m : LiveTransportManager} {p : Phase} {l : Moment × TransportLabel} {mode : RealtimeMode}
         {attempt : Nat}

theorem At.of_dropped (h : At m p) (hd : m.dropped l.2 = some (mode, attempt)) : p = .connected mode attempt := by
  obtain ⟨t, l⟩ := l
  cases l
  case socket i e         =>
    cases e
    case closed =>
      obtain ⟨s, hs, he⟩ := Option.map_eq_some_iff.mp hd
      cases he
      exact h.of_socket hs
    all_goals cases hd
  case source i type data =>
    dsimp only [dropped] at hd
    split at hd
    case isTrue  =>
      obtain ⟨s, hs, he⟩ := Option.map_eq_some_iff.mp hd
      cases he
      exact h.of_source hs
    case isFalse => cases hd
  all_goals cases hd

-- A manager which is connected sees a failure only when its connection is dropped.
theorem At.dropped (h : At m (.connected mode attempt)) (hl : m.happenings page l = [.failed mode]) :
    m.dropped l.2 = some (mode, attempt) := by
  have hs : ¬m.stopped := Connected.started h
  cases hd : m.dropped l.2
  case some d => cases h.of_dropped hd; rfl
  case none   =>
    obtain ⟨t, l⟩ := l
    cases l
    case stop         => cases hl
    case retryNow     => simp [happenings, hs] at hl
    case socket i e   => cases ho : m.opens (.socket i e) <;> simp_all [happenings]
    case source i a b => cases ho : m.opens (.source i a b) <;> simp_all [happenings]
    case timer i      =>
      simp only [happenings, if_neg hs] at hl
      split at hl
      · cases hl
      · exact (Connected.noRetry h _ _ _ _ ‹_›).elim
      · cases hl

end LiveTransportManager

namespace Watched

open LiveTransportManager

variable {page : Page} {w : Watched} {l : Moment × TransportLabel} {p : Phase}

theorem FirstAttempt.first (h : FirstAttempt w l) (hp : At w.manager p) :
    p.First w.log (w.manager.happenings page l) := by
  rintro mode attempt rfl hl ho
  exact h mode attempt (hp.dropped hl) ho

-- The phase of the manager and what has happened fit together.
def Consistent (page : Page) (w : Watched) : Prop :=
  ∃ p, At w.manager p ∧ p.Possible page ∧ p.Fits w.log

theorem Consistent.step (h : Consistent page w) (hf : FirstAttempt w l) : Consistent page (w.step page l) := by
  obtain ⟨p, ha, hp, hl⟩ := h
  have ⟨p', ha', hm⟩ := step_moves ha hp l
  exact ⟨p', ha', hp.moves hm, hl.moves (hf.first ha) hm⟩

end Watched

namespace Sample

def page : Page where
  socketUrl   := some "ws://localhost:8080/api/v1/events"
  streamUrl   := some "http://localhost:8080/api/v1/events/stream"
  eventSource := true

def moment : Moment where
  now    := 0
  random := 0
  throws := false

def closed : LiveTransportManager.SocketEvent := .closed 1006 ""

-- Two WebSockets fail, and the third one is opened.
def labels : List (Moment × TransportLabel) :=
  [.timer 0, .socket 1 closed, .timer 2, .socket 3 closed, .timer 4, .socket 5 .opened].map (moment, ·)

end Sample
end JobPlatform.Live
