import JobPlatform.Library.Json
import JobPlatform.Library.Run
import Mathlib.Data.Rat.Floor
import Mathlib.Logic.Function.Basic

namespace JobPlatform.Live

-- The characters that `trim` removes.
def isWhiteSpace (c : Char) : Bool :=
  c.toNat ∈ [0x9, 0xa, 0xb, 0xc, 0xd, 0x20, 0xa0, 0x1680, 0x2028, 0x2029, 0x202f, 0x205f, 0x3000, 0xfeff] ||
  0x2000 ≤ c.toNat && c.toNat ≤ 0x200a

def safeTrim (s : String) : String :=
  .ofList <| ((s.toList.dropWhile isWhiteSpace).reverse.dropWhile isWhiteSpace).reverse

inductive RealtimeMode
  | websocket
  | sse
  deriving DecidableEq

inductive TransportMode
  | websocket
  | sse
  | polling
  | degraded
  | offline
  | demo
  deriving DecidableEq

inductive ConnectionState
  | idle
  | connecting
  | live
  | polling
  | degraded
  | offline
  | paused
  | demo
  deriving DecidableEq

def RealtimeMode.transport : RealtimeMode → TransportMode
  | websocket => .websocket
  | sse       => .sse

-- The instants are in milliseconds, and there may be none.
structure TransportStatus where
  mode           : TransportMode
  state          : ConnectionState
  attempt        : Nat
  lastMessageAt  : Option Int
  lastFailureAt  : Option Int
  lastError      : String
  degradedReason : String
  nextRetryAt    : Option Int

-- What the page's options and its browser determine: the URLs unless they are invalid, and whether
-- there are event sources.
structure Page where
  socketUrl   : Option String
  streamUrl   : Option String
  eventSource : Bool

-- What the browser says while a task runs: the time, a random number, and whether the constructor
-- of a WebSocket throws.
structure Moment where
  now    : Int
  random : ℚ
  throws : Bool

inductive Task
  | retry (mode : RealtimeMode) (attempt : Nat) (reason : String)
  | probe (reason : String)

inductive ReadyState
  | connecting
  | opened
  | closed
  deriving DecidableEq

-- A WebSocket with what its handlers have captured, unless they have been removed.
structure Socket where
  readyState  : ReadyState
  attempt     : Nat
  opened      : Bool
  handled     : Bool
  closeOnOpen : Bool

structure Source where
  closed  : Bool
  attempt : Nat
  handled : Bool

inductive Output
  | status (s : TransportStatus)
  | event (e : Json)
  | malformed
  | webSocket (url : String)
  | eventSource (url : String)

-- The browser keeps the timers that have not fired and all connections. What the manager does is
-- recorded.
structure Window where
  timers  : Nat → Option Task
  sockets : Nat → Option Socket
  sources : Nat → Option Source
  next    : Nat
  outputs : List Output

structure LiveTransportManager extends TransportStatus where
  stopped     : Bool
  retryTimer  : Option Nat
  probeTimer  : Option Nat
  socket      : Option Nat
  eventSource : Option Nat
  window      : Window

def websocketAttemptLimit : Nat := 3
def sseAttemptLimit       : Nat := 2
def realtimeProbeDelayMs  : Int := 90000

-- `Math.round` rounds half up.
def round (x : ℚ) : Int :=
  ⌊x + 1 / 2⌋

def getBackoffDelay (attempt : Nat) (baseMs capMs : Int) (random : ℚ) : Int :=
  let baseDelay := min (baseMs * 2 ^ (attempt - 1)) capMs
  let jitter := round (baseDelay * (3 / 10) * random)
  min (baseDelay + jitter) capMs

-- The payload is the text that the message's data is converted to.
def parseTransportEvent (payload : String) : Option Json := do
  let parsed ← Json.parse payload.toList
  match parsed.get? "kind" with
  | some (.string _) => some parsed
  | _                => none

namespace LiveTransportManager

variable (page : Page) (t : Moment)

def initial : LiveTransportManager where
  mode           := .polling
  state          := .idle
  attempt        := 0
  lastMessageAt  := none
  lastFailureAt  := none
  lastError      := ""
  degradedReason := ""
  nextRetryAt    := none
  stopped        := false
  retryTimer     := none
  probeTimer     := none
  socket         := none
  eventSource    := none
  window         :=
    { timers _ := none, sockets _ := none, sources _ := none, next := 0, outputs := [] }

def emit (m : LiveTransportManager) (o : Output) : LiveTransportManager :=
  { m with window.outputs := m.window.outputs ++ [o] }

def emitStatus (m : LiveTransportManager) : LiveTransportManager :=
  m.emit <| .status m.toTransportStatus

def setTimeout (m : LiveTransportManager) (task : Task) : LiveTransportManager :=
  { m with window.timers := Function.update m.window.timers m.window.next task, window.next := m.window.next + 1 }

def clearTimeout (m : LiveTransportManager) (i : Nat) : LiveTransportManager :=
  { m with window.timers := Function.update m.window.timers i none }

def clearTimers (m : LiveTransportManager) : LiveTransportManager :=
  let m := match m.retryTimer with
    | some i => { m.clearTimeout i with retryTimer := none }
    | none   => m
  match m.probeTimer with
  | some i => { m.clearTimeout i with probeTimer := none }
  | none   => m

-- A socket that is still connecting is closed when it opens.
def Socket.close (s : Socket) : Socket :=
  if s.readyState = .connecting then
    { s with handled := false, closeOnOpen := true }
  else
    { s with handled := false, readyState := .closed }

def setSocket (m : LiveTransportManager) (i : Nat) (f : Socket → Socket) : LiveTransportManager :=
  { m with window.sockets := Function.update m.window.sockets i ((m.window.sockets i).map f) }

def setSource (m : LiveTransportManager) (i : Nat) (f : Source → Source) : LiveTransportManager :=
  { m with window.sources := Function.update m.window.sources i ((m.window.sources i).map f) }

def closeCurrent (m : LiveTransportManager) : LiveTransportManager :=
  let m := match m.socket with
    | some i => { m.setSocket i Socket.close with socket := none }
    | none   => m
  match m.eventSource with
  | some i => { m.setSource i fun s => { s with handled := false, closed := true } with eventSource := none }
  | none   => m

def scheduleProbe (reason : String) (m : LiveTransportManager) : LiveTransportManager :=
  if m.stopped then
    m
  else
    let m := emitStatus { m with nextRetryAt := some (t.now + realtimeProbeDelayMs) }
    { m.setTimeout (.probe reason) with probeTimer := some m.window.next }

def enterPolling (reason : String) (m : LiveTransportManager) : LiveTransportManager :=
  let m := m.clearTimers.closeCurrent
  let m := { m with
    mode           := .polling
    state          := .polling
    attempt        := 0
    degradedReason := reason
    lastFailureAt  := some t.now
    lastError      := reason
  }
  m.emitStatus.scheduleProbe t "Retrying realtime transport after polling fallback."

def scheduleRetry (mode : RealtimeMode) (attempt : Nat) (reason : String) (m : LiveTransportManager) :
    LiveTransportManager :=
  let delayMs := match mode with
    | .websocket => getBackoffDelay attempt 900 12000 t.random
    | .sse       => getBackoffDelay attempt 1500 20000 t.random
  let m := emitStatus { m with
    lastFailureAt  := some t.now
    nextRetryAt    := some (t.now + delayMs)
    degradedReason := reason
    mode           := mode.transport
    state          := .connecting
    attempt        := attempt
  }
  { m.setTimeout (.retry mode attempt reason) with retryTimer := some m.window.next }

def openEventSource (attempt : Nat) (m : LiveTransportManager) : LiveTransportManager :=
  if page.eventSource then
    match page.streamUrl with
    | none           => m.enterPolling t "Invalid SSE URL."
    | some streamUrl =>
      let source := { closed := false, attempt, handled := true }
      { m with
        eventSource    := some m.window.next
        window.sources := Function.update m.window.sources m.window.next (some source)
        window.next    := m.window.next + 1
        window.outputs := m.window.outputs ++ [.eventSource streamUrl]
      }
  else
    m.enterPolling t "Server-Sent Events are not supported in this browser."

-- What `connect` does before it opens a connection.
def connecting (mode : RealtimeMode) (attempt : Nat) (reason : String) (m : LiveTransportManager) :
    LiveTransportManager :=
  let m := m.clearTimers.closeCurrent
  emitStatus { m with
    mode           := mode.transport
    state          := .connecting
    attempt        := attempt
    degradedReason := if reason = "" then m.degradedReason else reason
  }

-- Only the failure of a WebSocket makes `connect` call itself, and then for an event source.
def connectSse (attempt : Nat) (reason : String) (m : LiveTransportManager) : LiveTransportManager :=
  if m.stopped then m else (m.connecting .sse attempt reason).openEventSource page t attempt

def handleRealtimeFailure (mode : RealtimeMode) (attempt : Nat) (reason : String) (m : LiveTransportManager) :
    LiveTransportManager :=
  if m.stopped then
    m
  else
    let m := { m with lastFailureAt := some t.now, lastError := reason }
    match mode with
    | .websocket =>
      if attempt + 1 < websocketAttemptLimit then
        m.scheduleRetry t .websocket (attempt + 1) reason
      else if page.eventSource ∧ page.streamUrl.isSome then
        m.connectSse page t 0 "WebSocket upgrades failed. Falling back to SSE."
      else
        m.enterPolling t "WebSocket upgrades failed and SSE is unavailable."
    | .sse       =>
      if attempt + 1 < sseAttemptLimit then
        m.scheduleRetry t .sse (attempt + 1) reason
      else
        m.enterPolling t "Realtime stream unavailable. Using polling until a later probe succeeds."

def openWebSocket (attempt : Nat) (m : LiveTransportManager) : LiveTransportManager :=
  match page.socketUrl with
  | none           => m.enterPolling t "Invalid WebSocket URL."
  | some socketUrl =>
    if t.throws then
      m.handleRealtimeFailure page t .websocket attempt "WebSocket initialization failed."
    else
      let socket := { readyState := .connecting, attempt, opened := false, handled := true, closeOnOpen := false }
      { m with
        socket         := some m.window.next
        window.sockets := Function.update m.window.sockets m.window.next (some socket)
        window.next    := m.window.next + 1
        window.outputs := m.window.outputs ++ [.webSocket socketUrl]
      }

def connect (mode : RealtimeMode) (attempt : Nat) (reason : String) (m : LiveTransportManager) :
    LiveTransportManager :=
  if m.stopped then
    m
  else
    let m := m.connecting mode attempt reason
    match mode with
    | .websocket => m.openWebSocket page t attempt
    | .sse       => m.openEventSource page t attempt

def start (m : LiveTransportManager) : LiveTransportManager :=
  let m := clearTimers { m with stopped := false }
  { m.setTimeout (.retry .websocket 0 "") with retryTimer := some m.window.next }

def stop (nextState : ConnectionState) (m : LiveTransportManager) : LiveTransportManager :=
  let m := closeCurrent <| clearTimers { m with stopped := true }
  emitStatus { m with state := nextState, attempt := 0, nextRetryAt := none }

def retryNow (m : LiveTransportManager) : LiveTransportManager :=
  if m.stopped then
    m
  else
    connect page t .websocket 0 "Manual reconnect requested."
      { m.clearTimers with degradedReason := "", lastError := "", nextRetryAt := none }

-- A timer that has been cleared, or has fired, does not fire.
def fire (i : Nat) (m : LiveTransportManager) : LiveTransportManager :=
  match m.window.timers i with
  | none                              => m
  | some (.retry mode attempt reason) =>
    connect page t mode attempt reason { m.clearTimeout i with retryTimer := none }
  | some (.probe reason)              =>
    connect page t .websocket 0 reason { m.clearTimeout i with probeTimer := none, nextRetryAt := none }

def live (mode : TransportMode) (m : LiveTransportManager) : LiveTransportManager :=
  emitStatus { m with
    mode           := mode
    state          := .live
    attempt        := 0
    degradedReason := ""
    lastError      := ""
    nextRetryAt    := none
  }

def receive (data : String) (m : LiveTransportManager) : LiveTransportManager :=
  match parseTransportEvent data with
  | none       => m.emit .malformed
  | some event => emitStatus <| emit { m with lastMessageAt := some t.now } (.event event)

inductive SocketEvent
  | opened
  | message (data : String)
  | error
  | closed (code : Nat) (reason : String)

-- What the browser does with a socket, besides calling its handler.
def SocketEvent.apply : SocketEvent → Socket → Socket
  | opened, s    => { s with readyState := if s.closeOnOpen then .closed else .opened, closeOnOpen := false }
  | closed .., s => { s with readyState := .closed }
  | _, s         => s

def onSocket (i : Nat) (s : Socket) (m : LiveTransportManager) : SocketEvent → LiveTransportManager
  | .opened             => live .websocket <| m.setSocket i ({ · with opened := true })
  | .message data       => m.receive t data
  | .error              => emitStatus { m with lastError := "WebSocket transport error." }
  | .closed code reason =>
    let reason := if safeTrim reason ≠ "" then safeTrim reason else
      "WebSocket closed (" ++ (if code = 0 then "unknown" else toString code) ++ ")."
    handleRealtimeFailure page t .websocket s.attempt
      (if s.opened then reason else "WebSocket upgrade failed: " ++ reason) { m with socket := none }

-- The handlers of a connection that is not the current one do nothing.
def socketEvent (i : Nat) (e : SocketEvent) (m : LiveTransportManager) : LiveTransportManager :=
  match m.window.sockets i with
  | none   => m
  | some s =>
    let m := m.setSocket i e.apply
    if ¬s.handled ∨ m.socket ≠ some i ∨ m.stopped then m else m.onSocket page t i s e

-- An event source calls the handler that is registered for the type of the event.
def onSource (i : Nat) (s : Source) (m : LiveTransportManager) (type data : String) : LiveTransportManager :=
  if type = "open" then
    scheduleProbe t "Probing WebSocket recovery after SSE fallback." <| m.live .sse
  else if type = "message" then
    m.receive t data
  else if type = "error" then
    handleRealtimeFailure page t .sse s.attempt "SSE stream disconnected."
      { m.setSource i ({ · with closed := true }) with eventSource := none }
  else
    m

def sourceEvent (i : Nat) (type data : String) (m : LiveTransportManager) : LiveTransportManager :=
  match m.window.sources i with
  | none   => m
  | some s => if ¬s.handled ∨ m.eventSource ≠ some i ∨ m.stopped then m else m.onSource page t i s type data

end LiveTransportManager

-- What happens to the manager after its start.
inductive TransportLabel
  | timer (i : Nat)
  | socket (i : Nat) (e : LiveTransportManager.SocketEvent)
  | source (i : Nat) (type data : String)
  | retryNow
  | stop (nextState : ConnectionState)

namespace LiveTransportManager

variable (page : Page)

def step (m : LiveTransportManager) : Moment × TransportLabel → LiveTransportManager
  | (t, .timer i)            => m.fire page t i
  | (t, .socket i e)         => m.socketEvent page t i e
  | (t, .source i type data) => m.sourceEvent page t i type data
  | (t, .retryNow)           => m.retryNow page t
  | (_, .stop nextState)     => m.stop nextState

-- The manager has neither a connection nor a timer.
structure Idle (m : LiveTransportManager) : Prop where
  socket      : m.socket = none
  eventSource : m.eventSource = none
  retryTimer  : m.retryTimer = none
  probeTimer  : m.probeTimer = none

-- There is a single connection at most, and something that a later event comes from.
structure Settled (m : LiveTransportManager) : Prop where
  single : m.socket = none ∨ m.eventSource = none
  alive  : ¬m.stopped → m.socket.isSome ∨ m.eventSource.isSome ∨ m.retryTimer.isSome ∨ m.probeTimer.isSome
  closed : m.stopped → Idle m

variable {page : Page} {t : Moment} {m m' : LiveTransportManager} {mode : RealtimeMode} {attempt i : Nat}
         {reason type data : String} {e : SocketEvent}

-- What is left of the manager when its timers are cleared.
structure Untimed (m m' : LiveTransportManager) : Prop where
  retryTimer  : m'.retryTimer = none
  probeTimer  : m'.probeTimer = none
  socket      : m'.socket = m.socket
  eventSource : m'.eventSource = m.eventSource
  stopped     : m'.stopped = m.stopped

theorem clearTimers_untimed (m : LiveTransportManager) : Untimed m m.clearTimers := by
  unfold clearTimers
  cases hr : m.retryTimer <;> cases hp : m.probeTimer <;> constructor <;> simp [clearTimeout, hr, hp]

structure Unconnected (m m' : LiveTransportManager) : Prop where
  socket      : m'.socket = none
  eventSource : m'.eventSource = none
  retryTimer  : m'.retryTimer = m.retryTimer
  probeTimer  : m'.probeTimer = m.probeTimer
  stopped     : m'.stopped = m.stopped

theorem closeCurrent_unconnected (m : LiveTransportManager) : Unconnected m m.closeCurrent := by
  unfold closeCurrent
  cases hs : m.socket <;> cases he : m.eventSource <;> constructor <;> simp [setSocket, setSource, hs, he]

theorem closeCurrent_idle (m : LiveTransportManager) : Idle m.clearTimers.closeCurrent where
  socket      := (closeCurrent_unconnected _).socket
  eventSource := (closeCurrent_unconnected _).eventSource
  retryTimer  := (closeCurrent_unconnected _).retryTimer.trans (clearTimers_untimed m).retryTimer
  probeTimer  := (closeCurrent_unconnected _).probeTimer.trans (clearTimers_untimed m).probeTimer

theorem closeCurrent_stopped (m : LiveTransportManager) : m.clearTimers.closeCurrent.stopped = m.stopped :=
  (closeCurrent_unconnected _).stopped.trans (clearTimers_untimed m).stopped

theorem Settled.of_live (h : ¬m.stopped) (hs : m.socket = none ∨ m.eventSource = none)
    (ha : m.socket.isSome ∨ m.eventSource.isSome ∨ m.retryTimer.isSome ∨ m.probeTimer.isSome) : Settled m where
  single    := hs
  alive _   := ha
  closed h' := absurd h' h

theorem Settled.of_idle (h : m.stopped) (hi : Idle m) : Settled m where
  single   := .inl hi.socket
  alive h' := absurd h h'
  closed _ := hi

-- Settled does not depend on anything but the connections, the timers and the flag.
theorem Settled.frame (h : Settled m) (hs : m'.socket = m.socket) (he : m'.eventSource = m.eventSource)
    (hr : m'.retryTimer = m.retryTimer) (hp : m'.probeTimer = m.probeTimer) (hf : m'.stopped = m.stopped) :
    Settled m' where
  single := by rw [hs, he]; exact h.single
  alive  := by rw [hs, he, hr, hp, hf]; exact h.alive
  closed hc :=
    have hi := h.closed (hf ▸ hc)
    ⟨hs.trans hi.socket, he.trans hi.eventSource, hr.trans hi.retryTimer, hp.trans hi.probeTimer⟩

theorem scheduleProbe_settled (h : ¬m.stopped) (hs : m.socket = none ∨ m.eventSource = none) :
    Settled (scheduleProbe t reason m) := by
  rw [scheduleProbe, if_neg h]
  exact .of_live h hs <| .inr <| .inr <| .inr rfl

theorem enterPolling_settled (h : ¬m.stopped) : Settled (enterPolling t reason m) :=
  scheduleProbe_settled (closeCurrent_stopped m ▸ h) (.inl (closeCurrent_idle m).socket)

theorem scheduleRetry_settled (h : ¬m.stopped) (hs : m.socket = none ∨ m.eventSource = none) :
    Settled (scheduleRetry t mode attempt reason m) :=
  .of_live h hs <| .inr <| .inr <| .inl rfl

theorem openEventSource_settled (h : ¬m.stopped) (hs : m.socket = none) :
    Settled (openEventSource page t attempt m) := by
  unfold openEventSource
  split
  case isFalse => exact enterPolling_settled h
  case isTrue  =>
    split
    case h_1 => exact enterPolling_settled h
    case h_2 => exact .of_live h (.inl hs) <| .inr <| .inl rfl

theorem connecting_idle (m : LiveTransportManager) : Idle (m.connecting mode attempt reason) :=
  { closeCurrent_idle m with }

theorem connecting_stopped (h : ¬m.stopped) : ¬(m.connecting mode attempt reason).stopped :=
  (closeCurrent_stopped m).symm ▸ h

theorem connectSse_settled (h : ¬m.stopped) : Settled (connectSse page t attempt reason m) := by
  rw [connectSse, if_neg h]
  exact openEventSource_settled (connecting_stopped h) (connecting_idle m).socket

theorem handleRealtimeFailure_settled (h : ¬m.stopped) (hs : m.socket = none ∨ m.eventSource = none) :
    Settled (handleRealtimeFailure page t mode attempt reason m) := by
  rw [handleRealtimeFailure, if_neg h]
  cases mode
  case websocket =>
    dsimp only
    split_ifs
    · exact scheduleRetry_settled h hs
    · exact connectSse_settled h
    · exact enterPolling_settled h
  case sse       =>
    dsimp only
    split_ifs
    · exact scheduleRetry_settled h hs
    · exact enterPolling_settled h

theorem openWebSocket_settled (h : ¬m.stopped) (hi : Idle m) : Settled (openWebSocket page t attempt m) := by
  unfold openWebSocket
  split
  case h_1 => exact enterPolling_settled h
  case h_2 =>
    split
    case isTrue  => exact handleRealtimeFailure_settled h (.inl hi.socket)
    case isFalse => exact .of_live h (.inr hi.eventSource) (.inl rfl)

theorem connect_settled (h : ¬m.stopped) : Settled (connect page t mode attempt reason m) := by
  rw [connect, if_neg h]
  have hi := @connecting_idle mode attempt reason m
  cases mode
  case websocket => exact openWebSocket_settled (connecting_stopped h) hi
  case sse       => exact openEventSource_settled (connecting_stopped h) hi.socket

theorem connect_settled_of_idle (h : m.stopped → Idle m) : Settled (connect page t mode attempt reason m) := by
  cases hs : m.stopped
  case true  =>
    rw [connect, if_pos hs]
    exact .of_idle hs (h hs)
  case false => exact connect_settled (by simp [hs])

theorem fire_settled (h : Settled m) : Settled (fire page t i m) := by
  unfold fire
  split
  case h_1 => exact h
  case h_2 =>
    refine connect_settled_of_idle fun hs => ?_
    exact { h.closed hs with retryTimer := rfl }
  case h_3 =>
    refine connect_settled_of_idle fun hs => ?_
    exact { h.closed hs with probeTimer := rfl }

theorem receive_settled (h : Settled m) : Settled (receive t data m) := by
  unfold receive
  split
  case h_1 => exact h.frame rfl rfl rfl rfl rfl
  case h_2 => exact h.frame rfl rfl rfl rfl rfl

theorem onSocket_settled {s : Socket} (h : Settled m) (hs : ¬m.stopped) : Settled (onSocket page t i s m e) := by
  cases e
  case opened  => exact h.frame rfl rfl rfl rfl rfl
  case message => exact receive_settled h
  case error   => exact h.frame rfl rfl rfl rfl rfl
  case closed  =>
    dsimp only [onSocket]
    exact handleRealtimeFailure_settled hs (.inl rfl)

theorem socketEvent_settled (h : Settled m) : Settled (socketEvent page t i e m) := by
  unfold socketEvent
  split
  case h_1 => exact h
  case h_2 =>
    have h' : Settled (m.setSocket i e.apply) := h.frame rfl rfl rfl rfl rfl
    dsimp only
    split
    case isTrue     => exact h'
    case isFalse hc =>
      rw [not_or, not_or] at hc
      exact onSocket_settled h' hc.2.2

theorem onSource_settled {s : Source} (h : Settled m) (hs : ¬m.stopped) :
    Settled (onSource page t i s m type data) := by
  unfold onSource
  split_ifs
  · exact scheduleProbe_settled hs h.single
  · exact receive_settled h
  · exact handleRealtimeFailure_settled hs (.inr rfl)
  · exact h

theorem sourceEvent_settled (h : Settled m) : Settled (sourceEvent page t i type data m) := by
  unfold sourceEvent
  split
  case h_1 => exact h
  case h_2 =>
    split
    case isTrue     => exact h
    case isFalse hc =>
      rw [not_or, not_or] at hc
      exact onSource_settled h hc.2.2

theorem retryNow_settled (h : Settled m) : Settled (retryNow page t m) := by
  unfold retryNow
  split
  case isTrue     => exact h
  case isFalse hs =>
    refine connect_settled fun h' => ?_
    exact hs <| (clearTimers_untimed m).stopped ▸ h'

theorem stop_settled (nextState : ConnectionState) (m : LiveTransportManager) : Settled (stop nextState m) :=
  .of_idle (closeCurrent_stopped { m with stopped := true }) { closeCurrent_idle { m with stopped := true } with }

-- Every event keeps the manager settled, and so does every call.
theorem step_settled (h : Settled m) : (l : Moment × TransportLabel) → Settled (step page m l)
  | (_, .timer _)        => fire_settled h
  | (_, .socket _ _)     => socketEvent_settled h
  | (_, .source _ _ _)   => sourceEvent_settled h
  | (_, .retryNow)       => retryNow_settled h
  | (_, .stop nextState) => stop_settled nextState m

theorem start_settled : Settled initial.start :=
  .of_live Bool.false_ne_true (.inl rfl) (.inr <| .inr <| .inl rfl)

-- Until it is stopped again, the manager emits nothing and opens nothing.
def Silent (page : Page) (m : LiveTransportManager) : Prop :=
  ∀ t l, (∀ nextState, l ≠ .stop nextState) → (m.step page (t, l)).window.outputs = m.window.outputs

theorem connect_of_stopped (h : m.stopped) :
    (connect page t mode attempt reason m).window.outputs = m.window.outputs ∧
    (connect page t mode attempt reason m).stopped = m.stopped := by
  rw [connect, if_pos h]
  exact ⟨rfl, rfl⟩

theorem fire_of_stopped (h : m.stopped) :
    (fire page t i m).window.outputs = m.window.outputs ∧ (fire page t i m).stopped = m.stopped := by
  unfold fire
  split
  case h_1 => exact ⟨rfl, rfl⟩
  case h_2 => exact connect_of_stopped h
  case h_3 => exact connect_of_stopped h

theorem socketEvent_of_stopped (h : m.stopped) :
    (socketEvent page t i e m).window.outputs = m.window.outputs ∧
    (socketEvent page t i e m).stopped = m.stopped := by
  unfold socketEvent
  split
  case h_1 => exact ⟨rfl, rfl⟩
  case h_2 => rw [if_pos (.inr <| .inr h)]; exact ⟨rfl, rfl⟩

theorem sourceEvent_of_stopped (h : m.stopped) : sourceEvent page t i type data m = m := by
  unfold sourceEvent
  split
  case h_1 => rfl
  case h_2 => exact if_pos <| .inr <| .inr h

theorem step_of_stopped (h : m.stopped) :
    (l : TransportLabel) → (∀ nextState, l ≠ .stop nextState) →
    (step page m (t, l)).window.outputs = m.window.outputs ∧ (step page m (t, l)).stopped = m.stopped
  | .timer _, _        => fire_of_stopped h
  | .socket _ _, _     => socketEvent_of_stopped h
  | .source _ _ _, _   => by rw [step, sourceEvent_of_stopped h]; exact ⟨rfl, rfl⟩
  | .retryNow, _       => by rw [step, retryNow, if_pos h]; exact ⟨rfl, rfl⟩
  | .stop nextState, h => absurd rfl (h nextState)

theorem silent_of_stopped (h : m.stopped) : Silent page m :=
  fun _ l hl => (step_of_stopped h l hl).left

theorem stop_stopped (nextState : ConnectionState) (m : LiveTransportManager) : (stop nextState m).stopped :=
  closeCurrent_stopped { m with stopped := true }

-- A manager is not started again.
theorem step_stopped (h : m.stopped) : (l : Moment × TransportLabel) → (step page m l).stopped
  | (_, .stop nextState)     => stop_stopped nextState m
  | (_, .timer i)            => (step_of_stopped h (.timer i) nofun).right.trans h
  | (_, .socket i e)         => (step_of_stopped h (.socket i e) nofun).right.trans h
  | (_, .source i type data) => (step_of_stopped h (.source i type data) nofun).right.trans h
  | (_, .retryNow)           => (step_of_stopped h .retryNow nofun).right.trans h

variable {ls : List (Moment × TransportLabel)}

theorem last_stopped (h : m.stopped) : (Run.last (step page) m ls).stopped := by
  induction ls generalizing m
  case nil          => exact h
  case cons l ls hi => exact hi (step_stopped h l)

theorem last_settled (h : Settled m) : Settled (Run.last (step page) m ls) := by
  induction ls generalizing m
  case nil          => exact h
  case cons l ls hi => exact hi (step_settled h l)

-- The manager after its start and what has happened since.
abbrev reached (page : Page) (ls : List (Moment × TransportLabel)) : LiveTransportManager :=
  Run.last (step page) initial.start ls

-- The transport is never doubled, never stuck, and does not outlive a stop.
theorem settled_and_silent (page : Page) :
    (∀ ls, Settled (reached page ls) ∧ ((reached page ls).stopped → Silent page (reached page ls))) ∧
    ∀ ls t nextState ls', (reached page (ls ++ (t, .stop nextState) :: ls')).stopped where
  left _                   := ⟨last_settled start_settled, silent_of_stopped⟩
  right ls t nextState ls' := by
    rw [reached, Run.last, List.foldl_append, List.foldl_cons]
    exact last_stopped (stop_stopped nextState _)

end LiveTransportManager
end JobPlatform.Live
