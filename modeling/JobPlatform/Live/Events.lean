import JobPlatform.Library.EventStream
import JobPlatform.Live.Transport
import JobPlatform.Scheduler.Cron
import Mathlib.Data.List.DropRight

namespace JobPlatform.Live

-- The fraction of the second does not end with a zero, and the years have four digits.
def rfc3339Nano (t : Time) : Option String :=
  let digits := (Time.padded 9 (t % 1000000000).toNat).toList.rdropWhile (· = '0')
  let fraction := if digits = [] then [] else '.' :: digits
  if -62167219200 ≤ t / 1000000000 ∧ t / 1000000000 < 253402300800 then
    some <| .ofList <| t.rfc3339.toList.dropLast ++ fraction ++ ['Z']
  else
    none

example : rfc3339Nano 1709210096120000000 = "2024-02-29T12:34:56.12Z" := by
  decide +kernel

structure WorkerStatus where
  workerID    : WorkerID
  hostname    : String
  queues      : Option (List QueueName)
  concurrency : Int
  status      : String
  startedAt   : Time
  lastSeenAt  : Time
  version     : String

-- No event has an overview.
structure SystemEvent where
  kind       : String
  jobID      : JobID
  queue      : QueueName
  workerID   : WorkerID
  state      : Option JobState
  message    : String
  timestamp  : Time
  workerInfo : Option WorkerStatus

def WorkerStatus.json (w : WorkerStatus) : Option Json := do
  let startedAt ← rfc3339Nano w.startedAt
  let lastSeenAt ← rfc3339Nano w.lastSeenAt
  some <| .object [
    ("workerId", .string w.workerID),
    ("hostname", .string w.hostname),
    ("queues", w.queues.elim .null fun queues => .array (queues.map .string)),
    ("concurrency", .int w.concurrency),
    ("status", .string w.status),
    ("startedAt", .string startedAt),
    ("lastSeenAt", .string lastSeenAt),
    ("version", .string w.version)
  ]

def omitEmpty (key value : String) : List (String × Json) :=
  if value = "" then [] else [(key, .string value)]

namespace SystemEvent

-- The members after the kind.
def members (e : SystemEvent) (timestamp : String) (workerInfo : List (String × Json)) : List (String × Json) :=
  omitEmpty "jobId" e.jobID ++ omitEmpty "queue" e.queue ++ omitEmpty "workerId" e.workerID ++
  omitEmpty "state" (e.state.elim "" toString) ++ omitEmpty "message" e.message ++
  ("timestamp", .string timestamp) :: workerInfo

def worker : Option WorkerStatus → Option (List (String × Json))
  | none   => some []
  | some w => w.json.map fun j => [("workerInfo", j)]

def json (e : SystemEvent) : Option Json := do
  let timestamp ← rfc3339Nano e.timestamp
  let workerInfo ← worker e.workerInfo
  some <| .object (("kind", .string e.kind) :: e.members timestamp workerInfo)

end SystemEvent

-- What `Publish` sends, unless the event cannot be written.
def publish (e : SystemEvent) : Option String :=
  e.json.map fun j => .ofList j.marshal

def writeSSEPayload (payload : String) : String :=
  "event: system\ndata: " ++ payload ++ "\n\n"

-- What a stream's client is sent while it is registered.
inductive Sent
  | event (e : SystemEvent)
  | keepAlive

namespace Sent

-- The payload of an event, which the hub passes on to all of its clients.
def payload : Sent → Option String
  | event e   => publish e
  | keepAlive => none

def json : Sent → Option Json
  | event e   => e.json
  | keepAlive => none

def text : Sent → String
  | event e   => (publish e).elim "" writeSSEPayload
  | keepAlive => ": ping\n\n"

variable {item : Sent}

theorem payload_eq_none : item.payload = none ↔ item.json = none := by
  cases item
  case event e   => exact Option.map_eq_none_iff
  case keepAlive => exact iff_of_true rfl rfl

end Sent

def registerSSE (items : List Sent) : List Char :=
  ": connected\n\n".toList ++ items.flatMap (·.text.toList)

theorem publish_eq_some {e : SystemEvent} {payload : String} (h : publish e = some payload) :
    ∃ j, e.json = some j ∧ payload.toList = j.marshal := by
  obtain ⟨j, hj, rfl⟩ := Option.map_eq_some_iff.mp h
  exact ⟨j, hj, String.toList_ofList⟩

theorem inline_payload {e : SystemEvent} {payload : String} (h : publish e = some payload) :
    EventStream.Inline payload.toList := by
  obtain ⟨j, -, hp⟩ := publish_eq_some h
  intro c hc
  have hc := j.printable c (hp ▸ hc)
  exact ⟨by rintro rfl; revert hc; decide, by rintro rfl; revert hc; decide⟩

namespace SystemEvent

variable {e : SystemEvent} {timestamp : String} {workerInfo : List (String × Json)} {j : Json}

theorem mem_omitEmpty {key value : String} {p : String × Json} (h : p ∈ omitEmpty key value) : p.1 = key := by
  unfold omitEmpty at h
  split at h
  case isTrue  => cases h
  case isFalse => rw [List.mem_singleton.mp h]

theorem name_members (hw : ∀ p ∈ workerInfo, p.1 = "workerInfo") :
    ∀ p ∈ e.members timestamp workerInfo, p.1 ≠ "kind" := by
  have omitted {key value : String} (hk : key ≠ "kind") : ∀ p ∈ omitEmpty key value, p.1 ≠ "kind" :=
    fun _ hp => mem_omitEmpty hp ▸ hk
  simp only [members, List.forall_mem_append, List.forall_mem_cons, and_assoc]
  exact ⟨omitted (by decide), omitted (by decide), omitted (by decide), omitted (by decide), omitted (by decide),
    by decide, fun p hp => hw p hp ▸ by decide⟩

-- The kind is the only member of its name.
theorem get?_kind (hw : ∀ p ∈ workerInfo, p.1 = "workerInfo") :
    (Json.object (("kind", .string e.kind) :: e.members timestamp workerInfo)).get? "kind" =
      some (.string e.kind) := by
  have hn : (e.members timestamp workerInfo).reverse.find? (fun p => decide (p.1 = "kind")) = none := by
    rw [List.find?_eq_none]
    intro p hp
    simpa using name_members hw p (List.mem_reverse.mp hp)
  simp [Json.get?, hn]

theorem name_worker {w : Option WorkerStatus} (h : worker w = some workerInfo) :
    ∀ p ∈ workerInfo, p.1 = "workerInfo" := by
  intro p hp
  cases w
  case none   =>
    cases h
    cases hp
  case some w =>
    obtain ⟨j, -, rfl⟩ := Option.map_eq_some_iff.mp h
    rw [List.mem_singleton.mp hp]

theorem json_kind (h : e.json = some j) : j.get? "kind" = some (.string e.kind) := by
  obtain ⟨timestamp, -, h⟩ := Option.bind_eq_some_iff.mp h
  obtain ⟨workerInfo, hw, h⟩ := Option.bind_eq_some_iff.mp h
  cases h
  exact get?_kind (name_worker hw)

end SystemEvent

-- The payload gives the event back.
theorem parseTransportEvent_payload {e : SystemEvent} {payload : String} (h : publish e = some payload) :
    parseTransportEvent payload = e.json := by
  obtain ⟨j, hj, hp⟩ := publish_eq_some h
  simp only [parseTransportEvent, hp, Json.parse_marshal, Option.bind_eq_bind, Option.bind_some,
    SystemEvent.json_kind hj, hj]

theorem Sent.parse_payload {item : Sent} {payload : String} (h : item.payload = some payload) :
    ∃ j, item.json = some j ∧ parseTransportEvent payload = some j := by
  cases item
  case keepAlive => cases h
  case event e   =>
    obtain ⟨j, hj, -⟩ := publish_eq_some h
    exact ⟨j, hj, (parseTransportEvent_payload h).trans hj⟩

open EventStream

def message (payload : String) : Message where
  type        := "system"
  data        := payload
  lastEventID := ""

-- The buffers between two events.
def between (messages : List Message) : Buffers where
  data        := []
  eventType   := []
  lastEventID := []
  messages    := messages

theorem toList_writeSSEPayload (payload : String) (content : List Char) :
    (writeSSEPayload payload).toList ++ content =
      "event: ".toList ++ "system".toList ++
        '\n' :: ("data: ".toList ++ payload.toList ++ '\n' :: '\n' :: content) := by
  have append (s t u : String) : (s ++ t ++ u).toList = s.toList ++ (t.toList ++ u.toList) := by
    rw [String.toList_append, String.toList_append, List.append_assoc]
  have lines (k l d p : List Char) :
      (k ++ l ++ '\n' :: d) ++ (p ++ ['\n', '\n']) ++ content =
        k ++ l ++ '\n' :: (d ++ p ++ '\n' :: '\n' :: content) := by
    simp
  have hs : "event: system\ndata: ".toList = "event: ".toList ++ "system".toList ++ '\n' :: "data: ".toList := rfl
  have hw := append "event: system\ndata: " payload "\n\n"
  rw [hs] at hw
  exact (congrArg (· ++ content) hw).trans <| lines _ _ _ _

theorem feed_payload {payload : String} (h : Inline payload.toList) (messages : List Message)
    (content : List Char) :
    (between messages).reader.feed ((writeSSEPayload payload).toList ++ content) =
      (between (messages ++ [message payload])).reader.feed content := by
  have hs : (between messages).sent "system".toList payload.toList = message payload := by
    simp [Buffers.sent, message, between, String.ofList_toList]
  rw [toList_writeSSEPayload, feed_event rfl (inline_of_all rfl) h, hs]
  rfl

theorem feed_ping (messages : List Message) (content : List Char) :
    (between messages).reader.feed (Sent.keepAlive.text.toList ++ content) =
      (between messages).reader.feed content :=
  @feed_comment (between messages) " ping".toList content rfl rfl (inline_of_all rfl)

theorem feed_text (item : Sent) (messages : List Message) (content : List Char) :
    (between messages).reader.feed (item.text.toList ++ content) =
      (between (messages ++ (item.payload.map message).toList)).reader.feed content := by
  cases item
  case keepAlive => rw [feed_ping, Sent.payload, Option.map_none, Option.toList_none, List.append_nil]
  case event e   =>
    cases hp : publish e
    case none         => simp [Sent.text, Sent.payload, hp]
    case some payload =>
      simp only [Sent.text, Sent.payload, hp, Option.elim_some, Option.map_some, Option.toList_some]
      exact feed_payload (inline_payload hp) messages content

-- The stream is decoded to one message for each event, and each carries its event's payload.
theorem decode_registerSSE (items : List Sent) :
    decode (registerSSE items) = (items.filterMap Sent.payload).map message := by
  have feed (messages : List Message) : (between messages).reader.feed (items.flatMap (·.text.toList)) =
      (between (messages ++ (items.filterMap Sent.payload).map message)).reader := by
    induction items generalizing messages
    case nil                => simp [Reader.feed]
    case cons item items hi =>
      rw [List.flatMap_cons, feed_text, hi]
      cases hp : item.payload <;> simp [hp]
  have hc : (between []).reader.feed (registerSSE items) =
      (between []).reader.feed (items.flatMap (·.text.toList)) :=
    @feed_comment (between []) " connected".toList _ rfl rfl (inline_of_all rfl)
  have hd : decode (registerSSE items) = ((between []).reader.feed (registerSSE items)).buffers.messages := rfl
  rw [hd, hc, feed]
  rfl

-- The event arrives as the one message that the client's handler is registered for.
def Received (e : SystemEvent) : Prop :=
  ∃ m, decode (registerSSE [.event e]) = [m] ∧ m.type = "message" ∧ parseTransportEvent m.data = e.json

theorem not_received (e : SystemEvent) : ¬Received e := by
  rintro ⟨m, hd, ht, -⟩
  rw [decode_registerSSE] at hd
  have hm : m ∈ ([.event e].filterMap Sent.payload).map message := hd ▸ List.mem_singleton_self m
  obtain ⟨payload, -, rfl⟩ := List.mem_map.mp hm
  exact absurd ht (by decide : "system" ≠ "message")

namespace LiveTransportManager

def delivered (m : LiveTransportManager) : List Json :=
  m.window.outputs.filterMap fun
    | .event e => some e
    | _        => none

variable (page : Page) (t : Moment) (i : Nat)

def overWebSocket (items : List Sent) (m : LiveTransportManager) : LiveTransportManager :=
  (items.filterMap Sent.payload).foldl (fun m payload => m.socketEvent page t i (.message payload)) m

def overSSE (items : List Sent) (m : LiveTransportManager) : LiveTransportManager :=
  (decode (registerSSE items)).foldl (fun m e => m.sourceEvent page t i e.type e.data) m

-- The manager listens to the current socket.
structure Listens (m : LiveTransportManager) : Prop where
  handled : ∃ s, m.window.sockets i = some s ∧ s.handled
  current : m.socket = some i
  started : ¬m.stopped

variable {page : Page} {t : Moment} {i i' : Nat} {m m' : LiveTransportManager} {payload : String} {j : Json}
         {items : List Sent}

theorem receive_delivered (hp : parseTransportEvent payload = some j) :
    (m.receive t payload).delivered = m.delivered ++ [j] := by
  rw [receive, hp]
  simp [emitStatus, emit, delivered]

theorem socketEvent_message (h : m.Listens i) :
    m.socketEvent page t i (.message payload) = (m.setSocket i id).receive t payload := by
  obtain ⟨s, hs, hh⟩ := h.handled
  have hn : ¬(¬s.handled ∨ (m.setSocket i id).socket ≠ some i ∨ (m.setSocket i id).stopped) := by
    rintro (hc | hc | hc)
    · exact hc hh
    · exact hc h.current
    · exact h.started hc
  rw [socketEvent, hs]
  exact if_neg hn

theorem Listens.setSocket (h : m.Listens i) : (m.setSocket i id).Listens i where
  handled := by
    obtain ⟨s, hs, hh⟩ := h.handled
    exact ⟨s, by simp [LiveTransportManager.setSocket, hs], hh⟩
  current := h.current
  started := h.started

theorem Listens.receive (h : m.Listens i) : (m.receive t payload).Listens i := by
  unfold LiveTransportManager.receive
  split
  case h_1 => exact { h with }
  case h_2 => exact { h with }

-- Over the WebSocket, the events arrive in the order in which they have been published.
theorem overWebSocket_delivered (h : m.Listens i) :
    (m.overWebSocket page t i items).delivered = m.delivered ++ items.filterMap Sent.json := by
  induction items generalizing m
  case nil                => simp [overWebSocket]
  case cons item items hi =>
    cases hp : item.payload
    case none         =>
      have hj : item.json = none := Sent.payload_eq_none.mp hp
      simpa [overWebSocket, hp, hj] using hi h
    case some payload =>
      obtain ⟨j, hj, ht⟩ := Sent.parse_payload hp
      have hr := hi (m := m.socketEvent page t i (.message payload)) <| by
        rw [socketEvent_message h]
        exact h.setSocket.receive
      rw [socketEvent_message h, receive_delivered ht] at hr
      have hd : (m.setSocket i id).delivered = m.delivered := rfl
      simpa [overWebSocket, hp, hj, hd, socketEvent_message h] using hr

theorem sourceEvent_system : m.sourceEvent page t i "system" payload = m := by
  unfold sourceEvent
  split
  case h_1 => rfl
  case h_2 => exact ite_self m

-- Over the event stream, no event arrives.
theorem overSSE_eq : m.overSSE page t i items = m := by
  rw [overSSE, decode_registerSSE, List.foldl_map]
  induction items.filterMap Sent.payload
  case nil                   => rfl
  case cons payload payloads hi => rwa [List.foldl_cons, message, sourceEvent_system]

-- Both transports deliver the same events in the same order.
def SameOrder (page : Page) (t : Moment) (i i' : Nat) (m m' : LiveTransportManager) (items : List Sent) : Prop :=
  ∃ events, (m.overSSE page t i items).delivered = m.delivered ++ events ∧
    (m'.overWebSocket page t i' items).delivered = m'.delivered ++ events

theorem sameOrder_iff (h : m'.Listens i') :
    SameOrder page t i i' m m' items ↔ items.filterMap Sent.json = [] := by
  rw [SameOrder, overSSE_eq, overWebSocket_delivered h]
  simp

-- No event is received, and the transports agree only if no event is published.
theorem sse_agrees_iff (h : m'.Listens i') :
    (∀ e, ¬Received e) ∧
    (SameOrder page t i i' m m' items ↔ ∀ e, .event e ∈ items → publish e = none) := by
  refine ⟨not_received, ?_⟩
  rw [sameOrder_iff h, List.filterMap_eq_nil_iff]
  constructor
  case mp  => exact fun hn e he => Option.map_eq_none_iff.mpr (hn _ he)
  case mpr =>
    intro hn item hi
    cases item
    case event e   => exact Option.map_eq_none_iff.mp (hn e hi)
    case keepAlive => rfl

section

private def samplePage : Page where
  socketUrl   := "ws://localhost:8080/ws/events"
  streamUrl   := "http://localhost:8080/sse/events"
  eventSource := true

private def sampleMoment : Moment where
  now    := 1700000000000
  random := 0
  throws := false

private def sampleEvent : SystemEvent where
  kind       := "job.completed"
  jobID      := "job-1"
  queue      := "default"
  workerID   := "worker-1"
  state      := some .completed
  message    := ""
  timestamp  := 1700000000000000000
  workerInfo := none

-- The WebSocket is opened after the start of the manager.
private def opened : LiveTransportManager :=
  reached samplePage [(sampleMoment, .timer 0), (sampleMoment, .socket 1 .opened)]

-- Each attempt to open a WebSocket fails, so the manager falls back to the event stream.
private def fallen : LiveTransportManager :=
  reached samplePage [
    (sampleMoment, .timer 0), (sampleMoment, .socket 1 (.closed 1006 "")),
    (sampleMoment, .timer 2), (sampleMoment, .socket 3 (.closed 1006 "")),
    (sampleMoment, .timer 4), (sampleMoment, .socket 5 (.closed 1006 "")),
    (sampleMoment, .source 6 "open" "")
  ]

private theorem opened_listens : opened.Listens 1 where
  handled := ⟨_, rfl, rfl⟩
  current := rfl
  started := Bool.false_ne_true

theorem sse_agrees_iff_sample :
    (∀ e, ¬Received e) ∧ (SameOrder samplePage sampleMoment 6 1 fallen opened [.keepAlive] ↔
      ∀ e, .event e ∈ [Sent.keepAlive] → publish e = none) :=
  sse_agrees_iff opened_listens

-- The stream is open, but the event only arrives over the WebSocket.
theorem not_sameOrder_of_completed :
    fallen.state = .live ∧ fallen.eventSource = some 6 ∧ opened.state = .live ∧ opened.socket = some 1 ∧
    (publish sampleEvent).isSome ∧ ¬Received sampleEvent ∧
    ¬SameOrder samplePage sampleMoment 6 1 fallen opened [.event sampleEvent] := by
  have hp : (publish sampleEvent).isSome := by decide +kernel
  refine ⟨rfl, rfl, rfl, rfl, hp, not_received _, fun hs => ?_⟩
  have hj := List.filterMap_eq_nil_iff.mp ((sameOrder_iff opened_listens).mp hs) _ List.mem_cons_self
  have hn : publish sampleEvent = none := Option.map_eq_none_iff.mpr hj
  rw [hn] at hp
  cases hp

end

end LiveTransportManager
end JobPlatform.Live
