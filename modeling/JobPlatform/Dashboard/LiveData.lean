import Mathlib.Data.List.Basic
import Mathlib.Logic.Function.Basic

namespace JobPlatform.Dashboard

-- A value with the servers that it has been requested from.
structure Sourced (α : Type) where
  value   : α
  servers : List (Option String)

structure Payload (α : Type) where
  snapshot       : α
  jobs           : α
  schedules      : α
  workerStatuses : α

-- A request is settled with its value or with an error. It is released when its entry in the map has been deleted.
structure Request (α : Type) where
  key      : String
  baseUrl  : Option String
  token    : String
  call     : Nat
  settled  : Option (Option α)
  released : Bool

inductive Purpose
  | console (force : Bool)
  | inspection (jobId : String) (previousSignature : Option String)
  | other
  deriving DecidableEq

-- A call whose controller has been aborted ends without a trace.
inductive Outcome
  | succeeded
  | failed
  | dropped
  deriving DecidableEq

-- A call that waits for requests. Some of them may have been sent by an earlier call.
structure Call where
  purpose  : Purpose
  requests : List Nat
  aborted  : Bool
  outcome  : Option Outcome

-- An update of the state that is yet to be rendered.
inductive Update (α : Type)
  | console (payload : Payload (Sourced α))
  | inspection (jobId : String) (inspection : Sourced α)
  | latestJob (jobId : String) (jobs : Sourced α)

-- What has been applied to the state or returned to a caller, and the server that was configured then.
structure Delivery where
  baseUrl : Option String
  servers : List (Option String)
  deriving DecidableEq

-- What the hook computes from the contents of responses: their signatures, the inspection that a list of jobs gives for
-- a job, and an inspection with the job of a list if the job is there and differs.
structure Contents (α : Type) where
  createConsolePayloadSignature : Payload α → String
  createInspectionSignature     : α → String
  createInspectionFallback      : α → String → Option α
  latestJob                     : α → α → String → Option α

-- The hook in live mode. Requests and calls are known by their numbers, and a call stands for its promise and its
-- controller.
structure LiveData (α : Type) where
  baseUrl              : Option String
  token                : String
  requests             : List (Request α)
  calls                : List Call
  requestMap           : String → Option Nat
  fetchPromise         : Option Nat
  fetchController      : Option Nat
  inspectionPromise    : String → Option Nat
  inspectionController : String → Option Nat
  dataSignature        : String
  inspectionSignature  : String → Option String
  consecutiveFailures  : Nat
  consoleData          : Option (Payload (Sourced α))
  consoleDataRef       : Option (Payload (Sourced α))
  inspectionCache      : String → Option (Sourced α)
  inspectionCacheRef   : String → Option (Sourced α)
  updates              : List (Update α)
  deliveries           : List Delivery

-- Whatever can happen in any order: the settings change, the functions of the hook are called, a request is settled,
-- the code after an `await` runs, the controllers are aborted, and the state is rendered and seen by the effects.
inductive LiveLabel (α : Type)
  | configure (baseUrl : Option String) (token : String)
  | refreshConsole (force : Bool)
  | refreshInspection (jobId : String) (force : Bool)
  | requestJson (key : String)
  | settle (request : Nat) (result : Option α)
  | release (request : Nat)
  | resume (call : Nat)
  | abort (jobIds : List String)
  | render
  | effects
  | selectJob (jobId : String)

-- The keys under which `refreshConsole` requests the four parts of a payload.
def consoleKeys : List String :=
  ["dashboard-snapshot", "dashboard-jobs", "dashboard-schedules", "dashboard-workers"]

def Payload.map {α β : Type} (f : α → β) (p : Payload α) : Payload β where
  snapshot       := f p.snapshot
  jobs           := f p.jobs
  schedules      := f p.schedules
  workerStatuses := f p.workerStatuses

def Payload.servers {α : Type} (p : Payload (Sourced α)) : List (Option String) :=
  p.snapshot.servers ++ p.jobs.servers ++ p.schedules.servers ++ p.workerStatuses.servers

-- `Promise.all`, where `none` stands for a promise that is pending, and `some none` for one that is rejected.
def promiseAll {α : Type} (results : List (Option (Option α))) : Option (Option (List α)) :=
  if results.any fun result => result.any Option.isNone then some none else (results.mapM Option.join).map some

namespace LiveData

variable {α : Type}

-- A request without a valid base URL is rejected at once.
def performRequestJson (key : String) (call : Nat) (s : LiveData α) : Request α where
  key
  call
  baseUrl  := s.baseUrl
  token    := s.token
  settled  := if s.baseUrl = none then some none else none
  released := false

def requestJson (key : String) (call : Nat) (s : LiveData α) : Nat × LiveData α :=
  match s.requestMap key with
  | some request => (request, s)
  | none         =>
    (s.requests.length, { s with
      requests   := s.requests ++ [s.performRequestJson key call]
      requestMap := Function.update s.requestMap key (some s.requests.length)
    })

def requestAll (call : Nat) : List String → LiveData α → List Nat × LiveData α
  | [],          s => ([], s)
  | key :: keys, s =>
    let request := s.requestJson key call
    let requests := requestAll call keys request.2
    (request.1 :: requests.1, requests.2)

def abort (s : LiveData α) : Option Nat → LiveData α
  | some call => { s with calls := s.calls.modify call fun c => { c with aborted := true } }
  | none      => s

def start (purpose : Purpose) (keys : List String) (s : LiveData α) : LiveData α :=
  let requests := s.requestAll s.calls.length keys
  { requests.2 with
    calls := s.calls ++ [{ purpose, requests := requests.1, aborted := false, outcome := none }]
  }

def refreshConsole (force : Bool) (s : LiveData α) : LiveData α :=
  if s.baseUrl = none then
    { s with consecutiveFailures := if s.consecutiveFailures = 0 then 1 else s.consecutiveFailures }
  else if s.fetchPromise ≠ none ∧ ¬force then
    s
  else
    { (s.abort s.fetchController).start (.console force) consoleKeys with
      fetchController := some s.calls.length
      fetchPromise    := some s.calls.length
    }

def refreshInspection (jobId : String) (force : Bool) (s : LiveData α) : LiveData α :=
  if jobId = "" ∨ s.inspectionPromise jobId ≠ none ∧ ¬force then
    s
  else
    { (s.abort (s.inspectionController jobId)).start
        (.inspection jobId (s.inspectionSignature jobId)) ["inspection:" ++ jobId] with
      inspectionController := Function.update s.inspectionController jobId (some s.calls.length)
      inspectionPromise    := Function.update s.inspectionPromise jobId (some s.calls.length)
    }

def settle (request : Nat) (result : Option α) (s : LiveData α) : LiveData α :=
  { s with requests := s.requests.modify request fun r => { r with settled := r.settled <|> some result } }

-- The `finally` block of a request that has been settled.
def release (request : Nat) (s : LiveData α) : LiveData α :=
  match s.requests[request]? with
  | some r =>
    if r.settled.isSome ∧ ¬r.released then
      { s with
        requests   := s.requests.modify request fun r => { r with released := true }
        requestMap := Function.update s.requestMap r.key none
      }
    else
      s
  | none   => s

-- A call sees the result of a request that it has sent only after the request has been released.
def result (call request : Nat) (s : LiveData α) : Option (Option (Sourced α)) :=
  match s.requests[request]? with
  | some r => if r.call = call ∧ ¬r.released then none else r.settled.map (·.map (⟨·, [r.baseUrl]⟩))
  | none   => none

def deliver (servers : List (Option String)) (s : LiveData α) : LiveData α :=
  { s with deliveries := s.deliveries ++ [⟨s.baseUrl, servers⟩] }

def finish (call : Nat) (outcome : Outcome) (s : LiveData α) : LiveData α :=
  { s with calls := s.calls.modify call fun c => { c with outcome := some outcome } }

-- The `finally` blocks of `refreshConsole` and `refreshInspection`
def closeConsole (call : Nat) (s : LiveData α) : LiveData α :=
  { s with
    fetchController := if s.fetchController = some call then none else s.fetchController
    fetchPromise    := none
  }

def closeInspection (call : Nat) (jobId : String) (s : LiveData α) : LiveData α :=
  { s with
    inspectionController :=
      if s.inspectionController jobId = some call then
        Function.update s.inspectionController jobId none
      else
        s.inspectionController
    inspectionPromise    := Function.update s.inspectionPromise jobId none
  }

section

variable (contents : Contents α)

def getInspection (jobId : String) (s : LiveData α) : Option (Sourced α) :=
  match s.inspectionCacheRef jobId with
  | some existing => some existing
  | none          => do
    let data ← s.consoleDataRef
    let inspection ← contents.createInspectionFallback data.jobs.value jobId
    some ⟨inspection, data.jobs.servers⟩

def applyInspectionFallback (jobId : String) (s : LiveData α) : LiveData α :=
  match s.getInspection contents jobId with
  | some fallback =>
    let signature := contents.createInspectionSignature fallback.value
    if s.inspectionSignature jobId = some signature then
      s
    else
      { s with
        inspectionSignature := Function.update s.inspectionSignature jobId (some signature)
        updates             := s.updates ++ [.inspection jobId fallback]
      }
  | none => s

def applyConsole (payload : Payload (Sourced α)) (s : LiveData α) : LiveData α :=
  let nextSignature := contents.createConsolePayloadSignature (payload.map (·.value))
  if nextSignature ≠ s.dataSignature then
    { s with
      consecutiveFailures := 0
      dataSignature       := nextSignature
      updates             := s.updates ++ [.console payload]
    }
  else
    { s with consecutiveFailures := 0 }

def applyInspection (jobId : String) (previousSignature : Option String) (inspection : Sourced α) (s : LiveData α) :
    LiveData α :=
  let signature := contents.createInspectionSignature inspection.value
  { s with
    inspectionSignature := Function.update s.inspectionSignature jobId (some signature)
    updates             :=
      if some signature ≠ previousSignature then s.updates ++ [.inspection jobId inspection] else s.updates
  }

def resumeConsole (call : Nat) (aborted : Bool) (values : Option (List (Sourced α))) (s : LiveData α) : LiveData α :=
  if aborted then
    s.finish call .dropped
  else
    match values with
    | some [snapshot, jobs, schedules, workerStatuses] =>
      (s.applyConsole contents { snapshot, jobs, schedules, workerStatuses }).finish call .succeeded
    | _                                                =>
      { s.finish call .failed with consecutiveFailures := s.consecutiveFailures + 1 }

def resumeInspection (call : Nat) (jobId : String) (previousSignature : Option String) (aborted : Bool)
    (values : Option (List (Sourced α))) (s : LiveData α) : LiveData α :=
  if aborted then
    s.finish call .dropped
  else
    match values with
    | some [inspection] => (s.applyInspection contents jobId previousSignature inspection).finish call .succeeded
    | _                 => (s.applyInspectionFallback contents jobId).finish call .failed

-- The response is returned to the caller, unless there is an error.
def resumeOther (call : Nat) (values : Option (List (Sourced α))) (s : LiveData α) : LiveData α :=
  match values with
  | some values => (s.deliver (values.flatMap (·.servers))).finish call .succeeded
  | none        => s.finish call .failed

def resumeCall (call : Nat) (c : Call) (values : Option (List (Sourced α))) (s : LiveData α) : LiveData α :=
  match c.purpose with
  | .console _                          => (s.resumeConsole contents call c.aborted values).closeConsole call
  | .inspection jobId previousSignature =>
    (s.resumeInspection contents call jobId previousSignature c.aborted values).closeInspection call jobId
  | .other                              => s.resumeOther call values

-- A call goes on when what it waits for is settled.
def resume (call : Nat) (s : LiveData α) : LiveData α :=
  match s.calls[call]? with
  | some c =>
    match c.outcome, promiseAll (c.requests.map (s.result call)) with
    | none, some values => s.resumeCall contents call c values
    | _, _              => s
  | none   => s

-- The cached inspection with the latest job, if that is news
def mergeLatestJob (jobId : String) (jobs : Sourced α) (s : LiveData α) : Option (Sourced α) := do
  let existing ← s.inspectionCache jobId
  let inspection ← contents.latestJob existing.value jobs.value jobId
  some ⟨inspection, existing.servers ++ jobs.servers⟩

-- The first of the updates is applied.
def render (s : LiveData α) : LiveData α :=
  match s.updates with
  | .console payload :: updates             => { s.deliver payload.servers with updates, consoleData := some payload }
  | .inspection jobId inspection :: updates =>
    { s.deliver inspection.servers with
      updates
      inspectionCache := Function.update s.inspectionCache jobId (some inspection)
    }
  | .latestJob jobId jobs :: updates        =>
    match s.mergeLatestJob contents jobId jobs with
    | some inspection =>
      { s.deliver inspection.servers with
        updates
        inspectionCache := Function.update s.inspectionCache jobId (some inspection)
      }
    | none            => { s with updates }
  | []                                      => s

end

-- The effect that depends on the jobs and on the selected job.
def selectJob (jobId : String) (s : LiveData α) : LiveData α :=
  match s.consoleData with
  | some data => { s with updates := s.updates ++ [.latestJob jobId data.jobs] }
  | none      => s

def step (contents : Contents α) (s : LiveData α) : LiveLabel α → LiveData α
  | .configure baseUrl token       => { s with baseUrl, token }
  | .refreshConsole force          => s.refreshConsole force
  | .refreshInspection jobId force => s.refreshInspection jobId force
  | .requestJson key               => s.start .other [key]
  | .settle request result         => s.settle request result
  | .release request               => s.release request
  | .resume call                   => s.resume contents call
  | .abort jobIds                  =>
    jobIds.foldl (fun s jobId => s.abort (s.inspectionController jobId)) (s.abort s.fetchController)
  | .render                        => s.render contents
  | .effects                       =>
    { s with consoleDataRef := s.consoleData, inspectionCacheRef := s.inspectionCache }
  | .selectJob jobId               => s.selectJob jobId

def initial (baseUrl : Option String) (token : String) : LiveData α where
  baseUrl
  token
  requests               := []
  calls                  := []
  requestMap _           := none
  fetchPromise           := none
  fetchController        := none
  inspectionPromise _    := none
  inspectionController _ := none
  dataSignature          := ""
  inspectionSignature _  := none
  consecutiveFailures    := 0
  consoleData            := none
  consoleDataRef         := none
  inspectionCache _      := none
  inspectionCacheRef _   := none
  updates                := []
  deliveries             := []

end LiveData

-- What stays as it is when a request goes on.
structure Request.Continues {α : Type} (r r' : Request α) : Prop where
  key      : r'.key = r.key
  call     : r'.call = r.call
  baseUrl  : r'.baseUrl = r.baseUrl
  settled  : ∀ result, r.settled = some result → r'.settled = some result

namespace LiveData

variable {α : Type} {s s' s'' : LiveData α} {key : String} {keys : List String} {call request : Nat} {r : Request α}

def Grows (s s' : LiveData α) : Prop :=
  ∀ (request : Nat) (r : Request α), s.requests[request]? = some r →
    ∃ r', s'.requests[request]? = some r' ∧ r.Continues r'

theorem Grows.of_eq (h : s'.requests = s.requests) : s.Grows s' :=
  fun _ r hr => ⟨r, h ▸ hr, rfl, rfl, rfl, fun _ h => h⟩

theorem Grows.trans (h : s.Grows s') (h' : s'.Grows s'') : s.Grows s'' := by
  intro request r hr
  obtain ⟨r', hr', hc⟩ := h request r hr
  obtain ⟨r'', hr'', hc'⟩ := h' request r' hr'
  refine ⟨r'', hr'', hc'.key.trans hc.key, hc'.call.trans hc.call, hc'.baseUrl.trans hc.baseUrl, ?_⟩
  exact fun result hs => hc'.settled result <| hc.settled result hs

theorem Grows.modify {f : Request α → Request α} (h : s'.requests = s.requests.modify request f)
    (hf : ∀ r : Request α, r.Continues (f r)) : s.Grows s' := by
  intro request' r hr
  rw [h, List.getElem?_modify, hr]
  refine ⟨_, rfl, ?_⟩
  split
  case isTrue  => exact hf r
  case isFalse => exact ⟨rfl, rfl, rfl, fun _ h => h⟩

-- What a call does to send the requests that are not under way yet.
structure Requested (call : Nat) (keys : List String) (s : LiveData α) (requests : List Nat) (s' : LiveData α) :
    Prop where
  frame  : ∃ requests requestMap, s' = { s with requests, requestMap }
  length : requests.length = keys.length
  old    : ∀ (request : Nat) (r : Request α), s.requests[request]? = some r → s'.requests[request]? = some r
  new    : ∀ (request : Nat) (r : Request α), s'.requests[request]? = some r → s.requests[request]? = some r ∨
    r.call = call ∧ r.baseUrl = s.baseUrl ∧ ¬r.released ∧ s'.requestMap r.key = some request
  kept   : ∀ key request, s.requestMap key = some request → s'.requestMap key = some request
  added  : ∀ key request, s'.requestMap key = some request → s.requestMap key = some request ∨
    ∃ r, s'.requests[request]? = some r ∧ r.key = key ∧ r.call = call ∧ r.baseUrl = s.baseUrl ∧ ¬r.released
  taken  : ∀ request ∈ requests, ∃ key ∈ keys, s'.requestMap key = some request
  each   : ∀ key ∈ keys, ∃ request ∈ requests, s'.requestMap key = some request

theorem requestJson_requested : Requested call [key] s [(s.requestJson key call).1] (s.requestJson key call).2 := by
  unfold requestJson
  split
  case h_1 request h =>
    refine ⟨⟨_, _, rfl⟩, rfl, fun _ _ h => h, fun _ _ h => .inl h, fun _ _ h => h, fun _ _ h => .inl h, ?_, ?_⟩
    · simpa using h
    · simpa using h
  case h_2 h         =>
    have hn : (s.requests ++ [s.performRequestJson key call])[s.requests.length]? =
        some (s.performRequestJson key call) :=
      List.getElem?_concat_length
    refine ⟨⟨_, _, rfl⟩, rfl, ?old, ?new, ?kept, ?added, ?taken, ?each⟩ <;> dsimp only
    case old    =>
      intro request r hr
      rw [List.getElem?_append_left (List.getElem?_eq_some_iff.mp hr).1, hr]
    case new    =>
      intro request r hr
      obtain hl | rfl | hl := Nat.lt_trichotomy request s.requests.length
      · exact .inl <| List.getElem?_append_left hl ▸ hr
      · rw [List.getElem?_concat_length] at hr
        cases hr
        exact .inr ⟨rfl, rfl, nofun, Function.update_self ..⟩
      · rw [List.getElem?_eq_none (by simpa using Nat.succ_le_of_lt hl)] at hr
        cases hr
    case kept   =>
      intro key' request hr
      rw [Function.update_of_ne, hr]
      rintro rfl
      cases h.symm.trans hr
    case added  =>
      intro key' request hr
      by_cases hk : key' = key
      case pos =>
        subst hk
        rw [Function.update_self] at hr
        cases hr
        exact .inr ⟨_, hn, rfl, rfl, rfl, nofun⟩
      case neg =>
        rw [Function.update_of_ne hk] at hr
        exact .inl hr
    case taken  => simp
    case each   => simp

theorem Requested.cons {request : Nat} {requests : List Nat} (h : Requested call [key] s [request] s')
    (h' : Requested call keys s' requests s'') : Requested call (key :: keys) s (request :: requests) s'' := by
  have hb : s'.baseUrl = s.baseUrl := by
    obtain ⟨_, _, rfl⟩ := h.frame
    rfl
  constructor
  case frame  =>
    obtain ⟨_, _, rfl⟩ := h.frame
    obtain ⟨_, _, rfl⟩ := h'.frame
    exact ⟨_, _, rfl⟩
  case length => simp [h'.length]
  case old    => exact fun request r hr => h'.old request r <| h.old request r hr
  case new    =>
    intro request r hr
    obtain hr | ⟨hc, hu, hn, hm⟩ := h'.new request r hr
    · obtain hr | ⟨hc, hu, hn, hm⟩ := h.new request r hr
      · exact .inl hr
      · exact .inr ⟨hc, hu, hn, h'.kept _ _ hm⟩
    · exact .inr ⟨hc, hu.trans hb, hn, hm⟩
  case kept   => exact fun key request hr => h'.kept key request <| h.kept key request hr
  case added  =>
    intro key request hr
    obtain hr | ⟨r, hr, hk, hc, hu, hn⟩ := h'.added key request hr
    · obtain hr | ⟨r, hr, h⟩ := h.added key request hr
      · exact .inl hr
      · exact .inr ⟨r, h'.old request r hr, h⟩
    · exact .inr ⟨r, hr, hk, hc, hu.trans hb, hn⟩
  case taken  =>
    intro request' hr
    obtain rfl | hr := List.mem_cons.mp hr
    · obtain ⟨key', hk, hm⟩ := h.taken request' List.mem_cons_self
      exact ⟨key', by simp_all, h'.kept _ _ hm⟩
    · obtain ⟨key', hk, hm⟩ := h'.taken request' hr
      exact ⟨key', List.mem_cons_of_mem key hk, hm⟩
  case each   =>
    intro key' hk
    obtain rfl | hk := List.mem_cons.mp hk
    · obtain ⟨request', hr, hm⟩ := h.each key' List.mem_cons_self
      exact ⟨request', by simp_all, h'.kept _ _ hm⟩
    · obtain ⟨request', hr, hm⟩ := h'.each key' hk
      exact ⟨request', List.mem_cons_of_mem request hr, hm⟩

theorem requestAll_requested : Requested call keys s (s.requestAll call keys).1 (s.requestAll call keys).2 := by
  induction keys generalizing s
  case nil            =>
    exact ⟨⟨_, _, rfl⟩, rfl, fun _ _ h => h, fun _ _ h => .inl h, fun _ _ h => h, fun _ _ h => .inl h, nofun, nofun⟩
  case cons key keys hi => exact requestJson_requested.cons hi

theorem start_cases (s : LiveData α) (purpose : Purpose) (keys : List String) : ∃ requests s',
    Requested s.calls.length keys s requests s' ∧
    s.start purpose keys = { s' with calls := s.calls ++ [⟨purpose, requests, false, none⟩] } :=
  ⟨_, _, requestAll_requested, rfl⟩

@[simp]
theorem abort_requests (controller : Option Nat) : (s.abort controller).requests = s.requests := by
  cases controller <;> rfl

@[simp]
theorem abort_requestMap (controller : Option Nat) : (s.abort controller).requestMap = s.requestMap := by
  cases controller <;> rfl

@[simp]
theorem abort_baseUrl (controller : Option Nat) : (s.abort controller).baseUrl = s.baseUrl := by
  cases controller <;> rfl

@[simp]
theorem abort_fetchPromise (controller : Option Nat) : (s.abort controller).fetchPromise = s.fetchPromise := by
  cases controller <;> rfl

@[simp]
theorem abort_updates (controller : Option Nat) : (s.abort controller).updates = s.updates := by
  cases controller <;> rfl

@[simp]
theorem abort_deliveries (controller : Option Nat) : (s.abort controller).deliveries = s.deliveries := by
  cases controller <;> rfl

@[simp]
theorem abort_length (controller : Option Nat) : (s.abort controller).calls.length = s.calls.length := by
  cases controller
  case none => rfl
  case some => exact List.length_modify _ _ _

-- A call may be aborted, and nothing else.
theorem abort_calls {controller : Option Nat} {i : Nat} {c' : Call} (h : (s.abort controller).calls[i]? = some c') :
    ∃ c, s.calls[i]? = some c ∧ (c' = c ∨ c' = { c with aborted := true }) := by
  cases controller
  case none      => exact ⟨c', h, .inl rfl⟩
  case some call =>
    rw [abort, List.getElem?_modify] at h
    obtain ⟨c, hc, rfl⟩ := Option.map_eq_some_iff.mp h
    refine ⟨c, hc, ?_⟩
    split
    case isTrue  => exact .inr rfl
    case isFalse => exact .inl rfl

theorem exists_abort_calls {i : Nat} {c : Call} (controller : Option Nat) (h : s.calls[i]? = some c) :
    ∃ c', (s.abort controller).calls[i]? = some c' ∧ c'.purpose = c.purpose ∧ c'.outcome = c.outcome := by
  cases controller
  case none      => exact ⟨c, h, rfl, rfl⟩
  case some call =>
    refine ⟨_, by rw [abort, List.getElem?_modify, h]; rfl, ?_⟩
    split <;> exact ⟨rfl, rfl⟩

-- What the end of a call does.
structure Ended (call : Nat) (outcome : Outcome) (updates : List (Update α)) (s s' : LiveData α) : Prop where
  baseUrl      : s'.baseUrl = s.baseUrl
  requests     : s'.requests = s.requests
  requestMap   : s'.requestMap = s.requestMap
  fetchPromise : s'.fetchPromise = s.fetchPromise
  calls        : s'.calls = s.calls.modify call fun c => { c with outcome := some outcome }
  updates      : s'.updates = s.updates ++ updates
  deliveries   : s'.deliveries = s.deliveries

variable {contents : Contents α} {aborted : Bool} {values : Option (List (Sourced α))}

theorem finish_ended (outcome : Outcome) : Ended call outcome [] s (s.finish call outcome) :=
  ⟨rfl, rfl, rfl, rfl, rfl, (List.append_nil _).symm, rfl⟩

theorem applyConsole_ended (payload : Payload (Sourced α)) : ∃ updates, (∀ u ∈ updates, u = .console payload) ∧
    Ended call .succeeded updates s ((s.applyConsole contents payload).finish call .succeeded) := by
  unfold applyConsole
  dsimp only
  split
  case isTrue  => exact ⟨[.console payload], by simp, rfl, rfl, rfl, rfl, rfl, rfl, rfl⟩
  case isFalse => exact ⟨[], nofun, rfl, rfl, rfl, rfl, rfl, (List.append_nil _).symm, rfl⟩

theorem applyInspection_ended (s : LiveData α) (contents : Contents α) (call : Nat) (jobId : String)
    (previousSignature : Option String) (inspection : Sourced α) :
    ∃ updates, (∀ u ∈ updates, u = .inspection jobId inspection) ∧ Ended call .succeeded updates s
      ((s.applyInspection contents jobId previousSignature inspection).finish call .succeeded) := by
  unfold applyInspection
  dsimp only
  split
  case isTrue  => exact ⟨[.inspection jobId inspection], by simp, rfl, rfl, rfl, rfl, rfl, rfl, rfl⟩
  case isFalse => exact ⟨[], nofun, rfl, rfl, rfl, rfl, rfl, (List.append_nil _).symm, rfl⟩

theorem applyInspectionFallback_ended (s : LiveData α) (contents : Contents α) (call : Nat) (jobId : String) :
    ∃ updates, (∀ u ∈ updates, ∃ fallback, u = .inspection jobId fallback ∧
      s.getInspection contents jobId = some fallback ∧
      s.inspectionSignature jobId ≠ some (contents.createInspectionSignature fallback.value)) ∧
    Ended call .failed updates s ((s.applyInspectionFallback contents jobId).finish call .failed) := by
  unfold applyInspectionFallback
  split
  case h_2   => exact ⟨[], nofun, finish_ended .failed⟩
  case h_1 fallback h =>
    dsimp only
    split
    case isTrue     => exact ⟨[], nofun, finish_ended .failed⟩
    case isFalse hs =>
      refine ⟨[.inspection jobId fallback], fun u hm => ?_, rfl, rfl, rfl, rfl, rfl, rfl, rfl⟩
      exact ⟨fallback, List.mem_singleton.mp hm, h, hs⟩

-- How a refresh of the console ends.
theorem resumeConsole_cases (contents : Contents α) (call : Nat) (aborted : Bool) (values : Option (List (Sourced α)))
    (s : LiveData α) :
    aborted ∧ Ended call .dropped [] s (s.resumeConsole contents call aborted values) ∨
    (∃ payload : Payload (Sourced α), ¬aborted ∧
      values = some [payload.snapshot, payload.jobs, payload.schedules, payload.workerStatuses] ∧
      ∃ updates, (∀ u ∈ updates, u = .console payload) ∧
        Ended call .succeeded updates s (s.resumeConsole contents call aborted values)) ∨
    ¬aborted ∧ (∀ vs, values = some vs → vs.length ≠ 4) ∧
      Ended call .failed [] s (s.resumeConsole contents call aborted values) := by
  unfold resumeConsole
  split
  case isTrue ha  => exact .inl ⟨ha, finish_ended .dropped⟩
  case isFalse ha =>
    split
    case h_1 snapshot jobs schedules workerStatuses =>
      exact .inr <| .inl ⟨⟨snapshot, jobs, schedules, workerStatuses⟩, ha, rfl, applyConsole_ended _⟩
    case h_2 h                                      =>
      refine .inr <| .inr ⟨ha, fun vs hv hl => ?_, rfl, rfl, rfl, rfl, rfl, (List.append_nil _).symm, rfl⟩
      match vs, hl with
      | [_, _, _, _], _ => exact h _ _ _ _ hv

theorem resumeInspection_cases (contents : Contents α) (call : Nat) (jobId : String) (previousSignature : Option String)
    (aborted : Bool) (values : Option (List (Sourced α))) (s : LiveData α) :
    ∃ outcome updates, Ended call outcome updates s
      (s.resumeInspection contents call jobId previousSignature aborted values) ∧
    ∀ u ∈ updates, ¬aborted ∧ ∃ inspection, u = .inspection jobId inspection ∧
      (values = some [inspection] ∨
        (∀ vs, values = some vs → vs.length ≠ 1) ∧ s.getInspection contents jobId = some inspection ∧
          s.inspectionSignature jobId ≠ some (contents.createInspectionSignature inspection.value)) := by
  unfold resumeInspection
  split
  case isTrue     => exact ⟨.dropped, [], finish_ended .dropped, nofun⟩
  case isFalse ha =>
    split
    case h_1 inspection =>
      obtain ⟨updates, hu, he⟩ := applyInspection_ended s contents call jobId previousSignature inspection
      exact ⟨.succeeded, updates, he, fun u h => ⟨ha, inspection, hu u h, .inl rfl⟩⟩
    case h_2 h          =>
      obtain ⟨updates, hu, he⟩ := applyInspectionFallback_ended s contents call jobId
      refine ⟨.failed, updates, he, fun u hm => ?_⟩
      obtain ⟨fallback, rfl, hf⟩ := hu u hm
      refine ⟨ha, fallback, rfl, .inr ⟨fun vs hv hl => ?_, hf⟩⟩
      match vs, hl with
      | [_], _ => exact h _ hv

theorem resume_cases (contents : Contents α) (call : Nat) (s : LiveData α) : s.resume contents call = s ∨
    ∃ c values, s.calls[call]? = some c ∧ c.outcome = none ∧
      promiseAll (c.requests.map (s.result call)) = some values ∧
      s.resume contents call = s.resumeCall contents call c values := by
  unfold resume
  split
  case h_2     => exact .inl rfl
  case h_1 c h =>
    split
    case h_1 values ho hv => exact .inr ⟨c, values, h, ho, hv, rfl⟩
    case h_2              => exact .inl rfl

theorem mem_of_mapM_join {β : Type} {results : List (Option (Option β))} {values : List β}
    (h : results.mapM Option.join = some values) :
    values.length = results.length ∧ ∀ v ∈ values, some (some v) ∈ results := by
  induction results generalizing values
  case nil                    =>
    cases h
    exact ⟨rfl, nofun⟩
  case cons result results hi =>
    simp only [List.mapM_cons, Option.bind_eq_bind, Option.bind_eq_some_iff, Option.pure_def, Option.some.injEq] at h
    obtain ⟨v, hv, vs, hvs, rfl⟩ := h
    have ⟨hl, hm⟩ := hi hvs
    refine ⟨congrArg (· + 1) hl, fun w hw => ?_⟩
    obtain rfl | hw := List.mem_cons.mp hw
    · rw [Option.join_eq_some_iff.mp hv]
      exact List.mem_cons_self
    · exact List.mem_cons_of_mem _ (hm w hw)

theorem mem_of_promiseAll {β : Type} {results : List (Option (Option β))} {values : List β}
    (h : promiseAll results = some (some values)) :
    values.length = results.length ∧ ∀ v ∈ values, some (some v) ∈ results := by
  unfold promiseAll at h
  split at h
  case isTrue  => cases h
  case isFalse =>
    obtain ⟨_, hvs, hv⟩ := Option.map_eq_some_iff.mp h
    cases hv
    exact mem_of_mapM_join hvs

theorem mem_of_promiseAll_none {β : Type} {results : List (Option (Option β))} (h : promiseAll results = some none) :
    some none ∈ results := by
  unfold promiseAll at h
  split at h
  case isTrue ha =>
    obtain ⟨result, hr, ha⟩ := List.any_eq_true.mp ha
    match result, ha with
    | some none, _ => exact hr
  case isFalse   =>
    obtain ⟨_, _, h⟩ := Option.map_eq_some_iff.mp h
    cases h

theorem result_eq_some {result : Option (Sourced α)} (h : s.result call request = some result) :
    ∃ r, s.requests[request]? = some r ∧ r.settled = some (result.map (·.value)) ∧
      ∀ v, result = some v → v.servers = [r.baseUrl] := by
  unfold LiveData.result at h
  split at h
  case h_2      => cases h
  case h_1 r hr =>
    split at h
    case isTrue  => cases h
    case isFalse =>
      obtain ⟨value, hv, rfl⟩ := Option.map_eq_some_iff.mp h
      refine ⟨r, hr, ?_, ?_⟩
      · cases value <;> exact hv
      · cases value
        case none => nofun
        case some => rintro _ ⟨⟩; rfl

-- The map holds the requests that have not been released.
structure Filed (s : LiveData α) : Prop where
  entries : ∀ key request, s.requestMap key = some request →
    ∃ r, s.requests[request]? = some r ∧ r.key = key ∧ ¬r.released
  filed   : ∀ (request : Nat) (r : Request α), s.requests[request]? = some r → ¬r.released →
    s.requestMap r.key = some request

theorem Filed.settle (h : s.Filed) (request : Nat) (result : Option α) : (s.settle request result).Filed where
  entries key request' hm := by
    obtain ⟨r, hr, hk, hn⟩ := h.entries key request' hm
    refine ⟨_, by rw [LiveData.settle, List.getElem?_modify, hr]; rfl, ?_⟩
    split <;> exact ⟨hk, hn⟩
  filed request' r hr hn  := by
    rw [LiveData.settle, List.getElem?_modify] at hr
    obtain ⟨r', hr', rfl⟩ := Option.map_eq_some_iff.mp hr
    split at hn
    case isTrue hq  =>
      rw [if_pos hq]
      exact h.filed request' r' hr' hn
    case isFalse hq =>
      rw [if_neg hq]
      exact h.filed request' r' hr' hn

theorem settle_grows (s : LiveData α) (request : Nat) (result : Option α) : s.Grows (s.settle request result) := by
  refine .modify rfl fun r => ⟨rfl, rfl, rfl, fun result' hs => ?_⟩
  rw [hs]
  rfl

-- A request deletes no entry but its own.
theorem Filed.release (h : s.Filed) (request : Nat) : (s.release request).Filed := by
  unfold LiveData.release
  split
  case h_2      => exact h
  case h_1 r hr =>
    split
    case isFalse   => exact h
    case isTrue hs =>
      have hm : s.requestMap r.key = some request := h.filed request r hr hs.right
      constructor <;> dsimp only
      case entries =>
        intro key request' he
        have hk : key ≠ r.key := by
          rintro rfl
          rw [Function.update_self] at he
          cases he
        rw [Function.update_of_ne hk] at he
        obtain ⟨r', hr', hk', hn⟩ := h.entries key request' he
        have hne : request ≠ request' := by
          rintro rfl
          cases hr.symm.trans hr'
          exact hk hk'.symm
        exact ⟨r', by rw [List.getElem?_modify_ne _ _ hne, hr'], hk', hn⟩
      case filed   =>
        intro request' r' hr' hn
        have hne : request ≠ request' := by
          rintro rfl
          rw [List.getElem?_modify, hr] at hr'
          cases hr'
          exact hn (by simp)
        rw [List.getElem?_modify_ne _ _ hne] at hr'
        have hm' : s.requestMap r'.key = some request' := h.filed request' r' hr' hn
        rw [Function.update_of_ne, hm']
        intro hk
        rw [hk, hm] at hm'
        exact hne (Option.some.inj hm')

theorem release_grows (s : LiveData α) (request : Nat) : s.Grows (s.release request) := by
  unfold LiveData.release
  split
  case h_2      => exact .of_eq rfl
  case h_1 r hr =>
    split
    case isFalse => exact .of_eq rfl
    case isTrue  => exact .modify rfl fun r => ⟨rfl, rfl, rfl, fun _ hs => hs⟩

theorem release_frame (s : LiveData α) (request : Nat) :
    ∃ requests requestMap, s.release request = { s with requests, requestMap } := by
  unfold LiveData.release
  split
  case h_2 => exact ⟨_, _, rfl⟩
  case h_1 => split <;> exact ⟨_, _, rfl⟩

theorem Requested.filed {requests : List Nat} {keys : List String} (h : Requested call keys s requests s')
    (hf : s.Filed) : s'.Filed where
  entries key request hm  := by
    obtain hm | ⟨r, hr, hk, _, _, hn⟩ := h.added key request hm
    · obtain ⟨r, hr, hk, hn⟩ := hf.entries key request hm
      exact ⟨r, h.old request r hr, hk, hn⟩
    · exact ⟨r, hr, hk, hn⟩
  filed request r hr hn   := by
    obtain hr | ⟨_, _, _, hm⟩ := h.new request r hr
    · exact h.kept _ _ <| hf.filed request r hr hn
    · exact hm

theorem Requested.grows {requests : List Nat} {keys : List String} (h : Requested call keys s requests s') : s.Grows s' :=
  fun request r hr => ⟨r, h.old request r hr, rfl, rfl, rfl, fun _ hs => hs⟩

-- None of the requests has been under way before.
theorem Requested.own {requests : List Nat} {keys : List String} (h : Requested call keys s requests s')
    (hn : ∀ key ∈ keys, s.requestMap key = none) {request : Nat} (hm : request ∈ requests) :
    ∃ r, s'.requests[request]? = some r ∧ r.call = call := by
  obtain ⟨key, hk, he⟩ := h.taken request hm
  obtain he | ⟨r, hr, _, hc, _⟩ := h.added key request he
  · cases (hn key hk).symm.trans he
  · exact ⟨r, hr, hc⟩

theorem initial_filed (baseUrl : Option String) (token : String) : Filed (initial baseUrl token : LiveData α) :=
  ⟨nofun, nofun⟩

theorem Filed.congr (h : s.Filed) (hr : s'.requests = s.requests) (hm : s'.requestMap = s.requestMap) : s'.Filed where
  entries := by rw [hm, hr]; exact h.entries
  filed   := by rw [hm, hr]; exact h.filed

theorem Ended.filed {outcome : Outcome} {updates : List (Update α)} (he : Ended call outcome updates s s')
    (h : s.Filed) : s'.Filed :=
  h.congr he.requests he.requestMap

theorem Filed.abort (h : s.Filed) (controller : Option Nat) : (s.abort controller).Filed :=
  h.congr (abort_requests controller) (abort_requestMap controller)

theorem Filed.start (h : s.Filed) (purpose : Purpose) (keys : List String) : (s.start purpose keys).Filed := by
  obtain ⟨requests, s', hr, he⟩ := start_cases s purpose keys
  rw [he]
  exact (hr.filed h).congr rfl rfl

theorem resumeCall_filed {c : Call} (h : s.Filed) : (s.resumeCall contents call c values).Filed := by
  unfold resumeCall
  split
  case h_1                           =>
    obtain ⟨_, he⟩ | ⟨_, _, _, _, _, he⟩ | ⟨_, _, he⟩ := resumeConsole_cases contents call c.aborted values s
    all_goals exact (he.filed h).congr rfl rfl
  case h_2 jobId previousSignature _ =>
    obtain ⟨_, _, he, _⟩ := resumeInspection_cases contents call jobId previousSignature c.aborted values s
    exact (he.filed h).congr rfl rfl
  case h_3                           =>
    unfold resumeOther
    split <;> exact h.congr rfl rfl

-- The steps change the map only together with the requests.
theorem Filed.step {l : LiveLabel α} (h : s.Filed) : (s.step contents l).Filed := by
  cases l
  case configure                     => exact h.congr rfl rfl
  case refreshConsole force          =>
    rw [LiveData.step, LiveData.refreshConsole]
    split
    case isTrue  => exact h.congr rfl rfl
    case isFalse =>
      split
      case isTrue  => exact h
      case isFalse => exact ((h.abort _).start (.console force) _).congr rfl rfl
  case refreshInspection jobId force =>
    rw [LiveData.step, LiveData.refreshInspection]
    split
    case isTrue  => exact h
    case isFalse =>
      exact ((h.abort _).start (.inspection jobId (s.inspectionSignature jobId)) _).congr rfl rfl
  case requestJson                   => exact h.start .other _
  case settle                        => exact h.settle _ _
  case release                       => exact h.release _
  case resume                        =>
    obtain he | ⟨_, _, _, _, _, he⟩ := resume_cases contents _ s
    · rw [LiveData.step, he]
      exact h
    · rw [LiveData.step, he]
      exact resumeCall_filed h
  case abort jobIds                  =>
    exact List.foldlRecOn (motive := Filed) jobIds _ (h.abort _) fun _ hs _ _ => hs.abort _
  case render                        =>
    rw [LiveData.step, LiveData.render]
    split
    case h_3 => split <;> exact h.congr rfl rfl
    all_goals exact h.congr rfl rfl
  case effects                       => exact h.congr rfl rfl
  case selectJob                     =>
    rw [LiveData.step, LiveData.selectJob]
    split <;> exact h.congr rfl rfl

end LiveData
end JobPlatform.Dashboard
