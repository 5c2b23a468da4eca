import JobPlatform.Dashboard.LiveData
import JobPlatform.Library.Run

namespace JobPlatform.Dashboard

def Call.isConsole (c : Call) : Bool :=
  match c.purpose with
  | .console _ => true
  | _          => false

def Call.inFlight (c : Call) : Bool :=
  c.isConsole && c.outcome.isNone

namespace LiveData

variable {α : Type}

-- The call waits for four requests that it has sent itself.
structure Own (s : LiveData α) (call : Nat) (c : Call) : Prop where
  each : ∀ key ∈ consoleKeys, ∃ request ∈ c.requests, ∃ r, s.requests[request]? = some r ∧ r.key = key
  own  : ∀ request ∈ c.requests, ∃ r, s.requests[request]? = some r ∧ r.call = call

-- A forced refresh whose controller has not been aborted waits for its own requests, and fails only if one of them does.
structure Fresh (s : LiveData α) : Prop where
  own  : ∀ (call : Nat) (c : Call), s.calls[call]? = some c → c.purpose = .console true → ¬c.aborted → s.Own call c
  fail : ∀ (call : Nat) (c : Call), s.calls[call]? = some c → c.purpose = .console true → ¬c.aborted →
    c.outcome = some .failed →
      ∃ request ∈ c.requests, ∃ r, s.requests[request]? = some r ∧ r.call = call ∧ r.settled = some none

-- The call whose code runs, if it ends or releases a request.
def ending (s : LiveData α) : LiveLabel α → Option Nat
  | .resume call     => some call
  | .release request => s.requests[request]?.map (·.call)
  | _                => none

-- The markers of a newer call are not cleared by an older one.
structure Keeps (contents : Contents α) (s : LiveData α) (l : LiveLabel α) : Prop where
  fetchPromise : ∀ call call', s.ending l = some call → call < call' → s.fetchPromise = some call' →
    (s.step contents l).fetchPromise = some call'
  requestMap   : ∀ call key request r, s.ending l = some call → s.requestMap key = some request →
    s.requests[request]? = some r → call < r.call → (s.step contents l).requestMap key = some request

-- A forced refresh begins only while none of its requests is under way, and a refresh ends only while no newer one is
-- in flight.
def Ready (s : LiveData α) : LiveLabel α → Prop
  | .refreshConsole true => s.baseUrl ≠ none → ∀ key ∈ consoleKeys, s.requestMap key = none
  | .resume call         => s.calls[call]?.any Call.inFlight → ∀ c ∈ s.calls.drop (call + 1), ¬c.inFlight
  | _                    => True

instance (s : LiveData α) (l : LiveLabel α) : Decidable (s.Ready l) := by
  unfold Ready
  split <;> infer_instance

structure Sound (s : LiveData α) (call : Nat) (c : Call) : Prop where
  four   : c.isConsole → c.requests.length = 4
  own    : c.purpose = .console true → s.Own call c
  failed : c.isConsole → c.outcome = some .failed →
    ∃ request ∈ c.requests, ∃ r, s.requests[request]? = some r ∧ r.settled = some none

structure Inv (s : LiveData α) : Prop where
  filed  : s.Filed
  sound  : ∀ (call : Nat) (c : Call), s.calls[call]? = some c → s.Sound call c
  marker : ∀ call, s.fetchPromise = some call → ∃ c, s.calls[call]? = some c ∧ c.isConsole ∧ c.outcome = none

variable {s s' : LiveData α} {call : Nat} {c c' : Call} {contents : Contents α} {l : LiveLabel α}

theorem initial_inv (baseUrl : Option String) (token : String) : Inv (initial baseUrl token : LiveData α) where
  filed  := initial_filed baseUrl token
  sound  := nofun
  marker := nofun

theorem Own.grows (h : s.Own call c) (hg : s.Grows s') : s'.Own call c where
  each key hk    := by
    obtain ⟨request, hm, r, hr, he⟩ := h.each key hk
    obtain ⟨r', hr', hc⟩ := hg request r hr
    exact ⟨request, hm, r', hr', hc.key.trans he⟩
  own request hm := by
    obtain ⟨r, hr, he⟩ := h.own request hm
    obtain ⟨r', hr', hc⟩ := hg request r hr
    exact ⟨r', hr', hc.call.trans he⟩

theorem Sound.grows (h : s.Sound call c) (hg : s.Grows s') : s'.Sound call c where
  four         := h.four
  own hp       := (h.own hp).grows hg
  failed hp ho := by
    obtain ⟨request, hm, r, hr, he⟩ := h.failed hp ho
    obtain ⟨r', hr', hc⟩ := hg request r hr
    exact ⟨request, hm, r', hr', hc.settled none he⟩

theorem Sound.aborted (h : s.Sound call c) : s.Sound call { c with aborted := true } where
  four   := h.four
  own hp := ⟨(h.own hp).each, (h.own hp).own⟩
  failed := h.failed

-- Nothing has changed in what is in flight.
theorem Inv.congr (h : s.Inv) (hr : s'.requests = s.requests) (hm : s'.requestMap = s.requestMap)
    (hc : s'.calls = s.calls) (hf : s'.fetchPromise = s.fetchPromise) : s'.Inv where
  filed               := by
    constructor
    · rw [hm, hr]; exact h.filed.entries
    · rw [hm, hr]; exact h.filed.filed
  sound call c hs     := (h.sound call c (hc ▸ hs)).grows (.of_eq hr)
  marker call hs      := hc ▸ h.marker call (hf ▸ hs)

theorem Inv.abort (h : s.Inv) (controller : Option Nat) : (s.abort controller).Inv where
  filed           := by
    constructor
    · rw [abort_requests, abort_requestMap]; exact h.filed.entries
    · rw [abort_requests, abort_requestMap]; exact h.filed.filed
  sound call c hs := by
    obtain ⟨c', hc', rfl | rfl⟩ := abort_calls hs
    · exact (h.sound call _ hc').grows (.of_eq (abort_requests controller))
    · exact (h.sound call _ hc').aborted.grows (.of_eq (abort_requests controller))
  marker call hs  := by
    rw [abort_fetchPromise] at hs
    obtain ⟨c, hc, hk, ho⟩ := h.marker call hs
    obtain ⟨c', hc', hp, ho'⟩ := exists_abort_calls controller hc
    exact ⟨c', hc', by simpa only [Call.isConsole, hp] using hk, ho'.trans ho⟩

theorem Inv.settle (h : s.Inv) (request : Nat) (result : Option α) : (s.settle request result).Inv where
  filed           := h.filed.settle request result
  sound call c hs := (h.sound call c hs).grows (settle_grows s request result)
  marker          := h.marker

theorem release_requestMap {key : String} {request request' : Nat} (h : s.Filed)
    (hm : s.requestMap key = some request') (hn : request ≠ request') :
    (s.release request).requestMap key = some request' := by
  unfold LiveData.release
  split
  case h_2      => exact hm
  case h_1 r hr =>
    split
    case isFalse   => exact hm
    case isTrue hs =>
      have hk : key ≠ r.key := by
        rintro rfl
        exact hn <| Option.some.inj <| (h.filed request r hr hs.right).symm.trans hm
      exact (Function.update_of_ne hk _ _).trans hm

theorem Inv.release (h : s.Inv) (request : Nat) : (s.release request).Inv := by
  have hf := h.filed.release request
  have hg := release_grows s request
  obtain ⟨_, _, he⟩ := release_frame s request
  rw [he] at hf hg ⊢
  exact ⟨hf, fun call c hs => (h.sound call c hs).grows hg, h.marker⟩

theorem Inv.start {purpose : Purpose} {keys : List String} (h : s.Inv)
    (hk : ∀ force, purpose = .console force → keys = consoleKeys)
    (hn : purpose = .console true → ∀ key ∈ keys, s.requestMap key = none) :
    (s.start purpose keys).Inv ∧
      ∃ requests, (s.start purpose keys).calls[s.calls.length]? = some ⟨purpose, requests, false, none⟩ := by
  obtain ⟨requests, s', hr, he⟩ := start_cases s purpose keys
  rw [he]
  have hf := hr.filed h.filed
  have hg := hr.grows
  have hconsole (hc : Call.isConsole ⟨purpose, requests, false, none⟩) : keys = consoleKeys := by
    cases purpose
    case console force => exact hk force rfl
    all_goals cases hc
  refine ⟨⟨⟨hf.entries, hf.filed⟩, ?_, ?_⟩, requests, List.getElem?_concat_length⟩
  · intro call c hc
    dsimp only at hc
    by_cases hl : call < s.calls.length
    case pos =>
      rw [List.getElem?_append_left hl] at hc
      exact (h.sound call c hc).grows hg
    case neg =>
      obtain rfl : call = s.calls.length := by
        have hb := (List.getElem?_eq_some_iff.mp hc).1
        rw [List.length_append, List.length_singleton] at hb
        omega
      rw [List.getElem?_concat_length] at hc
      cases hc
      constructor
      case four   => exact fun hc => hr.length.trans <| congrArg List.length (hconsole hc)
      case own    =>
        rintro rfl
        refine ⟨fun key hm => ?_, fun request hm => hr.own (hn rfl) hm⟩
        obtain ⟨request, hq, he⟩ := hr.each key (hk true rfl ▸ hm)
        obtain ⟨r, hr, hk, _⟩ := hf.entries key request he
        exact ⟨request, hq, r, hr, hk⟩
      case failed => nofun
  · intro call hs
    have hp : s'.fetchPromise = s.fetchPromise := by
      obtain ⟨_, _, rfl⟩ := hr.frame
      rfl
    obtain ⟨c, hc, hm⟩ := h.marker call (hp ▸ hs)
    exact ⟨c, (List.getElem?_append_left (List.getElem?_eq_some_iff.mp hc).1).trans hc, hm⟩

theorem Inv.start_of_ne (h : s.Inv) (purpose : Purpose) (hp : ∀ force, purpose ≠ .console force) (keys : List String) :
    (s.start purpose keys).Inv :=
  (h.start (fun force he => absurd he (hp force)) (absurd · (hp true))).left

theorem refreshConsole_inv {force : Bool} (h : s.Inv) (hr : s.Ready (.refreshConsole force)) :
    (s.refreshConsole force).Inv := by
  unfold refreshConsole
  split
  case isTrue     => exact h.congr rfl rfl rfl rfl
  case isFalse hb =>
    split
    case isTrue  => exact h
    case isFalse =>
      have hn : Purpose.console force = .console true →
          ∀ key ∈ consoleKeys, (s.abort s.fetchController).requestMap key = none := by
        rintro ⟨⟩
        rw [abort_requestMap]
        exact hr hb
      obtain ⟨hi, requests, hc⟩ := (h.abort s.fetchController).start (fun _ _ => rfl) hn
      refine ⟨⟨hi.filed.entries, hi.filed.filed⟩, fun call c hc => ?_, ?_⟩
      · exact (hi.sound call c hc).grows (.of_eq rfl)
      · rintro _ ⟨⟩
        rw [abort_length] at hc
        exact ⟨_, hc, rfl, rfl⟩

theorem refreshInspection_inv {jobId : String} {force : Bool} (h : s.Inv) : (s.refreshInspection jobId force).Inv := by
  unfold refreshInspection
  split
  case isTrue  => exact h
  case isFalse =>
    have hi := (h.abort (s.inspectionController jobId)).start_of_ne
      (.inspection jobId (s.inspectionSignature jobId)) nofun ["inspection:" ++ jobId]
    exact hi.congr rfl rfl rfl rfl

theorem Ended.sound {outcome : Outcome} {updates : List (Update α)} (he : Ended call outcome updates s s') (h : s.Inv)
    (hf : ∀ c, s.calls[call]? = some c → c.isConsole → outcome = .failed →
      ∃ request ∈ c.requests, ∃ r, s.requests[request]? = some r ∧ r.settled = some none) :
    ∀ i c', s'.calls[i]? = some c' → s'.Sound i c' := by
  intro i c' hc'
  rw [he.calls, List.getElem?_modify] at hc'
  obtain ⟨c, hc, rfl⟩ := Option.map_eq_some_iff.mp hc'
  have hs := h.sound i c hc
  refine Sound.grows ?_ (.of_eq he.requests)
  split
  case isFalse   => exact hs
  case isTrue hi =>
    subst hi
    refine ⟨hs.four, fun hp => ⟨(hs.own hp).each, (hs.own hp).own⟩, fun hp ho => ?_⟩
    exact hf c hc hp (Option.some.inj ho)

theorem Ended.inv {outcome : Outcome} {updates : List (Update α)} (he : Ended call outcome updates s s') (h : s.Inv)
    (hc : s.calls[call]? = some c) (hn : ¬c.isConsole) : s'.Inv where
  filed         := he.filed h.filed
  sound         := he.sound h fun c' hc' hk => by
    cases hc.symm.trans hc'
    exact absurd hk hn
  marker i hs   := by
    rw [he.fetchPromise] at hs
    obtain ⟨c', hc', hk, ho⟩ := h.marker i hs
    have hi : call ≠ i := by
      rintro rfl
      cases hc.symm.trans hc'
      exact hn hk
    exact ⟨c', by rw [he.calls, List.getElem?_modify_ne _ _ hi, hc'], hk, ho⟩

-- A refresh of the console fails only if one of its requests is rejected.
theorem rejected_of_promiseAll {values : Option (List (Sourced α))} (h : s.Inv) (hc : s.calls[call]? = some c)
    (hp : c.isConsole) (hv : promiseAll (c.requests.map (s.result call)) = some values)
    (hl : ∀ vs, values = some vs → vs.length ≠ 4) :
    ∃ request ∈ c.requests, ∃ r, s.requests[request]? = some r ∧ r.settled = some none := by
  cases values
  case some vs =>
    have hm := (mem_of_promiseAll hv).left
    rw [List.length_map, (h.sound call c hc).four hp] at hm
    exact absurd hm (hl vs rfl)
  case none    =>
    obtain ⟨request, hm, hr⟩ := List.mem_map.mp <| mem_of_promiseAll_none hv
    obtain ⟨r, hr, hs, _⟩ := result_eq_some hr
    exact ⟨request, hm, r, hr, hs⟩

theorem resume_inv (h : s.Inv) : (s.resume contents call).Inv := by
  obtain he | ⟨c, values, hc, ho, hv, he⟩ := resume_cases contents call s
  · rwa [he]
  rw [he, resumeCall]
  split
  case h_1 force hp =>
    have hk : c.isConsole := by rw [Call.isConsole, hp]
    obtain ⟨outcome, updates, he, hf⟩ : ∃ outcome updates,
        Ended call outcome updates s (s.resumeConsole contents call c.aborted values) ∧
        (outcome = .failed → ∀ vs, values = some vs → vs.length ≠ 4) := by
      obtain ⟨_, he⟩ | ⟨_, _, _, updates, _, he⟩ | ⟨_, hl, he⟩ :=
        resumeConsole_cases contents call c.aborted values s
      · exact ⟨_, _, he, nofun⟩
      · exact ⟨_, _, he, nofun⟩
      · exact ⟨_, _, he, fun _ => hl⟩
    have hs := he.sound h fun c' hc' _ ho' => by
      cases hc.symm.trans hc'
      exact rejected_of_promiseAll h hc hk hv (hf ho')
    have hfiled := he.filed h.filed
    refine ⟨⟨hfiled.entries, hfiled.filed⟩, fun i c' hc' => ?_, nofun⟩
    exact (hs i c' hc').grows (.of_eq rfl)
  case h_2 jobId previousSignature hp =>
    have hk : ¬c.isConsole := by rw [Call.isConsole, hp]; nofun
    obtain ⟨outcome, updates, he, _⟩ :=
      resumeInspection_cases contents call jobId previousSignature c.aborted values s
    exact (he.inv h hc hk).congr rfl rfl rfl rfl
  case h_3 hp                         =>
    have hk : ¬c.isConsole := by rw [Call.isConsole, hp]; nofun
    unfold resumeOther
    split
    case h_1 values =>
      have hd : (s.deliver (values.flatMap (·.servers))).Inv := h.congr rfl rfl rfl rfl
      exact (finish_ended .succeeded).inv hd hc hk
    case h_2        => exact (finish_ended .failed).inv h hc hk

theorem render_inv (h : s.Inv) : (s.render contents).Inv := by
  unfold render
  split
  case h_3 => split <;> exact h.congr rfl rfl rfl rfl
  all_goals exact h.congr rfl rfl rfl rfl

-- The invariant is preserved by the steps that are allowed.
theorem Inv.step (h : s.Inv) (hr : s.Ready l) : (s.step contents l).Inv := by
  cases l
  case configure          => exact h.congr rfl rfl rfl rfl
  case refreshConsole     => exact refreshConsole_inv h hr
  case refreshInspection  => exact refreshInspection_inv h
  case requestJson        => exact h.start_of_ne .other nofun _
  case settle             => exact h.settle _ _
  case release            => exact h.release _
  case resume             => exact resume_inv h
  case abort jobIds       => exact List.foldlRecOn (motive := Inv) jobIds _ (h.abort _) fun _ hs _ _ => hs.abort _
  case render             => exact render_inv h
  case effects            => exact h.congr rfl rfl rfl rfl
  case selectJob jobId    =>
    rw [LiveData.step, selectJob]
    split <;> exact h.congr rfl rfl rfl rfl

theorem Inv.fresh (h : s.Inv) : s.Fresh where
  own call c hc hp _     := (h.sound call c hc).own hp
  fail call c hc hp _ ho := by
    have hk : c.isConsole := by rw [Call.isConsole, hp]
    obtain ⟨request, hm, r, hr, hs⟩ := (h.sound call c hc).failed hk ho
    obtain ⟨r', hr', hcall⟩ := ((h.sound call c hc).own hp).own request hm
    cases hr.symm.trans hr'
    exact ⟨request, hm, r, hr, hcall, hs⟩

theorem resumeCall_requestMap {values : Option (List (Sourced α))} :
    (s.resumeCall contents call c values).requestMap = s.requestMap := by
  unfold resumeCall
  split
  case h_1 =>
    obtain ⟨_, he⟩ | ⟨_, _, _, updates, _, he⟩ | ⟨_, _, he⟩ := resumeConsole_cases contents call c.aborted values s
    all_goals exact he.requestMap
  case h_2 jobId previousSignature _ =>
    obtain ⟨_, _, he, _⟩ := resumeInspection_cases contents call jobId previousSignature c.aborted values s
    exact he.requestMap
  case h_3 =>
    unfold resumeOther
    split <;> rfl

theorem resume_requestMap : (s.resume contents call).requestMap = s.requestMap := by
  obtain he | ⟨c, values, _, _, _, he⟩ := resume_cases contents call s
  · rw [he]
  · rw [he, resumeCall_requestMap]

theorem resume_fetchPromise (hn : ∀ c, s.calls[call]? = some c → ¬c.inFlight) :
    (s.resume contents call).fetchPromise = s.fetchPromise := by
  obtain he | ⟨c, values, hc, ho, _, he⟩ := resume_cases contents call s
  · rw [he]
  rw [he, resumeCall]
  split
  case h_1 force hp                   =>
    refine absurd ?_ (hn c hc)
    rw [Call.inFlight, Call.isConsole, hp, ho]
    rfl
  case h_2 jobId previousSignature hp =>
    obtain ⟨_, _, he, _⟩ := resumeInspection_cases contents call jobId previousSignature c.aborted values s
    exact he.fetchPromise
  case h_3 hp                         =>
    unfold resumeOther
    split <;> rfl

-- The marker of a newer refresh would say that it is in flight, and no refresh ends while one is.
theorem Inv.keeps (h : s.Inv) (hr : s.Ready l) : s.Keeps contents l := by
  cases l
  case resume call     =>
    constructor
    case fetchPromise =>
      rintro _ call' ⟨⟩ hlt hs
      obtain ⟨c', hc', hk', ho'⟩ := h.marker call' hs
      refine (resume_fetchPromise fun c hc hk => ?_).trans hs
      have hd : c' ∈ s.calls.drop (call + 1) := by
        refine List.mem_iff_getElem?.mpr ⟨call' - (call + 1), ?_⟩
        rw [List.getElem?_drop, Nat.add_sub_cancel' hlt, hc']
      exact hr (by rw [hc]; exact hk) c' hd (by rw [Call.inFlight, hk', ho']; rfl)
    case requestMap   => exact fun _ _ _ _ _ hm _ _ => resume_requestMap.symm ▸ hm
  case release request =>
    constructor
    case fetchPromise =>
      intro _ _ _ _ hs
      obtain ⟨_, _, he⟩ := release_frame s request
      rw [LiveData.step, he]
      exact hs
    case requestMap   =>
      intro call key request' r' he hm hr' hlt
      obtain ⟨r, hr, rfl⟩ := Option.map_eq_some_iff.mp he
      refine release_requestMap h.filed hm ?_
      rintro rfl
      cases hr.symm.trans hr'
      exact Nat.lt_irrefl _ hlt
  all_goals
    constructor
    case fetchPromise => rintro _ _ ⟨⟩
    case requestMap   => rintro _ _ _ _ ⟨⟩

-- A forced refresh gets fresh data, and the markers of a refresh are not cleared by an older one, in each run in which
-- forced refreshes begin only while none of their requests is under way, and refreshes end only in order.
theorem refreshConsole_fresh {baseUrl : Option String} {token : String} {ls : List (LiveLabel α)}
    (h : Run.Guarded (step contents) Ready (initial baseUrl token) ls) :
    (Run.last (step contents) (initial baseUrl token) ls).Fresh ∧
      Run.Guarded (step contents) (Keeps contents) (initial baseUrl token) ls := by
  have hstep (s : LiveData α) (l : LiveLabel α) (hi : s.Inv) (hr : s.Ready l) : (s.step contents l).Inv := hi.step hr
  have hinit : (initial baseUrl token : LiveData α).Inv := initial_inv baseUrl token
  refine ⟨(Run.Guarded.invariant hstep hinit h).fresh, ?_⟩
  exact (h.strengthen hstep hinit).mono fun s l hs => hs.left.keeps hs.right

end LiveData

namespace Sample

def contents : Contents String where
  createConsolePayloadSignature payload := payload.snapshot ++ payload.jobs ++ payload.schedules ++ payload.workerStatuses
  createInspectionSignature inspection  := inspection
  createInspectionFallback _ _          := none
  latestJob _ _ _                       := none

def mounted : LiveData String :=
  .initial (some "http://localhost:8080") ""

-- One refresh after the other
def succession : List (LiveLabel String) :=
  [.refreshConsole false, .settle 0 none, .release 0, .resume 0, .settle 1 (some "[]"), .settle 2 (some "[]"),
    .settle 3 (some "[]"), .release 1, .release 2, .release 3, .refreshConsole true]

theorem refreshConsole_fresh_succession : Run.Guarded (LiveData.step contents) LiveData.Ready mounted succession ∧
    (Run.last (LiveData.step contents) mounted succession).Fresh ∧
      Run.Guarded (LiveData.step contents) (LiveData.Keeps contents) mounted succession :=
  have h : Run.Guarded (LiveData.step contents) LiveData.Ready mounted succession := by decide
  ⟨h, LiveData.refreshConsole_fresh h⟩

-- The user asks for a refresh while another one is in flight, whose requests are aborted.
def overtaking : List (LiveLabel String) :=
  [.refreshConsole false, .refreshConsole true, .settle 0 none, .release 0, .resume 1]

-- The forced refresh fails with the aborted requests, and loses its marker to the aborted refresh.
theorem not_fresh_overtaking : ¬(Run.last (LiveData.step contents) mounted overtaking).Fresh ∧
    ¬Run.Guarded (LiveData.step contents) (LiveData.Keeps contents) mounted (overtaking.dropLast ++ [.resume 0]) := by
  constructor
  · intro h
    obtain ⟨r, hr, hc⟩ := (h.own 1 _ rfl rfl nofun).own 0 List.mem_cons_self
    cases hr
    cases hc
  · rw [Run.Guarded.snoc]
    rintro ⟨_, h⟩
    cases h.fetchPromise 0 1 rfl Nat.one_pos rfl

end Sample
end JobPlatform.Dashboard
