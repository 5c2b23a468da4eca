import JobPlatform.Dashboard.Refresh

namespace JobPlatform.Dashboard

-- As long as a server is configured, all that is applied or returned comes from it.
def Delivery.Proper (d : Delivery) : Prop :=
  d.baseUrl ≠ none → ∀ server ∈ d.servers, server = d.baseUrl

def Update.servers {α : Type} : Update α → List (Option String)
  | .console payload => payload.servers
  | .inspection _ i  => i.servers
  | .latestJob _ _   => []

def Call.inspects (c : Call) : Option String :=
  match c.purpose with
  | .inspection jobId _ => some jobId
  | _                   => none

namespace LiveData

variable {α : Type}

def Current (s : LiveData α) (servers : List (Option String)) : Prop :=
  s.baseUrl ≠ none → ∀ server ∈ servers, server = s.baseUrl

-- Nothing is under way: each request has been released, each call has ended or has been aborted, and all updates have
-- been rendered.
structure Idle (s : LiveData α) : Prop where
  requests : ∀ r ∈ s.requests, r.released
  calls    : ∀ c ∈ s.calls, c.outcome = none → c.aborted ∧ c.purpose ≠ .other
  updates  : s.updates.isEmpty

-- The inspection that replaces the one that could not be requested comes from the configured server, unless it is known.
def FallsBack (contents : Contents α) (s : LiveData α) (jobId : String) : Prop :=
  ∀ fallback ∈ s.getInspection contents jobId,
    s.inspectionSignature jobId ≠ some (contents.createInspectionSignature fallback.value) → s.Current fallback.servers

-- An inspection is merged with the latest job only if both come from the configured server.
def Merges (contents : Contents α) (s : LiveData α) : Update α → Prop
  | .latestJob jobId jobs => ∀ merged ∈ s.mergeLatestJob contents jobId jobs, s.Current merged.servers
  | _                     => True

-- The base URL changes only while nothing is under way, and what is held from another server is not applied again:
-- neither when the request for an inspection fails, nor when an inspection is merged.
def Steady (contents : Contents α) (s : LiveData α) : LiveLabel α → Prop
  | .configure baseUrl _ => baseUrl ≠ s.baseUrl → s.Idle
  | .resume call         => ∀ c ∈ s.calls[call]?, c.outcome = none → ¬c.aborted →
    (promiseAll (c.requests.map (s.result call))).any Option.isNone → ∀ jobId ∈ c.inspects, s.FallsBack contents jobId
  | .render              => ∀ u ∈ s.updates.head?, s.Merges contents u
  | _                    => True

instance (s : LiveData α) (servers : List (Option String)) : Decidable (s.Current servers) :=
  inferInstanceAs (Decidable (_ → _))

instance (s : LiveData α) : Decidable s.Idle :=
  decidable_of_iff ((∀ r ∈ s.requests, r.released) ∧ (∀ c ∈ s.calls, c.outcome = none → c.aborted ∧ c.purpose ≠ .other) ∧
    s.updates.isEmpty) ⟨fun h => ⟨h.1, h.2.1, h.2.2⟩, fun h => ⟨h.requests, h.calls, h.updates⟩⟩

instance (contents : Contents α) (s : LiveData α) (jobId : String) : Decidable (s.FallsBack contents jobId) :=
  inferInstanceAs (Decidable (∀ _ ∈ _, _))

instance (contents : Contents α) (s : LiveData α) : (u : Update α) → Decidable (s.Merges contents u)
  | .latestJob _ _  => inferInstanceAs (Decidable (∀ _ ∈ _, _))
  | .console _      => .isTrue trivial
  | .inspection _ _ => .isTrue trivial

instance (contents : Contents α) (s : LiveData α) : (l : LiveLabel α) → Decidable (s.Steady contents l)
  | .configure _ _         => inferInstanceAs (Decidable (_ → _))
  | .resume _              => inferInstanceAs (Decidable (∀ _ ∈ _, _))
  | .render                => inferInstanceAs (Decidable (∀ _ ∈ _, _))
  | .refreshConsole _      => .isTrue trivial
  | .refreshInspection _ _ => .isTrue trivial
  | .requestJson _         => .isTrue trivial
  | .settle _ _            => .isTrue trivial
  | .release _             => .isTrue trivial
  | .abort _               => .isTrue trivial
  | .effects               => .isTrue trivial
  | .selectJob _           => .isTrue trivial

structure Belongs (s : LiveData α) : Prop where
  requests   : ∀ r ∈ s.requests, ¬r.released → s.Current [r.baseUrl]
  calls      : ∀ c ∈ s.calls, c.outcome = none → (¬c.aborted ∨ c.purpose = .other) →
    ∀ request ∈ c.requests, ∃ r, s.requests[request]? = some r ∧ s.Current [r.baseUrl]
  single     : ∀ c ∈ s.calls, c.inspects.isSome → c.requests.length = 1
  updates    : ∀ u ∈ s.updates, s.Current u.servers
  deliveries : ∀ d ∈ s.deliveries, d.Proper

variable {s s' : LiveData α} {call : Nat} {c : Call} {contents : Contents α} {l : LiveLabel α}
variable {servers : List (Option String)}

theorem Current.congr (h : s.Current servers) (hb : s'.baseUrl = s.baseUrl) : s'.Current servers := by
  unfold Current
  rwa [hb]

theorem initial_belongs (baseUrl : Option String) (token : String) : Belongs (initial baseUrl token : LiveData α) :=
  ⟨nofun, nofun, nofun, nofun, nofun⟩

-- Requests and calls go on, and nothing is applied.
theorem Belongs.continue (h : s.Belongs) (hb : s'.baseUrl = s.baseUrl) (hg : s.Grows s')
    (hr : ∀ r' ∈ s'.requests, ¬r'.released → ∃ r ∈ s.requests, ¬r.released ∧ r'.baseUrl = r.baseUrl)
    (hc : ∀ c' ∈ s'.calls, ∃ c ∈ s.calls, c'.purpose = c.purpose ∧ c'.requests = c.requests ∧
      (c'.outcome = none → c.outcome = none ∧ (c.aborted → c'.aborted)))
    (hu : s'.updates = s.updates) (hd : s'.deliveries = s.deliveries) : s'.Belongs where
  requests r' hr' hn             := by
    obtain ⟨r, hm, hn', he⟩ := hr r' hr' hn
    rw [he]
    exact (h.requests r hm hn').congr hb
  calls c' hc' ho ha request hm := by
    obtain ⟨c, hm', hp, hq, hk⟩ := hc c' hc'
    have ⟨ho', ha'⟩ := hk ho
    rw [hp] at ha
    obtain ⟨r, hr, hcur⟩ := h.calls c hm' ho' (ha.imp_left fun hn h => hn (ha' h)) request (hq ▸ hm)
    obtain ⟨r', hr', hcont⟩ := hg request r hr
    exact ⟨r', hr', by rw [hcont.baseUrl]; exact hcur.congr hb⟩
  single c' hc' hi               := by
    obtain ⟨c, hm, hp, hq, _⟩ := hc c' hc'
    rw [hq]
    exact h.single c hm (by simpa only [Call.inspects, hp] using hi)
  updates u hm                   := (h.updates u (hu ▸ hm)).congr hb
  deliveries                     := hd ▸ h.deliveries

theorem Belongs.congr (h : s.Belongs) (hb : s'.baseUrl = s.baseUrl) (hr : s'.requests = s.requests)
    (hc : s'.calls = s.calls) (hu : s'.updates = s.updates) (hd : s'.deliveries = s.deliveries) : s'.Belongs :=
  h.continue hb (.of_eq hr) (fun r hm hn => ⟨r, hr ▸ hm, hn, rfl⟩)
    (fun c hm => ⟨c, hc ▸ hm, rfl, rfl, fun ho => ⟨ho, id⟩⟩) hu hd

theorem Belongs.abort (h : s.Belongs) (controller : Option Nat) : (s.abort controller).Belongs := by
  refine h.continue (abort_baseUrl _) (.of_eq (abort_requests _)) (fun r hm hn => ⟨r, ?_, hn, rfl⟩)
    (fun c' hm => ?_) (abort_updates _) (abort_deliveries _)
  · rwa [abort_requests] at hm
  · obtain ⟨i, hi⟩ := List.mem_iff_getElem?.mp hm
    obtain ⟨c, hc, rfl | rfl⟩ := abort_calls hi
    · exact ⟨_, List.mem_of_getElem? hc, rfl, rfl, fun ho => ⟨ho, id⟩⟩
    · exact ⟨_, List.mem_of_getElem? hc, rfl, rfl, fun ho => ⟨ho, fun _ => rfl⟩⟩

theorem mem_modify {β : Type} {l : List β} {i : Nat} {f : β → β} {b : β} (h : b ∈ l.modify i f) :
    ∃ a ∈ l, b = a ∨ b = f a := by
  obtain ⟨j, hj⟩ := List.mem_iff_getElem?.mp h
  rw [List.getElem?_modify] at hj
  obtain ⟨a, ha, rfl⟩ := Option.map_eq_some_iff.mp hj
  refine ⟨a, List.mem_of_getElem? ha, ?_⟩
  split
  case isTrue  => exact .inr rfl
  case isFalse => exact .inl rfl

theorem Belongs.settle (h : s.Belongs) (request : Nat) (result : Option α) : (s.settle request result).Belongs := by
  refine h.continue rfl (settle_grows s request result) (fun r' hm hn => ?_)
    (fun c hm => ⟨c, hm, rfl, rfl, fun ho => ⟨ho, id⟩⟩) rfl rfl
  obtain ⟨r, hr, rfl | rfl⟩ := mem_modify hm
  · exact ⟨_, hr, hn, rfl⟩
  · exact ⟨r, hr, hn, rfl⟩

theorem release_requests {request : Nat} {r' : Request α} (hm : r' ∈ (s.release request).requests)
    (hn : ¬r'.released) : r' ∈ s.requests := by
  unfold LiveData.release at hm
  split at hm
  case h_2 => exact hm
  case h_1 =>
    split at hm
    case isFalse => exact hm
    case isTrue  =>
      obtain ⟨r, hr, rfl | rfl⟩ := mem_modify hm
      · exact hr
      · exact absurd rfl hn

theorem Belongs.release (h : s.Belongs) (request : Nat) : (s.release request).Belongs := by
  have hg := release_grows s request
  have hr (r : Request α) (hm : r ∈ (s.release request).requests) (hn : ¬r.released) : r ∈ s.requests :=
    release_requests hm hn
  obtain ⟨_, _, he⟩ := release_frame s request
  rw [he] at hg hr ⊢
  refine h.continue rfl hg (fun r hm hn => ⟨r, hr r hm hn, hn, rfl⟩)
    (fun c hm => ⟨c, hm, rfl, rfl, fun ho => ⟨ho, id⟩⟩) rfl rfl

theorem Belongs.start {purpose : Purpose} {keys : List String} (h : s.Belongs) (hf : s.Filed)
    (hk : ∀ jobId signature, purpose = .inspection jobId signature → keys.length = 1) :
    (s.start purpose keys).Belongs := by
  obtain ⟨requests, s', hr, he⟩ := start_cases s purpose keys
  have hf' := hr.filed hf
  have hg := hr.grows
  obtain ⟨_, _, hs⟩ := hr.frame
  have hb : s'.baseUrl = s.baseUrl := hs ▸ rfl
  have hu : s'.updates = s.updates := hs ▸ rfl
  have hd : s'.deliveries = s.deliveries := hs ▸ rfl
  have hcurrent : ∀ r ∈ s'.requests, ¬r.released → s.Current [r.baseUrl] := by
    intro r hm hn
    obtain ⟨request, hi⟩ := List.mem_iff_getElem?.mp hm
    obtain hi | ⟨_, hu, _, _⟩ := hr.new request r hi
    · exact h.requests r (List.mem_of_getElem? hi) hn
    · intro _ server hm
      rw [List.mem_singleton.mp hm, hu]
  rw [he]
  constructor
  case requests   => exact fun r hm hn => (hcurrent r hm hn).congr hb
  case calls      =>
    intro c hc ho ha request hm
    obtain hc | hc := List.mem_append.mp hc
    · obtain ⟨r, hr, hcur⟩ := h.calls c hc ho ha request hm
      obtain ⟨r', hr', hcont⟩ := hg request r hr
      exact ⟨r', hr', by rw [hcont.baseUrl]; exact hcur.congr hb⟩
    · cases List.mem_singleton.mp hc
      obtain ⟨key, _, hk⟩ := hr.taken request hm
      obtain ⟨r, hr, _, hn⟩ := hf'.entries key request hk
      exact ⟨r, hr, (hcurrent r (List.mem_of_getElem? hr) hn).congr hb⟩
  case single     =>
    intro c hc hi
    obtain hc | hc := List.mem_append.mp hc
    · exact h.single c hc hi
    · cases List.mem_singleton.mp hc
      cases purpose
      case inspection => exact hr.length.trans <| hk _ _ rfl
      all_goals cases hi
  case updates    => exact fun u hm => (h.updates u (hu ▸ hm)).congr hb
  case deliveries => exact fun d hm => h.deliveries d (hd ▸ hm)

theorem Belongs.ended {outcome : Outcome} {updates : List (Update α)} (h : s.Belongs)
    (he : Ended call outcome updates s s') (hu : ∀ u ∈ updates, s.Current u.servers) : s'.Belongs where
  requests r hm hn               := (h.requests r (he.requests ▸ hm) hn).congr he.baseUrl
  calls c' hm' ho ha request hm  := by
    rw [he.calls] at hm'
    obtain ⟨c, hc, rfl | rfl⟩ := mem_modify hm'
    · obtain ⟨r, hr, hcur⟩ := h.calls _ hc ho ha request hm
      exact ⟨r, he.requests ▸ hr, hcur.congr he.baseUrl⟩
    · cases ho
  single c' hm' hi               := by
    rw [he.calls] at hm'
    obtain ⟨c, hc, rfl | rfl⟩ := mem_modify hm'
    · exact h.single _ hc hi
    · exact h.single c hc hi
  updates u hm                   := by
    rw [he.updates] at hm
    exact ((List.mem_append.mp hm).elim (h.updates u) (hu u)).congr he.baseUrl
  deliveries                     := he.deliveries ▸ h.deliveries

theorem Belongs.deliver (h : s.Belongs) (hd : s.Current servers) : (s.deliver servers).Belongs where
  requests      := h.requests
  calls         := h.calls
  single        := h.single
  updates       := h.updates
  deliveries d hm := by
    obtain hm | hm := List.mem_append.mp hm
    · exact h.deliveries d hm
    · cases List.mem_singleton.mp hm
      exact hd

-- What a call has received comes from the configured server.
theorem Belongs.received {values : List (Sourced α)} {v : Sourced α} (h : s.Belongs) (hc : s.calls[call]? = some c)
    (ho : c.outcome = none) (ha : ¬c.aborted ∨ c.purpose = .other)
    (hp : promiseAll (c.requests.map (s.result call)) = some (some values)) (hv : v ∈ values) : s.Current v.servers := by
  obtain ⟨request, hm, hr⟩ := List.mem_map.mp <| (mem_of_promiseAll hp).right v hv
  obtain ⟨r, hr, _, hs⟩ := result_eq_some hr
  obtain ⟨r', hr', hcur⟩ := h.calls c (List.mem_of_getElem? hc) ho ha request hm
  cases hr.symm.trans hr'
  rw [hs v rfl]
  exact hcur

theorem Current.append {servers' : List (Option String)} (h : s.Current servers) (h' : s.Current servers') :
    s.Current (servers ++ servers') :=
  fun hb server hm => (List.mem_append.mp hm).elim (h hb server) (h' hb server)

theorem Belongs.resume (h : s.Belongs) (hs : s.Steady contents (.resume call)) : (s.resume contents call).Belongs := by
  obtain he | ⟨c, values, hc, ho, hv, he⟩ := resume_cases contents call s
  · rwa [he]
  rw [he, resumeCall]
  split
  case h_1 force hp                   =>
    obtain ⟨_, he⟩ | ⟨payload, ha, rfl, updates, hu, he⟩ | ⟨_, _, he⟩ :=
      resumeConsole_cases contents call c.aborted values s
    · exact (h.ended he fun _ hu => by cases hu).congr rfl rfl rfl rfl rfl
    · have hr : ∀ v ∈ [payload.snapshot, payload.jobs, payload.schedules, payload.workerStatuses],
          s.Current v.servers :=
        fun v hm => h.received hc ho (.inl ha) hv hm
      have hcur : s.Current payload.servers :=
        (((hr _ (by simp)).append (hr _ (by simp))).append (hr _ (by simp))).append (hr _ (by simp))
      exact (h.ended he fun u hm => hu u hm ▸ hcur).congr rfl rfl rfl rfl rfl
    · exact (h.ended he fun _ hu => by cases hu).congr rfl rfl rfl rfl rfl
  case h_2 jobId previousSignature hp =>
    obtain ⟨outcome, updates, he, hu⟩ := resumeInspection_cases contents call jobId previousSignature c.aborted values s
    refine (h.ended he fun u hm => ?_).congr rfl rfl rfl rfl rfl
    have hi : c.inspects = some jobId := by rw [Call.inspects, hp]
    obtain ⟨ha, inspection, rfl, rfl | ⟨hl, hg, hn⟩⟩ := hu u hm
    · exact h.received hc ho (.inl ha) hv (List.mem_singleton_self _)
    · refine hs c hc ho ha ?_ jobId hi inspection hg hn
      obtain _ | vs := values
      · rw [hv]
        rfl
      · have hm := (mem_of_promiseAll hv).left
        rw [List.length_map, h.single c (List.mem_of_getElem? hc) (by rw [hi]; rfl)] at hm
        exact absurd hm (hl vs rfl)
  case h_3 hp                         =>
    unfold resumeOther
    split
    case h_1 vs =>
      have hd : s.Current (vs.flatMap (·.servers)) := by
        intro hb server hm
        obtain ⟨v, hm, hserver⟩ := List.mem_flatMap.mp hm
        exact h.received hc ho (.inr hp) hv hm hb server hserver
      exact (h.deliver hd).ended (finish_ended .succeeded) fun _ hu => by cases hu
    case h_2    => exact h.ended (finish_ended .failed) fun _ hu => by cases hu

-- The first update is applied, and the others remain.
theorem Belongs.applied (h : s.Belongs) (hd : s.Current servers) {updates : List (Update α)}
    (hu : ∀ u ∈ updates, u ∈ s.updates) (hb : s'.baseUrl = s.baseUrl) (hr : s'.requests = s.requests)
    (hc : s'.calls = s.calls) (he : s'.updates = updates)
    (hs : s'.deliveries = (s.deliver servers).deliveries) : s'.Belongs := by
  have h' : Belongs { s.deliver servers with updates } :=
    ⟨h.requests, h.calls, h.single, fun u hm => h.updates u (hu u hm), (h.deliver hd).deliveries⟩
  exact h'.congr hb hr hc he hs

theorem Belongs.render (h : s.Belongs) (hs : s.Steady contents .render) : (s.render contents).Belongs := by
  unfold LiveData.render
  split
  case h_1 payload updates hu           =>
    refine h.applied (h.updates (.console payload) ?_) (fun u hm => ?_) rfl rfl rfl rfl rfl
    · exact hu ▸ List.mem_cons_self
    · exact hu ▸ List.mem_cons_of_mem _ hm
  case h_2 jobId inspection updates hu  =>
    refine h.applied (h.updates (.inspection jobId inspection) ?_) (fun u hm => ?_) rfl rfl rfl rfl rfl
    · exact hu ▸ List.mem_cons_self
    · exact hu ▸ List.mem_cons_of_mem _ hm
  case h_3 jobId jobs updates hu        =>
    split
    case h_1 merged hm =>
      refine h.applied (hs (.latestJob jobId jobs) ?_ merged hm) (fun u hm => ?_) rfl rfl rfl rfl rfl
      · rw [hu]
        rfl
      · exact hu ▸ List.mem_cons_of_mem _ hm
    case h_2           =>
      exact ⟨h.requests, h.calls, h.single, fun u hm => h.updates u (hu ▸ List.mem_cons_of_mem _ hm), h.deliveries⟩
  case h_4                              => exact h

-- Nothing that is under way belongs to another server when the base URL changes.
theorem Belongs.configure (h : s.Belongs) (baseUrl : Option String) (token : String)
    (hi : baseUrl ≠ s.baseUrl → s.Idle) : Belongs { s with baseUrl, token } := by
  by_cases hb : baseUrl = s.baseUrl
  case pos =>
    subst hb
    exact h.congr rfl rfl rfl rfl rfl
  case neg =>
    have hi := hi hb
    constructor
    case requests   => exact fun r hm hn => absurd (hi.requests r hm) hn
    case calls      =>
      intro c hm ho ha
      have ⟨ha', hp⟩ := hi.calls c hm ho
      exact absurd ha <| not_or.mpr ⟨fun hn => hn ha', hp⟩
    case single     => exact h.single
    case updates    => exact fun u hm => absurd hm <| by simp [List.isEmpty_iff.mp hi.updates]
    case deliveries => exact h.deliveries

theorem Belongs.step (h : s.Belongs) (hf : s.Filed) (hs : s.Steady contents l) : (s.step contents l).Belongs := by
  cases l
  case configure baseUrl token       => exact h.configure baseUrl token hs
  case refreshConsole force          =>
    rw [LiveData.step, LiveData.refreshConsole]
    split
    case isTrue  => exact h.congr rfl rfl rfl rfl rfl
    case isFalse =>
      split
      case isTrue  => exact h
      case isFalse =>
        have hb : ((s.abort s.fetchController).start (.console force) consoleKeys).Belongs :=
          (h.abort _).start (hf.abort _) fun _ _ hp => by cases hp
        exact hb.congr rfl rfl rfl rfl rfl
  case refreshInspection jobId force =>
    rw [LiveData.step, LiveData.refreshInspection]
    split
    case isTrue  => exact h
    case isFalse =>
      have hb : ((s.abort (s.inspectionController jobId)).start
          (.inspection jobId (s.inspectionSignature jobId)) ["inspection:" ++ jobId]).Belongs :=
        (h.abort _).start (hf.abort _) fun _ _ _ => rfl
      exact hb.congr rfl rfl rfl rfl rfl
  case requestJson key               => exact h.start hf fun _ _ hp => by cases hp
  case settle                        => exact h.settle _ _
  case release                       => exact h.release _
  case resume                        => exact h.resume hs
  case abort jobIds                  =>
    exact List.foldlRecOn (motive := Belongs) jobIds _ (h.abort _) fun _ hs _ _ => hs.abort _
  case render                        => exact h.render hs
  case effects                       => exact h.congr rfl rfl rfl rfl rfl
  case selectJob jobId               =>
    rw [LiveData.step, LiveData.selectJob]
    split
    case h_2      => exact h
    case h_1 data =>
      refine ⟨h.requests, h.calls, h.single, fun u hm => ?_, h.deliveries⟩
      obtain hm | hm := List.mem_append.mp hm
      · exact h.updates u hm
      · cases List.mem_singleton.mp hm
        intro _ server hs
        cases hs

-- What is applied or returned comes from the server that is configured, in each run in which the base URL changes only
-- while nothing is under way, and what is held from another server is not applied again.
theorem deliveries_proper {baseUrl : Option String} {token : String} {ls : List (LiveLabel α)}
    (h : Run.Guarded (step contents) (Steady contents) (initial baseUrl token) ls) :
    ∀ d ∈ (Run.last (step contents) (initial baseUrl token) ls).deliveries, d.Proper := by
  have hinv (s : LiveData α) (l : LiveLabel α) (hi : s.Filed ∧ s.Belongs) (hs : s.Steady contents l) :
      (s.step contents l).Filed ∧ (s.step contents l).Belongs :=
    ⟨hi.left.step, hi.right.step hi.left hs⟩
  exact (Run.Guarded.invariant hinv ⟨initial_filed baseUrl token, initial_belongs baseUrl token⟩ h).right.deliveries

end LiveData

namespace Sample

def connected : LiveData String :=
  .initial (some "http://a") ""

-- The responses to the four requests of a refresh
def fetched (call first : Nat) : List (LiveLabel String) := [
  .settle first (some "{}"), .settle (first + 1) (some "[]"), .settle (first + 2) (some "[]"),
  .settle (first + 3) (some "[]"), .release first, .release (first + 1), .release (first + 2), .release (first + 3),
  .resume call, .render
]

-- The base URL changes between two refreshes.
def steady : List (LiveLabel String) :=
  [.refreshConsole false] ++ fetched 0 0 ++ [.configure (some "http://b") "", .refreshConsole false] ++ fetched 1 4

theorem deliveries_proper_steady : Run.Guarded (LiveData.step contents) (LiveData.Steady contents) connected steady ∧
    ∀ d ∈ (Run.last (LiveData.step contents) connected steady).deliveries, d.Proper :=
  have h : Run.Guarded (LiveData.step contents) (LiveData.Steady contents) connected steady := by decide
  ⟨h, LiveData.deliveries_proper h⟩

-- The base URL changes during a refresh, and the poll that follows waits for that refresh.
def hasty : List (LiveLabel String) :=
  [.refreshConsole false, .configure (some "http://b") "", .refreshConsole false] ++ fetched 0 0

theorem not_proper_hasty : ¬∀ d ∈ (Run.last (LiveData.step contents) connected hasty).deliveries, d.Proper := by
  intro h
  have hd : (Run.last (LiveData.step contents) connected hasty).deliveries =
      [⟨some "http://b", List.replicate 4 (some "http://a")⟩] := by
    decide
  have hp := h ⟨some "http://b", List.replicate 4 (some "http://a")⟩ (by rw [hd]; exact List.mem_singleton_self _)
  exact absurd (hp nofun (some "http://a") List.mem_cons_self) (by decide)

end Sample
end JobPlatform.Dashboard
