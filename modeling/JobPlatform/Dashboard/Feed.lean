import JobPlatform.Library.Newest
import JobPlatform.Library.Text

namespace JobPlatform.Dashboard

structure SystemEvent where
  kind      : String
  jobId     : Option String
  queue     : Option String
  workerId  : Option String
  state     : Option String
  message   : Option String
  timestamp : String

def createEventFingerprint (event : SystemEvent) : String :=
  "|".intercalate [
    event.kind,
    event.timestamp,
    event.jobId.getD "",
    event.queue.getD "",
    event.workerId.getD "",
    event.state.getD "",
    event.message.getD ""
  ]

section

-- The time value of a `Date`, unless the date is invalid.
variable (getTime : String → Option Int)

-- The comparator of the sort does not put the second event first.
def ordered (left right : SystemEvent) : Bool :=
  match getTime right.timestamp, getTime left.timestamp with
  | some r, some l => r - l ≤ 0
  | _, _           => true

def sortEvents (events : List SystemEvent) : List SystemEvent :=
  (events.insertionSort fun left right => ordered getTime left right).take 60

-- The events of the data. Nothing else in the data changes.
def appendEvents (data events : List SystemEvent) : List SystemEvent :=
  if events.isEmpty then
    data
  else
    let fresh := Newest.firsts createEventFingerprint (data.map createEventFingerprint) events
    if fresh.isEmpty then data else sortEvents getTime (data ++ fresh)

-- What the feed is to be like.
structure Orderly (events : List SystemEvent) : Prop where
  newestFirst : events.Pairwise fun e e' =>
    ∀ t t', getTime e.timestamp = some t → getTime e'.timestamp = some t' → t' ≤ t
  limit       : events.length ≤ 60
  distinct    : events.Pairwise fun e e' => createEventFingerprint e ≠ createEventFingerprint e'

-- Events of the same time are in the order in which they came.
def ArrivalOrder (events arrived : List SystemEvent) : Prop :=
  ∀ t, (events.filter (getTime ·.timestamp = some t)).Sublist (arrived.filter (getTime ·.timestamp = some t))

-- An event whose fingerprint tells its kind and its time.
structure Proper (event : SystemEvent) : Prop where
  valid     : (getTime event.timestamp).isSome
  kind      : '|' ∉ event.kind.toList
  timestamp : '|' ∉ event.timestamp.toList

end

section

variable {getTime : String → Option Int} {e e' : SystemEvent} {data events a b : List SystemEvent}

theorem createEventFingerprint_eq (e : SystemEvent) : ∃ rest,
    createEventFingerprint e = e.kind ++ '|'.toString ++ (e.timestamp ++ '|'.toString ++ rest) := by
  refine ⟨"|".intercalate
    [e.jobId.getD "", e.queue.getD "", e.workerId.getD "", e.state.getD "", e.message.getD ""], ?_⟩
  rw [createEventFingerprint, String.intercalate_cons_cons, String.intercalate_cons_cons]
  rfl

theorem Proper.timestamp_eq (h : Proper getTime e) (h' : Proper getTime e')
    (hf : createEventFingerprint e = createEventFingerprint e') : e.timestamp = e'.timestamp := by
  obtain ⟨r, hr⟩ := createEventFingerprint_eq e
  obtain ⟨r', hr'⟩ := createEventFingerprint_eq e'
  have hj := hr.symm.trans <| hf.trans hr'
  have ht := (Text.join_inj_left h.kind h'.kind hj).right
  exact (Text.join_inj_left h.timestamp h'.timestamp ht).left

variable (getTime) in
def time (e : SystemEvent) : Int :=
  (getTime e.timestamp).getD 0

theorem getTime_eq (h : Proper getTime e) : getTime e.timestamp = some (time getTime e) := by
  obtain ⟨t, ht⟩ := Option.isSome_iff_exists.mp h.valid
  rw [time, ht, Option.getD_some]

theorem ordered_iff (h : Proper getTime e) (h' : Proper getTime e') :
    ordered getTime e e' ↔ time getTime e' ≤ time getTime e := by
  rw [ordered, getTime_eq h, getTime_eq h']
  simp only [decide_eq_true_eq]
  omega

theorem sortEvents_eq (h : ∀ e ∈ events, Proper getTime e) :
    sortEvents getTime events = Newest.newest (time getTime) 60 events := by
  have hs := List.map_insertionSort (fun l r => ordered getTime l r) (fun l r => time getTime r ≤ time getTime l) id
    events fun e he e' he' => ordered_iff (h e he) (h e' he')
  rw [List.map_id, List.map_id] at hs
  rw [sortEvents, hs, Newest.newest, Newest.sort]

theorem Orderly.pairwise (h : Orderly getTime events) (hp : ∀ e ∈ events, Proper getTime e) :
    events.Pairwise fun e e' => time getTime e' ≤ time getTime e :=
  h.newestFirst.imp_of_mem fun he he' ho => ho _ _ (getTime_eq (hp _ he)) (getTime_eq (hp _ he'))

variable (getTime) in
abbrev feed (events : List SystemEvent) : List SystemEvent :=
  Newest.feed (time getTime) createEventFingerprint 60 events

theorem Orderly.feed_eq (h : Orderly getTime data) (hp : ∀ e ∈ data, Proper getTime e) : feed getTime data = data :=
  Newest.feed_eq_self (h.pairwise hp) h.distinct h.limit

-- The code takes the newest of all events, each with the fingerprint of no earlier one.
theorem appendEvents_eq (h : Orderly getTime data) (hp : ∀ e ∈ data ++ events, Proper getTime e) :
    appendEvents getTime data events = feed getTime (data ++ events) := by
  have hd : ∀ e ∈ data, Proper getTime e := fun e he => hp e (List.mem_append_left events he)
  unfold appendEvents
  split
  case isTrue he =>
    rw [List.isEmpty_iff.mp he, List.append_nil, h.feed_eq hd]
  case isFalse   =>
    dsimp only
    split
    case isTrue he =>
      have hf := h.feed_eq hd
      rw [feed, Newest.feed, Newest.firsts_eq_self h.distinct fun _ _ => List.not_mem_nil] at hf
      rw [feed, Newest.feed_append h.distinct, List.isEmpty_iff.mp he, List.append_nil, hf]
    case isFalse   =>
      rw [feed, Newest.feed_append h.distinct]
      refine sortEvents_eq fun e he => hp e ?_
      exact List.mem_append.mpr <| (List.mem_append.mp he).imp_right fun he => Newest.firsts_sublist.subset he

theorem mem_appendEvents (h : e ∈ appendEvents getTime data events) :
    e ∈ data ∨ e ∈ Newest.firsts createEventFingerprint (data.map createEventFingerprint) events := by
  unfold appendEvents at h
  split at h
  case isTrue  => exact .inl h
  case isFalse =>
    dsimp only at h
    split at h
    case isTrue  => exact .inl h
    case isFalse =>
      have hs := List.mem_of_mem_take h
      rw [List.mem_insertionSort] at hs
      exact List.mem_append.mp hs

theorem appendEvents_of_fresh (hn : events ≠ [])
    (hd : events.Pairwise fun e e' => createEventFingerprint e ≠ createEventFingerprint e')
    (h : ∀ e ∈ events, createEventFingerprint e ∉ data.map createEventFingerprint) :
    appendEvents getTime data events = sortEvents getTime (data ++ events) := by
  have he : ¬events.isEmpty := by rwa [List.isEmpty_iff]
  rw [appendEvents, if_neg he, Newest.firsts_eq_self hd h]
  exact if_neg he

theorem mem_of_mem_feed (h : e ∈ feed getTime events) : e ∈ events :=
  Newest.firsts_sublist.subset <| Newest.mem_of_mem_newest h

theorem feed_orderly (h : ∀ e ∈ events, Proper getTime e) : Orderly getTime (feed getTime events) where
  limit       := List.length_take_le 60 _
  distinct    := Newest.feed_distinct
  newestFirst := by
    refine Newest.feed_pairwise.imp_of_mem fun he he' ho t t' ht ht' => ?_
    cases ht.symm.trans <| getTime_eq (h _ (mem_of_mem_feed he))
    cases ht'.symm.trans <| getTime_eq (h _ (mem_of_mem_feed he'))
    exact ho

theorem filter_getTime (h : ∀ e ∈ events, Proper getTime e) (t : Int) :
    events.filter (getTime ·.timestamp = some t) = events.filter (time getTime · = t) := by
  refine List.filter_congr fun e he => ?_
  simp only [getTime_eq (h e he), Option.some.injEq]

theorem feed_arrivalOrder (h : ∀ e ∈ events, Proper getTime e) :
    ArrivalOrder getTime (feed getTime events) events := by
  intro t
  rw [filter_getTime h, filter_getTime fun e he => h e (mem_of_mem_feed he)]
  exact Newest.feed_filter_sublist

theorem appendEvents_feed (h : ∀ e ∈ data ++ events, Proper getTime e) :
    appendEvents getTime (feed getTime data) events = feed getTime (data ++ events) := by
  have hd : ∀ e ∈ data, Proper getTime e := fun e he => h e (List.mem_append_left events he)
  rw [appendEvents_eq (feed_orderly hd)]
  · refine Newest.feed_append_feed fun e he e' he' hf => ?_
    rw [time, time, (h e he).timestamp_eq (h e' he') hf]
  · exact fun e he => h e <| List.mem_append.mpr <| (List.mem_append.mp he).imp_left mem_of_mem_feed

-- The feed does not depend on how the events are split into batches, and takes nothing twice.
theorem appendEvents_batches (h : Orderly getTime data) (hp : ∀ e ∈ data ++ (a ++ b), Proper getTime e) :
    appendEvents getTime (appendEvents getTime data a) b = appendEvents getTime data (a ++ b) ∧
    Orderly getTime (appendEvents getTime data (a ++ b)) ∧
    ArrivalOrder getTime (appendEvents getTime data (a ++ b)) (data ++ (a ++ b)) ∧
    appendEvents getTime (appendEvents getTime data (a ++ b)) a = appendEvents getTime data (a ++ b) ∧
    appendEvents getTime (appendEvents getTime data (a ++ b)) b = appendEvents getTime data (a ++ b) := by
  have hpa : ∀ e ∈ data ++ a, Proper getTime e := by
    intro e he
    rw [← List.append_assoc] at hp
    exact hp e (List.mem_append_left b he)
  -- Whatever has been offered before changes nothing.
  have hrepeat (c : List SystemEvent) (hc : ∀ e ∈ c, e ∈ a ++ b) :
      appendEvents getTime (feed getTime (data ++ (a ++ b))) c = feed getTime (data ++ (a ++ b)) := by
    rw [appendEvents_feed]
    · refine Newest.feed_append_of_mem fun e he => ?_
      exact List.mem_map_of_mem <| List.mem_append_right data (hc e he)
    · simp only [List.mem_append] at hp hc ⊢
      exact fun e he => hp e <| he.elim id fun he => .inr (hc e he)
  rw [appendEvents_eq h hp, appendEvents_eq h hpa, appendEvents_feed (by simpa using hp), List.append_assoc]
  refine ⟨rfl, feed_orderly hp, feed_arrivalOrder hp, hrepeat a fun e => List.mem_append_left b, ?_⟩
  exact hrepeat b fun e => List.mem_append_right a

end

namespace Sample

-- The time values of the texts that follow.
def getTime (timestamp : String) : Option Int :=
  if timestamp = "2026-01-01T00:00:00Z" then some 1767225600000
  else if timestamp = "2026-01-02T00:00:00Z" then some 1767312000000
  else if timestamp = "2026-01-03T00:00:00Z" then some 1767398400000
  else none

def event (kind timestamp message : String) : SystemEvent where
  kind      := kind
  jobId     := none
  queue     := none
  workerId  := none
  state     := none
  message   := some message
  timestamp := timestamp

-- An old event whose kind hides the kind and the time of another one.
def masking : SystemEvent :=
  event "job.started|2026-01-03T00:00:00Z" "2026-01-01T00:00:00Z" ""

def masked : SystemEvent :=
  { event "job.started" "2026-01-03T00:00:00Z" "|" with jobId := some "2026-01-01T00:00:00Z" }

def batch : List SystemEvent :=
  (List.range 60).map fun i : Nat => event "job.queued" "2026-01-02T00:00:00Z" (toString (i : Int))

theorem fingerprint_eq : createEventFingerprint masking = createEventFingerprint masked := by
  decide

theorem batch_proper {e : SystemEvent} (h : e ∈ batch) : Proper getTime e := by
  obtain ⟨i, _, rfl⟩ := List.mem_map.mp h
  constructor
  case valid     => rfl
  case kind      => exact (by decide : '|' ∉ "job.queued".toList)
  case timestamp => exact (by decide : '|' ∉ "2026-01-02T00:00:00Z".toList)

theorem masked_proper : Proper getTime masked :=
  ⟨rfl, by decide, by decide⟩

theorem batch_fingerprint (i : Nat) :
    createEventFingerprint (event "job.queued" "2026-01-02T00:00:00Z" (toString (i : Int))) =
      "job.queued|2026-01-02T00:00:00Z||||" ++ '|'.toString ++ toString (i : Int) :=
  rfl

theorem batch_distinct : batch.Pairwise fun e e' => createEventFingerprint e ≠ createEventFingerprint e' := by
  refine List.pairwise_map.mpr <| List.nodup_range.imp fun {i j} hn he => hn ?_
  rw [batch_fingerprint, batch_fingerprint] at he
  have hi (i : Nat) : '|' ∉ (toString (i : Int)).toList := Text.not_mem_toString rfl (by decide)
  exact Int.ofNat.inj <| Text.toString_injective (Text.join_inj_right (hi i) (hi j) he).right

theorem masked_fresh : ∀ e ∈ [masked], createEventFingerprint e ∉ batch.map createEventFingerprint := by
  intro e he h
  cases List.mem_singleton.mp he
  obtain ⟨e, he, hf⟩ := List.mem_map.mp h
  have ht := (batch_proper he).timestamp_eq masked_proper hf
  obtain ⟨i, _, rfl⟩ := List.mem_map.mp he
  exact absurd ht (by decide : "2026-01-02T00:00:00Z" ≠ "2026-01-03T00:00:00Z")

theorem batch_fresh : ∀ e ∈ batch, createEventFingerprint e ∉ [masking].map createEventFingerprint := by
  intro e he hf
  rw [List.map_singleton, List.mem_singleton, fingerprint_eq] at hf
  exact masked_fresh masked (List.mem_singleton_self _) <| hf ▸ List.mem_map_of_mem he

theorem appendEvents_batch : appendEvents getTime [masking] batch = batch := by
  rw [appendEvents_of_fresh ?_ batch_distinct batch_fresh]
  · rfl
  · nofun

theorem appendEvents_masked : appendEvents getTime batch [masked] = masked :: batch.take 59 := by
  rw [appendEvents_of_fresh ?_ (List.pairwise_singleton _ _) masked_fresh]
  · rfl
  · nofun

theorem appendEvents_batches_sample : Orderly getTime (appendEvents getTime [] (batch ++ [masked])) := by
  have hp : ∀ e ∈ [] ++ (batch ++ [masked]), Proper getTime e := by
    simpa [or_imp, forall_and] using ⟨fun _ => batch_proper, masked_proper⟩
  exact (appendEvents_batches ⟨.nil, Nat.zero_le _, .nil⟩ hp).2.1

-- An event of the state that has been cut off is taken for another one which comes later, but only in a single batch.
theorem not_appendEvents_batches : Orderly getTime [masking] ∧ appendEvents getTime [] [masking] = [masking] ∧
    (∀ e ∈ batch ++ [masked], Proper getTime e) ∧
    appendEvents getTime (appendEvents getTime [masking] batch) [masked] ≠
      appendEvents getTime [masking] (batch ++ [masked]) := by
  refine ⟨⟨List.pairwise_singleton _ _, by decide, List.pairwise_singleton _ _⟩, rfl, fun e he => ?_, fun he => ?_⟩
  · obtain he | he := List.mem_append.mp he
    · exact batch_proper he
    · exact List.mem_singleton.mp he ▸ masked_proper
  · rw [appendEvents_batch, appendEvents_masked] at he
    obtain h | h := mem_appendEvents (he ▸ List.mem_cons_self)
    · exact absurd (congrArg SystemEvent.message (List.mem_singleton.mp h)) (by decide)
    · exact Newest.not_mem_of_mem_firsts h (by simp [fingerprint_eq])

end Sample

end JobPlatform.Dashboard
