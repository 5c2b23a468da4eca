import JobPlatform.Queue.Effects

namespace JobPlatform

namespace RedisBroker

variable {b : RedisBroker} {workerID : WorkerID} {ttl now : Int} {keys keys' before after : List ListKey}
         {key k : ListKey} {r r' : Redis} {j : JobID}

-- The job exists and may be leased.
def runnable (r : Redis) (j : JobID) : Bool :=
  (r.jobs j).any (·.state.isRunnable)

-- No job in the list may be leased.
def Barren (r : Redis) (key : ListKey) : Prop :=
  ∀ j ∈ r.lists key, runnable r j = false

instance : Decidable (Barren r key) :=
  inferInstanceAs <| Decidable (∀ j ∈ r.lists key, runnable r j = false)

-- The job that the script finds when it polls the lists in their order.
def found (b : RedisBroker) (workerID : WorkerID) (ttl now : Int) (keys : List ListKey) (r : Redis) : Option JobID :=
  (b.dequeueLua workerID ttl now keys r).2.map (·.1)

theorem dequeueLua_append : b.dequeueLua workerID ttl now (keys ++ keys') r =
    match b.dequeueLua workerID ttl now keys r with
    | (r', none) => b.dequeueLua workerID ttl now keys' r'
    | (r', some x) => (r', some x) := by
  induction keys generalizing r
  case nil              => rfl
  case cons key keys hi =>
    simp only [List.cons_append, dequeueLua]
    cases r.lists key
    case nil         => exact hi
    case cons j rest =>
      dsimp only
      split
      case isTrue  => rfl
      case isFalse => exact hi

theorem found_append_none (h : found b workerID ttl now (keys ++ keys') r = none) :
    found b workerID ttl now keys r = none := by
  unfold found at h ⊢
  rw [dequeueLua_append] at h
  generalize b.dequeueLua workerID ttl now keys r = x at h ⊢
  match x with
  | (_, none)   => rfl
  | (_, some _) => exact h

-- There is a list in which the job is found.
theorem found_split (hn : found b workerID ttl now keys r = none)
    (hs : (found b workerID ttl now (keys ++ keys') r).isSome) :
    ∃ before key after, keys' = before ++ key :: after ∧ found b workerID ttl now (keys ++ before) r = none ∧
      (found b workerID ttl now (keys ++ before ++ [key]) r).isSome := by
  induction keys' generalizing keys
  case nil              => simp [hn] at hs
  case cons key rest hi =>
    by_cases hk : (found b workerID ttl now (keys ++ [key]) r).isSome
    case pos => exact ⟨[], key, rest, rfl, by simpa using hn, by simpa using hk⟩
    case neg =>
      have ⟨before, k, after, he, hb, ha⟩ := hi (Option.not_isSome_iff_eq_none.mp hk) (by simpa using hs)
      exact ⟨key :: before, k, after, by simp [he], by simpa using hb, by simpa using ha⟩

-- Polling a barren list takes at most a job out of it that cannot be leased.
structure Passes (keys : List ListKey) (r r' : Redis) : Prop where
  jobs   : r'.jobs = r.jobs
  lists  : ∀ k, r'.lists k ⊆ r.lists k
  others : ∀ k ∉ keys, r'.lists k = r.lists k

theorem Passes.barren (h : Passes keys r r') (hk : Barren r key) : Barren r' key := by
  intro j hj
  unfold runnable
  rw [h.jobs]
  exact hk j (h.lists key hj)

theorem dequeueLua_barren (h : ∀ k ∈ keys, Barren r k) :
    ∃ r', b.dequeueLua workerID ttl now keys r = (r', none) ∧ Passes keys r r' := by
  induction keys generalizing r
  case nil              => exact ⟨r, rfl, rfl, fun _ => List.Subset.refl _, fun _ _ => rfl⟩
  case cons key keys hi =>
    obtain ⟨hk, hks⟩ := List.forall_mem_cons.mp h
    unfold dequeueLua
    cases hl : r.lists key
    case nil         =>
      obtain ⟨r', hr, hp⟩ := hi hks
      exact ⟨r', hr, hp.jobs, hp.lists, fun k hk => hp.others k fun hm => hk (List.mem_cons_of_mem _ hm)⟩
    case cons j rest =>
      have hj : runnable r j = false := hk j (hl ▸ List.mem_cons_self)
      have hr : Passes [key] r (r.lset key rest) := by
        refine ⟨rfl, fun k => ?_, fun k hk => ?_⟩
        · rw [Redis.lset_lists]
          split
          case isTrue he => rw [he, hl]; exact List.subset_cons_self j rest
          case isFalse   => exact List.Subset.refl _
        · rw [Redis.lset_lists, if_neg (by simpa using hk)]
      obtain ⟨r', hr', hp⟩ := hi fun k hk => hr.barren (hks k hk)
      have hj : (r.jobs j).any (·.state.isRunnable) = false := hj
      simp only [hj, Bool.false_eq_true, if_false]
      refine ⟨r', hr', hp.jobs, fun k => List.Subset.trans (hp.lists k) (hr.lists k), fun k hk => ?_⟩
      rw [List.mem_cons, not_or] at hk
      obtain ⟨hk, hks⟩ := hk
      rw [hp.others k hks, hr.others k (by simpa using hk)]

-- The list which comes after barren ones is polled as it is.
theorem found_after_barren (hb : ∀ k ∈ before, Barren r k) (hk : ¬Barren r key) :
    (found b workerID ttl now (before ++ [key]) r).isSome ↔ (r.lists key).head?.any (runnable r) := by
  have ⟨r', hr', hp⟩ : ∃ r', b.dequeueLua workerID ttl now before r = (r', none) ∧ Passes before r r' :=
    dequeueLua_barren hb
  have hl : r'.lists key = r.lists key := hp.others key fun hm => hk (hb key hm)
  unfold found
  rw [dequeueLua_append, hr']
  simp only [dequeueLua, hl, hp.jobs]
  cases hr : r.lists key
  case nil         => exact absurd (by simp [Barren, hr]) hk
  case cons j rest =>
    have hj : runnable r j = (r.jobs j).any (·.state.isRunnable) := rfl
    simp only [List.head?_cons, Option.any_some, hj]
    split
    case isTrue h  => simp [h]
    case isFalse h => simp [h]

-- The script overlooks no job that may be leased in the lists that it polls before it finds one.
structure Diligent (b : RedisBroker) (workerID : WorkerID) (ttl now : Int) (keys : List ListKey) (r : Redis) : Prop where
  nothing : found b workerID ttl now keys r = none → ∀ key ∈ keys, Barren r key
  first   : ∀ before key after, keys = before ++ key :: after → found b workerID ttl now before r = none →
    (found b workerID ttl now (before ++ [key]) r).isSome → ∀ k ∈ before, Barren r k

-- The first of the lists that contains a job which may be leased has one at its head.
def Fronted (keys : List ListKey) (r : Redis) : Prop :=
  ∀ before key after, keys = before ++ key :: after → (∀ k ∈ before, Barren r k) → ¬Barren r key →
    (r.lists key).head?.any (runnable r)

-- Unless all lists are barren, there is a first one which is not.
theorem exists_first (h : ¬∀ k ∈ keys, Barren r k) :
    ∃ before key after, keys = before ++ key :: after ∧ (∀ k ∈ before, Barren r k) ∧ ¬Barren r key := by
  induction keys
  case nil              => simp at h
  case cons key rest hi =>
    by_cases hk : Barren r key
    case neg => exact ⟨[], key, rest, rfl, by simp, hk⟩
    case pos =>
      have hr : ¬∀ k ∈ rest, Barren r k := fun hr => h <| List.forall_mem_cons.mpr ⟨hk, hr⟩
      have ⟨before, k, after, he, hb, hn⟩ := hi hr
      exact ⟨key :: before, k, after, by rw [he, List.cons_append], List.forall_mem_cons.mpr ⟨hk, hb⟩, hn⟩

theorem Fronted.barren (h : Fronted (keys ++ keys') r) (hn : found b workerID ttl now keys r = none) :
    ∀ k ∈ keys, Barren r k := by
  by_contra hk
  have ⟨before, key, after, he, hb, hk⟩ := exists_first hk
  have hh := h before key (after ++ keys') (by simp [he]) hb hk
  have hs : (found b workerID ttl now (before ++ [key]) r).isSome := (found_after_barren hb hk).mpr hh
  rw [he, List.append_cons] at hn
  simp [found_append_none hn] at hs

theorem diligent_iff : Diligent b workerID ttl now keys r ↔ Fronted keys r := by
  constructor
  case mpr =>
    intro h
    constructor
    case nothing => exact fun hn => Fronted.barren (by simpa using h : Fronted (keys ++ []) r) hn
    case first   => exact fun before key after he hn _ => Fronted.barren (he ▸ h) hn
  case mp  =>
    intro h before key after he hb hk
    by_contra hh
    have hn : found b workerID ttl now (before ++ [key]) r = none :=
      Option.not_isSome_iff_eq_none.mp fun hs => hh <| (found_after_barren hb hk).mp hs
    rw [List.append_cons] at he
    by_cases hs : (found b workerID ttl now keys r).isSome
    case neg =>
      refine hk <| h.nothing (Option.not_isSome_iff_eq_none.mp hs) key ?_
      simp [he]
    case pos =>
      have ⟨before', k, after', he', hb', ha'⟩ := found_split hn (he ▸ hs)
      refine hk <| h.first (before ++ [key] ++ before') k after' ?_ hb' ha' key (by simp)
      simp [he, he']

-- Dequeuing returns no job only if none of the queues has one that may be leased, and otherwise one of
-- the first list that has any.
structure Exhaustive (b : RedisBroker) (workerID : WorkerID) (queues : List QueueName) (leaseTTL : Duration)
    (now : Time) (r : Redis) : Prop where
  nothing : (b.exec r (.dequeue workerID queues leaseTTL now)).2 = .ok none →
    ∀ key ∈ readyKeysForQueues queues, Barren r key
  first   : ∀ before key after, readyKeysForQueues queues = before ++ key :: after →
    found b workerID leaseTTL.milliseconds now.unixMilli before r = none →
    (found b workerID leaseTTL.milliseconds now.unixMilli (before ++ [key]) r).isSome →
    ∀ k ∈ before, Barren r k

theorem dequeue_exhaustive_iff {queues : List QueueName} {leaseTTL : Duration} {now : Time} :
    Exhaustive b workerID queues leaseTTL now r ↔ Fronted (readyKeysForQueues queues) r := by
  have he : (b.exec r (.dequeue workerID queues leaseTTL now)).2 = .ok none ↔
      found b workerID leaseTTL.milliseconds now.unixMilli (readyKeysForQueues queues) r = none := by
    simp [exec, found, Prod.map_snd]
  have hd : Diligent b workerID leaseTTL.milliseconds now.unixMilli (readyKeysForQueues queues) r ↔
      Fronted (readyKeysForQueues queues) r := diligent_iff
  rw [← hd]
  constructor
  case mp  => exact fun h => ⟨fun hn => h.nothing (he.mpr hn), h.first⟩
  case mpr => exact fun h => ⟨fun hn => h.nothing (he.mp hn), h.first⟩

-- The state of the broker after some calls.
def serve (b : RedisBroker) (calls : List BrokerCall) : Redis :=
  calls.foldl (fun r c => (b.exec r c).1) .empty

-- A job is retried while it is queued, and thus leased from one of its two entries. The other one hides
-- the job behind it.
theorem not_exhaustive_of_retry :
    let t := Time.ofUnixMilli 1700000000000
    let job := buildJob t (.plain "email.send")
    let dequeue := BrokerCall.dequeue "worker-1" ["default"] (30 * Duration.second) t
    let r := sample.serve [.enqueue (job "job-2") t, .enqueue (job "job-1") t, .retry (job "job-1") t, dequeue]
    (sample.exec r dequeue).2 = .ok none ∧ "job-2" ∈ r.lists (.ready "default" 5) ∧ runnable r "job-2" ∧
    ¬Exhaustive sample "worker-1" ["default"] (30 * Duration.second) t r := by
  intro t job dequeue r
  have hn : (sample.exec r dequeue).2 = .ok none := by decide
  have hm : "job-2" ∈ r.lists (.ready "default" 5) := by decide
  have hr : runnable r "job-2" := by decide
  refine ⟨hn, hm, hr, fun h => ?_⟩
  have hb := h.nothing hn (.ready "default" 5) (by decide) "job-2" hm
  simp [hr] at hb

end RedisBroker
end JobPlatform
