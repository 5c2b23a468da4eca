import JobPlatform.Library.Coercion
import JobPlatform.Dashboard.Serialize

namespace JobPlatform.Dashboard.Reuse

open Script

-- What a list holds is told apart from its copies by its reference.
structure Item where
  ref   : Nat
  value : Value

def list (items : List Item) : Value :=
  .array (items.map Item.value)

-- A list that is the previous one itself, or a new one.
inductive Reused
  | previous
  | resolved (items : List Item)

def Reused.items (previous : List Item) : Reused → List Item
  | .previous       => previous
  | .resolved items => items

section

variable {κ : Type} [DecidableEq κ] (getKey : Item → κ) (previous next : List Item)

-- If a key repeats, then the last item counts.
def previousByKey : κ → Option Item :=
  previous.foldl (fun byKey item => Function.update byKey (getKey item) (some item)) fun _ => none

def existing (item : Item) : Option Item :=
  (previousByKey getKey previous (getKey item)).filter fun existing =>
    truthy (some existing.value) && sameValue existing.value item.value

def reuseList : Reused :=
  let changed := previous.length != next.length || next.any fun item => (existing getKey previous item).isNone
  if changed then .resolved (next.map fun item => (existing getKey previous item).getD item) else .previous

end

def reuseValue (previous next : Value) : Value :=
  if sameValue previous next then previous else next

def textOf : Option Value → Option Text
  | some (.string s) => some s
  | _                => none

def textMember (name : String) (item : Item) : Option Text :=
  textOf (member name item.value)

def policyId (item : Item) : Option Text :=
  textOf <| (member "policy" item.value).bind (member "id")

def createEventFingerprint (event : Item) : Option Text :=
  some <| (text "|").intercalate <|
    ["kind", "timestamp", "jobId", "queue", "workerId", "state", "message"].map fun name =>
      (textMember name event).getD []

-- The lists of the console data that are not part of the snapshot
inductive Collection
  | jobs
  | schedules
  | events
  | workerStatuses

def Collection.getKey : Collection → Item → Option Text
  | .jobs           => textMember "id"
  | .schedules      => textMember "id"
  | .events         => createEventFingerprint
  | .workerStatuses => textMember "workerId"

-- The lists of a snapshot that are not part of its trend
inductive Part
  | workers
  | deadLetters
  | blockedJobs
  | throttledJobs
  | rateLimits

def Part.getKey : Part → Item → Option Text
  | .workers       => textMember "workerId"
  | .deadLetters   => textMember "jobId"
  | .blockedJobs   => textMember "id"
  | .throttledJobs => textMember "id"
  | .rateLimits    => policyId

-- The lists of points of a trend
inductive Series
  | throughput
  | executionP95Ms
  | queueLatencyP95Ms
  | retryRate
  | deadLetterRate

def Series.getKey : Series → Item → Option Text :=
  fun _ => textMember "timestamp"

-- What an overview consists of
inductive Figure
  | totalJobs
  | queuedJobs
  | blockedJobs
  | throttledJobs
  | activeJobs
  | failedJobs
  | retryingJobs
  | completedJobs
  | scheduledJobs
  | canceledJobs
  | queueLengths
  | averageExecMs
  | lastUpdatedAt
  | activeWorkers
  | delayedBacklog
  deriving DecidableEq

def overviewValue (overview : Figure → Value) : Value :=
  .object [
    (text "totalJobs", overview .totalJobs),
    (text "queuedJobs", overview .queuedJobs),
    (text "blockedJobs", overview .blockedJobs),
    (text "throttledJobs", overview .throttledJobs),
    (text "activeJobs", overview .activeJobs),
    (text "failedJobs", overview .failedJobs),
    (text "retryingJobs", overview .retryingJobs),
    (text "completedJobs", overview .completedJobs),
    (text "scheduledJobs", overview .scheduledJobs),
    (text "canceledJobs", overview .canceledJobs),
    (text "queueLengths", overview .queueLengths),
    (text "averageExecMs", overview .averageExecMs),
    (text "lastUpdatedAt", overview .lastUpdatedAt),
    (text "activeWorkers", overview .activeWorkers),
    (text "delayedBacklog", overview .delayedBacklog)
  ]

def trendValue (trend : Series → List Item) : Value :=
  .object [
    (text "throughput", list (trend .throughput)),
    (text "executionP95Ms", list (trend .executionP95Ms)),
    (text "queueLatencyP95Ms", list (trend .queueLatencyP95Ms)),
    (text "retryRate", list (trend .retryRate)),
    (text "deadLetterRate", list (trend .deadLetterRate))
  ]

structure Snapshot (α : Type) where
  overview : Figure → Value
  metrics  : Value
  trend    : Series → α
  lists    : Part → α
  leader   : Value

def Snapshot.value (s : Snapshot (List Item)) : Value :=
  .object [
    (text "overview", overviewValue s.overview),
    (text "metrics", s.metrics),
    (text "trend", trendValue s.trend),
    (text "workers", list (s.lists .workers)),
    (text "deadLetters", list (s.lists .deadLetters)),
    (text "blockedJobs", list (s.lists .blockedJobs)),
    (text "throttledJobs", list (s.lists .throttledJobs)),
    (text "rateLimits", list (s.lists .rateLimits)),
    (text "leader", s.leader)
  ]

structure ConsoleData (α : Type) where
  snapshot : Snapshot α
  lists    : Collection → α

-- The snapshot whose lists are those that have been reused
def Snapshot.reused (previous : Snapshot (List Item)) (s : Snapshot Reused) : Snapshot (List Item) where
  overview    := s.overview
  metrics     := s.metrics
  trend field := (s.trend field).items (previous.trend field)
  lists part  := (s.lists part).items (previous.lists part)
  leader      := s.leader

-- The snapshot itself, all of whose lists are the previous ones
def Snapshot.keep (previous : Snapshot (List Item)) : Snapshot Reused where
  overview := previous.overview
  metrics  := previous.metrics
  trend _  := .previous
  lists _  := .previous
  leader   := previous.leader

section

variable (previous next : Snapshot (List Item))

def trend (series : Series) : Reused :=
  reuseList series.getKey (previous.trend series) (next.trend series)

def stabilizedTrend : Series → Reused :=
  if sameValue (trendValue previous.trend)
      (trendValue fun series => (trend previous next series).items (previous.trend series)) then
    fun _ => .previous
  else
    trend previous next

def overview : Figure → Value :=
  Function.update next.overview .queueLengths <|
    reuseValue (previous.overview .queueLengths) (next.overview .queueLengths)

def stabilizedOverview : Figure → Value :=
  if sameValue (overviewValue previous.overview) (overviewValue (overview previous next)) then previous.overview
  else overview previous next

def snapshot : Snapshot Reused where
  overview   := stabilizedOverview previous next
  metrics    := reuseValue previous.metrics next.metrics
  trend      := stabilizedTrend previous next
  lists part := reuseList part.getKey (previous.lists part) (next.lists part)
  leader     := reuseValue previous.leader next.leader

def stabilizedSnapshot : Snapshot Reused :=
  if sameValue previous.value (previous.reused (snapshot previous next)).value then previous.keep
  else snapshot previous next

end

def stabilizeConsoleData (previous next : ConsoleData (List Item)) : ConsoleData Reused where
  snapshot         := stabilizedSnapshot previous.snapshot next.snapshot
  lists collection := reuseList collection.getKey (previous.lists collection) (next.lists collection)

-- What is shown is what was received, and what has not changed is still the same object.
structure Keeps (previous next : List Item) (shown : Reused) : Prop where
  value : Same (list (shown.items previous)) (list next)
  items : ∀ (i : Nat) (x y : Item), previous[i]? = some x → next[i]? = some y → Same x.value y.value →
    (shown.items previous)[i]? = some x
  list  : Same (list previous) (list next) → shown = .previous

structure Snapshot.Shows (previous next : Snapshot (List Item)) (shown : Snapshot Reused) : Prop where
  overview : ∀ figure, Same (shown.overview figure) (next.overview figure)
  metrics  : Same shown.metrics next.metrics
  trend    : ∀ series, Keeps (previous.trend series) (next.trend series) (shown.trend series)
  lists    : ∀ part, Keeps (previous.lists part) (next.lists part) (shown.lists part)
  leader   : Same shown.leader next.leader

structure Shows (previous next : ConsoleData (List Item)) (shown : ConsoleData Reused) : Prop where
  lists    : ∀ collection, Keeps (previous.lists collection) (next.lists collection) (shown.lists collection)
  snapshot : previous.snapshot.Shows next.snapshot shown.snapshot

section

variable {κ : Type} [DecidableEq κ] (getKey : Item → κ) (previous next : List Item)

-- As many items are received as before, and for each there is a previous one that it seems to be.
def Recurs : Prop :=
  previous.length = next.length ∧ ∀ item ∈ next, existing getKey previous item ≠ none

-- If all items recur, then in the same order. Otherwise, those that recur are the same, and a previous item of the
-- same value in the same place is the last one with its key.
structure Unambiguous : Prop where
  order : Recurs getKey previous next → Same (list previous) (list next)
  value : ¬Recurs getKey previous next → ∀ y ∈ next, ∀ x ∈ existing getKey previous y, Same x.value y.value
  items : ¬Recurs getKey previous next → ∀ (i : Nat) (x y : Item), previous[i]? = some x → next[i]? = some y →
    Same x.value y.value → existing getKey previous y = some x ∨ existing getKey previous y = none ∧ y = x
  list  : ¬Recurs getKey previous next → ¬Same (list previous) (list next)

-- A list seems to be the previous one.
def Matches : Prop :=
  Recurs getKey previous next ∨ sameValue (list previous) (list next)

end

section

variable (previous next : Snapshot (List Item))

def OverviewMatches : Prop :=
  ∀ figure, sameValue (previous.overview figure) (next.overview figure)

def TrendMatches : Prop :=
  ∀ series : Series, Matches series.getKey (previous.trend series) (next.trend series)

-- A snapshot seems to be the previous one.
structure Resembles : Prop where
  overview : OverviewMatches previous next
  metrics  : sameValue previous.metrics next.metrics
  trend    : TrendMatches previous next
  lists    : ∀ part : Part, Matches part.getKey (previous.lists part) (next.lists part)
  leader   : sameValue previous.leader next.leader

structure Identical : Prop where
  overview : ∀ figure, Same (previous.overview figure) (next.overview figure)
  metrics  : Same previous.metrics next.metrics
  trend    : ∀ series, Same (list (previous.trend series)) (list (next.trend series))
  lists    : ∀ part, Same (list (previous.lists part)) (list (next.lists part))
  leader   : Same previous.leader next.leader

-- What seems to be the previous part of a snapshot is the same.
structure Distinguished : Prop where
  overview     : OverviewMatches previous next → ∀ figure, Same (previous.overview figure) (next.overview figure)
  queueLengths : ¬OverviewMatches previous next →
    sameValue (previous.overview .queueLengths) (next.overview .queueLengths) →
    Same (previous.overview .queueLengths) (next.overview .queueLengths)
  metrics      : sameValue previous.metrics next.metrics → Same previous.metrics next.metrics
  trend        : TrendMatches previous next → ∀ series, Same (list (previous.trend series)) (list (next.trend series))
  series       : ¬TrendMatches previous next → ∀ series : Series,
    Unambiguous series.getKey (previous.trend series) (next.trend series)
  lists        : ∀ part : Part, Unambiguous part.getKey (previous.lists part) (next.lists part)
  leader       : sameValue previous.leader next.leader → Same previous.leader next.leader

end

-- What seems to be the previous data is the same.
structure Recognizable (previous next : ConsoleData (List Item)) : Prop where
  lists    : ∀ collection : Collection,
    Unambiguous collection.getKey (previous.lists collection) (next.lists collection)
  whole    : Resembles previous.snapshot next.snapshot → Identical previous.snapshot next.snapshot
  snapshot : ¬Resembles previous.snapshot next.snapshot → Distinguished previous.snapshot next.snapshot

section

variable {κ : Type} [DecidableEq κ] {getKey : Item → κ} {previous next : List Item}

theorem changed_iff :
    (previous.length != next.length || next.any fun item => (existing getKey previous item).isNone) = true ↔
      ¬Recurs getKey previous next := by
  simp [Recurs, or_iff_not_imp_left]

theorem reuseList_of_recurs (h : Recurs getKey previous next) : reuseList getKey previous next = .previous :=
  if_neg fun hc => changed_iff.mp hc h

theorem reuseList_of_not_recurs (h : ¬Recurs getKey previous next) :
    reuseList getKey previous next = .resolved (next.map fun item => (existing getKey previous item).getD item) :=
  if_pos <| changed_iff.mpr h

theorem same_list {xs ys : List Item} :
    Same (list xs) (list ys) ↔ xs.map (fun x => normal x.value) = ys.map fun y => normal y.value := by
  simp [Same, normal, list, transform_array, Function.comp_def]

theorem keeps_previous : Keeps previous next .previous ↔ Same (list previous) (list next) :=
  ⟨(·.value), fun h => ⟨h, fun _ _ _ hx _ _ => hx, fun _ => rfl⟩⟩

theorem keeps_resolved {resolve : Item → Item} : Keeps previous next (.resolved (next.map resolve)) ↔
    (∀ y ∈ next, Same (resolve y).value y.value) ∧
    (∀ (i : Nat) (x y : Item), previous[i]? = some x → next[i]? = some y → Same x.value y.value → resolve y = x) ∧
    ¬Same (list previous) (list next) := by
  have hv : Same (list (next.map resolve)) (list next) ↔ ∀ y ∈ next, Same (resolve y).value y.value := by
    rw [same_list, List.map_map, List.map_inj_left]
    rfl
  constructor
  case mp  =>
    intro h
    refine ⟨hv.mp h.value, fun i x y hx hy hs => ?_, fun hs => nomatch h.list hs⟩
    have hi : (next.map resolve)[i]? = some x := h.items i x y hx hy hs
    rw [List.getElem?_map, hy] at hi
    exact Option.some.inj hi
  case mpr =>
    intro ⟨hn, hi, hs⟩
    refine ⟨hv.mpr hn, fun i x y hx hy he => ?_, fun h => absurd h hs⟩
    rw [Reused.items, List.getElem?_map, hy, Option.map_some, hi i x y hx hy he]

-- The previous item is shown if and only if it is found, or is received again and nothing is found.
theorem resolve_eq_iff {x y : Item} : (existing getKey previous y).getD y = x ↔
    existing getKey previous y = some x ∨ existing getKey previous y = none ∧ y = x := by
  cases existing getKey previous y <;> simp

theorem reuseList_keeps_iff :
    Keeps previous next (reuseList getKey previous next) ↔ Unambiguous getKey previous next := by
  by_cases hr : Recurs getKey previous next
  case pos =>
    rw [reuseList_of_recurs hr, keeps_previous]
    exact ⟨fun h => ⟨fun _ => h, absurd hr, absurd hr, absurd hr⟩, (·.order hr)⟩
  case neg =>
    rw [reuseList_of_not_recurs hr, keeps_resolved]
    have hv (y : Item) : Same ((existing getKey previous y).getD y).value y.value ↔
        ∀ x ∈ existing getKey previous y, Same x.value y.value := by
      cases existing getKey previous y <;> simp [Same]
    simp only [hv, resolve_eq_iff]
    constructor
    case mp  =>
      rintro ⟨hv, hi, hs⟩
      exact ⟨fun h => absurd h hr, fun _ => hv, fun _ => hi, fun _ => hs⟩
    case mpr => exact fun h => ⟨h.value hr, h.items hr, h.list hr⟩

theorem sameValue_iff_sortValue {u v : Value} : sameValue u v ↔ sortValue u = sortValue v := by
  rw [sameValue_iff, sortValue_eq, sortValue_eq]

theorem sameValue_trans {u v w : Value} (h : sameValue u v) (h' : sameValue v w) : sameValue u w := by
  rw [sameValue_iff_sortValue] at *
  exact h.trans h'

theorem sameValue_comm {u v : Value} : sameValue u v ↔ sameValue v u := by
  rw [sameValue_iff_sortValue, sameValue_iff_sortValue, eq_comm]

theorem sameValue_congr {u v w : Value} (h : sameValue v w) : sameValue u v ↔ sameValue u w :=
  ⟨fun h' => sameValue_trans h' h, fun h' => sameValue_trans h' (sameValue_comm.mp h)⟩

theorem sameValue_list {xs ys : List Item} : sameValue (list xs) (list ys) ↔
    xs.map (fun x => sortValue x.value) = ys.map fun y => sortValue y.value := by
  simp [sameValue_iff_sortValue, sortValue, list, transform_array, Function.comp_def]

-- If the names are different and none of them is `__proto__`, then nothing is lost.
theorem sortValue_object_of_nodup {ms : List (Text × Value)} (hn : (ms.map (·.1)).Nodup) (hp : proto ∉ ms.map (·.1)) :
    sortValue (.object ms) = .object (sortMembers (mapValues sortValue ms)) := by
  have ho : own (mapValues sortValue ms) = mapValues sortValue ms := own_of_nodup <| by rwa [mapValues_keys]
  have hf : ∀ m ∈ sortMembers (mapValues sortValue ms), m.1 ≠ proto := by
    intro m hm he
    have hm : m.1 ∈ (mapValues sortValue ms).map (·.1) := List.mem_map_of_mem (sortMembers_perm.subset hm)
    rw [mapValues_keys, he] at hm
    exact hp hm
  rw [sortValue_object, sortedMembers_eq, ho, List.filter_eq_self.mpr fun m hm => decide_eq_true (hf m hm)]

-- Objects that have the same names are compared member by member.
theorem sameValue_object {ms ms' : List (Text × Value)} (hk : ms.map (·.1) = ms'.map (·.1))
    (hn : (ms.map (·.1)).Nodup) (hp : proto ∉ ms.map (·.1)) :
    sameValue (.object ms) (.object ms') ↔ mapValues sortValue ms = mapValues sortValue ms' := by
  rw [sameValue_iff_sortValue, sortValue_object_of_nodup hn hp, sortValue_object_of_nodup (hk ▸ hn) (hk ▸ hp),
    Value.object.injEq]
  constructor
  case mp  =>
    intro h
    refine eq_of_perm_of_keys (sortMembers_perm.symm.trans <| h ▸ sortMembers_perm) ?_ ?_
    · rw [mapValues_keys, mapValues_keys, hk]
    · rwa [mapValues_keys]
  case mpr => exact congrArg sortMembers

theorem sameValue_overview {overview overview' : Figure → Value} :
    sameValue (overviewValue overview) (overviewValue overview') ↔
      ∀ figure, sameValue (overview figure) (overview' figure) := by
  refine (sameValue_object (by rfl) (by simp only [List.map_cons]; decide) (by simp only [List.map_cons]; decide)).trans ?_
  simp only [sameValue_iff_sortValue, mapValues, List.map_cons, List.cons.injEq, Prod.mk.injEq, true_and]
  constructor
  case mp  =>
    intro h figure
    cases figure <;> simp only [h]
  case mpr => exact fun h => by simp only [h, and_self]

theorem sameValue_trend {trend trend' : Series → List Item} :
    sameValue (trendValue trend) (trendValue trend') ↔
      ∀ series, sameValue (list (trend series)) (list (trend' series)) := by
  refine (sameValue_object (by rfl) (by simp only [List.map_cons]; decide) (by simp only [List.map_cons]; decide)).trans ?_
  simp only [sameValue_iff_sortValue, mapValues, List.map_cons, List.cons.injEq, Prod.mk.injEq, true_and]
  constructor
  case mp  =>
    intro h series
    cases series <;> simp only [h]
  case mpr => exact fun h => by simp only [h, and_self]

theorem sameValue_snapshot {s s' : Snapshot (List Item)} : sameValue s.value s'.value ↔
    sameValue (overviewValue s.overview) (overviewValue s'.overview) ∧ sameValue s.metrics s'.metrics ∧
    sameValue (trendValue s.trend) (trendValue s'.trend) ∧
    (∀ part, sameValue (list (s.lists part)) (list (s'.lists part))) ∧ sameValue s.leader s'.leader := by
  refine (sameValue_object (by rfl) (by simp only [List.map_cons]; decide) (by simp only [List.map_cons]; decide)).trans ?_
  simp only [sameValue_iff_sortValue, mapValues, List.map_cons, List.cons.injEq, Prod.mk.injEq, true_and]
  constructor
  case mp  =>
    rintro ⟨ho, hm, ht, h₁, h₂, h₃, h₄, h₅, hl, _⟩
    refine ⟨ho, hm, ht, fun part => ?_, hl⟩
    cases part <;> assumption
  case mpr =>
    rintro ⟨ho, hm, ht, hp, hl⟩
    exact ⟨ho, hm, ht, hp _, hp _, hp _, hp _, hp _, hl, trivial⟩

theorem sameValue_refl (v : Value) : sameValue v v :=
  sameValue_of_same rfl

theorem sortValue_existing {y : Item} :
    sortValue ((existing getKey previous y).getD y).value = sortValue y.value := by
  cases h : existing getKey previous y
  case none   => rfl
  case some x =>
    have ⟨_, hs⟩ := Bool.and_eq_true_iff.mp (Option.filter_eq_some_iff.mp h).right
    exact sameValue_iff_sortValue.mp hs

theorem sameValue_reuseList :
    sameValue (list previous) (list ((reuseList getKey previous next).items previous)) ↔
      Matches getKey previous next := by
  by_cases hr : Recurs getKey previous next
  case pos =>
    rw [reuseList_of_recurs hr]
    exact iff_of_true (sameValue_refl _) (.inl hr)
  case neg =>
    have hn : sameValue (list (next.map fun y => (existing getKey previous y).getD y)) (list next) := by
      rw [sameValue_list, List.map_map]
      exact List.map_congr_left fun y _ => sortValue_existing
    rw [reuseList_of_not_recurs hr, Reused.items, sameValue_congr hn, Matches, or_iff_right hr]

theorem sameValue_reuseValue {u v : Value} : sameValue (reuseValue u v) v := by
  unfold reuseValue
  split
  case isTrue h => exact h
  case isFalse  => exact sameValue_refl v

theorem same_reuseValue {u v : Value} : Same (reuseValue u v) v ↔ (sameValue u v → Same u v) := by
  unfold reuseValue
  split
  case isTrue h  => exact ⟨fun hs _ => hs, (· h)⟩
  case isFalse h => exact iff_of_true rfl (absurd · h)

end

section

variable {previous next : Snapshot (List Item)}

theorem sameValue_reused_trend : sameValue (trendValue previous.trend)
    (trendValue fun series => (trend previous next series).items (previous.trend series)) ↔
      TrendMatches previous next := by
  rw [sameValue_trend]
  exact forall_congr' fun _ => sameValue_reuseList

theorem stabilizedTrend_of_matches (h : TrendMatches previous next) :
    stabilizedTrend previous next = fun _ => .previous := by
  rw [stabilizedTrend, if_pos <| sameValue_reused_trend.mpr h]

theorem stabilizedTrend_of_not_matches (h : ¬TrendMatches previous next) :
    stabilizedTrend previous next = trend previous next := by
  rw [stabilizedTrend, if_neg <| mt sameValue_reused_trend.mp h]

theorem sameValue_stabilizedTrend : sameValue (trendValue previous.trend)
    (trendValue fun series => (stabilizedTrend previous next series).items (previous.trend series)) ↔
      TrendMatches previous next := by
  by_cases h : TrendMatches previous next
  case pos =>
    rw [stabilizedTrend_of_matches h]
    exact iff_of_true (sameValue_refl _) h
  case neg =>
    rw [stabilizedTrend_of_not_matches h]
    exact sameValue_reused_trend

theorem overview_queueLengths : overview previous next .queueLengths =
    reuseValue (previous.overview .queueLengths) (next.overview .queueLengths) :=
  Function.update_self ..

theorem overview_ne {figure : Figure} (h : figure ≠ .queueLengths) :
    overview previous next figure = next.overview figure :=
  Function.update_of_ne h ..

theorem sameValue_overview_reused {figure : Figure} :
    sameValue (overview previous next figure) (next.overview figure) := by
  by_cases h : figure = .queueLengths
  case pos =>
    rw [h, overview_queueLengths]
    exact sameValue_reuseValue
  case neg =>
    rw [overview_ne h]
    exact sameValue_refl _

theorem sameValue_reused_overview :
    sameValue (overviewValue previous.overview) (overviewValue (overview previous next)) ↔
      OverviewMatches previous next := by
  rw [sameValue_overview]
  exact forall_congr' fun _ => sameValue_congr sameValue_overview_reused

theorem stabilizedOverview_of_matches (h : OverviewMatches previous next) :
    stabilizedOverview previous next = previous.overview := by
  rw [stabilizedOverview, if_pos <| sameValue_reused_overview.mpr h]

theorem stabilizedOverview_of_not_matches (h : ¬OverviewMatches previous next) :
    stabilizedOverview previous next = overview previous next := by
  rw [stabilizedOverview, if_neg <| mt sameValue_reused_overview.mp h]

theorem sameValue_stabilizedOverview :
    sameValue (overviewValue previous.overview) (overviewValue (stabilizedOverview previous next)) ↔
      OverviewMatches previous next := by
  by_cases h : OverviewMatches previous next
  case pos =>
    rw [stabilizedOverview_of_matches h]
    exact iff_of_true (sameValue_refl _) h
  case neg =>
    rw [stabilizedOverview_of_not_matches h]
    exact sameValue_reused_overview

theorem sameValue_reuse {u v : Value} : sameValue u (reuseValue u v) ↔ sameValue u v :=
  sameValue_congr sameValue_reuseValue

theorem sameValue_reused_snapshot :
    sameValue previous.value (previous.reused (snapshot previous next)).value ↔ Resembles previous next := by
  rw [sameValue_snapshot]
  dsimp only [Snapshot.reused, snapshot]
  rw [sameValue_stabilizedOverview, sameValue_reuse, sameValue_stabilizedTrend, sameValue_reuse,
    forall_congr' fun part : Part => sameValue_reuseList]
  constructor
  case mp  => exact fun ⟨ho, hm, ht, hl, hr⟩ => ⟨ho, hm, ht, hl, hr⟩
  case mpr => exact fun ⟨ho, hm, ht, hl, hr⟩ => ⟨ho, hm, ht, hl, hr⟩

theorem stabilizedSnapshot_of_resembles (h : Resembles previous next) :
    stabilizedSnapshot previous next = previous.keep := by
  rw [stabilizedSnapshot, if_pos <| sameValue_reused_snapshot.mpr h]

theorem stabilizedSnapshot_of_not_resembles (h : ¬Resembles previous next) :
    stabilizedSnapshot previous next = snapshot previous next := by
  rw [stabilizedSnapshot, if_neg <| mt sameValue_reused_snapshot.mp h]

theorem keep_shows : previous.Shows next previous.keep ↔ Identical previous next := by
  constructor
  case mp  =>
    intro h
    constructor
    case overview => exact h.overview
    case metrics  => exact h.metrics
    case trend    => exact fun series => keeps_previous.mp (h.trend series)
    case lists    => exact fun part => keeps_previous.mp (h.lists part)
    case leader   => exact h.leader
  case mpr =>
    intro h
    constructor
    case overview => exact h.overview
    case metrics  => exact h.metrics
    case trend    => exact fun series => keeps_previous.mpr (h.trend series)
    case lists    => exact fun part => keeps_previous.mpr (h.lists part)
    case leader   => exact h.leader

theorem overview_same : (∀ figure, Same (overview previous next figure) (next.overview figure)) ↔
    (sameValue (previous.overview .queueLengths) (next.overview .queueLengths) →
      Same (previous.overview .queueLengths) (next.overview .queueLengths)) := by
  constructor
  case mp  =>
    intro h
    have hq := h .queueLengths
    rwa [overview_queueLengths, same_reuseValue] at hq
  case mpr =>
    intro h figure
    by_cases hq : figure = .queueLengths
    case pos =>
      rwa [hq, overview_queueLengths, same_reuseValue]
    case neg =>
      rw [overview_ne hq]
      exact rfl

theorem stabilizedOverview_same :
    (∀ figure, Same (stabilizedOverview previous next figure) (next.overview figure)) ↔
      (OverviewMatches previous next → ∀ figure, Same (previous.overview figure) (next.overview figure)) ∧
      (¬OverviewMatches previous next → sameValue (previous.overview .queueLengths) (next.overview .queueLengths) →
        Same (previous.overview .queueLengths) (next.overview .queueLengths)) := by
  by_cases h : OverviewMatches previous next
  case pos =>
    rw [stabilizedOverview_of_matches h]
    exact ⟨fun hs => ⟨fun _ => hs, absurd h⟩, fun hs => hs.left h⟩
  case neg =>
    rw [stabilizedOverview_of_not_matches h, overview_same]
    exact ⟨fun hs => ⟨fun ho => absurd ho h, fun _ => hs⟩, fun hs => hs.right h⟩

theorem stabilizedTrend_keeps :
    (∀ series, Keeps (previous.trend series) (next.trend series) (stabilizedTrend previous next series)) ↔
      (TrendMatches previous next → ∀ series, Same (list (previous.trend series)) (list (next.trend series))) ∧
      (¬TrendMatches previous next → ∀ series : Series,
        Unambiguous series.getKey (previous.trend series) (next.trend series)) := by
  by_cases h : TrendMatches previous next
  case pos =>
    rw [stabilizedTrend_of_matches h, forall_congr' fun _ => keeps_previous]
    exact ⟨fun hs => ⟨fun _ => hs, absurd h⟩, fun hs => hs.left h⟩
  case neg =>
    have hk : (∀ series, Keeps (previous.trend series) (next.trend series) (trend previous next series)) ↔
        ∀ series : Series, Unambiguous series.getKey (previous.trend series) (next.trend series) :=
      forall_congr' fun _ => reuseList_keeps_iff
    rw [stabilizedTrend_of_not_matches h, hk]
    exact ⟨fun hs => ⟨fun ht => absurd ht h, fun _ => hs⟩, fun hs => hs.right h⟩

theorem snapshot_shows : previous.Shows next (snapshot previous next) ↔ Distinguished previous next := by
  constructor
  case mp  =>
    intro ⟨ho, hm, ht, hl, hr⟩
    dsimp only [snapshot] at ho hm ht hl hr
    rw [stabilizedOverview_same] at ho
    rw [stabilizedTrend_keeps] at ht
    rw [same_reuseValue] at hm hr
    constructor
    case overview     => exact ho.left
    case queueLengths => exact ho.right
    case metrics      => exact hm
    case trend        => exact ht.left
    case series       => exact ht.right
    case lists        => exact fun part => reuseList_keeps_iff.mp (hl part)
    case leader       => exact hr
  case mpr =>
    intro h
    constructor
    all_goals dsimp only [snapshot]
    case overview => exact stabilizedOverview_same.mpr ⟨h.overview, h.queueLengths⟩
    case metrics  => exact same_reuseValue.mpr h.metrics
    case trend    => exact stabilizedTrend_keeps.mpr ⟨h.trend, h.series⟩
    case lists    => exact fun part => reuseList_keeps_iff.mpr (h.lists part)
    case leader   => exact same_reuseValue.mpr h.leader

theorem stabilizedSnapshot_shows : previous.Shows next (stabilizedSnapshot previous next) ↔
    (Resembles previous next → Identical previous next) ∧ (¬Resembles previous next → Distinguished previous next) := by
  by_cases h : Resembles previous next
  case pos =>
    rw [stabilizedSnapshot_of_resembles h, keep_shows]
    exact ⟨fun hs => ⟨fun _ => hs, absurd h⟩, fun hs => hs.left h⟩
  case neg =>
    rw [stabilizedSnapshot_of_not_resembles h, snapshot_shows]
    exact ⟨fun hs => ⟨fun hr => absurd hr h, fun _ => hs⟩, fun hs => hs.right h⟩

end

-- A refresh shows what was received if and only if nothing that has changed seems to be the previous data.
theorem stabilizeConsoleData_shows_iff {previous next : ConsoleData (List Item)} :
    Shows previous next (stabilizeConsoleData previous next) ↔ Recognizable previous next := by
  constructor
  case mp  =>
    intro ⟨hl, hs⟩
    dsimp only [stabilizeConsoleData] at hl hs
    rw [stabilizedSnapshot_shows] at hs
    exact ⟨fun collection => reuseList_keeps_iff.mp (hl collection), hs.left, hs.right⟩
  case mpr =>
    intro h
    constructor
    all_goals dsimp only [stabilizeConsoleData]
    case lists    => exact fun collection => reuseList_keeps_iff.mpr (h.lists collection)
    case snapshot => exact stabilizedSnapshot_shows.mpr ⟨h.whole, h.snapshot⟩

namespace Sample

def string (s : String) : Value :=
  .string (text s)

theorem mem_numeralUnits {s : Text} (h : s.all (numeralUnits.contains ·) = true) : ∀ u ∈ s, u ∈ numeralUnits :=
  fun u hu => List.contains_iff_mem.mp <| List.all_eq_true.mp h u hu

def zero : Value :=
  .number ⟨text "0", by decide, mem_numeralUnits (by decide)⟩

def one : Value :=
  .number ⟨text "1", by decide, mem_numeralUnits (by decide)⟩

def two : Value :=
  .number ⟨text "2", by decide, mem_numeralUnits (by decide)⟩

def job (ref : Nat) (id : String) : Item where
  ref   := ref
  value := .object [
    (text "id", string id),
    (text "type", string "email.send"),
    (text "queue", string "default"),
    (text "tenantId", string "default"),
    (text "payload", .object []),
    (text "priority", one),
    (text "attempts", zero),
    (text "maxAttempts", one),
    (text "state", string "queued"),
    (text "schemaVersion", one),
    (text "createdAt", string "2026-01-01T00:00:00Z"),
    (text "updatedAt", string "2026-01-01T00:00:00Z"),
    (text "runAt", string "2026-01-01T00:00:00Z"),
    (text "timeoutSeconds", one),
    (text "cancelRequested", .bool false),
    (text "executionMs", zero)
  ]

def latency : Value :=
  .object [(text "p50Ms", zero), (text "p95Ms", zero), (text "p99Ms", zero)]

def quiet : Snapshot (List Item) where
  overview
    | .totalJobs     => two
    | .queuedJobs    => two
    | .queueLengths  => .object [(text "critical", zero), (text "default", two), (text "low", zero)]
    | .lastUpdatedAt => string "2026-01-01T00:00:00Z"
    | _              => zero
  metrics := .object [
    (text "jobsPerSecond", zero),
    (text "retryRate", zero),
    (text "deadLetterRate", zero),
    (text "executionLatency", latency),
    (text "queueLatency", latency),
    (text "maxWorkerHeartbeatAgeMs", zero)
  ]
  trend _ := []
  lists _ := []
  leader  := .object []

-- The console data with certain jobs only
def listed (jobs : List Item) : ConsoleData (List Item) where
  snapshot := quiet
  lists
    | .jobs => jobs
    | _     => []

theorem swapped_recurs :
    Recurs (textMember "id") [job 1 "job-1", job 2 "job-2"] [job 3 "job-2", job 4 "job-1"] := by
  have h₁ : (existing (textMember "id") [job 1 "job-1", job 2 "job-2"] (job 3 "job-2")).isSome = true := by
    decide +kernel
  have h₂ : (existing (textMember "id") [job 1 "job-1", job 2 "job-2"] (job 4 "job-1")).isSome = true := by
    decide +kernel
  have hs {x : Option Item} (h : x.isSome = true) : x ≠ none := Option.isSome_iff_ne_none.mp h
  exact ⟨rfl, List.forall_mem_cons.mpr ⟨hs h₁, List.forall_mem_cons.mpr ⟨hs h₂, nofun⟩⟩⟩

-- The two jobs are still shown in the previous order.
theorem not_shows_swapped :
    ¬Shows (listed [job 1 "job-1", job 2 "job-2"]) (listed [job 3 "job-2", job 4 "job-1"])
      (stabilizeConsoleData (listed [job 1 "job-1", job 2 "job-2"]) (listed [job 3 "job-2", job 4 "job-1"])) := by
  intro h
  have hk := h.lists .jobs
  dsimp only [stabilizeConsoleData, listed, Collection.getKey] at hk
  rw [reuseList_keeps_iff] at hk
  have hn : sameValue (list [job 1 "job-1", job 2 "job-2"]) (list [job 3 "job-2", job 4 "job-1"]) = false := by
    decide +kernel
  exact absurd (sameValue_of_same (hk.order swapped_recurs)) (by rw [hn]; decide)

end Sample
end JobPlatform.Dashboard.Reuse
