import JobPlatform.Library.RecursiveQuery
import JobPlatform.Service.Manager
import Mathlib.Logic.Relation

namespace JobPlatform

structure DependencyNode where
  jobID            : JobID
  type             : String
  state            : JobState
  queue            : QueueName
  parentJobID      : String
  workflowID       : String
  blockedReason    : String
  dependencyPolicy : DependencyFailurePolicy
  dependsOn        : List JobID
  dependents       : List JobID
  deriving DecidableEq

structure DependencyGraph where
  rootJobID : JobID
  nodes     : List DependencyNode
  deriving DecidableEq

-- The node of a job whose edges have not been read yet.
def Job.node (job : Job) : DependencyNode where
  jobID            := job.id
  type             := job.type
  state            := job.state
  queue            := job.queue
  parentJobID      := job.parentJobID
  workflowID       := job.workflowID
  blockedReason    := job.blockedReason
  dependencyPolicy := job.dependencyPolicy
  dependsOn        := []
  dependents       := []

-- An edge is added to both of the nodes which it connects.
def mirror (e : JobDependency) (node : DependencyNode) : DependencyNode :=
  { node with
    dependsOn  := if node.jobID = e.jobID then node.dependsOn ++ [e.dependsOnJobID] else node.dependsOn
    dependents := if node.jobID = e.dependsOnJobID then node.dependents ++ [e.jobID] else node.dependents
  }

-- What is made of the rows of the two queries. The nodes are kept in a map, so their order means nothing.
def assemble (rootJobID : JobID) (jobs : List Job) (edges : List JobDependency) : DependencyGraph where
  rootJobID := rootJobID
  nodes     := edges.foldl (fun nodes e => nodes.map (mirror e)) (jobs.map Job.node)

namespace Postgres

-- The table `graph` of `GetDependencyGraph`. A union associates to the left.
def graph (p : Postgres) (rootJobID : JobID) : RecursiveQuery JobID :=
  .union (.union
    (.select <| if (p.jobs rootJobID).isSome then [rootJobID] else [])
    (.join <| p.dependencies.edges.map fun d => (d.dependsOnJobID, d.jobID)))
    (.join <| p.dependencies.edges.map fun d => (d.jobID, d.dependsOnJobID))

def jobsIn (p : Postgres) (ids : List JobID) : List Job :=
  (ids.dedup.filterMap p.jobs).insertionSort (·.createdAt ≤ ·.createdAt)

def edgesIn (p : Postgres) (ids : List JobID) : List JobDependency :=
  p.dependencies.edges.filter (·.jobID ∈ ids)

-- Each of the two queries defines the recursive table anew.
def graphOf (p : Postgres) (rootJobID : JobID) (query : RecursiveQuery JobID) :
    Except RecursiveQuery.Malformed DependencyGraph := do
  let ids  ← query.table
  let ids' ← query.table
  return assemble rootJobID (p.jobsIn ids) (p.edgesIn ids')

def getDependencyGraph (p : Postgres) (rootJobID : JobID) : Except RecursiveQuery.Malformed DependencyGraph :=
  p.graphOf rootJobID (p.graph rootJobID)

-- There is a path of dependencies between the jobs, each of which may be followed in either direction.
def Connected (p : Postgres) : JobID → JobID → Prop :=
  Relation.ReflTransGen fun i j => ⟨i, j⟩ ∈ p.dependencies.edges ∨ ⟨j, i⟩ ∈ p.dependencies.edges

-- The graph shows the whole workflow of the job, and every edge of it at both of its ends.
structure Whole (p : Postgres) (rootJobID : JobID) (graph : DependencyGraph) : Prop where
  root       : graph.rootJobID = rootJobID
  nodes      : ∀ j, (∃ node ∈ graph.nodes, node.jobID = j) ↔ p.Connected rootJobID j
  once       : (graph.nodes.map (·.jobID)).Nodup
  dependsOn  : ∀ node ∈ graph.nodes, node.dependsOn.Nodup ∧
    ∀ j, j ∈ node.dependsOn ↔ ⟨node.jobID, j⟩ ∈ p.dependencies.edges
  dependents : ∀ node ∈ graph.nodes, node.dependents.Nodup ∧
    ∀ j, j ∈ node.dependents ↔ ⟨j, node.jobID⟩ ∈ p.dependencies.edges

variable {p : Postgres} {rootJobID j : JobID} {query q q' : RecursiveQuery JobID} {edges : List JobDependency}
         {ids : List JobID}

-- The query means the right table.
theorem graph_derives (h : (p.jobs rootJobID).isSome) :
    (p.graph rootJobID).Derives j ↔ p.Connected rootJobID j := by
  have hs : (p.graph rootJobID).selects = [rootJobID] := by simp [graph, RecursiveQuery.selects, h]
  have hj (i k) : (i, k) ∈ (p.graph rootJobID).joins ↔
      ⟨i, k⟩ ∈ p.dependencies.edges ∨ ⟨k, i⟩ ∈ p.dependencies.edges := by
    simp only [graph, RecursiveQuery.joins, List.nil_append, List.mem_append, List.mem_map, Prod.mk.injEq]
    constructor
    case mp =>
      rintro (⟨⟨_, _⟩, hd, rfl, rfl⟩ | ⟨⟨_, _⟩, hd, rfl, rfl⟩)
      · exact .inr hd
      · exact .inl hd
    case mpr =>
      rintro (hd | hd)
      · exact .inr ⟨_, hd, rfl, rfl⟩
      · exact .inl ⟨_, hd, rfl, rfl⟩
  constructor
  case mp =>
    intro hd
    induction hd
    case select i hi        => rw [hs] at hi; exact List.mem_singleton.mp hi ▸ .refl
    case join i k _ hk hi => exact hi.tail ((hj i k).mp hk)
  case mpr =>
    intro hc
    induction hc
    case refl              => exact .select (hs ▸ List.mem_singleton_self _)
    case tail i k _ hk hi => exact hi.join ((hj i k).mpr hk)

-- The node of a job in a graph with the edges.
def linked (edges : List JobDependency) (job : Job) : DependencyNode :=
  { job.node with
    dependsOn  := (edges.filter (job.id = ·.jobID)).map (·.dependsOnJobID)
    dependents := (edges.filter (job.id = ·.dependsOnJobID)).map (·.jobID)
  }

theorem foldl_mirror {nodes : List DependencyNode} :
    edges.foldl (fun nodes e => nodes.map (mirror e)) nodes = nodes.map fun node => { node with
      dependsOn  := node.dependsOn ++ (edges.filter (node.jobID = ·.jobID)).map (·.dependsOnJobID)
      dependents := node.dependents ++ (edges.filter (node.jobID = ·.dependsOnJobID)).map (·.jobID)
    } := by
  induction edges generalizing nodes
  case nil             => simp
  case cons e edges hi =>
    rw [List.foldl_cons, hi, List.map_map]
    refine List.map_congr_left fun node _ => ?_
    simp only [Function.comp_apply, mirror, List.filter_cons, decide_eq_true_eq]
    split_ifs <;> simp <;> exact ⟨rfl, rfl⟩

theorem assemble_nodes {jobs : List Job} : (assemble rootJobID jobs edges).nodes = jobs.map (linked edges) := by
  rw [assemble, foldl_mirror, List.map_map]
  rfl

-- The edges of a job in one direction lead to different jobs.
theorem nodup_ends {f g : JobDependency → JobID} (hn : edges.Nodup) (hi : ∀ e e', f e = f e' → g e = g e' → e = e') :
    ((edges.filter (j = f ·)).map g).Nodup := by
  refine (hn.filter _).map_on fun e he e' he' h => hi e e' ?_ h
  exact (of_decide_eq_true (List.mem_filter.mp he).right).symm.trans (of_decide_eq_true (List.mem_filter.mp he').right)

theorem mem_dependsOn {job : Job} : j ∈ (linked edges job).dependsOn ↔ ⟨job.id, j⟩ ∈ edges := by
  simp only [linked, List.mem_map, List.mem_filter, decide_eq_true_eq]
  constructor
  case mp  => rintro ⟨⟨_, _⟩, ⟨he, rfl⟩, rfl⟩; exact he
  case mpr => exact fun he => ⟨_, ⟨he, rfl⟩, rfl⟩

theorem mem_dependents {job : Job} : j ∈ (linked edges job).dependents ↔ ⟨j, job.id⟩ ∈ edges := by
  simp only [linked, List.mem_map, List.mem_filter, decide_eq_true_eq]
  constructor
  case mp  => rintro ⟨⟨_, _⟩, ⟨he, rfl⟩, rfl⟩; exact he
  case mpr => exact fun he => ⟨_, ⟨he, rfl⟩, rfl⟩

section

variable (hk : ∀ j job, p.jobs j = some job → job.id = j)
         (he : ∀ e ∈ p.dependencies.edges, (p.jobs e.jobID).isSome ∧ (p.jobs e.dependsOnJobID).isSome)

include he in
theorem Connected.isSome (h : p.Connected rootJobID j) (hr : (p.jobs rootJobID).isSome) : (p.jobs j).isSome := by
  induction h
  case refl      => exact hr
  case tail hd _ =>
    cases hd
    case inl hd => exact (he _ hd).right
    case inr hd => exact (he _ hd).left

include hk in
theorem mem_jobsIn {job : Job} : job ∈ p.jobsIn ids ↔ p.jobs job.id = some job ∧ job.id ∈ ids := by
  rw [jobsIn, List.mem_insertionSort, List.mem_filterMap]
  constructor
  case mp  =>
    intro ⟨j, hj, hjob⟩
    have hid := hk j job hjob
    subst hid
    exact ⟨hjob, List.mem_dedup.mp hj⟩
  case mpr => exact fun ⟨hj, hm⟩ => ⟨job.id, List.mem_dedup.mpr hm, hj⟩

include hk in
theorem jobsIn_nodup : ((p.jobsIn ids).map (·.id)).Nodup := by
  have hp : (p.jobsIn ids).Perm (ids.dedup.filterMap p.jobs) := List.perm_insertionSort ..
  rw [(hp.map _).nodup_iff, List.map_filterMap]
  refine (List.nodup_dedup ids).filterMap fun i j k hi hj => ?_
  have ⟨_, hi, hx⟩ := Option.map_eq_some_iff.mp hi
  have ⟨_, hj, hy⟩ := Option.map_eq_some_iff.mp hj
  rw [← hk _ _ hi, ← hk _ _ hj, hx, hy]

-- What the two queries leave to be done is done right.
include hk he in
theorem graphOf_whole (hr : (p.jobs rootJobID).isSome) (hq : query.table = .ok ids)
    (hi : ∀ j, j ∈ ids ↔ p.Connected rootJobID j) :
    ∃ graph, p.graphOf rootJobID query = .ok graph ∧ p.Whole rootJobID graph := by
  have hg : p.graphOf rootJobID query = .ok (assemble rootJobID (p.jobsIn ids) (p.edgesIn ids)) := by
    rw [graphOf, hq]
    rfl
  have hnodes := @assemble_nodes rootJobID (p.edgesIn ids) (p.jobsIn ids)
  have hedge {i j} (hc : p.Connected rootJobID i ∨ p.Connected rootJobID j) :
      ⟨i, j⟩ ∈ p.edgesIn ids ↔ ⟨i, j⟩ ∈ p.dependencies.edges := by
    rw [edgesIn, List.mem_filter, decide_eq_true_eq]
    refine and_iff_left_of_imp fun hd => (hi i).mpr ?_
    cases hc
    case inl hc => exact hc
    case inr hc => exact hc.tail (.inr hd)
  have hn : (p.edgesIn ids).Nodup := p.dependencies.nodup.filter _
  refine ⟨_, hg, rfl, ?_, ?_, ?_, ?_⟩
  all_goals rw [hnodes]
  case refine_1 =>
    intro j
    constructor
    case mp  =>
      rintro ⟨_, hm, rfl⟩
      have ⟨job, hjob, he⟩ := List.mem_map.mp hm
      subst he
      exact (hi _).mp ((mem_jobsIn hk).mp hjob).right
    case mpr =>
      intro hc
      have ⟨job, hj⟩ := Option.isSome_iff_exists.mp (Connected.isSome he hc hr)
      have hid := hk j job hj
      subst hid
      exact ⟨_, List.mem_map_of_mem ((mem_jobsIn hk).mpr ⟨hj, (hi _).mpr hc⟩), rfl⟩
  case refine_2 =>
    rw [List.map_map]
    exact jobsIn_nodup hk
  case refine_3 =>
    intro node hm
    have ⟨job, hjob, he⟩ := List.mem_map.mp hm
    subst he
    have hc := (hi _).mp ((mem_jobsIn hk).mp hjob).right
    refine ⟨nodup_ends hn ?_, fun j => mem_dependsOn.trans (hedge (.inl hc))⟩
    rintro ⟨_, _⟩ ⟨_, _⟩ rfl rfl
    rfl
  case refine_4 =>
    intro node hm
    have ⟨job, hjob, he⟩ := List.mem_map.mp hm
    subst he
    have hc := (hi _).mp ((mem_jobsIn hk).mp hjob).right
    refine ⟨nodup_ends hn ?_, fun j => mem_dependents.trans (hedge (.inr hc))⟩
    rintro ⟨_, _⟩ ⟨_, _⟩ rfl rfl
    rfl

-- It would suffice to write the query in a form that is accepted.
include hk he in
theorem graphOf_whole_of_derives (hr : (p.jobs rootJobID).isSome) (hs : q'.selects = [])
    (hq : (RecursiveQuery.union q q').table = .ok ids)
    (hd : ∀ j, (RecursiveQuery.union q q').Derives j ↔ (p.graph rootJobID).Derives j) :
    ∃ graph, p.graphOf rootJobID (.union q q') = .ok graph ∧ p.Whole rootJobID graph := by
  refine graphOf_whole hk he hr hq fun j => ?_
  rw [(RecursiveQuery.table_rows hs hq).right, hd, graph_derives hr]

end

-- But the term on the left of the outer union refers to the table.
theorem graph_table : (p.graph rootJobID).table = .error .inNonRecursiveTerm :=
  RecursiveQuery.table_of_references Nat.one_ne_zero

theorem getDependencyGraph_eq : p.getDependencyGraph rootJobID = .error .inNonRecursiveTerm := by
  rw [getDependencyGraph, graphOf, graph_table]
  rfl

-- The workflow of a job is never returned.
theorem getDependencyGraph_not_whole (p : Postgres) (rootJobID : JobID) :
    ¬∃ graph, p.getDependencyGraph rootJobID = .ok graph ∧ p.Whole rootJobID graph := by
  intro ⟨graph, hg, _⟩
  rw [getDependencyGraph_eq] at hg
  cases hg

namespace Sample

def job (id : JobID) : Job :=
  buildJob 0 (.plain "email.send") id

-- A job and another one that depends on it.
def pair : Postgres :=
  { Postgres.empty with
    jobs         := Function.update (Function.update Postgres.empty.jobs "job-1" (some <| job "job-1")) "job-2" (some <| job "job-2")
    dependencies := DependencyTable.empty.insert ⟨"job-2", "job-1"⟩
  }

end Sample

theorem not_whole_of_pair : (Sample.pair.jobs "job-1").isSome ∧ Sample.pair.Connected "job-1" "job-2" ∧
    ¬∃ graph, Sample.pair.getDependencyGraph "job-1" = .ok graph ∧ Sample.pair.Whole "job-1" graph := by
  refine ⟨by decide, .single (.inr (by decide)), fun ⟨graph, hg, _⟩ => ?_⟩
  cases getDependencyGraph_eq.symm.trans hg

end Postgres

-- What is shown of a job, apart from its attempts and events.
structure JobInspection where
  job         : Job
  graph       : DependencyGraph
  idempotency : Option IdempotencyRecord
  deadLetter  : Option DeadLetter

namespace Manager

def getDependencyGraph (rootJobID : JobID) (p : Postgres) : Except RecursiveQuery.Malformed DependencyGraph :=
  p.getDependencyGraph rootJobID

-- What cannot be read is left out.
def getJobInspection (jobID : JobID) (p : Postgres) : Except Error JobInspection := do
  let job ← p.getJob jobID
  return {
    job
    graph       := (p.getDependencyGraph jobID).toOption.getD { rootJobID := "", nodes := [] }
    deadLetter  := p.deadLetters jobID
    idempotency :=
      if job.idempotencyKey = "" then none else p.idempotency (idempotencyScope job.tenantID job.type job.idempotencyKey)
  }

-- No inspection shows a graph.
theorem getJobInspection_graph {jobID : JobID} {p : Postgres} {inspection : JobInspection}
    (h : getJobInspection jobID p = .ok inspection) : inspection.graph.nodes = [] := by
  unfold getJobInspection at h
  rw [Postgres.getDependencyGraph_eq] at h
  cases hj : p.getJob jobID
  case error e => rw [hj] at h; cases h
  case ok job  => rw [hj] at h; cases h; rfl

end Manager
end JobPlatform
