import JobPlatform.Library.Apart
import JobPlatform.Library.Pool
import JobPlatform.Domain
import Mathlib.Data.List.Sort
import Mathlib.Data.String.Basic

namespace JobPlatform

structure DirEntry where
  name  : String
  isDir : Bool
  deriving DecidableEq

-- The tables of the application, and the rows of `schema_migrations` in the order of their commits.
structure Catalog (σ : Type) where
  schema   : σ
  versions : List String

-- The directory of the migrations, and what the database makes of the text of a file, which it may reject.
structure Migrations (σ : Type) where
  entries  : List DirEntry
  distinct : (entries.map (·.name)).Nodup
  content  : String → String
  script   : String → σ → Except Error σ

namespace Migrations

-- The steps of `RunMigrations`, where the transaction of a migration takes effect as a whole.
inductive Call
  | createTable
  | readDir
  | selectVersions
  | readFile (version : String)
  | migrate (version sql : String)

abbrev Call.Result : Call → Type
  | createTable    => Unit
  | readDir        => List DirEntry
  | selectVersions => List String
  | readFile _     => String
  | migrate ..     => Unit

abbrev Call.Resp (c : Call) : Type :=
  Except Error c.Result

abbrev Program :=
  Prog Call Call.Resp

def perform (c : Call) : Program (Except Error c.Result) :=
  Prog.perform c

-- The names of the files, sorted.
def sortedVersions (entries : List DirEntry) : List String :=
  ((entries.filter fun entry => !entry.isDir && entry.name.endsWith ".sql").map (·.name)).insertionSort (· ≤ ·)

-- The loop of `RunMigrations`.
def migrateAll (applied : List String) : List String → Program (Except Error Unit)
  | []              => return .ok ()
  | version :: rest => do
    if version ∈ applied then
      migrateAll applied rest
    else
      match ← perform (.readFile version) with
      | .error e => return .error e
      | .ok sql  =>
        match ← perform (.migrate version sql) with
        | .error e => return .error e
        | .ok ()   => migrateAll applied rest

def runMigrations : Program (Except Error Unit) := do
  match ← perform .createTable with
  | .error e => return .error e
  | .ok ()   =>
    match ← perform .readDir with
    | .error e    => return .error e
    | .ok entries =>
      match ← perform .selectVersions with
      | .error e    => return .error e
      | .ok applied => migrateAll applied (sortedVersions entries)

variable {σ : Type} (m : Migrations σ)

-- The transaction is rolled back when a statement fails, or when there is a row of the version.
def migrate (version sql : String) (db : Catalog σ) : Catalog σ × Except Error Unit :=
  match m.script sql db.schema with
  | .error e   => (db, .error e)
  | .ok schema =>
    if version ∈ db.versions then
      (db, .error .uniqueViolation)
    else
      ({ schema, versions := db.versions ++ [version] }, .ok ())

def effect (db : Catalog σ) : (c : Call) → Catalog σ × c.Resp
  | .createTable         => (db, .ok ())
  | .readDir             => (db, .ok m.entries)
  | .selectVersions      => (db, .ok db.versions)
  | .readFile version    => (db, .ok (m.content version))
  | .migrate version sql => m.migrate version sql db

-- What may go wrong with a call. `RunMigrations` does not notice when the rows of its query end early.
inductive Failure
  | none
  | refused
  | lost
  | short (rows : Nat)

def Call.shorten (rows : Nat) : (c : Call) → c.Resp → c.Resp
  | .selectVersions, .ok versions => .ok (versions.take rows)
  | _,               res          => res

-- The database, and the number of calls so far.
structure Shared (σ : Type) where
  db    : Catalog σ
  calls : Nat

def exec (failures : Nat → Failure) (s : Shared σ) (c : Call) : Shared σ × c.Resp :=
  let (db, res) := m.effect s.db c
  match failures s.calls with
  | .none       => ({ db, calls := s.calls + 1 }, res)
  | .refused    => ({ s with calls := s.calls + 1 }, .error .unavailable)
  | .lost       => ({ db, calls := s.calls + 1 }, .error .unavailable)
  | .short rows => ({ db, calls := s.calls + 1 }, c.shorten rows res)

theorem exec_rule {m : Migrations σ} {failures : Nat → Failure} {s : Shared σ} {c : Call}
    {Q : Catalog σ → c.Resp → Prop} (refused : ∀ e, Q s.db (.error e)) (lost : ∀ e, Q (m.effect s.db c).1 (.error e))
    (done : Q (m.effect s.db c).1 (m.effect s.db c).2)
    (short : ∀ rows, Q (m.effect s.db c).1 (c.shorten rows (m.effect s.db c).2)) :
    Q (m.exec failures s c).1.db (m.exec failures s c).2 := by
  unfold exec
  dsimp only
  split
  · exact done
  · exact refused _
  · exact lost _
  · exact short _

-- The versions which the directory asks for.
def versions : List String :=
  sortedVersions m.entries

-- The scripts of the versions are run one after the other.
def replay (versions : List String) (schema : σ) : Except Error σ :=
  versions.foldlM (fun schema version => m.script (m.content version) schema) schema

-- From `db` on, some of the first versions have been applied in their order, and no other ones.
structure Advanced (db db' : Catalog σ) (applied : List String) : Prop where
  versions : db'.versions = db.versions ++ applied
  leading  : db'.versions <+: m.versions
  schema   : m.replay applied db.schema = .ok db'.schema

-- A process remembers which versions it still has to apply.
inductive State
  | idle
  | read (versions : List String)
  | todo (versions : List String)
  | loaded (version sql : String) (rest : List String)
  | done

end Migrations

open Migrations (State) in
abbrev Migrating {σ : Type} (m : Migrations σ) : Protocol Migrations.Call Migrations.Call.Resp where
  State := State
  Allows
    | .loaded version sql _, .migrate version' sql' => version' = version ∧ sql' = sql
    | .todo versions,        .readFile version      => ∃ rest, versions = version :: rest
    | .read _,               .selectVersions        => True
    | .idle,                 .readDir               => True
    | .idle,                 .createTable           => True
    | _,                     _                      => False
  Expected c res := match c, res with
    | .readDir,        .ok entries => entries = m.entries
    | .readFile v,     .ok sql     => sql = m.content v
    | _,               _           => True
  next
    | .idle,            .createTable,      .ok ()      => .idle
    | .idle,            .readDir,          .ok entries => .read (Migrations.sortedVersions entries)
    | .read versions,   .selectVersions,   .ok applied => .todo (versions.filter (· ∉ applied))
    | .todo versions,   .readFile version, .ok sql     => .loaded version sql versions.tail
    | .loaded _ _ rest, .migrate ..,       .ok ()      => .todo rest
    | _,                _,                 _           => .done

namespace Migrations

variable {σ : Type} {m : Migrations σ} {db db₀ : Catalog σ} {version sql : String} {applied rest : List String}

theorem migrateAll_follows {versions : List String} : (migrateAll applied versions).Follows (Migrating m)
    (fun res q => res = .ok () → q = .todo []) (.todo (versions.filter (· ∉ applied))) := by
  induction versions
  case nil                  => exact fun _ => rfl
  case cons version rest hi =>
    unfold migrateAll
    by_cases ha : version ∈ applied
    case pos =>
      rw [if_pos ha, List.filter_cons_of_neg (by simpa using ha)]
      exact hi
    case neg =>
      rw [if_neg ha, List.filter_cons_of_pos (by simpa using ha)]
      refine ⟨⟨_, rfl⟩, fun res _ => ?_⟩
      cases res
      case error  => exact fun he => nomatch he
      case ok sql =>
        refine ⟨⟨rfl, rfl⟩, fun res _ => ?_⟩
        cases res
        case error => exact fun he => nomatch he
        case ok    => exact hi

theorem runMigrations_follows :
    runMigrations.Follows (Migrating m) (fun res q => res = .ok () → q = .todo []) .idle := by
  refine ⟨trivial, fun res _ => ?_⟩
  cases res
  case error => exact fun he => nomatch he
  case ok    =>
    refine ⟨trivial, fun res _ => ?_⟩
    cases res
    case error      => exact fun he => nomatch he
    case ok entries =>
      refine ⟨trivial, fun res _ => ?_⟩
      cases res
      case error      => exact fun he => nomatch he
      case ok applied => exact migrateAll_follows

-- The versions are sorted, and none of them appears twice.
theorem versions_sorted : m.versions.Pairwise (· < ·) := by
  have hn : m.versions.Nodup := by
    refine (List.perm_insertionSort ..).nodup_iff.mpr ?_
    exact m.distinct.sublist ((List.filter_sublist ..).map _)
  refine (List.pairwise_insertionSort (· ≤ ·) _).imp₂ (fun _ _ hle hne => lt_of_le_of_ne hle hne) hn

-- What has been applied so far is followed by the first of the versions which a process still has to apply.
theorem prefix_snoc {versions : List String} (hs : versions.Pairwise (· < ·)) (ha : applied <+: versions)
    (ht : (version :: rest).Sublist versions) (hk : ∀ u ∈ versions, u ∈ version :: rest ∨ u ∈ applied)
    (hv : version ∉ applied) : applied ++ [version] <+: versions := by
  obtain ⟨later, rfl⟩ := ha
  have hm : version ∈ later :=
    (List.mem_append.mp (ht.subset List.mem_cons_self)).resolve_left hv
  cases later
  case nil             => cases hm
  case cons next later =>
    obtain ⟨_, hl, hlt⟩ := List.pairwise_append.mp hs
    have hn : next ∉ applied := fun hn => lt_irrefl _ (hlt next hn next List.mem_cons_self)
    have he : next = version := by
      by_contra hne
      have hr := (hk next (List.mem_append_right _ List.mem_cons_self)).resolve_right hn
      have hlt : version < next := List.rel_of_pairwise_cons (hs.sublist ht) ((List.mem_cons.mp hr).resolve_left hne)
      have hgt : next < version := List.rel_of_pairwise_cons hl ((List.mem_cons.mp hm).resolve_left (Ne.symm hne))
      exact lt_asymm hlt hgt
    subst he
    exact ⟨later, by simp⟩

theorem Advanced.start (h : db.versions <+: m.versions) : m.Advanced db db [] :=
  ⟨by simp, h, rfl⟩

namespace State

-- The versions which are not left to be applied have been applied before.
def Leaves (m : Migrations σ) (db : Catalog σ) (todo : List String) : Prop :=
  todo.Sublist m.versions ∧ ∀ u ∈ m.versions, u ∈ todo ∨ u ∈ db.versions

def Knows (m : Migrations σ) (db : Catalog σ) : State → Prop
  | idle                    => True
  | read versions           => versions = m.versions
  | todo versions           => Leaves m db versions
  | loaded version sql rest => Leaves m db (version :: rest) ∧ sql = m.content version
  | done                    => True

variable {q : State}

theorem Leaves.mono {db' : Catalog σ} {todo : List String} (h : Leaves m db todo) (hs : db.versions ⊆ db'.versions) :
    Leaves m db' todo :=
  ⟨h.left, fun u hu => (h.right u hu).imp_right fun hd => hs hd⟩

theorem Knows.mono {db' : Catalog σ} (h : q.Knows m db) (hs : db.versions ⊆ db'.versions) : q.Knows m db' := by
  cases q
  case todo   => exact h.mono hs
  case loaded => exact ⟨h.left.mono hs, h.right⟩
  all_goals exact h

end State

-- The transaction applies the next version, or does nothing.
theorem migrate_advanced (h : m.Advanced db₀ db applied)
    (hk : (State.loaded version sql rest).Knows m db) : ∃ applied', m.Advanced db₀ (m.migrate version sql db).1 applied' ∧
    db.versions ⊆ (m.migrate version sql db).1.versions ∧
    ((m.migrate version sql db).2 = .ok () → version ∈ (m.migrate version sql db).1.versions) := by
  obtain ⟨⟨ht, hl⟩, hc⟩ := hk
  subst hc
  unfold migrate
  cases hx : m.script (m.content version) db.schema
  case error     => exact ⟨applied, h, fun _ hu => hu, fun he => nomatch he⟩
  case ok schema =>
    dsimp only
    split
    case isTrue hv  => exact ⟨applied, h, fun _ hu => hu, fun he => nomatch he⟩
    case isFalse hv =>
      refine ⟨applied ++ [version], ⟨?_, ?_, ?_⟩, fun _ hu => List.mem_append_left _ hu, fun _ => by simp⟩
      · simp [h.versions]
      · exact prefix_snoc m.versions_sorted h.leading ht hl hv
      · have hr : m.replay applied db₀.schema = .ok db.schema := h.schema
        unfold replay at hr ⊢
        rw [List.foldlM_append, hr]
        show (m.script (m.content version) db.schema).bind .ok = .ok schema
        rw [hx]
        rfl

end Migrations

-- The processes which run the migrations of the directory at the same time.
abbrev Migrators {σ : Type} (m : Migrations σ) :=
  Pool (Migrating m) (Except Error Unit) (Migrations.Shared σ)

namespace Migrators

open Migrations (Shared Failure Call)

variable {σ : Type} {m : Migrations σ}

abbrev Label (m : Migrations σ) :=
  Pool.Label (Migrating m) (Except Error Unit)

def semantics (m : Migrations σ) (failures : Nat → Failure) : Pool.Semantics (Migrating m) (Except Error Unit) (Shared σ) where
  exec    := m.exec failures
  forks _ := []

def start (m : Migrations σ) (db : Catalog σ) : Migrators m where
  world := { db, calls := 0 }
  procs := []

-- A process may be started at any time, and may stop taking its turns.
def Launched : Label m → Prop
  | .spawn p => p = ⟨Migrations.runMigrations, .idle⟩
  | .run _   => True

-- All processes know how far the database is.
structure Aligned (db : Catalog σ) (s : Migrators m) : Prop where
  follows  : ∀ p ∈ s.procs, p.prog.Follows (Migrating m) (fun res q => res = .ok () → q = .todo []) p.state
  knows    : ∀ p ∈ s.procs, p.state.Knows m s.world.db
  advanced : ∃ applied, m.Advanced db s.world.db applied

variable {failures : Nat → Failure} {db : Catalog σ} {s : Migrators m} {i : Nat} {l : Label m} {c : Call}
         {q : Migrations.State} {ls : List (Label m)}

-- What a call does, where `q` is the state of the process that makes it.
structure Leaves (db : Catalog σ) (s : Migrators m) (q : Migrations.State) (c : Call) (db' : Catalog σ) (res : c.Resp) :
    Prop where
  expected : (Migrating m).Expected c res
  keeps    : s.world.db.versions ⊆ db'.versions
  advanced : ∃ applied, m.Advanced db db' applied
  next     : ((Migrating m).next q c res).Knows m db'

theorem Leaves.failed {db' : Catalog σ} {e : Error} (hk : s.world.db.versions ⊆ db'.versions)
    (ha : ∃ applied, m.Advanced db db' applied) : Leaves db s q c db' (.error e) where
  expected := by cases c <;> trivial
  keeps    := hk
  advanced := ha
  next     := by
    have hn : (Migrating m).next q c (.error e) = .done := by
      cases q <;> cases c <;> rfl
    rw [hn]
    trivial

namespace Aligned

theorem leaves (h : Aligned db s) (hq : q.Knows m s.world.db) (hc : (Migrating m).Allows q c) :
    Leaves db s q c (m.exec failures s.world c).1.db (m.exec failures s.world c).2 := by
  have hk : s.world.db.versions ⊆ s.world.db.versions := fun _ hu => hu
  cases c
  case createTable    =>
    obtain rfl : q = .idle := by cases q <;> first | rfl | cases hc
    apply Migrations.exec_rule (Q := Leaves db s .idle .createTable)
    case refused => exact fun _ => .failed hk h.advanced
    case lost    => exact fun _ => .failed hk h.advanced
    case done    => exact ⟨trivial, hk, h.advanced, trivial⟩
    case short   => exact fun _ => ⟨trivial, hk, h.advanced, trivial⟩
  case readDir        =>
    obtain rfl : q = .idle := by cases q <;> first | rfl | cases hc
    apply Migrations.exec_rule (Q := Leaves db s .idle .readDir)
    case refused => exact fun _ => .failed hk h.advanced
    case lost    => exact fun _ => .failed hk h.advanced
    case done    => exact ⟨rfl, hk, h.advanced, rfl⟩
    case short   => exact fun _ => ⟨rfl, hk, h.advanced, rfl⟩
  case selectVersions =>
    obtain ⟨versions, rfl⟩ : ∃ versions, q = .read versions := by cases q <;> first | exact ⟨_, rfl⟩ | cases hc
    -- What the query returns has been applied.
    have next {applied : List String} (ha : applied ⊆ s.world.db.versions) :
        Leaves db s (.read versions) .selectVersions s.world.db (.ok applied) := by
      refine ⟨trivial, hk, h.advanced, ?_, fun u hu => ?_⟩
      · exact hq ▸ List.filter_sublist ..
      · by_cases hm : u ∈ applied
        · exact .inr (ha hm)
        · exact .inl (List.mem_filter.mpr ⟨hq ▸ hu, by simpa using hm⟩)
    apply Migrations.exec_rule (Q := Leaves db s (.read versions) .selectVersions)
    case refused => exact fun _ => .failed hk h.advanced
    case lost    => exact fun _ => .failed hk h.advanced
    case done    => exact next hk
    case short   => exact fun _ => next (List.take_subset ..)
  case readFile version =>
    obtain ⟨rest, rfl⟩ : ∃ rest, q = .todo (version :: rest) := by
      cases q <;> first | exact hc.elim fun _ he => ⟨_, congrArg _ he⟩ | cases hc
    apply Migrations.exec_rule (Q := Leaves db s (.todo (version :: rest)) (.readFile version))
    case refused => exact fun _ => .failed hk h.advanced
    case lost    => exact fun _ => .failed hk h.advanced
    case done    => exact ⟨rfl, hk, h.advanced, hq, rfl⟩
    case short   => exact fun _ => ⟨rfl, hk, h.advanced, hq, rfl⟩
  case migrate version sql =>
    obtain ⟨rest, rfl⟩ : ∃ rest, q = .loaded version sql rest := by
      cases q <;> first | exact ⟨_, by rw [hc.left, hc.right]⟩ | cases hc
    obtain ⟨applied, ha⟩ := h.advanced
    obtain ⟨applied', ha', hk', hv⟩ := Migrations.migrate_advanced ha hq
    have done : Leaves db s (.loaded version sql rest) (.migrate version sql) (m.migrate version sql s.world.db).1
        (m.migrate version sql s.world.db).2 := by
      cases hr : (m.migrate version sql s.world.db).2
      case error => exact .failed hk' ⟨_, ha'⟩
      case ok    =>
        obtain ⟨⟨ht, hl⟩, _⟩ := hq
        refine ⟨trivial, hk', ⟨_, ha'⟩, (List.sublist_cons_self ..).trans ht, fun u hu => ?_⟩
        obtain hm | hm := hl u hu
        · obtain rfl | hm := List.mem_cons.mp hm
          · exact .inr (hv hr)
          · exact .inl hm
        · exact .inr (hk' hm)
    apply Migrations.exec_rule (Q := Leaves db s (.loaded version sql rest) (.migrate version sql))
    case refused => exact fun _ => .failed hk h.advanced
    case lost    => exact fun _ => .failed hk' ⟨_, ha'⟩
    case done    => exact done
    case short   => exact fun _ => done

theorem run (h : Aligned db s) : Aligned db (Pool.step (semantics m failures) s (.run i)) := by
  refine Pool.step_run_rule _ h fun c k q hi => ?_
  have hm := List.mem_of_getElem? hi
  have ⟨hc, hn⟩ := h.follows _ hm
  have hl : Leaves db s q c (m.exec failures s.world c).1.db (m.exec failures s.world c).2 :=
    h.leaves (h.knows _ hm) hc
  refine ⟨?_, ?_, hl.advanced⟩
  · intro r hm
    obtain hm | rfl := Apart.mem_of_mem_set ((List.mem_append.mp hm).resolve_right List.not_mem_nil)
    · exact h.follows r (List.mem_of_mem_eraseIdx hm)
    · exact hn _ hl.expected
  · intro r hm
    obtain hm | rfl := Apart.mem_of_mem_set ((List.mem_append.mp hm).resolve_right List.not_mem_nil)
    · exact (h.knows r (List.mem_of_mem_eraseIdx hm)).mono hl.keeps
    · exact hl.next

theorem step (h : Aligned db s) (hl : Launched l) : Aligned db (Pool.step (semantics m failures) s l) := by
  cases l
  case run i   => exact h.run
  case spawn p =>
    obtain rfl : p = ⟨Migrations.runMigrations, .idle⟩ := hl
    refine ⟨fun p hp => ?_, fun p hp => ?_, h.advanced⟩
    · obtain hp | hp := List.mem_append.mp hp
      · exact h.follows p hp
      · exact List.mem_singleton.mp hp ▸ Migrations.runMigrations_follows
    · obtain hp | hp := List.mem_append.mp hp
      · exact h.knows p hp
      · rw [List.mem_singleton.mp hp]
        trivial

end Aligned

-- A process that has succeeded has seen all of the versions.
theorem Aligned.complete (h : Aligned db s) {p : Proc (Migrating m) (Except Error Unit)} (hp : p ∈ s.procs)
    (he : p.prog = .ret (.ok ())) : s.world.db.versions = m.versions := by
  have hf := h.follows p hp
  rw [he] at hf
  have hk := h.knows p hp
  rw [hf rfl] at hk
  obtain ⟨applied, ha⟩ := h.advanced
  refine ha.leading.eq_of_length_le ?_
  exact (m.versions_sorted.nodup.subperm fun u hu => (hk.right u hu).resolve_left List.not_mem_nil).length_le

-- Whatever fails, and however many processes run the migrations at the same time, each of them is applied once and in
-- its turn. All of them have been applied when a process succeeds.
theorem advanced_of_launched (hd : db.versions <+: m.versions) (hl : ∀ l ∈ ls, Launched l) :
    let s : Migrators m := Run.last (Pool.step (semantics m failures)) (start m db) ls
    (∃ applied, m.Advanced db s.world.db applied) ∧
    ∀ p ∈ s.procs, p.prog = .ret (.ok ()) → s.world.db.versions = m.versions := by
  have hg := Run.Guarded.of_forall (Pool.step (semantics m failures)) (start m db) hl
  have hs : Aligned db (Run.last (Pool.step (semantics m failures)) (start m db) ls) :=
    hg.invariant (fun _ _ => Aligned.step) ⟨List.forall_mem_nil _, List.forall_mem_nil _, _, .start hd⟩
  exact ⟨hs.advanced, fun p => hs.complete⟩

namespace Sample

-- A schema is the list of the files that have been run.
def directory : Migrations (List String) where
  entries    := [⟨"002_platform_upgrade.sql", false⟩, ⟨"archive", true⟩, ⟨"001_init.sql", false⟩]
  distinct   := by decide
  content    := id
  script f s := .ok (s ++ [f])

def launch : Label directory :=
  .spawn ⟨Migrations.runMigrations, .idle⟩

-- The commit of the second process gets lost.
def losses : Nat → Failure
  | 9 => .lost
  | _ => .none

-- Two processes run the migrations at the same time.
def racing : List (Label directory) :=
  [launch, launch] ++ (List.replicate 8 [0, 1]).flatten.map .run

theorem racing_launched : ∀ l ∈ racing, Launched l := by
  have runs (is : List Nat) : ∀ l ∈ is.map .run, @Launched _ directory l := by
    intro l hl
    obtain ⟨_, _, rfl⟩ := List.mem_map.mp hl
    trivial
  exact List.forall_mem_append.mpr ⟨by simp [launch, Launched], runs _⟩

end Sample

theorem advanced_of_launched_sample :
    let s := Run.last (Pool.step (semantics Sample.directory Sample.losses)) (start Sample.directory ⟨[], []⟩) Sample.racing
    (∃ applied, Sample.directory.Advanced ⟨[], []⟩ s.world.db applied) ∧
    ∀ p ∈ s.procs, p.prog = .ret (.ok ()) → s.world.db.versions = Sample.directory.versions :=
  advanced_of_launched List.nil_prefix Sample.racing_launched

end Migrators
end JobPlatform
