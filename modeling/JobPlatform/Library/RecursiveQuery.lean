import Mathlib.Data.List.Dedup

-- The query that defines a recursive table. It selects rows of other tables, or it joins the table that is
-- being defined with the pairs of another one.
inductive RecursiveQuery (α : Type)
  | select (rows : List α)
  | join (pairs : List (α × α))
  | union (q q' : RecursiveQuery α)

namespace RecursiveQuery

-- Why a recursive query is rejected.
inductive Malformed
  | notUnion
  | inNonRecursiveTerm
  | repeated
  deriving DecidableEq

variable {α : Type}

-- How often the query refers to the table that it defines.
def references : RecursiveQuery α → Nat
  | select _   => 0
  | join _     => 1
  | union q q' => q.references + q'.references

-- A query that refers to its table must be the union of a term that does not and of one that does so once.
def check : RecursiveQuery α → Except Malformed Unit
  | union q q' =>
    if q.references ≠ 0 then .error .inNonRecursiveTerm
    else if 1 < q'.references then .error .repeated
    else .ok ()
  | q => if q.references ≠ 0 then .error .notUnion else .ok ()

-- The rows that are there from the beginning, and the pairs by which others follow from them.
def selects : RecursiveQuery α → List α
  | select rows => rows
  | join _      => []
  | union q q'  => q.selects ++ q'.selects

def joins : RecursiveQuery α → List (α × α)
  | select _   => []
  | join pairs => pairs
  | union q q' => q.joins ++ q'.joins

-- The rows that the query defines, whatever its form is.
inductive Derives (q : RecursiveQuery α) : α → Prop
  | select {a : α} (h : a ∈ q.selects) : Derives q a
  | join {a b : α} (ha : Derives q a) (h : (a, b) ∈ q.joins) : Derives q b

theorem joins_eq_nil {q : RecursiveQuery α} (h : q.references = 0) : q.joins = [] := by
  induction q
  case select           => rfl
  case join             => cases h
  case union q q' hi hi' =>
    have ⟨h, h'⟩ := Nat.add_eq_zero_iff.mp h
    rw [joins, hi h, hi' h', List.append_nil]

variable [DecidableEq α]

-- The rows of the query when the working table stands for the recursive one.
def eval (working : List α) : RecursiveQuery α → List α
  | select rows => rows
  | join pairs  => (pairs.filter (·.1 ∈ working)).map (·.2)
  | union q q'  => (q.eval working ++ q'.eval working).dedup

-- The new rows are the next working table, and the loop ends when there are none.
def loop (q : RecursiveQuery α) : Nat → (result working : List α) → List α
  | 0,        result, _       => result
  | fuel + 1, result, working =>
    if working = [] then
      result
    else
      let new := (q.eval working).dedup.filter (· ∉ result)
      q.loop fuel (result ++ new) new

-- The loop adds no other rows than these.
def reach (q : RecursiveQuery α) : List α :=
  q.selects ++ q.joins.map (·.2)

def evaluate : RecursiveQuery α → List α
  | union q q' =>
    let rows := (q.eval []).dedup
    q'.loop (rows ++ q'.reach).length.succ rows rows
  | q => q.eval []

def table (q : RecursiveQuery α) : Except Malformed (List α) := do
  q.check
  return q.evaluate

variable {q q' : RecursiveQuery α} {a : α} {rows result working base : List α} {fuel : Nat}

-- The term on the left of the union must not refer to the table.
theorem table_of_references (h : q.references ≠ 0) : (union q q').table = .error .inNonRecursiveTerm := by
  rw [table, check, if_pos h]
  rfl

theorem mem_eval : a ∈ q.eval working ↔ a ∈ q.selects ∨ ∃ b ∈ working, (b, a) ∈ q.joins := by
  induction q
  case select          => simp [eval, selects, joins]
  case join            => simp [eval, selects, joins, and_comm]
  case union q q' h h' =>
    simp only [eval, selects, joins, List.mem_dedup, List.mem_append, h, h', and_or_left, exists_or]
    exact or_or_or_comm

-- What the loop has found, and what follows from it except for the working table.
structure Found (q : RecursiveQuery α) (base result working : List α) : Prop where
  nodup   : result.Nodup
  current : working ⊆ result
  closed  : ∀ a ∈ result, a ∉ working → ∀ b, (a, b) ∈ q.joins → b ∈ result
  bounded : result ⊆ base ++ q.reach

theorem Found.next (h : Found q base result working) :
    let new := (q.eval working).dedup.filter (· ∉ result)
    Found q base (result ++ new) new where
  current := List.subset_append_right ..
  nodup   := by
    refine List.nodup_append.mpr ⟨h.nodup, (List.nodup_dedup _).filter _, fun a ha b hb he => ?_⟩
    have hn := (List.mem_filter.mp hb).right
    simp [← he, ha] at hn
  closed a ha hn b hb := by
    have ha := (List.mem_append.mp ha).resolve_right hn
    by_cases hw : a ∈ working
    case neg => exact List.mem_append_left _ (h.closed a ha hw b hb)
    case pos =>
      by_cases hr : b ∈ result
      case pos => exact List.mem_append_left _ hr
      case neg =>
        refine List.mem_append_right _ (List.mem_filter.mpr ⟨List.mem_dedup.mpr ?_, by simpa using hr⟩)
        exact mem_eval.mpr (.inr ⟨a, hw, hb⟩)
  bounded := by
    refine List.append_subset.mpr ⟨h.bounded, fun a ha => List.mem_append_right _ ?_⟩
    cases mem_eval.mp (List.mem_dedup.mp (List.mem_filter.mp ha).left)
    case inl hs => exact List.mem_append_left _ hs
    case inr hj =>
      have ⟨b, _, hb⟩ := hj
      exact List.mem_append_right _ (List.mem_map.mpr ⟨(b, a), hb, rfl⟩)

theorem loop_nil : q.loop fuel result [] = result := by
  cases fuel <;> rfl

-- The loop ends because each round but the last one finds a row.
theorem loop_found (h : Found q base result working) (hf : (base ++ q.reach).length < result.length + fuel) :
    Found q base (q.loop fuel result working) [] ∧ result ⊆ q.loop fuel result working := by
  induction fuel generalizing result working
  case zero =>
    have hl := h.nodup.length_le_of_subset h.bounded
    exact absurd hf (Nat.not_lt.mpr hl)
  case succ fuel hi =>
    rw [loop]
    split
    case isTrue hw  => exact ⟨hw ▸ h, List.Subset.refl _⟩
    case isFalse hw =>
      dsimp only
      have hn := h.next
      dsimp only at hn
      generalize (q.eval working).dedup.filter (· ∉ result) = new at hn ⊢
      by_cases he : new = []
      case pos =>
        subst he
        rw [loop_nil]
        exact ⟨hn, List.subset_append_left ..⟩
      case neg =>
        have hl : (base ++ q.reach).length < (result ++ new).length + fuel := by
          have hp := List.length_pos_of_ne_nil he
          simp only [List.length_append] at hf ⊢
          omega
        have ⟨hx, hs⟩ := hi hn hl
        exact ⟨hx, List.Subset.trans (List.subset_append_left ..) hs⟩

-- What holds of the rows at the beginning and is kept by the query holds of all rows.
theorem loop_rule {P : α → Prop} (hs : ∀ a ∈ q.selects, P a) (hj : ∀ a b, P a → (a, b) ∈ q.joins → P b)
    (hr : ∀ a ∈ result, P a) (hw : working ⊆ result) : ∀ a ∈ q.loop fuel result working, P a := by
  induction fuel generalizing result working
  case zero            => exact hr
  case succ fuel hi =>
    rw [loop]
    split
    case isTrue  => exact hr
    case isFalse =>
      refine hi (fun a ha => ?_) (List.subset_append_right ..)
      cases List.mem_append.mp ha
      case inl ha => exact hr a ha
      case inr ha =>
        cases mem_eval.mp (List.mem_dedup.mp (List.mem_filter.mp ha).left)
        case inl ha => exact hs a ha
        case inr hb =>
          have ⟨b, hb, ha⟩ := hb
          exact hj b a (hr b (hw hb)) ha

-- The table consists of the rows that can be derived, provided that the recursive term only joins it.
theorem table_rows (hq : q'.selects = []) (h : (union q q').table = .ok rows) :
    rows.Nodup ∧ ∀ a, a ∈ rows ↔ Derives (union q q') a := by
  have hx : (union q q').check = .ok () ∧ (union q q').evaluate = rows := by
    cases hx : (union q q').check
    case error e => simp [table, hx] at h
    case ok      => exact ⟨rfl, by simpa [table, hx] using h⟩
  have ⟨hc, he⟩ := hx
  have hj : q.joins = [] := by
    refine joins_eq_nil (by_contra fun hn => ?_)
    simp [check, hn] at hc
  have hb : Found q' (q.eval []).dedup (q.eval []).dedup (q.eval []).dedup :=
    ⟨List.nodup_dedup _, List.Subset.refl _, fun _ ha hn => absurd ha hn, List.subset_append_left ..⟩
  have ⟨hf, hs⟩ := loop_found hb (Nat.lt_of_lt_of_le (Nat.lt_succ_self _) (Nat.le_add_left ..))
  rw [← he, evaluate]
  refine ⟨hf.nodup, fun a => ⟨?_, fun ha => ?_⟩⟩
  · refine loop_rule (by simp [hq]) (fun a b ha hb => .join ha (List.mem_append_right _ hb)) (fun a ha => ?_)
      (List.Subset.refl _) a
    have ha := mem_eval.mp (List.mem_dedup.mp ha)
    simp only [List.not_mem_nil, false_and, exists_false, or_false] at ha
    exact .select (List.mem_append_left _ ha)
  · induction ha
    case select a ha =>
      rw [selects, hq, List.append_nil] at ha
      exact hs (List.mem_dedup.mpr (mem_eval.mpr (.inl ha)))
    case join a b _ hb ha =>
      rw [joins, hj, List.nil_append] at hb
      exact hf.closed a ha List.not_mem_nil b hb

end RecursiveQuery
