import Mathlib.Data.Finmap
import Mathlib.Data.List.Sort

-- A sorted set gives each of its members a score.
abbrev SortedSet (α β : Type*) :=
  AList (fun _ : α => β)

namespace SortedSet

section

variable {α β : Type*} [DecidableEq α] {z : SortedSet α β} {m m' : α} {s s' : β}

abbrev score? (z : SortedSet α β) (m : α) : Option β :=
  z.lookup m

-- Adds `m` with the score `s`, or moves it there if it is a member already.
def add (z : SortedSet α β) (m : α) (s : β) : SortedSet α β :=
  z.insert m s

def remove (z : SortedSet α β) (m : α) : SortedSet α β :=
  z.erase m

def card (z : SortedSet α β) : Nat :=
  z.entries.length

@[simp]
theorem score?_empty : score? (∅ : SortedSet α β) m = none :=
  AList.lookup_empty m

@[simp]
theorem score?_add_self : (z.add m s).score? m = some s :=
  AList.lookup_insert z

theorem score?_add_ne (h : m' ≠ m) : (z.add m s).score? m' = z.score? m' :=
  AList.lookup_insert_ne h

theorem score?_add : (z.add m s).score? m' = if m' = m then some s else z.score? m' := by
  split
  case isTrue h  => rw [h, score?_add_self]
  case isFalse h => exact score?_add_ne h

@[simp]
theorem score?_remove_self : (z.remove m).score? m = none :=
  AList.lookup_erase m z

theorem score?_remove_ne (h : m' ≠ m) : (z.remove m).score? m' = z.score? m' :=
  AList.lookup_erase_ne h

theorem score?_remove : (z.remove m).score? m' = if m' = m then none else z.score? m' := by
  split
  case isTrue h  => rw [h, score?_remove_self]
  case isFalse h => exact score?_remove_ne h

@[simp]
theorem remove_add_empty : (add ∅ m s : SortedSet α β).remove m = ∅ := by
  simp [add, remove, AList.ext_iff, AList.erase, AList.singleton, List.kerase_cons_eq]

theorem length_le_card {ms : List α} (hn : ms.Nodup) (h : ∀ m ∈ ms, (z.score? m).isSome) :
    ms.length ≤ z.card := by
  have hs : ms ⊆ z.keys := fun m hm => AList.lookup_isSome.mp (h m hm)
  simpa [card, AList.keys, List.keys] using (List.subperm_of_subset hn hs).length_le

theorem mem_entries_iff : ⟨m, s⟩ ∈ z.entries ↔ z.score? m = some s :=
  AList.mem_lookup_iff.symm

theorem card_congr {z' : SortedSet α β} (h : ∀ m, z'.score? m = z.score? m) : z'.card = z.card := by
  refine (List.lookup_ext z'.nodupKeys z.nodupKeys fun m s => ?_).length_eq
  exact iff_of_eq <| congrArg (s ∈ ·) (h m)

theorem card_remove_le : (z.remove m).card ≤ z.card :=
  (List.kerase_sublist m z.entries).length_le

-- A new member makes the set larger by one.
theorem card_add : (z.add m s).card = if (z.score? m).isSome then z.card else z.card + 1 := by
  have hk : (z.add m s).card = (z.keys.erase m).length + 1 := by
    rw [card, add, AList.entries_insert, List.length_cons, AList.keys, ← List.keys_kerase, List.keys, List.length_map]
  have hl : z.keys.length = z.card := List.length_map ..
  rw [hk, ← hl]
  split
  case isTrue h  =>
    have hm : m ∈ z.keys := AList.lookup_isSome.mp h
    have hp := List.length_pos_of_mem hm
    rw [List.length_erase_of_mem hm]
    omega
  case isFalse h => rw [List.erase_of_not_mem fun hm => h (AList.lookup_isSome.mpr hm)]

theorem kerase_filter {l : List ((_ : α) × β)} (hl : l.NodupKeys) (p : (_ : α) × β → Bool) :
    (l.kerase m).filter p = (l.filter p).kerase m := by
  induction l
  case nil          => rfl
  case cons x l hi =>
    have ⟨hx, hl⟩ := List.nodupKeys_cons.mp hl
    by_cases hm : m = x.1
    case pos =>
      have hn : m ∉ (l.filter p).keys := fun hk => hx (hm ▸ (List.filter_sublist.map _).subset hk)
      rw [List.kerase_cons_eq hm, List.filter_cons]
      split
      case isTrue  => rw [List.kerase_cons_eq hm]
      case isFalse => rw [List.kerase_of_notMem_keys hn]
    case neg =>
      rw [List.kerase_cons_ne hm, List.filter_cons, List.filter_cons, hi hl]
      split
      case isTrue  => rw [List.kerase_cons_ne hm]
      case isFalse => rfl

end

section

variable {α β : Type*} [LE α] [DecidableLE α] [LinearOrder β]

-- The members are ordered by their scores, and members with the same score by their own order.
def before (x y : (_ : α) × β) : Prop :=
  x.2 < y.2 ∨ (x.2 = y.2 ∧ x.1 ≤ y.1)

instance : DecidableRel (before (α := α) (β := β)) :=
  fun _ _ => inferInstanceAs (Decidable (_ ∨ _))

-- The members whose score is at most `max` in the order of the set, cut off after `limit` of them.
-- A negative limit does not cut anything off.
def rangeByScore (z : SortedSet α β) (max : β) (limit : Int) : List α :=
  let range := ((z.entries.filter (·.2 ≤ max)).insertionSort before).map (·.1)
  if limit < 0 then range else range.take limit.toNat

-- The first member of the set with its score.
def first? (z : SortedSet α β) : Option (α × β) :=
  (z.entries.insertionSort before).head?.map fun x => (x.1, x.2)

omit [LE α] [DecidableLE α] [LinearOrder β] in
theorem filter_nodupKeys (z : SortedSet α β) (p : (_ : α) × β → Bool) :
    (z.entries.filter p).NodupKeys :=
  z.nodupKeys.sublist List.filter_sublist

def removeRangeByScore (z : SortedSet α β) (max : β) : SortedSet α β where
  entries   := z.entries.filter (max < ·.2)
  nodupKeys := z.filter_nodupKeys _

variable {z : SortedSet α β} {m : α} {s s' : β} {limit : Int}

theorem head?_insertionSort {l : List ((_ : α) × β)} {x : (_ : α) × β}
    (h : (l.insertionSort before).head? = some x) : x ∈ l ∧ ∀ y ∈ l, x.2 ≤ y.2 := by
  induction l generalizing x
  case nil          => cases h
  case cons y l hi =>
    rw [List.insertionSort_cons] at h
    cases hl : l.insertionSort before
    case nil        =>
      have hn : l = [] := by simpa using (List.perm_insertionSort before l).symm.trans (.of_eq hl)
      rw [hl] at h
      cases h
      simp [hn]
    case cons z zs  =>
      have ⟨hz, hm⟩ := hi (congrArg List.head? hl)
      rw [hl, List.orderedInsert] at h
      split at h
      case isTrue hb  =>
        cases h
        have hle : y.2 ≤ z.2 := hb.elim le_of_lt fun hb => hb.left.le
        exact ⟨List.mem_cons_self, List.forall_mem_cons.mpr ⟨le_rfl, fun y hy => hle.trans (hm y hy)⟩⟩
      case isFalse hb =>
        cases h
        have hle : x.2 ≤ y.2 := not_lt.mp fun hl => hb (.inl hl)
        exact ⟨List.mem_cons_of_mem _ hz, List.forall_mem_cons.mpr ⟨hle, hm⟩⟩

theorem first?_eq_none : z.first? = none ↔ z.card = 0 := by
  rw [first?, card, Option.map_eq_none_iff, List.head?_eq_none_iff, ← List.length_eq_zero_iff,
    List.length_insertionSort]

theorem rangeByScore_nodup : (z.rangeByScore s limit).Nodup := by
  have hp := (List.perm_insertionSort before (z.entries.filter (·.2 ≤ s))).map (·.1)
  have hn := hp.nodup_iff.mpr <| z.filter_nodupKeys (·.2 ≤ s)
  unfold rangeByScore
  split
  · exact hn
  · exact hn.sublist (List.take_sublist ..)

variable [DecidableEq α]

theorem mem_rangeByScore (h : m ∈ z.rangeByScore s limit) : ∃ s', z.score? m = some s' ∧ s' ≤ s := by
  have hm : m ∈ ((z.entries.filter (·.2 ≤ s)).insertionSort before).map (·.1) := by
    unfold rangeByScore at h
    split at h
    · exact h
    · exact List.mem_of_mem_take h
  simp only [List.mem_map, List.mem_insertionSort, List.mem_filter, decide_eq_true_eq] at hm
  have ⟨⟨_, s'⟩, ⟨hz, hs⟩, he⟩ := hm
  subst he
  exact ⟨s', mem_entries_iff.mp hz, hs⟩

omit [LE α] [DecidableLE α] in
theorem score?_removeRangeByScore :
    (z.removeRangeByScore s).score? m = (z.score? m).filter (s < ·) := by
  ext b
  rw [← mem_entries_iff]
  simp [removeRangeByScore, mem_entries_iff, Option.filter_eq_some_iff]

-- The first member has the lowest score.
theorem first?_eq_some {x : α × β} (h : z.first? = some x) :
    z.score? x.1 = some x.2 ∧ ∀ m s, z.score? m = some s → x.2 ≤ s := by
  have ⟨y, hy, hx⟩ := Option.map_eq_some_iff.mp h
  have ⟨hm, hl⟩ := head?_insertionSort hy
  subst hx
  exact ⟨mem_entries_iff.mp hm, fun m s hs => hl ⟨m, s⟩ (mem_entries_iff.mpr hs)⟩

omit [LE α] [DecidableLE α] [DecidableEq α] in
theorem removeRangeByScore_of_le (h : s ≤ s') :
    (z.removeRangeByScore s).removeRangeByScore s' = z.removeRangeByScore s' := by
  refine AList.ext ?_
  simp only [removeRangeByScore, List.filter_filter]
  refine List.filter_congr fun x _ => ?_
  have hl : s' < x.2 → s < x.2 := h.trans_lt
  simpa using hl

omit [LE α] [DecidableLE α] in
theorem removeRangeByScore_remove : (z.remove m).removeRangeByScore s = (z.removeRangeByScore s).remove m :=
  AList.ext <| kerase_filter z.nodupKeys _

omit [LE α] [DecidableLE α] [DecidableEq α] in
theorem card_removeRangeByScore_le : (z.removeRangeByScore s).card ≤ z.card :=
  List.length_filter_le ..

omit [LE α] [DecidableLE α] in
theorem removeRangeByScore_eq_self (h : ∀ m s', z.score? m = some s' → s < s') : z.removeRangeByScore s = z := by
  refine AList.ext <| List.filter_eq_self.mpr fun x hx => ?_
  exact decide_eq_true (h x.1 x.2 (mem_entries_iff.mp hx))

omit [LE α] [DecidableLE α] in
theorem card_removeRangeByScore_lt (h : z.score? m = some s') (hs : s' ≤ s) :
    (z.removeRangeByScore s).card < z.card := by
  refine List.length_filter_lt_length_iff_exists.mpr ⟨⟨m, s'⟩, mem_entries_iff.mpr h, ?_⟩
  simpa using hs

end
end SortedSet
