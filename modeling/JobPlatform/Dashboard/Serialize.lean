import JobPlatform.Library.Coercion

namespace JobPlatform.Dashboard

open Script

def proto : Text :=
  text "__proto__"

-- An assignment to `__proto__` sets the prototype and does not add a member.
def assign (key : Text) (v : Value) (result : List (Text × Value)) : List (Text × Value) :=
  if key = proto then result else put key v result

-- The members are those of an object, with values that have been sorted.
def sortedMembers (members : List (Text × Value)) : List (Text × Value) :=
  (((own members).map (·.1)).insertionSort (· ≤ ·)).foldl (fun result key =>
    match get? key (own members) with
    | some v => assign key v result
    | none   => result) []

def sortValue : Value → Value :=
  transform sortedMembers

def stableSerialize (v : Value) : Text :=
  stringify (sortValue v)

def sameValue (left right : Value) : Bool :=
  stableSerialize left = stableSerialize right

-- A value without the members of the name `__proto__`
def strip : Value → Value :=
  transform fun members => members.filter (·.1 ≠ proto)

variable {ms : List (Text × Value)} {m : Text × Value} {u v : Value}

theorem get?_of_mem (hn : (ms.map (·.1)).Nodup) (hm : m ∈ ms) : get? m.1 ms = some m.2 := by
  induction ms
  case nil           => cases hm
  case cons m' ms hi =>
    have ⟨hm', hn⟩ := List.nodup_cons.mp hn
    obtain rfl | hm := List.mem_cons.mp hm
    · simp [get?]
    · have hne : m'.1 ≠ m.1 := fun he => hm' <| List.mem_map.mpr ⟨m, hm, he.symm⟩
      rw [← hi hn hm, get?, get?, List.find?_cons_of_neg (by simpa using hne)]

theorem foldl_assign {result : List (Text × Value)} (hn : ((result ++ ms).map (·.1)).Nodup) :
    ms.foldl (fun result m => assign m.1 m.2 result) result = result ++ ms.filter (·.1 ≠ proto) := by
  induction ms generalizing result
  case nil          => simp
  case cons m ms hi =>
    rw [List.foldl_cons, assign]
    split
    case isTrue hp  =>
      rw [hi, List.filter_cons_of_neg (by simpa using hp)]
      exact hn.sublist <| (List.sublist_append_right [m] ms).append_left result |>.map _
    case isFalse hp =>
      have hm : m.1 ∉ result.map (·.1) := by
        rw [List.map_append] at hn
        exact fun hm => (List.nodup_append.mp hn).2.2 m.1 hm m.1 List.mem_cons_self rfl
      rw [put_of_not_mem hm, hi, List.filter_cons_of_pos (by simpa using hp), List.append_assoc]
      · rfl
      · rwa [List.append_assoc]

theorem sortedMembers_eq (ms : List (Text × Value)) :
    sortedMembers ms = (sortMembers (own ms)).filter (·.1 ≠ proto) := by
  have hk : ((own ms).map (·.1)).insertionSort (· ≤ ·) = (sortMembers (own ms)).map (·.1) :=
    .symm <| List.map_insertionSort (fun m m' : Text × Value => m.1 ≤ m'.1) (· ≤ ·) (·.1) (own ms) fun _ _ _ _ => .rfl
  have hp : (sortMembers (own ms)).Perm (own ms) := sortMembers_perm
  have hn : ((sortMembers (own ms)).map (·.1)).Nodup := (hp.map _).nodup_iff.mpr own_nodup
  rw [sortedMembers, hk, List.foldl_map]
  have hf : (sortMembers (own ms)).foldl (fun result m => assign m.1 m.2 result) [] = _ := foldl_assign hn
  rw [← List.nil_append (List.filter _ _), ← hf]
  refine List.foldl_ext _ _ _ fun result m hm => ?_
  rw [get?_of_mem own_nodup (hp.subset hm)]

theorem sortedMembers_pairwise (ms : List (Text × Value)) : (sortedMembers ms).Pairwise fun m m' => m.1 < m'.1 := by
  rw [sortedMembers_eq]
  exact (sortMembers_pairwise own_nodup).filter _

theorem sortedMembers_subset (ms : List (Text × Value)) : sortedMembers ms ⊆ ms := by
  rw [sortedMembers_eq]
  exact fun m hm => own_subset <| sortMembers_perm.subset <| List.mem_of_mem_filter hm

theorem filter_mapValues (f : Value → Value) :
    (mapValues f ms).filter (·.1 ≠ proto) = mapValues f (ms.filter (·.1 ≠ proto)) :=
  List.filter_map

theorem sortValue_array (vs : List Value) : sortValue (.array vs) = .array (vs.map sortValue) :=
  transform_array _ _

theorem sortValue_object (ms : List (Text × Value)) :
    sortValue (.object ms) = .object (sortedMembers (mapValues sortValue ms)) :=
  transform_object _ _

theorem strip_object (ms : List (Text × Value)) :
    strip (.object ms) = .object ((mapValues strip ms).filter (·.1 ≠ proto)) :=
  transform_object _ _

-- The code sorts the members of objects, and loses those of the name `__proto__`.
theorem sortValue_eq (v : Value) : sortValue v = strip (normal v) := by
  induction v using Value.induction
  case array items hi    =>
    simp only [sortValue, strip, normal, transform_array, List.map_map, Value.array.injEq]
    exact List.map_congr_left hi
  case object members hi =>
    have hm : mapValues sortValue members = mapValues strip (mapValues normal members) := by
      rw [mapValues_mapValues]
      exact mapValues_congr hi
    rw [sortValue_object, normal_object, strip_object, sortedMembers_eq, hm, own_mapValues, sortMembers_mapValues]
  all_goals rfl

theorem normal_filter (ms : List (Text × Value)) : normal (.object (ms.filter (·.1 ≠ proto))) =
    .object ((sortMembers (own (mapValues normal ms))).filter (·.1 ≠ proto)) := by
  have ho : own ((mapValues normal ms).filter (·.1 ≠ proto)) = (own (mapValues normal ms)).filter (·.1 ≠ proto) :=
    own_filter fun key => key ≠ proto
  rw [normal_object, ← filter_mapValues, ho]
  exact congrArg Value.object <| sortMembers_filter (fun key => key ≠ proto) own_nodup

-- Members may be left out before the others are sorted.
theorem normal_strip (v : Value) : normal (strip v) = strip (normal v) := by
  induction v using Value.induction
  case array items hi    =>
    simp only [strip, normal, transform_array, List.map_map, Value.array.injEq]
    exact List.map_congr_left hi
  case object members hi =>
    have hm : mapValues normal (mapValues strip members) = mapValues strip (mapValues normal members) := by
      rw [mapValues_mapValues, mapValues_mapValues]
      exact mapValues_congr hi
    rw [strip_object, normal_filter, normal_object, strip_object, hm, own_mapValues, sortMembers_mapValues]
  all_goals rfl

theorem stableSerialize_eq_iff : stableSerialize u = stableSerialize v ↔ strip (normal u) = strip (normal v) := by
  rw [← sortValue_eq, ← sortValue_eq]
  exact stringify_inj sortedMembers_pairwise sortedMembers_subset

theorem sameValue_iff : sameValue u v ↔ strip (normal u) = strip (normal v) := by
  rw [sameValue, decide_eq_true_iff, stableSerialize_eq_iff]

theorem sameValue_of_same (h : Same u v) : sameValue u v :=
  sameValue_iff.mpr (congrArg strip h)

section

variable {o : Option Value} {key : Text} {name : String}

theorem get?_eq_some_iff (hn : (ms.map (·.1)).Nodup) : get? key ms = some v ↔ (key, v) ∈ ms := by
  constructor
  case mp  =>
    intro h
    obtain ⟨m, hm, rfl⟩ := Option.map_eq_some_iff.mp h
    have hk : m.1 = key := by simpa using List.find?_some hm
    exact hk ▸ List.mem_of_find?_eq_some hm
  case mpr => exact get?_of_mem hn

theorem get?_mapValues (f : Value → Value) : get? key (mapValues f ms) = (get? key ms).map f := by
  rw [get?, get?, mapValues, List.find?_map, Option.map_map, Option.map_map]
  rfl

theorem get?_sortedMembers (h : key ≠ proto) : get? key (own (sortedMembers ms)) = get? key (own ms) := by
  have hn : ((sortedMembers ms).map (·.1)).Nodup := nodup_of_pairwise (sortedMembers_pairwise ms)
  rw [own_of_nodup hn]
  ext v
  rw [get?_eq_some_iff hn, get?_eq_some_iff own_nodup, sortedMembers_eq, List.mem_filter, sortMembers_perm.mem_iff]
  simp [h]

-- What is read from a value does not change when its members are sorted.
theorem member_sortValue (h : text name ≠ proto) : member name (sortValue v) = (member name v).map sortValue := by
  cases v
  case object ms =>
    rw [sortValue_object, member, get?_sortedMembers h, own_mapValues, get?_mapValues]
    rfl
  all_goals rfl

theorem truthy_sortValue : truthy (o.map sortValue) = truthy o := by
  cases o
  case none   => rfl
  case some v => cases v <;> rfl

theorem mem_sortedMembers_keys (h : key ≠ proto) : key ∈ (sortedMembers ms).map (·.1) ↔ key ∈ ms.map (·.1) := by
  have hk : key ∈ (own ms).map (·.1) ↔ key ∈ ms.map (·.1) := mem_own_keys
  have hs : key ∈ (sortMembers (own ms)).map (·.1) ↔ key ∈ (own ms).map (·.1) := (sortMembers_perm.map _).mem_iff
  rw [← hk, ← hs, sortedMembers_eq]
  simp only [List.mem_map, List.mem_filter, decide_eq_true_iff]
  constructor
  case mp  => exact fun ⟨m, hm, he⟩ => ⟨m, hm.left, he⟩
  case mpr => exact fun ⟨m, hm, he⟩ => ⟨m, ⟨hm, he ▸ h⟩, he⟩

theorem toText_sortValue (v : Value) : toText (sortValue v) = toText v := by
  induction v using Value.induction
  case array vs hi       =>
    have ht : toTexts (vs.map sortValue) = toTexts vs := by
      induction vs
      case nil           => rfl
      case cons v vs hi' =>
        have ⟨hv, hvs⟩ := List.forall_mem_cons.mp hi
        have hn : (sortValue v).isNull = v.isNull := by cases v <;> rfl
        rw [List.map_cons, toTexts, toTexts, hv, hn, hi' hvs]
    rw [sortValue_array, toText, ht, toText]
  case object members hi =>
    rw [sortValue_object, toText, toText]
    simp only [mem_sortedMembers_keys (by decide : text "toString" ≠ proto), mapValues_keys]
  case bool b            => cases b <;> rfl
  all_goals rfl

theorem convertible_sortValue : convertible (sortValue v) = convertible v := by
  rw [Bool.eq_iff_iff, ← returns_toText, ← returns_toText, toText_sortValue]

theorem toPrimitive_sortValue : toPrimitive (o.map sortValue) = toPrimitive o := by
  cases o
  case none   => rfl
  case some v =>
    cases v
    case array vs  => exact congrArg (· >>= fun s => pure (some (Primitive.string s))) (toText_sortValue (.array vs))
    case object ms => exact congrArg (· >>= fun s => pure (some (Primitive.string s))) (toText_sortValue (.object ms))
    all_goals rfl

end

end JobPlatform.Dashboard
