import JobPlatform.Library.Script

-- How JavaScript reads and converts the values that JSON has a text for, and what it throws.
namespace Script

inductive Exception
  | error (message : String)
  | typeError
  | rangeError

abbrev Completion := Except Exception

def Returns {α : Type} (x : Completion α) : Prop :=
  ∃ a, x = .ok a

section

variable {α β : Type} {x : Completion α} {f : α → Completion β} {l : List α} {a : α} {b : β} {e : Exception}

@[simp]
theorem returns_ok : Returns (.ok a : Completion α) :=
  ⟨a, rfl⟩

@[simp]
theorem returns_pure : Returns (pure a : Completion α) :=
  ⟨a, rfl⟩

@[simp]
theorem not_returns_error : ¬Returns (.error e : Completion α) :=
  nofun

theorem bind_eq_ok : x >>= f = .ok b ↔ ∃ a, x = .ok a ∧ f a = .ok b := by
  cases x
  case error e => exact ⟨nofun, fun ⟨_, h, _⟩ => nomatch h⟩
  case ok a    => exact ⟨fun h => ⟨a, rfl, h⟩, fun ⟨_, ha, h⟩ => Except.ok.inj ha ▸ h⟩

theorem returns_bind : Returns (x >>= f) ↔ ∃ a, x = .ok a ∧ Returns (f a) := by
  cases x
  case error e => exact ⟨nofun, fun ⟨_, h, _⟩ => nomatch h⟩
  case ok a    => exact ⟨fun h => ⟨a, rfl, h⟩, fun ⟨_, ha, h⟩ => Except.ok.inj ha ▸ h⟩

-- If what follows does not depend on a result, then both parts have to return.
theorem returns_bind_iff {p : Prop} (h : ∀ a, x = .ok a → (Returns (f a) ↔ p)) :
    Returns (x >>= f) ↔ Returns x ∧ p := by
  rw [returns_bind]
  constructor
  case mp  => exact fun ⟨a, ha, hf⟩ => ⟨⟨a, ha⟩, (h a ha).mp hf⟩
  case mpr => exact fun ⟨⟨a, ha⟩, hp⟩ => ⟨a, ha, (h a ha).mpr hp⟩

theorem returns_bind_of_forall (h : ∀ a, Returns (f a)) : Returns (x >>= f) ↔ Returns x :=
  (returns_bind_iff fun a _ => iff_true_intro (h a)).trans <| and_iff_left trivial

theorem returns_bind_const {y : Completion β} : Returns (x >>= fun _ => y) ↔ Returns x ∧ Returns y :=
  returns_bind_iff fun _ _ => .rfl

theorem mapM_cons_eq_ok {bs : List β} : (a :: l).mapM f = .ok bs ↔
    ∃ b, f a = .ok b ∧ ∃ bs', l.mapM f = .ok bs' ∧ bs = b :: bs' := by
  simp only [List.mapM_cons, bind_eq_ok]
  constructor
  case mp  => exact fun ⟨b, hb, bs', hl, h⟩ => ⟨b, hb, bs', hl, (Except.ok.inj h).symm⟩
  case mpr => exact fun ⟨b, hb, bs', hl, h⟩ => ⟨b, hb, bs', hl, h ▸ rfl⟩

theorem returns_mapM : Returns (l.mapM f) ↔ ∀ a ∈ l, Returns (f a) := by
  induction l
  case nil         => simp
  case cons a l hi =>
    rw [List.forall_mem_cons, ← hi, List.mapM_cons]
    exact returns_bind_iff fun b _ => returns_bind_of_forall fun bs => returns_pure

end

def Value.isNull : Value → Bool
  | .null => true
  | _     => false

-- What is read from a value that is not an object is undefined, and so is what an object does not have.
def member (name : String) : Value → Option Value
  | .object members => get? (text name) (own members)
  | _               => none

-- Nothing can be read from undefined or null.
def readMember (name : String) : Option Value → Completion (Option Value)
  | none       => .error .typeError
  | some .null => .error .typeError
  | some v     => .ok (member name v)

def truthy : Option Value → Bool
  | none             => false
  | some .null       => false
  | some (.bool b)   => b
  | some (.number n) => n.units ≠ text "0"
  | some (.string s) => s ≠ []
  | some (.array _)  => true
  | some (.object _) => true

-- The methods of an array
def elements : Option Value → Completion (List Value)
  | some (.array vs) => .ok vs
  | _                => .error .typeError

-- The characters of a string
def characters : Text → List Text
  | []          => []
  | [u]         => [[u]]
  | u :: v :: s => if pairs u v then [u, v] :: characters s else [u] :: characters (v :: s)

-- What can be iterated over
def spread : Option Value → Completion (List Value)
  | some (.array vs) => .ok vs
  | some (.string s) => .ok <| (characters s).map .string
  | _                => .error .typeError

inductive Primitive
  | null
  | bool (b : Bool)
  | number (n : Numeral)
  | string (s : Text)

mutual

-- An object whose `toString` is replaced by something else than a function has no text.
def toText : Value → Completion Text
  | .null           => return text "null"
  | .bool true      => return text "true"
  | .bool false     => return text "false"
  | .number n       => return n.units
  | .string s       => return s
  | .array vs       => return [unit ','].intercalate (← toTexts vs)
  | .object members => if text "toString" ∈ members.map (·.1) then throw .typeError else return text "[object Object]"

-- The items of an array, where nothing is written for null
def toTexts : List Value → Completion (List Text)
  | []      => return []
  | v :: vs => do
    let s ← toText v
    return (if v.isNull then [] else s) :: (← toTexts vs)

end

mutual

def convertible : Value → Bool
  | .array vs       => allConvertible vs
  | .object members => text "toString" ∉ members.map (·.1)
  | _               => true

def allConvertible : List Value → Bool
  | []      => true
  | v :: vs => convertible v && allConvertible vs

end

def toPrimitive : Option Value → Completion (Option Primitive)
  | none             => return none
  | some .null       => return some .null
  | some (.bool b)   => return some (.bool b)
  | some (.number n) => return some (.number n)
  | some (.string s) => return some (.string s)
  | some v           => return some (.string (← toText v))

-- What a template puts in its place
def toString : Option Value → Completion Text
  | none   => return text "undefined"
  | some v => toText v

-- What the language leaves to the implementation: the time that a primitive value stands for, the sign of the
-- difference of two values, and the order in which a list is put by comparisons that may contradict each other.
structure Engine where
  time       : Primitive → Option Int
  difference : Option Primitive → Option Primitive → Ordering
  sort       : {α : Type} → (α → α → Ordering) → List α → List α
  sort_perm  : ∀ {α : Type} (compare : α → α → Ordering) (l : List α), (sort compare l).Perm l

def maxTime : Int :=
  8640000000000000

def timeClip (t : Int) : Option Int :=
  if t.natAbs ≤ maxTime then some t else none

-- The time of a date, if it is valid
def getTime (engine : Engine) (v : Option Value) : Completion (Option Int) :=
  return (← toPrimitive v).bind fun p => (engine.time p).bind timeClip

def toISOString : Option Int → Completion Int
  | some t => return t
  | none   => throw .rangeError

-- The difference of two times, which is 0 if one of them is invalid
def compareTimes : Option Int → Option Int → Ordering
  | some t, some t' => compare t t'
  | _,      _       => .eq

-- A list of fewer than two items is not compared, and in a longer one each item is.
def sortOn {α κ : Type} (engine : Engine) (key : α → Completion κ) (compare : κ → κ → Ordering) (items : List α) :
    Completion (List α) :=
  if items.length < 2 then
    return items
  else do
    let keyed ← items.mapM fun item => return (item, ← key item)
    return (engine.sort (fun left right => compare left.2 right.2) keyed).map (·.1)

section

variable {v : Value} {vs : List Value} {o : Option Value} {name : String} {engine : Engine}

theorem allConvertible_iff : allConvertible vs ↔ ∀ v ∈ vs, convertible v := by
  induction vs
  case nil          => exact iff_of_true rfl nofun
  case cons v vs hi => rw [allConvertible, Bool.and_eq_true, hi, List.forall_mem_cons]

theorem returns_toTexts : Returns (toTexts vs) ↔ ∀ v ∈ vs, Returns (toText v) := by
  induction vs
  case nil          => exact iff_of_true returns_pure nofun
  case cons v vs hi =>
    rw [toTexts, List.forall_mem_cons, ← hi]
    exact returns_bind_iff fun _ _ => returns_bind_of_forall fun _ => returns_pure

theorem returns_toText : Returns (toText v) ↔ convertible v := by
  induction v using Value.induction
  case bool b            => cases b <;> exact iff_of_true returns_pure rfl
  case array vs hi       =>
    have ht : Returns (toText (.array vs)) ↔ Returns (toTexts vs) :=
      returns_bind_of_forall fun _ => returns_pure
    rw [ht, returns_toTexts, convertible, allConvertible_iff]
    exact forall₂_congr hi
  case object members hi =>
    rw [toText, convertible, decide_eq_true_iff]
    split
    case isTrue h  => exact iff_of_false not_returns_error (not_not.mpr h)
    case isFalse h => exact iff_of_true returns_pure h
  all_goals exact iff_of_true returns_pure rfl

theorem returns_toString : Returns (toString o) ↔ o.all convertible := by
  cases o
  case none   => exact iff_of_true returns_pure rfl
  case some v => exact returns_toText

theorem returns_toPrimitive : Returns (toPrimitive o) ↔ o.all convertible := by
  cases o
  case none   => exact iff_of_true returns_pure rfl
  case some v =>
    have hb (v : Value) : Returns (do return some (Primitive.string (← toText v))) ↔ convertible v := by
      rw [← returns_toText]
      exact returns_bind_of_forall fun _ => returns_pure
    cases v
    case array vs  => exact hb _
    case object ms => exact hb _
    all_goals exact iff_of_true returns_pure rfl

theorem returns_getTime : Returns (getTime engine o) ↔ o.all convertible := by
  rw [← returns_toPrimitive]
  exact returns_bind_of_forall fun _ => returns_pure

theorem elements_eq_ok : elements o = .ok vs ↔ o = some (.array vs) := by
  unfold elements
  split
  case h_1 => simp
  case h_2 h =>
    refine iff_of_false nofun ?_
    rintro rfl
    exact h vs rfl

theorem readMember_of_ne_null (h : v ≠ .null) : readMember name (some v) = .ok (member name v) := by
  cases v
  case null => contradiction
  all_goals rfl

theorem returns_readMember : Returns (readMember name o) ↔ o ≠ none ∧ o ≠ some .null := by
  cases o
  case none   => exact iff_of_false not_returns_error (·.left rfl)
  case some v =>
    cases v
    case null => exact iff_of_false not_returns_error (·.right rfl)
    all_goals exact iff_of_true returns_ok ⟨nofun, nofun⟩

end

section

variable {α κ : Type} {engine : Engine} {key : α → Completion κ} {compare : κ → κ → Ordering} {items sorted : List α}

theorem mapM_pairs {keyed : List (α × κ)} (h : items.mapM (fun item => return (item, ← key item)) = .ok keyed) :
    keyed.map (·.1) = items := by
  induction items generalizing keyed
  case nil               => cases h; rfl
  case cons item items hi =>
    obtain ⟨p, hp, keyed, hk, rfl⟩ := mapM_cons_eq_ok.mp h
    obtain ⟨k, _, hk'⟩ := bind_eq_ok.mp hp
    cases hk'
    rw [List.map_cons, hi hk]

theorem sortOn_perm (h : sortOn engine key compare items = .ok sorted) : sorted.Perm items := by
  unfold sortOn at h
  split at h
  case isTrue  => cases h; rfl
  case isFalse =>
    obtain ⟨keyed, hk, hs⟩ := bind_eq_ok.mp h
    cases hs
    rw [← mapM_pairs hk]
    exact (engine.sort_perm _ _).map _

theorem returns_sortOn : Returns (sortOn engine key compare items) ↔
    (2 ≤ items.length → ∀ item ∈ items, Returns (key item)) := by
  unfold sortOn
  split
  case isTrue h  => exact iff_of_true returns_pure fun h' => absurd h h'.not_gt
  case isFalse h =>
    rw [returns_bind_of_forall fun _ => returns_pure, returns_mapM]
    exact ⟨fun hr _ item hi => (returns_bind_of_forall fun _ => returns_pure).mp (hr item hi),
      fun hr item hi => (returns_bind_of_forall fun _ => returns_pure).mpr <| hr (not_lt.mp h) item hi⟩

end

end Script
