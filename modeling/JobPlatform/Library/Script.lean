import Mathlib.Data.List.Lex
import Mathlib.Data.List.Nodup
import Mathlib.Data.List.Sort

-- The values of JavaScript that JSON has a text for, and how they are written.
namespace Script

abbrev CodeUnit := Fin 65536

abbrev Text := List CodeUnit

instance (s : Text) (names : List Text) : Decidable (s ∈ names) :=
  inferInstance

def unit (c : Char) : CodeUnit :=
  Fin.ofNat 65536 c.toNat

def text (s : String) : Text :=
  s.toList.map unit

def numeralUnits : Text :=
  text "0123456789+-.e"

-- A number is given by the text that the language has for it, and for no other number.
structure Numeral where
  units  : Text
  ne_nil : units ≠ []
  mem    : ∀ u ∈ units, u ∈ numeralUnits
  deriving DecidableEq

-- If an object has members of the same name, then the last one counts.
inductive Value
  | null
  | bool (b : Bool)
  | number (n : Numeral)
  | string (s : Text)
  | array (items : List Value)
  | object (members : List (Text × Value))

def isLead (u : CodeUnit) : Bool :=
  0xd800 ≤ u.val && u.val < 0xdc00

def isTrail (u : CodeUnit) : Bool :=
  0xdc00 ≤ u.val && u.val < 0xe000

-- Two code units that stand for one character
def pairs (u v : CodeUnit) : Bool :=
  isLead u && isTrail v

def hexDigits : Text :=
  text "0123456789abcdef"

def hexDigit (n : Nat) : CodeUnit :=
  hexDigits.getD n 0

def unicode (u : CodeUnit) : Text :=
  [unit '\\', unit 'u', hexDigit (u.val / 4096), hexDigit (u.val / 256 % 16), hexDigit (u.val / 16 % 16),
    hexDigit (u.val % 16)]

-- The code units that have an escape of their own, and the letters of these escapes
def escapes : List (CodeUnit × CodeUnit) :=
  [(8, unit 'b'), (9, unit 't'), (10, unit 'n'), (12, unit 'f'), (13, unit 'r'), (34, 34), (92, 92)]

def escape (paired : Bool) (u : CodeUnit) : Text :=
  match escapes.lookup u with
  | some letter => [unit '\\', letter]
  | none        => if u.val < 32 ∨ (isLead u ∨ isTrail u) ∧ ¬paired then unicode u else [u]

-- A surrogate is escaped unless it is one of a pair.
def escaped : Option CodeUnit → Text → Text
  | _,        []        => []
  | previous, u :: rest =>
    escape (previous.any (pairs · u) || rest.head?.any (pairs u)) u ++ escaped (some u) rest

def quote (s : Text) : Text :=
  unit '"' :: escaped none s ++ [unit '"']

mutual

def write : Value → Text
  | .null               => text "null"
  | .bool true          => text "true"
  | .bool false         => text "false"
  | .number n           => n.units
  | .string s           => quote s
  | .array []           => text "[]"
  | .array (v :: vs)    => unit '[' :: write v ++ writeItems vs
  | .object []          => text "\x7b\x7d"
  | .object (m :: ms)   => unit '\x7b' :: quote m.1 ++ unit ':' :: write m.2 ++ writeMembers ms

def writeItems : List Value → Text
  | []      => [unit ']']
  | v :: vs => unit ',' :: write v ++ writeItems vs

def writeMembers : List (Text × Value) → Text
  | []      => [unit '\x7d']
  | m :: ms => unit ',' :: quote m.1 ++ unit ':' :: write m.2 ++ writeMembers ms

end

-- An induction over values, whose parts are items of an array or members of an object
theorem Value.induction {p : Value → Prop} (null : p .null) (bool : ∀ b, p (.bool b)) (number : ∀ n, p (.number n))
    (string : ∀ s, p (.string s)) (array : ∀ items, (∀ v ∈ items, p v) → p (.array items))
    (object : ∀ members, (∀ m ∈ members, p m.2) → p (.object members)) (v : Value) : p v :=
  @Value.rec p (fun items => ∀ v ∈ items, p v) (fun members => ∀ m ∈ members, p m.2) (fun m => p m.2)
    null bool number string array object nofun
    (fun _ _ hv hvs => List.forall_mem_cons.mpr ⟨hv, hvs⟩) nofun
    (fun _ _ hm hms => List.forall_mem_cons.mpr ⟨hm, hms⟩) (fun _ _ h => h) v

section

variable {u v : CodeUnit} {s s' rest rest' : Text} {n : Nat} {paired : Bool}

def hexValue (u : CodeUnit) : Nat :=
  hexDigits.idxOf u

-- The code unit that comes first in a text with escapes
def unescape : Text → Option (CodeUnit × Text)
  | []        => none
  | u :: rest =>
    if u ≠ unit '\\' then some (u, rest)
    else
      match rest with
      | v :: rest =>
        if v ≠ unit 'u' then (escapes.find? (·.2 = v)).map fun e => (e.1, rest)
        else
          match rest with
          | a :: b :: c :: d :: rest =>
            some (Fin.ofNat 65536 (((hexValue a * 16 + hexValue b) * 16 + hexValue c) * 16 + hexValue d), rest)
          | _                        => none
      | []        => none

theorem hexValue_hexDigit : ∀ n < 16, hexValue (hexDigit n) = n := by
  decide

theorem unescape_unicode : unescape (unicode u ++ rest) = some (u, rest) := by
  have h₁ := hexValue_hexDigit (u.val / 4096) (by omega)
  have h₂ := hexValue_hexDigit (u.val / 256 % 16) (by omega)
  have h₃ := hexValue_hexDigit (u.val / 16 % 16) (by omega)
  have h₄ := hexValue_hexDigit (u.val % 16) (by omega)
  have hu : ((u.val / 4096 * 16 + u.val / 256 % 16) * 16 + u.val / 16 % 16) * 16 + u.val % 16 = u.val := by
    omega
  simp only [unicode, List.cons_append, List.nil_append, unescape, h₁, h₂, h₃, h₄, hu]
  simp

theorem find?_escapes (e : CodeUnit × CodeUnit) (h : e ∈ escapes) :
    escapes.find? (·.2 = e.2) = some e ∧ e.2 ≠ unit 'u' := by
  have ha : escapes.all (fun e => escapes.find? (·.2 = e.2) = some e ∧ e.2 ≠ unit 'u') = true := by decide
  simpa using List.all_eq_true.mp ha e h

theorem unescape_escape : unescape (escape paired u ++ rest) = some (u, rest) := by
  unfold escape
  split
  case h_1 letter h =>
    obtain ⟨l₁, l₂, he, _⟩ := List.lookup_eq_some_iff.mp h
    have ⟨hf, hu⟩ := find?_escapes (u, letter) (by simp [he])
    simp [unescape, hu, hf]
  case h_2 h        =>
    split
    case isTrue  => exact unescape_unicode
    case isFalse =>
      have hu : u ≠ unit '\\' := by
        rintro rfl
        cases h
      simp [unescape, hu]

theorem head?_escape (paired : Bool) (u : CodeUnit) : ∃ v t, escape paired u = v :: t ∧ v ≠ unit '"' := by
  unfold escape
  split
  case h_1   => exact ⟨_, _, rfl, by decide⟩
  case h_2 h =>
    split
    case isTrue  => exact ⟨_, _, rfl, by decide⟩
    case isFalse =>
      refine ⟨u, [], rfl, ?_⟩
      rintro rfl
      cases h

theorem escaped_cons (previous : Option CodeUnit) : ∃ v t, escaped previous (u :: s) = v :: t ∧ v ≠ unit '"' := by
  obtain ⟨v, t, he, hv⟩ := head?_escape (previous.any (pairs · u) || s.head?.any (pairs u)) u
  exact ⟨v, t ++ escaped (some u) s, by rw [escaped, he, List.cons_append], hv⟩

-- The closing quote is not one of the characters, so a string is determined by the beginning of a text.
theorem escaped_inj {previous previous' : Option CodeUnit}
    (h : escaped previous s ++ unit '"' :: rest = escaped previous' s' ++ unit '"' :: rest') :
    s = s' ∧ rest = rest' := by
  induction s generalizing previous previous' s'
  case nil         =>
    cases s'
    case nil        => exact ⟨rfl, (List.cons.inj h).right⟩
    case cons u' s' =>
      obtain ⟨v, t, he, hv⟩ := escaped_cons previous'
      rw [he] at h
      exact absurd (List.cons.inj h).left.symm hv
  case cons u s hi =>
    cases s'
    case nil        =>
      obtain ⟨v, t, he, hv⟩ := escaped_cons previous
      rw [he] at h
      exact absurd (List.cons.inj h).left hv
    case cons u' s' =>
      simp only [escaped, List.append_assoc] at h
      have he := congrArg unescape h
      rw [unescape_escape, unescape_escape] at he
      obtain ⟨rfl, ht⟩ := Prod.mk.inj (Option.some.inj he)
      obtain ⟨rfl, hr⟩ := hi ht
      exact ⟨rfl, hr⟩

theorem quote_inj (h : quote s ++ rest = quote s' ++ rest') : s = s' ∧ rest = rest' := by
  simp only [quote, List.cons_append, List.append_assoc] at h
  exact escaped_inj (List.cons.inj h).right

-- What may follow a value
def Ends (rest : Text) : Prop :=
  ∀ u ∈ rest.head?, u = unit ',' ∨ u = unit ']' ∨ u = unit '\x7d'

theorem Ends.cons (h : u = unit ',' ∨ u = unit ']' ∨ u = unit '\x7d') : Ends (u :: rest) := by
  intro u' hu
  cases hu
  exact h

theorem takeWhile_numeral {m : Numeral} (h : Ends rest) : (m.units ++ rest).takeWhile (· ∈ numeralUnits) = m.units := by
  have hr : rest.takeWhile (· ∈ numeralUnits) = [] := by
    cases rest
    case nil         => rfl
    case cons u rest =>
      have hu : u ∉ numeralUnits := by
        obtain rfl | rfl | rfl := h u rfl <;> decide
      exact List.takeWhile_cons_of_neg (by simpa using hu)
  rw [List.takeWhile_append_of_pos (by simpa using m.mem), hr, List.append_nil]

theorem numeral_inj {m m' : Numeral} (hr : Ends rest) (hr' : Ends rest') (h : m.units ++ rest = m'.units ++ rest') :
    m = m' ∧ rest = rest' := by
  have hu : m.units = m'.units := by rw [← takeWhile_numeral hr, h, takeWhile_numeral hr']
  refine ⟨?_, List.append_cancel_left (hu ▸ h)⟩
  cases m
  cases m'
  cases hu
  rfl

-- The kinds of values are told apart by the first code unit of their texts.
def kind : Value → Nat
  | .null       => 0
  | .bool true  => 1
  | .bool false => 2
  | .string _   => 3
  | .array _    => 4
  | .object _   => 5
  | .number _   => 7

def kindOf (u : CodeUnit) : Nat :=
  (text "ntf\"[\x7b]").idxOf u

theorem kindOf_numeral (h : u ∈ numeralUnits) : kindOf u = 7 := by
  have ha : numeralUnits.all (kindOf · = 7) := by decide
  simpa using List.all_eq_true.mp ha u h

theorem write_cons (v : Value) : ∃ u t, write v = u :: t ∧ kindOf u = kind v := by
  cases v
  case null           => exact ⟨_, _, rfl, by decide⟩
  case bool b         => cases b <;> exact ⟨_, _, rfl, by decide⟩
  case string s       => exact ⟨unit '"', _, rfl, (by decide : kindOf (unit '"') = 3)⟩
  case array items    => cases items <;> exact ⟨unit '[', _, rfl, (by decide : kindOf (unit '[') = 4)⟩
  case object members => cases members <;> exact ⟨unit '\x7b', _, rfl, (by decide : kindOf (unit '\x7b') = 5)⟩
  case number n       =>
    obtain ⟨u, t, hu⟩ := List.exists_cons_of_ne_nil n.ne_nil
    exact ⟨u, t, hu, kindOf_numeral <| n.mem u (hu ▸ List.mem_cons_self)⟩

theorem kind_eq {v w : Value} (h : write v ++ rest = write w ++ rest') : kind v = kind w := by
  obtain ⟨u, t, hu, hk⟩ := write_cons v
  obtain ⟨u', t', hu', hk'⟩ := write_cons w
  rw [hu, hu'] at h
  rw [← hk, ← hk', (List.cons.inj h).left]

-- A value is determined by the beginning of a text.
def Writes (v : Value) : Prop :=
  ∀ w rest rest', Ends rest → Ends rest' → write v ++ rest = write w ++ rest' → v = w ∧ rest = rest'

theorem ends_writeItems (vs : List Value) : Ends (writeItems vs ++ rest) := by
  cases vs
  case nil  => exact .cons (.inr <| .inl rfl)
  case cons => exact .cons (.inl rfl)

theorem ends_writeMembers (ms : List (Text × Value)) : Ends (writeMembers ms ++ rest) := by
  cases ms
  case nil  => exact .cons (.inr <| .inr rfl)
  case cons => exact .cons (.inl rfl)

theorem writeItems_inj {vs ws : List Value} (hv : ∀ v ∈ vs, Writes v)
    (h : writeItems vs ++ rest = writeItems ws ++ rest') : vs = ws ∧ rest = rest' := by
  induction vs generalizing ws
  case nil          =>
    cases ws
    case nil  => exact ⟨rfl, (List.cons.inj h).right⟩
    case cons => exact absurd (List.cons.inj h).left (by decide)
  case cons v vs hi =>
    cases ws
    case nil       => exact absurd (List.cons.inj h).left (by decide)
    case cons w ws =>
      have ⟨hv, hvs⟩ := List.forall_mem_cons.mp hv
      simp only [writeItems, List.cons_append, List.append_assoc] at h
      obtain ⟨rfl, ht⟩ := hv w _ _ (ends_writeItems vs) (ends_writeItems ws) (List.cons.inj h).right
      obtain ⟨rfl, hr⟩ := hi hvs ht
      exact ⟨rfl, hr⟩

theorem member_inj {m m' : Text × Value} (hm : Writes m.2) (hr : Ends rest) (hr' : Ends rest')
    (h : quote m.1 ++ unit ':' :: (write m.2 ++ rest) = quote m'.1 ++ unit ':' :: (write m'.2 ++ rest')) :
    m = m' ∧ rest = rest' := by
  obtain ⟨hk, ht⟩ := quote_inj h
  obtain ⟨hv, hr⟩ := hm m'.2 _ _ hr hr' (List.cons.inj ht).right
  exact ⟨Prod.ext hk hv, hr⟩

theorem writeMembers_inj {ms ms' : List (Text × Value)} (hm : ∀ m ∈ ms, Writes m.2)
    (h : writeMembers ms ++ rest = writeMembers ms' ++ rest') : ms = ms' ∧ rest = rest' := by
  induction ms generalizing ms'
  case nil          =>
    cases ms'
    case nil  => exact ⟨rfl, (List.cons.inj h).right⟩
    case cons => exact absurd (List.cons.inj h).left (by decide)
  case cons m ms hi =>
    cases ms'
    case nil         => exact absurd (List.cons.inj h).left (by decide)
    case cons m' ms' =>
      have ⟨hm, hms⟩ := List.forall_mem_cons.mp hm
      simp only [writeMembers, List.cons_append, List.append_assoc] at h
      obtain ⟨rfl, ht⟩ := member_inj hm (ends_writeMembers ms) (ends_writeMembers ms') (List.cons.inj h).right
      obtain ⟨rfl, hr⟩ := hi hms ht
      exact ⟨rfl, hr⟩

-- What begins an item does not end an array.
theorem write_ne (v : Value) : write v ++ rest ≠ unit ']' :: rest' := by
  obtain ⟨u, t, hu, hk⟩ := write_cons v
  rw [hu]
  rintro h
  rw [(List.cons.inj h).left] at hk
  have h₆ : kindOf (unit ']') = 6 := by decide
  rw [h₆] at hk
  cases v
  case bool b => cases b <;> cases hk
  all_goals cases hk

theorem write_array_inj {vs ws : List Value} (hv : ∀ v ∈ vs, Writes v)
    (h : write (.array vs) ++ rest = write (.array ws) ++ rest') : vs = ws ∧ rest = rest' := by
  cases vs
  case nil       =>
    cases ws
    case nil       => exact ⟨rfl, List.append_cancel_left h⟩
    case cons w ws =>
      rw [write, write, List.cons_append, List.cons_append, List.append_assoc] at h
      exact absurd (List.cons.inj h).right.symm (write_ne w)
  case cons v vs =>
    cases ws
    case nil       =>
      rw [write, write, List.cons_append, List.cons_append, List.append_assoc] at h
      exact absurd (List.cons.inj h).right (write_ne v)
    case cons w ws =>
      have ⟨hv, hvs⟩ := List.forall_mem_cons.mp hv
      simp only [write, List.cons_append, List.append_assoc] at h
      obtain ⟨rfl, ht⟩ := hv w _ _ (ends_writeItems vs) (ends_writeItems ws) (List.cons.inj h).right
      obtain ⟨rfl, hr⟩ := writeItems_inj hvs ht
      exact ⟨rfl, hr⟩

theorem write_object_inj {ms ms' : List (Text × Value)} (hm : ∀ m ∈ ms, Writes m.2)
    (h : write (.object ms) ++ rest = write (.object ms') ++ rest') : ms = ms' ∧ rest = rest' := by
  cases ms
  case nil       =>
    cases ms'
    case nil         => exact ⟨rfl, List.append_cancel_left h⟩
    case cons m' ms' => exact absurd (List.cons.inj (List.cons.inj h).right).left (by decide)
  case cons m ms =>
    cases ms'
    case nil         => exact absurd (List.cons.inj (List.cons.inj h).right).left (by decide)
    case cons m' ms' =>
      have ⟨hm, hms⟩ := List.forall_mem_cons.mp hm
      simp only [write, List.cons_append, List.append_assoc] at h
      obtain ⟨rfl, ht⟩ := member_inj hm (ends_writeMembers ms) (ends_writeMembers ms') (List.cons.inj h).right
      obtain ⟨rfl, hr⟩ := writeMembers_inj hms ht
      exact ⟨rfl, hr⟩

theorem writes (v : Value) : Writes v := by
  induction v using Value.induction
  case null              =>
    intro w rest rest' _ _ h
    have hk := kind_eq h
    cases w
    case null   => exact ⟨rfl, List.append_cancel_left h⟩
    case bool b => cases b <;> cases hk
    all_goals cases hk
  case bool b            =>
    intro w rest rest' _ _ h
    have hk := kind_eq h
    cases w
    case bool b' =>
      cases b <;> cases b' <;> try cases hk
      all_goals exact ⟨rfl, List.append_cancel_left h⟩
    all_goals cases b <;> cases hk
  case number n          =>
    intro w rest rest' hr hr' h
    have hk := kind_eq h
    cases w
    case number n' =>
      obtain ⟨rfl, hr⟩ := numeral_inj hr hr' h
      exact ⟨rfl, hr⟩
    case bool b    => cases b <;> cases hk
    all_goals cases hk
  case string s          =>
    intro w rest rest' _ _ h
    have hk := kind_eq h
    cases w
    case string s' =>
      obtain ⟨rfl, hr⟩ := quote_inj h
      exact ⟨rfl, hr⟩
    case bool b    => cases b <;> cases hk
    all_goals cases hk
  case array items hi    =>
    intro w rest rest' _ _ h
    have hk := kind_eq h
    cases w
    case array items' =>
      obtain ⟨rfl, hr⟩ := write_array_inj hi h
      exact ⟨rfl, hr⟩
    case bool b       => cases b <;> cases hk
    all_goals cases hk
  case object members hi =>
    intro w rest rest' _ _ h
    have hk := kind_eq h
    cases w
    case object members' =>
      obtain ⟨rfl, hr⟩ := write_object_inj hi h
      exact ⟨rfl, hr⟩
    case bool b          => cases b <;> cases hk
    all_goals cases hk

theorem write_injective : Function.Injective write :=
  fun v w h => (writes v w [] [] nofun nofun (congrArg (· ++ []) h)).left

end

section

variable {κ β γ : Type*} [DecidableEq κ] {ms ms' : List (κ × β)} {m : κ × β} {key : κ} {b : β}

-- An assignment to a property
def put (key : κ) (b : β) : List (κ × β) → List (κ × β)
  | []      => [(key, b)]
  | m :: ms => if m.1 = key then (key, b) :: ms else m :: put key b ms

-- The properties that an object has when its members have been assigned one after the other
def own (ms : List (κ × β)) : List (κ × β) :=
  ms.foldl (fun result m => put m.1 m.2 result) []

def get? (key : κ) (ms : List (κ × β)) : Option β :=
  (ms.find? (·.1 = key)).map (·.2)

def mapValues (f : β → γ) (ms : List (κ × β)) : List (κ × γ) :=
  ms.map fun m => (m.1, f m.2)

omit [DecidableEq κ] in
theorem mapValues_keys (f : β → γ) : (mapValues f ms).map (·.1) = ms.map (·.1) := by
  rw [mapValues, List.map_map]
  rfl

omit [DecidableEq κ] in
theorem mapValues_mapValues {δ : Type*} (f : β → γ) (g : γ → δ) :
    mapValues g (mapValues f ms) = mapValues (fun b => g (f b)) ms :=
  List.map_map

omit [DecidableEq κ] in
theorem mapValues_congr {f g : β → γ} (h : ∀ m ∈ ms, f m.2 = g m.2) : mapValues f ms = mapValues g ms :=
  List.map_congr_left fun m hm => Prod.ext rfl (h m hm)

theorem put_of_not_mem (h : key ∉ ms.map (·.1)) : put key b ms = ms ++ [(key, b)] := by
  induction ms
  case nil          => rfl
  case cons m ms hi =>
    have ⟨hm, hms⟩ := not_or.mp (h ∘ List.mem_cons.mpr)
    rw [put, if_neg (Ne.symm hm), hi hms, List.cons_append]

theorem put_keys_of_mem (h : key ∈ ms.map (·.1)) : (put key b ms).map (·.1) = ms.map (·.1) := by
  induction ms
  case nil          => cases h
  case cons m ms hi =>
    rw [put]
    split
    case isTrue hk  => rw [List.map_cons, List.map_cons, hk]
    case isFalse hk => rw [List.map_cons, List.map_cons, hi <| (List.mem_cons.mp h).resolve_left (Ne.symm hk)]

theorem put_nodup (h : (ms.map (·.1)).Nodup) : ((put key b ms).map (·.1)).Nodup := by
  by_cases hk : key ∈ ms.map (·.1)
  case pos => rwa [put_keys_of_mem hk]
  case neg =>
    rw [put_of_not_mem hk, List.map_append]
    refine List.nodup_append.mpr ⟨h, List.nodup_singleton _, fun a ha b hb he => hk ?_⟩
    have hb : b = key := List.mem_singleton.mp hb
    rwa [← hb, ← he]

theorem mem_of_mem_put (h : m ∈ put key b ms) : m = (key, b) ∨ m ∈ ms := by
  induction ms
  case nil           => exact .inl (List.mem_singleton.mp h)
  case cons m' ms hi =>
    rw [put] at h
    split at h
    case isTrue  => exact (List.mem_cons.mp h).imp_right (List.mem_cons_of_mem _)
    case isFalse =>
      obtain rfl | h := List.mem_cons.mp h
      · exact .inr List.mem_cons_self
      · exact (hi h).imp_right (List.mem_cons_of_mem _)

theorem mem_put_keys {key' : κ} : key' ∈ (put key b ms).map (·.1) ↔ key' = key ∨ key' ∈ ms.map (·.1) := by
  by_cases hk : key ∈ ms.map (·.1)
  case pos =>
    rw [put_keys_of_mem hk]
    exact (or_iff_right_of_imp fun he => he ▸ hk).symm
  case neg =>
    rw [put_of_not_mem hk, List.map_append, List.mem_append, or_comm, List.map_singleton, List.mem_singleton]

theorem put_mapValues (f : β → γ) : put key (f b) (mapValues f ms) = mapValues f (put key b ms) := by
  induction ms
  case nil          => rfl
  case cons m ms hi =>
    simp only [mapValues, List.map_cons, put] at hi ⊢
    split
    case isTrue  => rfl
    case isFalse => rw [hi, List.map_cons]

theorem own_nodup : ((own ms).map (·.1)).Nodup := by
  have h (result : List (κ × β)) (hr : (result.map (·.1)).Nodup) :
      ((ms.foldl (fun result m => put m.1 m.2 result) result).map (·.1)).Nodup := by
    induction ms generalizing result
    case nil          => exact hr
    case cons m ms hi => exact hi _ (put_nodup hr)
  exact h [] List.nodup_nil

theorem mem_own_keys : key ∈ (own ms).map (·.1) ↔ key ∈ ms.map (·.1) := by
  have h (result : List (κ × β)) : key ∈ (ms.foldl (fun result m => put m.1 m.2 result) result).map (·.1) ↔
      key ∈ result.map (·.1) ∨ key ∈ ms.map (·.1) := by
    induction ms generalizing result
    case nil          => simp
    case cons m ms hi => rw [List.foldl_cons, hi, mem_put_keys, List.map_cons, List.mem_cons, or_assoc, or_left_comm]
  exact (h []).trans <| or_iff_right List.not_mem_nil

theorem own_subset : own ms ⊆ ms := by
  have h (result : List (κ × β)) :
      ∀ m ∈ ms.foldl (fun result m => put m.1 m.2 result) result, m ∈ result ∨ m ∈ ms := by
    induction ms generalizing result
    case nil          => exact fun _ => .inl
    case cons m ms hi =>
      intro m' hm
      obtain hm | hm := hi _ m' hm
      · exact (mem_of_mem_put hm).symm.imp_right fun h => List.mem_cons.mpr (.inl h)
      · exact .inr (List.mem_cons_of_mem m hm)
  exact fun m hm => (h [] m hm).resolve_left List.not_mem_nil

theorem own_mapValues (f : β → γ) : own (mapValues f ms) = mapValues f (own ms) := by
  have h (result : List (κ × β)) :
      (mapValues f ms).foldl (fun result m => put m.1 m.2 result) (mapValues f result) =
        mapValues f (ms.foldl (fun result m => put m.1 m.2 result) result) := by
    induction ms generalizing result
    case nil          => rfl
    case cons m ms hi =>
      rw [List.foldl_cons, ← hi, ← put_mapValues]
      rfl
  exact h []

theorem put_filter (p : κ → Bool) :
    (put key b ms).filter (p ·.1) = if p key then put key b (ms.filter (p ·.1)) else ms.filter (p ·.1) := by
  induction ms
  case nil          => simp [put, List.filter_cons]
  case cons m ms hi =>
    by_cases hk : m.1 = key
    case pos =>
      subst hk
      by_cases hp : p m.1
      case pos => simp [put, hp]
      case neg => simp [put, hp]
    case neg =>
      rw [put, if_neg hk, List.filter_cons, List.filter_cons, hi]
      by_cases hm : p m.1
      case pos =>
        rw [if_pos hm, if_pos hm, put, if_neg hk]
        split <;> rfl
      case neg => rw [if_neg hm, if_neg hm]

-- What is left out by name may be left out before the last member is found.
theorem own_filter (p : κ → Bool) : own (ms.filter (p ·.1)) = (own ms).filter (p ·.1) := by
  have h (result : List (κ × β)) :
      (ms.filter (p ·.1)).foldl (fun result m => put m.1 m.2 result) (result.filter (p ·.1)) =
        (ms.foldl (fun result m => put m.1 m.2 result) result).filter (p ·.1) := by
    induction ms generalizing result
    case nil          => rfl
    case cons m ms hi =>
      rw [List.foldl_cons, ← hi, put_filter, List.filter_cons]
      split
      case isTrue  => rfl
      case isFalse => rfl
  exact h []

theorem own_of_nodup (h : (ms.map (·.1)).Nodup) : own ms = ms := by
  have hr (result : List (κ × β)) (hn : ((result ++ ms).map (·.1)).Nodup) :
      ms.foldl (fun result m => put m.1 m.2 result) result = result ++ ms := by
    induction ms generalizing result
    case nil          => exact (List.append_nil _).symm
    case cons m ms hi =>
      have hm : m.1 ∉ result.map (·.1) := by
        rw [List.map_append] at hn
        exact fun hm => (List.nodup_append.mp hn).2.2 m.1 hm m.1 List.mem_cons_self rfl
      rw [List.foldl_cons, put_of_not_mem hm, hi (List.nodup_cons.mp h).right, List.append_assoc]
      · rfl
      · rwa [List.append_assoc]
  exact hr [] h

end

section

variable {κ β γ : Type*} [LinearOrder κ] {ms ms' : List (κ × β)}

def sortMembers (ms : List (κ × β)) : List (κ × β) :=
  ms.insertionSort fun m m' => m.1 ≤ m'.1

theorem sortMembers_perm : (sortMembers ms).Perm ms :=
  List.perm_insertionSort _ ms

theorem sortMembers_mapValues (f : β → γ) : sortMembers (mapValues f ms) = mapValues f (sortMembers ms) :=
  .symm <| List.map_insertionSort (fun m m' : κ × β => m.1 ≤ m'.1) (fun m m' : κ × γ => m.1 ≤ m'.1)
    (fun m => (m.1, f m.2)) ms fun _ _ _ _ => .rfl

theorem sortMembers_pairwise (h : (ms.map (·.1)).Nodup) : (sortMembers ms).Pairwise fun m m' => m.1 < m'.1 := by
  have : IsTrans (κ × β) fun m m' => m.1 ≤ m'.1 := ⟨fun _ _ _ h h' => h.trans h'⟩
  have : Std.Total fun m m' : κ × β => m.1 ≤ m'.1 := ⟨fun m m' => le_total m.1 m'.1⟩
  have hs : (sortMembers ms).Pairwise fun m m' => m.1 ≤ m'.1 := List.pairwise_insertionSort _ ms
  have hn : (sortMembers ms).Pairwise fun m m' => m.1 ≠ m'.1 :=
    List.pairwise_map.mp <| (sortMembers_perm.map _).nodup_iff.mpr h
  exact hs.imp₂ (fun _ _ h hn => lt_of_le_of_ne h hn) hn

-- A list that is sorted by name is determined by its members.
theorem eq_of_perm (h : ms.Perm ms') (hs : ms.Pairwise fun m m' => m.1 < m'.1)
    (hs' : ms'.Pairwise fun m m' => m.1 < m'.1) : ms = ms' :=
  h.eq_of_pairwise (fun _ _ _ _ h h' => absurd h' h.asymm) hs hs'

theorem sortMembers_filter (p : κ → Bool) (h : (ms.map (·.1)).Nodup) :
    sortMembers (ms.filter (p ·.1)) = (sortMembers ms).filter (p ·.1) := by
  have hn : ((ms.filter (p ·.1)).map (·.1)).Nodup := h.sublist <| (List.filter_sublist).map _
  refine eq_of_perm ?_ (sortMembers_pairwise hn) ((sortMembers_pairwise h).filter _)
  exact sortMembers_perm.trans <| sortMembers_perm.symm.filter _

theorem nodup_of_pairwise (h : ms.Pairwise fun m m' => m.1 < m'.1) : (ms.map (·.1)).Nodup :=
  List.pairwise_map.mpr <| h.imp ne_of_lt

end

section

variable (f : List (Text × Value) → List (Text × Value))

mutual

-- The members of all objects in a value are replaced, beginning with the innermost ones.
def transform : Value → Value
  | .array vs  => .array (transformItems vs)
  | .object ms => .object (f (transformMembers ms))
  | v          => v

def transformItems : List Value → List Value
  | []      => []
  | v :: vs => transform v :: transformItems vs

def transformMembers : List (Text × Value) → List (Text × Value)
  | []      => []
  | m :: ms => (m.1, transform m.2) :: transformMembers ms

end

theorem transformItems_eq (vs : List Value) : transformItems f vs = vs.map (transform f) := by
  induction vs
  case nil          => rfl
  case cons v vs hi => rw [transformItems, hi, List.map_cons]

theorem transformMembers_eq (ms : List (Text × Value)) : transformMembers f ms = mapValues (transform f) ms := by
  induction ms
  case nil          => rfl
  case cons m ms hi => rw [transformMembers, hi]; rfl

theorem transform_array (vs : List Value) : transform f (.array vs) = .array (vs.map (transform f)) := by
  rw [transform, transformItems_eq]

theorem transform_object (ms : List (Text × Value)) :
    transform f (.object ms) = .object (f (mapValues (transform f) ms)) := by
  rw [transform, transformMembers_eq]

end

-- Two values are the same if they are equal once the members of their objects are sorted by name.
def normal : Value → Value :=
  transform fun members => sortMembers (own members)

def Same (u v : Value) : Prop :=
  normal u = normal v

theorem normal_object (ms : List (Text × Value)) :
    normal (.object ms) = .object (sortMembers (own (mapValues normal ms))) :=
  transform_object _ _

def isDigit (u : CodeUnit) : Bool :=
  u ∈ text "0123456789"

-- The array index that a name stands for
def index? (key : Text) : Option Nat :=
  if key ≠ [] ∧ key.all isDigit ∧ (key.head? = some (unit '0') → key.length = 1) then
    let n := key.foldl (fun n u => 10 * n + (u.val - 48)) 0
    if n < 4294967295 then some n else none
  else
    none

-- Array indices come first.
def ordered (members : List (Text × Value)) : List (Text × Value) :=
  let indices := members.filter fun m => (index? m.1).isSome
  let names := members.filter fun m => ¬(index? m.1).isSome
  (indices.insertionSort fun m m' => (index? m.1).getD 0 ≤ (index? m'.1).getD 0) ++ names

def arrange : Value → Value :=
  transform fun members => ordered (own members)

def stringify (v : Value) : Text :=
  write (arrange v)

theorem ordered_perm (ms : List (Text × Value)) : (ordered ms).Perm ms := by
  have hs := List.perm_insertionSort (fun m m' : Text × Value => (index? m.1).getD 0 ≤ (index? m'.1).getD 0)
    (ms.filter fun m => (index? m.1).isSome)
  refine (hs.append_right _).trans ?_
  simpa only [Bool.not_eq_true, Bool.decide_eq_false] using
    List.filter_append_perm (fun m : Text × Value => (index? m.1).isSome) ms

theorem map_inj_on {β γ : Type*} {f : β → γ} {l l' : List β} (h : l.map f = l'.map f)
    (hf : ∀ a ∈ l, ∀ a' ∈ l', f a = f a' → a = a') : l = l' := by
  induction l generalizing l'
  case nil         => exact (List.map_eq_nil_iff.mp h.symm).symm
  case cons a l hi =>
    cases l'
    case nil        => cases h
    case cons a' l' =>
      have ⟨ha, hl⟩ := List.cons.inj h
      rw [hf a List.mem_cons_self a' List.mem_cons_self ha,
        hi hl fun b hb b' hb' => hf b (List.mem_cons_of_mem a hb) b' (List.mem_cons_of_mem a' hb')]

theorem eq_of_perm_of_keys {κ β : Type*} {ms ms' : List (κ × β)} (hp : ms.Perm ms')
    (hk : ms.map (·.1) = ms'.map (·.1)) (hn : (ms.map (·.1)).Nodup) : ms = ms' :=
  map_inj_on hk fun _ hm _ hm' he => List.inj_on_of_nodup_map hn hm (hp.symm.subset hm') he

-- Objects that have the same names are compared member by member.
theorem same_object {ms ms' : List (Text × Value)} (hk : ms.map (·.1) = ms'.map (·.1)) (hn : (ms.map (·.1)).Nodup) :
    Same (.object ms) (.object ms') ↔ mapValues normal ms = mapValues normal ms' := by
  have hm : own (mapValues normal ms) = mapValues normal ms := own_of_nodup <| by rwa [mapValues_keys]
  have hm' : own (mapValues normal ms') = mapValues normal ms' := own_of_nodup <| by rwa [mapValues_keys, ← hk]
  rw [Same, normal_object, normal_object, hm, hm', Value.object.injEq]
  constructor
  case mp  =>
    intro h
    refine eq_of_perm_of_keys (sortMembers_perm.symm.trans <| h ▸ sortMembers_perm) ?_ ?_
    · rw [mapValues_keys, mapValues_keys, hk]
    · rwa [mapValues_keys]
  case mpr => exact congrArg sortMembers

variable {g : List (Text × Value) → List (Text × Value)}

-- Members that are sorted by name are arranged in the same way only if they are the same.
theorem arranged_inj {ms ms' : List (Text × Value)} (hs : ms.Pairwise fun m m' => m.1 < m'.1)
    (hs' : ms'.Pairwise fun m m' => m.1 < m'.1) (h : ordered (own ms) = ordered (own ms')) : ms = ms' := by
  rw [own_of_nodup (nodup_of_pairwise hs), own_of_nodup (nodup_of_pairwise hs')] at h
  exact eq_of_perm ((ordered_perm ms).symm.trans (h ▸ ordered_perm ms')) hs hs'

theorem mapValues_pairwise {β γ : Type*} {f : β → γ} {ms : List (Text × β)} (h : ms.Pairwise fun m m' => m.1 < m'.1) :
    (mapValues f ms).Pairwise fun m m' => m.1 < m'.1 :=
  List.pairwise_map.mpr h

theorem exists_of_mem_mapValues {β γ : Type*} {f : β → γ} {ms : List (Text × β)} {m : Text × γ}
    (h : m ∈ mapValues f ms) : ∃ m' ∈ ms, m = (m'.1, f m'.2) := by
  obtain ⟨m', hm, rfl⟩ := List.mem_map.mp h
  exact ⟨m', hm, rfl⟩

-- The order in which members are written does not matter if they are always sorted before.
theorem arrange_inj (hg : ∀ ms, (g ms).Pairwise fun m m' => m.1 < m'.1) (hs : ∀ ms, g ms ⊆ ms) {u v : Value}
    (h : arrange (transform g u) = arrange (transform g v)) : transform g u = transform g v := by
  induction u using Value.induction generalizing v
  case array items hi    =>
    cases v
    case array items' =>
      simp only [arrange, transform_array, Value.array.injEq] at h ⊢
      refine map_inj_on h fun x hx x' hx' he => ?_
      obtain ⟨w, hw, rfl⟩ := List.mem_map.mp hx
      obtain ⟨w', _, rfl⟩ := List.mem_map.mp hx'
      exact hi w hw he
    all_goals cases h
  case object members hi =>
    cases v
    case object members' =>
      simp only [arrange, transform_object, Value.object.injEq] at h ⊢
      have hp := arranged_inj (mapValues_pairwise (hg _)) (mapValues_pairwise (hg _)) h
      refine map_inj_on hp fun m hm m' hm' he => ?_
      obtain ⟨w, hw, rfl⟩ := exists_of_mem_mapValues (hs _ hm)
      obtain ⟨w', _, rfl⟩ := exists_of_mem_mapValues (hs _ hm')
      have ⟨hk, hv⟩ := Prod.mk.inj he
      exact Prod.ext hk (hi w hw hv)
    all_goals cases h
  all_goals
    cases v
    all_goals first | exact h | cases h

theorem stringify_inj (hg : ∀ ms, (g ms).Pairwise fun m m' => m.1 < m'.1) (hs : ∀ ms, g ms ⊆ ms) {u v : Value} :
    stringify (transform g u) = stringify (transform g v) ↔ transform g u = transform g v :=
  ⟨fun h => arrange_inj hg hs (write_injective h), congrArg stringify⟩

end Script
