import JobPlatform.Library.Text
import Mathlib.Data.List.TakeDrop

-- JSON values. A number is the decimal `mantissa * 10 ^ exponent`.
inductive Json
  | null
  | bool (b : Bool)
  | number (mantissa exponent : Int)
  | string (s : String)
  | array (items : List Json)
  | object (members : List (String × Json))

namespace Json

def int (n : Int) : Json :=
  .number n 0

-- If an object has members of the same name, then the last one counts.
def get? (key : String) : Json → Option Json
  | .object members => (members.reverse.find? (·.1 = key)).map (·.2)
  | _               => none

def hexDigit (n : Nat) : Char :=
  Nat.digitChar n

def hexValue (c : Char) : Option Nat :=
  if c.isDigit then some (c.toNat - '0'.toNat)
  else if 'a' ≤ c ∧ c ≤ 'f' then some (c.toNat - 'a'.toNat + 10)
  else if 'A' ≤ c ∧ c ≤ 'F' then some (c.toNat - 'A'.toNat + 10)
  else none

def unicode (n : Nat) : List Char :=
  ['\\', 'u', hexDigit (n / 4096), hexDigit (n / 256 % 16), hexDigit (n / 16 % 16), hexDigit (n % 16)]

-- The encoder also escapes what has a meaning in HTML, and the line separators of JavaScript.
def escape (c : Char) : List Char :=
  if c = '"' then ['\\', '"']
  else if c = '\\' then ['\\', '\\']
  else if c.toNat = 8 then ['\\', 'b']
  else if c.toNat = 12 then ['\\', 'f']
  else if c = '\n' then ['\\', 'n']
  else if c = '\r' then ['\\', 'r']
  else if c = '\t' then ['\\', 't']
  else if c.toNat < 32 ∨ c ∈ ['<', '>', '&'] ∨ c.toNat = 0x2028 ∨ c.toNat = 0x2029 then unicode c.toNat
  else [c]

def quote (s : String) : List Char :=
  '"' :: s.toList.flatMap escape ++ ['"']

def magnitude (exponent : Int) : List Char :=
  if exponent = 0 then [] else 'e' :: (toString exponent).toList

mutual

def marshal : Json → List Char
  | .null                      => ['n', 'u', 'l', 'l']
  | .bool true                 => ['t', 'r', 'u', 'e']
  | .bool false                => ['f', 'a', 'l', 's', 'e']
  | .number mantissa exponent  => (toString mantissa).toList ++ magnitude exponent
  | .string s                  => quote s
  | .array []                  => ['[', ']']
  | .array (j :: js)           => '[' :: marshal j ++ marshalItems js
  | .object []                 => ['\x7b', '\x7d']
  | .object ((key, j) :: ms)   => '\x7b' :: quote key ++ ':' :: marshal j ++ marshalMembers ms

def marshalItems : List Json → List Char
  | []      => [']']
  | j :: js => ',' :: marshal j ++ marshalItems js

def marshalMembers : List (String × Json) → List Char
  | []             => ['\x7d']
  | (key, j) :: ms => ',' :: quote key ++ ':' :: marshal j ++ marshalMembers ms

end

def isSpace (c : Char) : Bool :=
  c = ' ' || c = '\t' || c = '\n' || c = '\r'

def skip (text : List Char) : List Char :=
  text.dropWhile isSpace

def hexValues (a b c d : Char) : Option Nat := do
  let a ← hexValue a
  let b ← hexValue b
  let c ← hexValue c
  let d ← hexValue d
  some (((a * 16 + b) * 16 + c) * 16 + d)

def unescape : Char → Option Char
  | '"'  => some '"'
  | '\\' => some '\\'
  | '/'  => some '/'
  | 'b'  => some (Char.ofNat 8)
  | 'f'  => some (Char.ofNat 12)
  | 'n'  => some '\n'
  | 'r'  => some '\r'
  | 't'  => some '\t'
  | _    => none

-- A lone surrogate is not a character.
def character (n : Nat) : Char :=
  if n.isValidChar then Char.ofNat n else '\ufffd'

-- Two escapes may be the surrogates of a single character.
def joined : List Nat → List Char
  | []           => []
  | [n]          => [character n]
  | n :: n' :: l =>
    if 0xd800 ≤ n ∧ n < 0xdc00 ∧ 0xdc00 ≤ n' ∧ n' < 0xe000 then
      character (0x10000 + (n - 0xd800) * 1024 + (n' - 0xdc00)) :: joined l
    else
      character n :: joined (n' :: l)

-- What follows the opening quote of a string.
def chars : List Char → Option (List Nat × List Char)
  | []                                      => none
  | '"' :: rest                             => some ([], rest)
  | '\\' :: 'u' :: a :: b :: c :: d :: rest =>
    match hexValues a b c d with
    | some n => (chars rest).map fun (l, rest) => (n :: l, rest)
    | none   => none
  | '\\' :: c :: rest                       =>
    match unescape c with
    | some c => (chars rest).map fun (l, rest) => (c.toNat :: l, rest)
    | none   => none
  | c :: rest                               =>
    if c.toNat < 32 then none else (chars rest).map fun (l, rest) => (c.toNat :: l, rest)

def text (l : List Nat) : String :=
  .ofList (joined l)

def fraction : List Char → Option (List Char × List Char)
  | '.' :: rest =>
    match rest.span Char.isDigit with
    | ([], _)         => none
    | (digits, rest') => some (digits, rest')
  | rest        => some ([], rest)

def signed : List Char → Int × List Char
  | '+' :: rest => (1, rest)
  | '-' :: rest => (-1, rest)
  | rest        => (1, rest)

def exponent : List Char → Option (Int × List Char)
  | []        => some (0, [])
  | c :: rest =>
    if c = 'e' ∨ c = 'E' then
      let (sign, rest) := signed rest
      match rest.span Char.isDigit with
      | ([], _)         => none
      | (digits, rest') => some (sign * Nat.ofDigitChars 10 digits 0, rest')
    else
      some (0, c :: rest)

-- There is at least one digit before the point, and no leading zero.
def unsigned (rest : List Char) : Option (Nat × Int × List Char) := do
  let (digits, rest) := rest.span Char.isDigit
  if digits = [] ∨ digits.head? = some '0' ∧ digits ≠ ['0'] then none else
  let (digits', rest) ← fraction rest
  let (e, rest) ← exponent rest
  some (Nat.ofDigitChars 10 (digits ++ digits') 0, e - digits'.length, rest)

def scalar : List Char → Option (Json × List Char)
  | 'n' :: 'u' :: 'l' :: 'l' :: rest        => some (.null, rest)
  | 't' :: 'r' :: 'u' :: 'e' :: rest        => some (.bool true, rest)
  | 'f' :: 'a' :: 'l' :: 's' :: 'e' :: rest => some (.bool false, rest)
  | '-' :: rest                             => (unsigned rest).map fun (m, e, rest) => (.number (-m) e, rest)
  | rest                                    => (unsigned rest).map fun (m, e, rest) => (.number m e, rest)

mutual

def value : Nat → List Char → Option (Json × List Char)
  | 0, _           => none
  | n + 1, content =>
    match skip content with
    | '"' :: rest    => (chars rest).map fun (l, rest) => (.string (text l), rest)
    | '[' :: rest    =>
      match skip rest with
      | ']' :: rest => some (.array [], rest)
      | rest        => (items n rest).map fun (js, rest) => (.array js, rest)
    | '\x7b' :: rest =>
      match skip rest with
      | '\x7d' :: rest => some (.object [], rest)
      | rest           => (members n rest).map fun (ms, rest) => (.object ms, rest)
    | rest           => scalar rest

def items : Nat → List Char → Option (List Json × List Char)
  | 0, _           => none
  | n + 1, content => do
    let (j, rest) ← value n content
    match skip rest with
    | ',' :: rest => (items n rest).map fun (js, rest) => (j :: js, rest)
    | ']' :: rest => some ([j], rest)
    | _           => none

def members : Nat → List Char → Option (List (String × Json) × List Char)
  | 0, _           => none
  | n + 1, content =>
    match skip content with
    | '"' :: rest => do
      let (l, rest) ← chars rest
      match skip rest with
      | ':' :: rest =>
        let (j, rest) ← value n rest
        match skip rest with
        | ',' :: rest    => (members n rest).map fun (ms, rest) => ((text l, j) :: ms, rest)
        | '\x7d' :: rest => some ([(text l, j)], rest)
        | _              => none
      | _           => none
    | _           => none

end

-- Each character is the reason for at most two of the nested calls.
def parse (content : List Char) : Option Json :=
  match value (2 * content.length + 2) content with
  | some (j, rest) => if skip rest = [] then some j else none
  | none           => none

theorem hexValue_hexDigit : ∀ n < 16, hexValue (hexDigit n) = some n := by
  decide

theorem hexValues_unicode {n : Nat} (h : n < 65536) :
    hexValues (hexDigit (n / 4096)) (hexDigit (n / 256 % 16)) (hexDigit (n / 16 % 16)) (hexDigit (n % 16)) =
      some n := by
  have h₁ := hexValue_hexDigit (n / 4096) (by omega)
  have h₂ := hexValue_hexDigit (n / 256 % 16) (by omega)
  have h₃ := hexValue_hexDigit (n / 16 % 16) (by omega)
  have h₄ := hexValue_hexDigit (n % 16) (by omega)
  simp only [hexValues, h₁, h₂, h₃, h₄, Option.bind_eq_bind, Option.bind_some]
  exact congrArg some (by omega)

variable {c : Char} {content rest l : List Char} {s : String} {n : Nat} {j : Json}

theorem chars_unicode (h : n < 65536) :
    chars (unicode n ++ rest) = (chars rest).map fun (l, rest) => (n :: l, rest) := by
  simp only [unicode, List.cons_append, List.nil_append, chars, hexValues_unicode h]

theorem chars_escaped {c' : Char} (hu : unescape c' = some c) (hc : c' ≠ 'u') :
    chars ('\\' :: c' :: rest) = (chars rest).map fun (l, rest) => (c.toNat :: l, rest) := by
  rw [chars, hu]
  exact fun _ _ _ _ _ h => absurd h hc

theorem chars_plain (hq : c ≠ '"') (hb : c ≠ '\\') (hc : 32 ≤ c.toNat) :
    chars (c :: rest) = (chars rest).map fun (l, rest) => (c.toNat :: l, rest) := by
  rw [chars, if_neg (Nat.not_lt.mpr hc)]
  case x_1 => exact hq
  case x_2 => exact fun _ _ _ _ _ h => absurd h hb
  case x_3 => exact fun _ _ h => absurd h hb

theorem lt_of_escaped (h : c.toNat < 32 ∨ c ∈ ['<', '>', '&'] ∨ c.toNat = 0x2028 ∨ c.toNat = 0x2029) :
    c.toNat < 65536 := by
  obtain h | h | h | h := h
  · omega
  · simp only [List.mem_cons, List.not_mem_nil, or_false] at h
    obtain rfl | rfl | rfl := h <;> decide
  · omega
  · omega

-- The reader undoes each of the escapes.
theorem chars_escape (c : Char) :
    chars (escape c ++ rest) = (chars rest).map fun (l, rest) => (c.toNat :: l, rest) := by
  have of_toNat {n : Nat} (h : c.toNat = n) : Char.ofNat n = c := h ▸ Char.ofNat_toNat c
  unfold escape
  split_ifs with h₁ h₂ h₃ h₄ h₅ h₆ h₇ h₈
  · exact chars_escaped (by subst h₁; rfl) (by decide)
  · exact chars_escaped (by subst h₂; rfl) (by decide)
  · exact chars_escaped (congrArg some <| of_toNat h₃) (by decide)
  · exact chars_escaped (congrArg some <| of_toNat h₄) (by decide)
  · exact chars_escaped (by subst h₅; rfl) (by decide)
  · exact chars_escaped (by subst h₆; rfl) (by decide)
  · exact chars_escaped (by subst h₇; rfl) (by decide)
  · exact chars_unicode (lt_of_escaped h₈)
  · exact chars_plain h₁ h₂ (by omega)

theorem chars_quoted (l : List Char) : chars (l.flatMap escape ++ '"' :: rest) = some (l.map Char.toNat, rest) := by
  induction l
  case nil         => rfl
  case cons c l hi => rw [List.flatMap_cons, List.append_assoc, chars_escape, hi]; rfl

theorem character_toNat (c : Char) : character c.toNat = c := by
  have h : c.toNat.isValidChar := c.valid
  simp only [character, h, if_true, Char.ofNat_toNat]

theorem not_surrogate (c : Char) : ¬(0xd800 ≤ c.toNat ∧ c.toNat < 0xdc00) := by
  have h : c.toNat < 0xd800 ∨ 0xdfff < c.toNat ∧ c.toNat < 0x110000 := c.valid
  omega

theorem joined_toNat (l : List Char) : joined (l.map Char.toNat) = l := by
  induction l
  case nil         => rfl
  case cons c l hi =>
    cases l
    case nil       => exact congrArg (· :: []) (character_toNat c)
    case cons d l =>
      have h {p : Prop} (h : 0xd800 ≤ c.toNat ∧ c.toNat < 0xdc00 ∧ p) := not_surrogate c ⟨h.1, h.2.1⟩
      simp only [List.map_cons, joined, if_neg h, character_toNat] at hi ⊢
      rw [hi]

theorem chars_quote (s : String) :
    ∃ l, chars (s.toList.flatMap escape ++ '"' :: rest) = some (l, rest) ∧ text l = s :=
  ⟨_, chars_quoted _, by rw [text, joined_toNat, String.ofList_toList]⟩

-- A value may only be followed by what ends it.
def Ends (rest : List Char) : Prop :=
  ∀ c ∈ rest.head?, c = ',' ∨ c = ']' ∨ c = '\x7d'

theorem Ends.of_cons (h : c = ',' ∨ c = ']' ∨ c = '\x7d') : Ends (c :: rest) := by
  intro c' hc'
  cases hc'
  exact h

theorem span_digits (hd : ∀ c ∈ l, c.isDigit) (hr : ∀ c ∈ rest.head?, c.isDigit = false) :
    (l ++ rest).span Char.isDigit = (l, rest) := by
  have ht : rest.takeWhile Char.isDigit = [] ∧ rest.dropWhile Char.isDigit = rest := by
    cases rest
    case nil       => exact ⟨rfl, rfl⟩
    case cons c cs => simp [hr c rfl]
  rw [List.span_eq_takeWhile_dropWhile, List.takeWhile_append_of_pos hd, List.dropWhile_append_of_pos hd,
    ht.1, ht.2, List.append_nil]

theorem isDigit_toDigits (n : Nat) : ∀ c ∈ Nat.toDigits 10 n, c.isDigit :=
  fun _ hc => Nat.isDigit_of_mem_toDigits (by decide) (by decide) hc

theorem digitChar_ne_zero : ∀ n < 10, 0 < n → Nat.digitChar n ≠ '0' := by
  decide

-- A positive number has no leading zero.
theorem head?_toDigits {n : Nat} (h : 0 < n) : (Nat.toDigits 10 n).head? ≠ some '0' := by
  induction n using Nat.strongRecOn
  case ind n hi =>
    rw [Nat.toDigits_eq_if (by decide)]
    split
    case isTrue hn  => exact fun hc => digitChar_ne_zero n hn h (Option.some.inj hc)
    case isFalse hn =>
      have hh := hi (n / 10) (by omega) (by omega)
      cases ht : Nat.toDigits 10 (n / 10)
      case nil       => exact absurd ht Nat.toDigits_ne_nil
      case cons c cs => rwa [ht] at hh

theorem canonical_toDigits (n : Nat) :
    ¬(Nat.toDigits 10 n = [] ∨ (Nat.toDigits 10 n).head? = some '0' ∧ Nat.toDigits 10 n ≠ ['0']) := by
  rintro (h | ⟨hh, hz⟩)
  case inl => exact Nat.toDigits_ne_nil h
  case inr =>
    cases n
    case zero   => exact hz rfl
    case succ n => exact head?_toDigits (Nat.succ_pos n) hh

theorem Ends.isDigit (h : Ends rest) : ∀ c ∈ rest.head?, c.isDigit = false := by
  intro c hc
  obtain rfl | rfl | rfl := h c hc <;> rfl

theorem fraction_magnitude (e : Int) (hr : Ends rest) :
    fraction (magnitude e ++ rest) = some ([], magnitude e ++ rest) := by
  unfold magnitude
  split
  case isFalse he => rfl
  case isTrue he  =>
    cases rest
    case nil       => rfl
    case cons c cs => obtain rfl | rfl | rfl := hr c rfl <;> rfl

theorem signed_digit (h : c.isDigit) : signed (c :: rest) = (1, c :: rest) := by
  unfold signed
  split
  case h_3 => rfl
  all_goals
    rename_i h'
    rw [(List.cons.inj h').left] at h
    cases h

theorem toDigits_cons (n : Nat) : ∃ d ds, Nat.toDigits 10 n = d :: ds ∧ d.isDigit := by
  have hd := isDigit_toDigits n
  cases ht : Nat.toDigits 10 n
  case nil       => exact absurd ht Nat.toDigits_ne_nil
  case cons d ds => exact ⟨d, ds, rfl, hd d (ht ▸ List.mem_cons_self)⟩

theorem exponent_signed {sign : Int} {n : Nat} (hs : signed content = (sign, Nat.toDigits 10 n ++ rest))
    (hr : Ends rest) : exponent ('e' :: content) = some (sign * n, rest) := by
  have hd := span_digits (isDigit_toDigits n) hr.isDigit
  have hn := @Nat.ofDigitChars_ten_toDigits n
  obtain ⟨d, ds, ht, -⟩ := toDigits_cons n
  rw [ht] at hs hd hn
  simp only [exponent, true_or, if_true, hs, hd, hn]

theorem exponent_digits (n : Nat) (hr : Ends rest) :
    exponent ('e' :: (Nat.toDigits 10 n ++ rest)) = some ((n : Int), rest) := by
  obtain ⟨d, ds, ht, hd⟩ := toDigits_cons n
  have hs : signed (Nat.toDigits 10 n ++ rest) = (1, Nat.toDigits 10 n ++ rest) := by
    rw [ht, List.cons_append]
    exact signed_digit hd
  rw [exponent_signed hs hr, Int.one_mul]

theorem exponent_negative (n : Nat) (hr : Ends rest) :
    exponent ('e' :: '-' :: (Nat.toDigits 10 n ++ rest)) = some (-(n : Int), rest) := by
  rw [@exponent_signed _ _ (-1) n rfl hr, Int.neg_one_mul]

theorem exponent_magnitude (e : Int) (hr : Ends rest) : exponent (magnitude e ++ rest) = some (e, rest) := by
  unfold magnitude
  split
  case isTrue he  =>
    subst he
    cases rest
    case nil       => rfl
    case cons c cs => obtain rfl | rfl | rfl := hr c rfl <;> rfl
  case isFalse he =>
    cases e
    case ofNat n   => rw [Text.toList_toString_ofNat]; exact exponent_digits n hr
    case negSucc n => rw [Text.toList_toString_negSucc]; exact exponent_negative (n + 1) hr

theorem magnitude_isDigit (e : Int) (hr : Ends rest) :
    ∀ c ∈ (magnitude e ++ rest).head?, c.isDigit = false := by
  unfold magnitude
  split
  case isTrue he  => exact hr.isDigit
  case isFalse he =>
    intro c hc
    cases hc
    rfl

theorem unsigned_digits (m : Nat) (e : Int) (hr : Ends rest) :
    unsigned (Nat.toDigits 10 m ++ (magnitude e ++ rest)) = some (m, e, rest) := by
  have hs := span_digits (isDigit_toDigits m) (magnitude_isDigit e hr)
  simp only [unsigned, hs, if_neg (canonical_toDigits m), fraction_magnitude e hr, exponent_magnitude e hr,
    List.append_nil, Nat.ofDigitChars_ten_toDigits, List.length_nil, Option.bind_eq_bind, Option.bind_some]
  simp

theorem skip_cons (h : isSpace c = false) : skip (c :: rest) = c :: rest := by
  simp [skip, h]

theorem value_scalar (hs : isSpace c = false) (hc : c ∉ ['"', '[', '\x7b']) :
    value (n + 1) (c :: rest) = scalar (c :: rest) := by
  simp only [List.mem_cons, List.not_mem_nil, or_false, not_or] at hc
  rw [value.eq_2, skip_cons hs]
  split
  case h_1 h => exact absurd (List.cons.inj h).left hc.1
  case h_2 h => exact absurd (List.cons.inj h).left hc.2.1
  case h_3 h => exact absurd (List.cons.inj h).left hc.2.2
  case h_4   => rfl

theorem scalar_digit (h : c.isDigit) :
    scalar (c :: rest) = (unsigned (c :: rest)).map fun (m, e, rest) => (.number m e, rest) := by
  unfold scalar
  split
  case h_5 => rfl
  all_goals
    rename_i h'
    rw [(List.cons.inj h').left] at h
    cases h

theorem isSpace_digit (h : c.isDigit) : isSpace c = false ∧ c ∉ ['"', '[', '\x7b'] := by
  have hc : c ∉ [' ', '\t', '\n', '\r', '"', '[', '\x7b'] := by
    intro hc
    simp only [List.mem_cons, List.not_mem_nil, or_false] at hc
    obtain rfl | rfl | rfl | rfl | rfl | rfl | rfl := hc <;> cases h
  simp_all [isSpace]

theorem value_number (m e : Int) (hr : Ends rest) :
    value (n + 1) ((toString m).toList ++ magnitude e ++ rest) = some (.number m e, rest) := by
  rw [List.append_assoc]
  cases m
  case negSucc m =>
    have h := unsigned_digits (m + 1) e hr
    rw [Text.toList_toString_negSucc, List.cons_append, value_scalar (by decide) (by decide), scalar, h]
    rfl
  case ofNat m   =>
    have h := unsigned_digits m e hr
    obtain ⟨d, ds, ht, hd⟩ := toDigits_cons m
    have ⟨hs, hc⟩ := isSpace_digit hd
    rw [ht] at h
    rw [Text.toList_toString_ofNat, ht, List.cons_append, value_scalar hs hc, scalar_digit hd, ← List.cons_append, h]
    rfl

theorem value_quote (s : String) : value (n + 1) (quote s ++ rest) = some (.string s, rest) := by
  obtain ⟨l, hl, ht⟩ := @chars_quote rest s
  simp [value, quote, skip_cons, isSpace, hl, ht]

-- The reader gets the value back from its text, whatever follows.
abbrev Reads (j : Json) : Prop :=
  ∀ {n : Nat} {rest : List Char}, 2 * (marshal j).length ≤ n → Ends rest →
    value n (marshal j ++ rest) = some (j, rest)

theorem toString_cons (m : Int) : ∃ c cs, (toString m).toList = c :: cs ∧ isSpace c = false ∧ c ≠ ']' := by
  cases m
  case negSucc m => exact ⟨_, _, Text.toList_toString_negSucc m, rfl, by decide⟩
  case ofNat m   =>
    obtain ⟨d, ds, ht, hd⟩ := toDigits_cons m
    refine ⟨d, ds, (Text.toList_toString_ofNat m).trans ht, (isSpace_digit hd).left, ?_⟩
    rintro rfl
    cases hd

theorem marshal_cons (j : Json) : ∃ c cs, marshal j = c :: cs ∧ isSpace c = false ∧ c ≠ ']' := by
  cases j
  case number m e =>
    obtain ⟨c, cs, hc, h⟩ := toString_cons m
    exact ⟨c, cs ++ magnitude e, by rw [marshal, hc, List.cons_append], h⟩
  case null       => exact ⟨_, _, rfl, rfl, by decide⟩
  case bool b     => cases b <;> exact ⟨_, _, rfl, rfl, by decide⟩
  case string s   => exact ⟨_, _, rfl, rfl, by decide⟩
  case array js   => cases js <;> exact ⟨_, _, rfl, rfl, by decide⟩
  case object ms  => cases ms <;> exact ⟨_, _, rfl, rfl, by decide⟩

theorem length_marshal (j : Json) : 0 < (marshal j).length := by
  obtain ⟨c, cs, hc, -⟩ := marshal_cons j
  simp [hc]

theorem ends_marshalItems (js : List Json) : Ends (marshalItems js ++ rest) := by
  cases js <;> exact .of_cons (by decide)

theorem ends_marshalMembers (ms : List (String × Json)) : Ends (marshalMembers ms ++ rest) := by
  cases ms <;> exact .of_cons (by decide)

variable {js : List Json} {ms : List (String × Json)} {key : String}

theorem value_array (h : items n (marshal j ++ (marshalItems js ++ rest)) = some (j :: js, rest)) :
    value (n + 1) (marshal (.array (j :: js)) ++ rest) = some (.array (j :: js), rest) := by
  obtain ⟨c, cs, hc, hs, hb⟩ := marshal_cons j
  rw [hc] at h
  simp only [marshal, hc, List.cons_append, List.append_assoc, value, skip_cons (show isSpace '[' = false from rfl)]
  rw [skip_cons hs]
  split
  case h_1 h' => exact absurd (List.cons.inj h').left hb
  case h_2    => rw [← List.cons_append, h]; rfl

theorem value_object
    (h : members n (quote key ++ ':' :: marshal j ++ (marshalMembers ms ++ rest)) = some ((key, j) :: ms, rest)) :
    value (n + 1) (marshal (.object ((key, j) :: ms)) ++ rest) = some (.object ((key, j) :: ms), rest) := by
  simp only [quote, List.append_assoc, List.cons_append] at h
  simp only [marshal, quote, List.append_assoc, List.cons_append, value,
    skip_cons (show isSpace '\x7b' = false from rfl), skip_cons (show isSpace '"' = false from rfl)]
  exact congrArg (Option.map fun (ms, rest) => (Json.object ms, rest)) h

theorem items_last (hj : Reads j) (hn : 2 * (marshal j).length ≤ n) :
    items (n + 1) (marshal j ++ (marshalItems [] ++ rest)) = some ([j], rest) := by
  have h := hj hn (@ends_marshalItems rest [])
  simp only [items, h, Option.bind_eq_bind, Option.bind_some]
  rfl

theorem items_next {j' : Json} (hj : Reads j) (hn : 2 * (marshal j).length ≤ n)
    (h : items n (marshal j' ++ (marshalItems js ++ rest)) = some (j' :: js, rest)) :
    items (n + 1) (marshal j ++ (marshalItems (j' :: js) ++ rest)) = some (j :: j' :: js, rest) := by
  have hv := hj hn (@ends_marshalItems rest (j' :: js))
  simp only [items, hv, Option.bind_eq_bind, Option.bind_some]
  simp [marshalItems, skip_cons, isSpace, h]

theorem members_last (hj : Reads j) (hn : 2 * (marshal j).length ≤ n) :
    members (n + 1) (quote key ++ ':' :: marshal j ++ (marshalMembers [] ++ rest)) = some ([(key, j)], rest) := by
  have h := hj hn (@ends_marshalMembers rest [])
  obtain ⟨l, hl, ht⟩ := @chars_quote (':' :: (marshal j ++ (marshalMembers [] ++ rest))) key
  simp only [quote, List.append_assoc, List.cons_append, members, skip_cons (show isSpace '"' = false from rfl),
    List.nil_append, hl, Option.bind_eq_bind, Option.bind_some, skip_cons (show isSpace ':' = false from rfl), h, ht]
  rfl

theorem members_next {key' : String} {j' : Json} (hj : Reads j) (hn : 2 * (marshal j).length ≤ n)
    (h : members n (quote key' ++ ':' :: marshal j' ++ (marshalMembers ms ++ rest)) = some ((key', j') :: ms, rest)) :
    members (n + 1) (quote key ++ ':' :: marshal j ++ (marshalMembers ((key', j') :: ms) ++ rest)) =
      some ((key, j) :: (key', j') :: ms, rest) := by
  have hv := hj hn (@ends_marshalMembers rest ((key', j') :: ms))
  obtain ⟨l, hl, ht⟩ := @chars_quote (':' :: (marshal j ++ (marshalMembers ((key', j') :: ms) ++ rest))) key
  simp only [quote, List.append_assoc, List.cons_append, List.nil_append] at h
  simp only [quote, List.append_assoc, List.cons_append, members, skip_cons (show isSpace '"' = false from rfl),
    List.nil_append, hl, Option.bind_eq_bind, Option.bind_some, skip_cons (show isSpace ':' = false from rfl), hv, ht]
  simp only [marshalMembers, quote, List.append_assoc, List.cons_append, List.nil_append,
    skip_cons (show isSpace ',' = false from rfl), h]
  rfl

-- There is a step left for each text that is not empty.
theorem exists_step {k : Nat} (hk : 0 < k) (hn : 2 * k ≤ n) : ∃ n', n = n' + 1 :=
  Nat.exists_eq_add_one.mpr (by omega)

mutual

theorem reads : (j : Json) → Reads j
  | .null                    => fun hn _ => by
    obtain ⟨n, rfl⟩ := exists_step (length_marshal .null) hn
    exact value_scalar (by decide) (by decide)
  | .bool b                  => fun hn _ => by
    obtain ⟨n, rfl⟩ := exists_step (length_marshal <| .bool b) hn
    cases b <;> exact value_scalar (by decide) (by decide)
  | .number m e              => fun hn hr => by
    obtain ⟨n, rfl⟩ := exists_step (length_marshal <| .number m e) hn
    exact value_number m e hr
  | .string s                => fun hn _ => by
    obtain ⟨n, rfl⟩ := exists_step (length_marshal <| .string s) hn
    exact value_quote s
  | .array []                => fun hn _ => by
    obtain ⟨n, rfl⟩ := exists_step (length_marshal <| .array []) hn
    rfl
  | .array (j :: js)         => fun hn _ => by
    obtain ⟨n, rfl⟩ := exists_step (length_marshal <| .array (j :: js)) hn
    simp only [marshal, List.cons_append, List.length_cons, List.length_append] at hn
    exact value_array <| items_marshal js (reads j) (by omega)
  | .object []               => fun hn _ => by
    obtain ⟨n, rfl⟩ := exists_step (length_marshal <| .object []) hn
    rfl
  | .object ((key, j) :: ms) => fun hn _ => by
    obtain ⟨n, rfl⟩ := exists_step (length_marshal <| .object ((key, j) :: ms)) hn
    simp only [marshal, List.cons_append, List.append_assoc, List.length_cons, List.length_append] at hn
    exact value_object <| members_marshal ms (reads j) (by omega)

theorem items_marshal : (js : List Json) → {j : Json} → Reads j → {n : Nat} → {rest : List Char} →
    2 * ((marshal j).length + (marshalItems js).length) < n →
    items n (marshal j ++ (marshalItems js ++ rest)) = some (j :: js, rest)
  | _, _, _, 0, _, hn             => absurd hn (Nat.not_lt_zero _)
  | [], _, hj, _ + 1, _, hn       => items_last hj (by omega)
  | j' :: js, _, hj, _ + 1, _, hn => by
    simp only [marshalItems, List.cons_append, List.length_cons, List.length_append] at hn
    exact items_next hj (by omega) <| items_marshal js (reads j') (by omega)

theorem members_marshal :
    (ms : List (String × Json)) → {key : String} → {j : Json} → Reads j → {n : Nat} → {rest : List Char} →
    2 * ((marshal j).length + (marshalMembers ms).length) < n →
    members n (quote key ++ ':' :: marshal j ++ (marshalMembers ms ++ rest)) = some ((key, j) :: ms, rest)
  | _, _, _, _, 0, _, hn                     => absurd hn (Nat.not_lt_zero _)
  | [], _, _, hj, _ + 1, _, hn               => members_last hj (by omega)
  | (key', j') :: ms, _, _, hj, _ + 1, _, hn => by
    simp only [marshalMembers, List.cons_append, List.append_assoc, List.length_cons, List.length_append] at hn
    exact members_next hj (by omega) <| members_marshal ms (reads j') (by omega)

end

-- Reading what has been written gives back the value.
theorem parse_marshal (j : Json) : parse (marshal j) = some j := by
  have h := @reads j (2 * (marshal j).length + 2) [] (Nat.le_add_right _ _) (fun _ hc => nomatch hc)
  rw [List.append_nil] at h
  rw [parse, h]
  rfl

-- Neither a control character nor a line break.
abbrev Printable (l : List Char) : Prop :=
  ∀ c ∈ l, 32 ≤ c.toNat

theorem printable_of_all (h : l.all fun c => 32 ≤ c.toNat) : Printable l := by
  simpa using h

theorem hexDigit_printable : ∀ n < 16, 32 ≤ (hexDigit n).toNat := by
  decide

theorem unicode_printable {n : Nat} (h : n < 65536) : Printable (unicode n) := by
  simp only [unicode, List.forall_mem_cons, List.not_mem_nil, false_imp_iff, implies_true, and_true]
  exact ⟨by decide, by decide, hexDigit_printable _ (by omega), hexDigit_printable _ (by omega),
    hexDigit_printable _ (by omega), hexDigit_printable _ (by omega)⟩

theorem escape_printable (c : Char) : Printable (escape c) := by
  unfold escape
  split_ifs with h₁ h₂ h₃ h₄ h₅ h₆ h₇ h₈
  · exact printable_of_all rfl
  · exact printable_of_all rfl
  · exact printable_of_all rfl
  · exact printable_of_all rfl
  · exact printable_of_all rfl
  · exact printable_of_all rfl
  · exact printable_of_all rfl
  · exact unicode_printable (lt_of_escaped h₈)
  · rintro d (_ | ⟨_, ⟨⟩⟩)
    omega

theorem quote_printable (s : String) : Printable (quote s) := by
  have he : Printable (s.toList.flatMap escape) := by
    intro c hc
    obtain ⟨d, -, hd⟩ := List.mem_flatMap.mp hc
    exact escape_printable d c hd
  simp only [quote, List.cons_append, List.forall_mem_cons, List.forall_mem_append, List.not_mem_nil, false_imp_iff,
    implies_true, and_true]
  exact ⟨by decide, he, by decide⟩

theorem toDigits_printable (n : Nat) : Printable (Nat.toDigits 10 n) :=
  fun c hc => Nat.le_trans (by decide) (Char.isDigit_iff_toNat.mp <| isDigit_toDigits n c hc).left

theorem toString_printable (m : Int) : Printable (toString m).toList := by
  cases m
  case ofNat m   => rw [Text.toList_toString_ofNat]; exact toDigits_printable m
  case negSucc m =>
    rw [Text.toList_toString_negSucc]
    exact List.forall_mem_cons.mpr ⟨by decide, toDigits_printable _⟩

theorem magnitude_printable (e : Int) : Printable (magnitude e) := by
  unfold magnitude
  split
  case isTrue  => exact fun _ hc => nomatch hc
  case isFalse => exact List.forall_mem_cons.mpr ⟨by decide, toString_printable e⟩

-- A text of a value is a single line, as there are no control characters in it.
mutual

theorem printable : (j : Json) → Printable (marshal j)
  | .null                    => printable_of_all rfl
  | .bool true               => printable_of_all rfl
  | .bool false              => printable_of_all rfl
  | .number m e              => by
    rw [marshal]
    exact List.forall_mem_append.mpr ⟨toString_printable m, magnitude_printable e⟩
  | .string s                => quote_printable s
  | .array []                => printable_of_all rfl
  | .array (j :: js)         => by
    simp only [marshal, List.cons_append, List.forall_mem_cons, List.forall_mem_append]
    exact ⟨by decide, printable j, items_printable js⟩
  | .object []               => printable_of_all rfl
  | .object ((key, j) :: ms) => by
    simp only [marshal, List.cons_append, List.append_assoc, List.forall_mem_cons, List.forall_mem_append]
    exact ⟨by decide, quote_printable key, by decide, printable j, members_printable ms⟩

theorem items_printable : (js : List Json) → Printable (marshalItems js)
  | []      => printable_of_all rfl
  | j :: js => by
    simp only [marshalItems, List.cons_append, List.forall_mem_cons, List.forall_mem_append]
    exact ⟨by decide, printable j, items_printable js⟩

theorem members_printable : (ms : List (String × Json)) → Printable (marshalMembers ms)
  | []             => printable_of_all rfl
  | (key, j) :: ms => by
    simp only [marshalMembers, List.cons_append, List.append_assoc, List.forall_mem_cons, List.forall_mem_append]
    exact ⟨by decide, quote_printable key, by decide, printable j, members_printable ms⟩

end

end Json
