import Mathlib.Data.List.TakeDrop

-- The stream of server-sent events as the HTML standard interprets it.
namespace EventStream

structure Message where
  type        : String
  data        : String
  lastEventID : String

structure Buffers where
  data        : List Char
  eventType   : List Char
  lastEventID : List Char
  messages    : List Message

namespace Buffers

def empty : Buffers where
  data        := []
  eventType   := []
  lastEventID := []
  messages    := []

-- An event without a type is a message. The line feed after the last line of the data is dropped.
def dispatch (b : Buffers) : Buffers :=
  if b.data = [] then
    { b with eventType := [] }
  else
    let message := {
      type        := if b.eventType = [] then "message" else .ofList b.eventType
      data        := .ofList b.data.dropLast
      lastEventID := .ofList b.lastEventID
    }
    { b with data := [], eventType := [], messages := b.messages ++ [message] }

-- The reconnection time does not matter to what is dispatched.
def process (b : Buffers) (field value : List Char) : Buffers :=
  if field = "event".toList then
    { b with eventType := value }
  else if field = "data".toList then
    { b with data := b.data ++ value ++ ['\n'] }
  else if field = "id".toList ∧ Char.ofNat 0 ∉ value then
    { b with lastEventID := value }
  else
    b

-- A line without a colon is a field without a value, and a line that starts with one is a comment.
def interpret (b : Buffers) (line : List Char) : Buffers :=
  if line = [] then
    b.dispatch
  else
    match line.span (· ≠ ':') with
    | ([], _)                     => b
    | (field, ':' :: ' ' :: rest) => b.process field rest
    | (field, ':' :: rest)        => b.process field rest
    | (field, _)                  => b.process field []

end Buffers

-- A line ends with a line feed, a carriage return, or both.
structure Reader where
  line     : List Char
  returned : Bool
  buffers  : Buffers

def Reader.accept (r : Reader) (c : Char) : Reader :=
  if c = '\n' ∧ r.returned then
    { r with returned := false }
  else if c = '\n' then
    { line := [], returned := false, buffers := r.buffers.interpret r.line }
  else if c = '\r' then
    { line := [], returned := true, buffers := r.buffers.interpret r.line }
  else
    { line := r.line ++ [c], returned := false, buffers := r.buffers }

def Reader.feed (r : Reader) (content : List Char) : Reader :=
  content.foldl accept r

-- A reader at the beginning of a line.
def Buffers.reader (b : Buffers) : Reader where
  line     := []
  returned := false
  buffers  := b

-- What is dispatched when the content arrives. An event is not dispatched before its last line has ended.
def decode (content : List Char) : List Message :=
  (Buffers.empty.reader.feed content).buffers.messages

variable {r : Reader} {b : Buffers} {l l' field value type content : List Char}

theorem feed_append : r.feed (l ++ l') = (r.feed l).feed l' :=
  List.foldl_append

-- A text within a single line.
abbrev Inline (l : List Char) : Prop :=
  ∀ c ∈ l, c ≠ '\n' ∧ c ≠ '\r'

theorem inline_of_all (h : l.all fun c => c ≠ '\n' && c ≠ '\r') : Inline l := by
  simpa using h

theorem feed_inline (h : Inline l) (hr : r.returned = false) :
    r.feed l = { line := r.line ++ l, returned := false, buffers := r.buffers } := by
  induction l generalizing r
  case nil         => simp [Reader.feed, ← hr]
  case cons c l hi =>
    have ⟨⟨hn, hc⟩, hl⟩ := List.forall_mem_cons.mp h
    have ha : r.accept c = { line := r.line ++ [c], returned := false, buffers := r.buffers } := by
      simp [Reader.accept, hn, hc]
    rw [Reader.feed, List.foldl_cons, ha]
    exact (hi hl rfl).trans <| by simp

theorem feed_line (hl : Inline l) : b.reader.feed (l ++ '\n' :: content) = (b.interpret l).reader.feed content := by
  rw [feed_append, feed_inline hl rfl]
  rfl

theorem span_field (hf : ':' ∉ field) : (field ++ ':' :: value).span (· ≠ ':') = (field, ':' :: value) := by
  have hc : ∀ c ∈ field, decide (c ≠ ':') := fun c hc => decide_eq_true fun h => hf (h ▸ hc)
  rw [List.span_eq_takeWhile_dropWhile, List.takeWhile_append_of_pos hc, List.dropWhile_append_of_pos hc]
  simp only [ne_eq, not_true_eq_false, decide_false, List.takeWhile_cons, List.dropWhile_cons]
  simp

theorem interpret_field (hf : ':' ∉ field) (hn : field ≠ []) :
    b.interpret (field ++ ':' :: ' ' :: value) = b.process field value := by
  rw [Buffers.interpret, if_neg (by simp), span_field hf]
  cases field
  case nil  => contradiction
  case cons => rfl

theorem interpret_comment : b.interpret (':' :: value) = b := by
  rw [Buffers.interpret, if_neg (List.cons_ne_nil _ _), ← List.nil_append (':' :: value),
    span_field List.not_mem_nil]

theorem interpret_event : b.interpret ("event: ".toList ++ type) = { b with eventType := type } :=
  @interpret_field b ['e', 'v', 'e', 'n', 't'] type (by decide) (by decide)

theorem interpret_data : b.interpret ("data: ".toList ++ value) = { b with data := b.data ++ value ++ ['\n'] } :=
  @interpret_field b ['d', 'a', 't', 'a'] value (by decide) (by decide)

theorem feed_blank : b.reader.feed ('\n' :: content) = b.dispatch.reader.feed content :=
  rfl

-- The message of an event whose type and data are given in a line each.
def Buffers.sent (b : Buffers) (type value : List Char) : Message where
  type        := if type = [] then "message" else .ofList type
  data        := .ofList value
  lastEventID := .ofList b.lastEventID

theorem dispatch_sent (hd : b.data = []) :
    Buffers.dispatch { b with eventType := type, data := b.data ++ value ++ ['\n'] } =
      { b with eventType := [], messages := b.messages ++ [b.sent type value] } := by
  simp [Buffers.dispatch, Buffers.sent, hd]

theorem feed_event (hd : b.data = []) (ht : Inline type) (hv : Inline value) :
    b.reader.feed ("event: ".toList ++ type ++ '\n' :: ("data: ".toList ++ value ++ '\n' :: '\n' :: content)) =
      (Buffers.reader { b with eventType := [], messages := b.messages ++ [b.sent type value] }).feed content := by
  have he : Inline ("event: ".toList ++ type) := List.forall_mem_append.mpr ⟨inline_of_all rfl, ht⟩
  have hl : Inline ("data: ".toList ++ value) := List.forall_mem_append.mpr ⟨inline_of_all rfl, hv⟩
  rw [feed_line he, interpret_event, feed_line hl, interpret_data, feed_blank, dispatch_sent hd]

-- A comment and a blank line leave nothing behind.
theorem feed_comment (hd : b.data = []) (he : b.eventType = []) (hv : Inline value) :
    b.reader.feed (':' :: value ++ '\n' :: '\n' :: content) = b.reader.feed content := by
  have hl : Inline (':' :: value) := List.forall_mem_cons.mpr ⟨by decide, hv⟩
  have hb : b.dispatch = b := by
    cases b
    cases hd
    cases he
    rfl
  rw [feed_line hl, interpret_comment, feed_blank, hb]

end EventStream
