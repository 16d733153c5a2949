/-!
Where things stand in a source text. Offsets and spans count bytes of UTF-8, lines and columns count
from one and columns count characters. Lines and columns have 32 bits, so a count that does not fit starts
again at zero. What a fault shows to the reader of a report points at spans.
-/

namespace OliCompiler

/-- The number of bytes that a text takes in UTF-8. -/
def byteLength (text : List Char) : Nat :=
  text.foldr (fun c length => c.utf8Size + length) 0

@[simp] theorem byteLength_nil : byteLength [] = 0 := rfl

@[simp] theorem byteLength_cons (c : Char) (text : List Char) :
    byteLength (c :: text) = c.utf8Size + byteLength text := rfl

@[simp] theorem byteLength_append (a b : List Char) :
    byteLength (a ++ b) = byteLength a + byteLength b := by
  induction a with
  | nil => simp
  | cons c a ih => simp [ih, Nat.add_assoc]

/-- A range of byte offsets; `stop` is the first offset behind it. -/
structure Span where
  start : Nat
  stop : Nat
deriving DecidableEq, Repr, Inhabited

namespace Span

/-- The empty span at one offset. -/
def point (offset : Nat) : Span := ⟨offset, offset⟩

/-- The least span that covers both. -/
def merge (a b : Span) : Span := ⟨min a.start b.start, max a.stop b.stop⟩

/-- The number of bytes in the span. -/
def length (span : Span) : Nat := span.stop - span.start

/-- Written `start..stop`. -/
def text (span : Span) : String := toString span.start ++ ".." ++ toString span.stop

end Span

/-- A line and a column, both counted from one. -/
structure Position where
  line : UInt32
  column : UInt32
deriving DecidableEq, Repr, Inhabited

namespace Position

/-- The position of the first character of a text. -/
def first : Position := ⟨1, 1⟩

/-- The position behind a character: a newline opens the next line. -/
def next (position : Position) (c : Char) : Position :=
  if c = '\n' then ⟨position.line + 1, 1⟩ else ⟨position.line, position.column + 1⟩

/-- Written `line:column`. -/
def text (position : Position) : String :=
  toString position.line ++ ":" ++ toString position.column

end Position

/-- A place between two characters of a text: its byte offset and its position. -/
structure Place where
  offset : Nat
  position : Position
deriving DecidableEq, Repr, Inhabited

namespace Place

/-- The place before the first character. -/
def start : Place := ⟨0, .first⟩

/-- The place behind one more character. -/
def next (place : Place) (c : Char) : Place :=
  ⟨place.offset + c.utf8Size, place.position.next c⟩

/-- The place behind a piece of text. -/
def after (place : Place) (text : List Char) : Place :=
  text.foldl next place

@[simp] theorem after_nil (place : Place) : place.after [] = place := rfl

@[simp] theorem after_cons (place : Place) (c : Char) (text : List Char) :
    place.after (c :: text) = (place.next c).after text := rfl

theorem after_append (place : Place) (a b : List Char) :
    place.after (a ++ b) = (place.after a).after b := by
  simp [after]

/-- Offsets advance by the bytes of the text passed. -/
theorem after_offset (place : Place) (text : List Char) :
    (place.after text).offset = place.offset + byteLength text := by
  induction text generalizing place with
  | nil => simp
  | cons c text ih => simp [ih, next, Nat.add_assoc]

end Place

/-- What a report shows of a fault: a message, a code that names the kind of fault, a hint, and labels on the
source text. -/
structure Diagnostic where
  message : String
  code : String
  help : Option String
  labels : List (String × Span)
deriving DecidableEq, Repr

end OliCompiler
