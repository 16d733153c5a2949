import OliCompiler.Source.Span

/-!
A line index answers at which position a byte offset of a text stands. It is built once: the text, and the
offsets at which its lines start. The line that an offset is in is found by halving.
-/

namespace OliCompiler

/-- A text and the offset of the first character of each of its lines, in order; there is at least one. -/
structure LineIndex where
  text : List Char
  starts : Array Nat
deriving DecidableEq, Repr

namespace LineIndex

/-- The offsets behind the newlines of a text whose first character is at `offset`. -/
def startsBehind (offset : Nat) : List Char → List Nat
  | [] => []
  | c :: text =>
    let later := startsBehind (offset + c.utf8Size) text
    if c = '\n' then (offset + 1) :: later else later

/-- The offsets at which the lines of a text start. -/
def startsOf (text : List Char) : List Nat := 0 :: startsBehind 0 text

/-- The index of a text. -/
def ofText (text : List Char) : LineIndex := ⟨text, (startsOf text).toArray⟩

/-- Of the `size` starts from `first` on, the last that is not behind the offset; if all but the first are
behind it, the first. -/
def narrow (starts : Array Nat) (offset first size : Nat) (fits : first + size ≤ starts.size) : Nat :=
  if many : 1 < size then
    have bound : first + size / 2 < starts.size := by omega
    if starts[first + size / 2] ≤ offset then
      narrow starts offset (first + size / 2) (size - size / 2) (by omega)
    else narrow starts offset first (size - size / 2) (by omega)
  else first
termination_by size

/-- Where an offset is among ascending starts, or else where it can be put among them. -/
def search (starts : Array Nat) (offset : Nat) : Except Nat Nat :=
  let place := narrow starts offset 0 starts.size (Nat.le_of_eq (Nat.zero_add _))
  match starts[place]? with
  | none => .error place
  | some start =>
    if start = offset then .ok place
    else if start < offset then .error (place + 1)
    else .error place

/-- The line, counted from zero, that an offset is in. -/
def lineOf (index : LineIndex) (offset : Nat) : Nat :=
  match search index.starts offset with
  | .ok line => line
  | .error next => next - 1

/-- How many characters of a text end within its first `bytes` bytes. -/
def charsWithin : Nat → List Char → Nat
  | _, [] => 0
  | bytes, c :: text =>
    if c.utf8Size ≤ bytes then charsWithin (bytes - c.utf8Size) text + 1 else 0

/-- A text without its first `bytes` bytes. -/
def textBehind (bytes : Nat) (text : List Char) : List Char := text.drop (charsWithin bytes text)

/-- The position at an offset: its line, and the characters of that line before it. An offset behind the
end counts as the end. -/
def position (index : LineIndex) (offset : Nat) : Position :=
  let offset := min offset (byteLength index.text)
  let line := index.lineOf offset
  let start := index.starts.getD line 0
  let column := charsWithin (offset - start) (textBehind start index.text) + 1
  ⟨.ofNat line + 1, .ofNat column⟩

end LineIndex

end OliCompiler
