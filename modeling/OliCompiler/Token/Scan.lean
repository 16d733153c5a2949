import OliCompiler.Lexeme
import OliCompiler.Token.LexicalError

/-!
From lexemes to tokens. Each lexeme gives its tokens and faults on its own, but for a step operator:
behind an identifier `x` it stands for `= x + 1` or `= x - 1`, so it has to know the token given last.
-/

namespace OliCompiler

/-- The tokens of a text and every lexical fault in it, both in order. -/
structure Scan where
  tokens : List Token
  errors : List LexicalError
deriving DecidableEq, Repr

namespace Scan

/-- The faults of an integer literal that stands at `place`. -/
def integerErrors (place : Place) (digits : List Char) : List LexicalError :=
  match digits with
  | '0' :: second :: _ =>
    let offset := place.offset + 1
    [⟨.leadingZero second, place.position.next '0', ⟨offset, offset + 1⟩⟩]
  | _ =>
    if Decimal.value digits ≤ Decimal.greatest then []
    else
      [⟨.integerOutOfRange (String.ofList digits), place.position,
        ⟨place.offset, place.offset + byteLength digits⟩⟩]

/-- The four tokens that a step of the variable `name` stands for, all at the operator's place. -/
def stepTokens (direction : Step) (name : String) (position : Position) (span : Span) :
    List Token :=
  [⟨.assign, none, position, span⟩, ⟨.identifier, some name, position, span⟩,
    ⟨.operator direction.operator, none, position, span⟩, ⟨.integer, some "1", position, span⟩]

/-- What a lexeme at `place` gives, when `last` is the token given before it. -/
def ofLexeme (place : Place) (last : Option Token) (lexeme : Lexeme) : Scan :=
  let position := place.position
  let span := Span.mk place.offset (place.offset + byteLength lexeme.text)
  let text := String.ofList lexeme.text
  match lexeme.shape with
  | .blank | .lineComment | .blockComment true => ⟨[], []⟩
  | .blockComment false =>
    let finish := place.after lexeme.text
    ⟨[], [⟨.unterminatedComment, finish.position, .point finish.offset⟩]⟩
  | .integer => ⟨[⟨.integer, some text, position, span⟩], integerErrors place lexeme.text⟩
  | .word =>
    match Keyword.ofWord? text with
    | some word => ⟨[⟨.keyword word, none, position, span⟩], []⟩
    | none => ⟨[⟨.identifier, some text, position, span⟩], []⟩
  | .symbol (.step direction) =>
    match last.bind Token.identifier? with
    | some name => ⟨stepTokens direction name position span, []⟩
    | none => ⟨[], [⟨.danglingStep direction, position, span⟩]⟩
  | .symbol kind => ⟨[⟨kind, none, position, span⟩], []⟩
  | .stray =>
    ⟨[⟨.unknown, none, position, span⟩],
      lexeme.text.map fun c => ⟨.unknownCharacter c, position, span⟩⟩

/-- The tokens and faults of the lexemes that begin at `place`; one token for the end closes them. -/
def ofLexemes (place : Place) (last : Option Token) : List Lexeme → Scan
  | [] => ⟨[⟨.endOfFile, none, place.position, .point place.offset⟩], []⟩
  | lexeme :: lexemes =>
    let given := ofLexeme place last lexeme
    let later := ofLexemes (place.after lexeme.text) (given.tokens.getLast?.or last) lexemes
    ⟨given.tokens ++ later.tokens, given.errors ++ later.errors⟩

end Scan

/-- The tokens and lexical faults of a source text. -/
def scan (source : String) : Scan :=
  Scan.ofLexemes .start none (Lexeme.all source.toList)

end OliCompiler
