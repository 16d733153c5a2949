import OliCompiler.Token.Scan

/-!
The rules by which source text falls into pieces. A piece is the longest that some rule matches at its
place; where a keyword and an identifier match the same piece it is the keyword, and where nothing
matches the piece is a single character. Behind a variable a step is written out as an assignment.
-/

namespace OliCompiler.Scanning

/-- The characters of blank space. -/
def blanks : List Char := [' ', '\t', '\r', '\n', '\x0c']

def IsDigit (c : Char) : Prop := '0' ≤ c ∧ c ≤ '9'

def IsLetter (c : Char) : Prop := ('a' ≤ c ∧ c ≤ 'z') ∨ ('A' ≤ c ∧ c ≤ 'Z') ∨ c = '_'

instance : DecidablePred IsDigit := fun _ => inferInstanceAs (Decidable (_ ∧ _))

instance : DecidablePred IsLetter := fun _ => inferInstanceAs (Decidable (_ ∨ _ ∨ _))

/-- Whether a text is a letter with letters and digits behind it. -/
def IsName (text : List Char) : Prop :=
  ∃ first others, text = first :: others ∧ IsLetter first ∧ ∀ c ∈ others, IsLetter c ∨ IsDigit c

instance : DecidablePred IsName
  | [] => .isFalse (by rintro ⟨_, _, same, _⟩; cases same)
  | first :: others =>
    decidable_of_iff (IsLetter first ∧ others.all fun c => IsLetter c ∨ IsDigit c)
      ⟨fun holds => ⟨first, others, rfl, by simpa using holds⟩,
        by rintro ⟨_, _, ⟨⟩, holds⟩; simpa using holds⟩

/-- The kinds of tokens, other than keywords, that are always written the same. -/
def symbols : List Token.Kind :=
  [.operator (.arith .add), .operator (.arith .sub), .operator (.arith .mul), .operator (.arith .div),
    .operator (.compare .eq), .operator (.compare .ne), .operator (.compare .lt),
    .operator (.compare .gt), .operator (.compare .le), .operator (.compare .ge), .assign, .step .up,
    .step .down, .openParen, .closeParen, .openBrace, .closeBrace, .comma, .semicolon]

/-- Whether `*/` stands somewhere in a text. -/
def HoldsClose (text : List Char) : Prop := ['*', '/'] <:+: text

/-- Whether the first `*/` of a text stands at its end. -/
def EndsWithClose (text : List Char) : Prop :=
  ∃ inside, text = inside ++ ['*', '/'] ∧ ¬ HoldsClose (inside ++ ['*'])

inductive Rule where
  | blank
  | lineComment
  | blockComment
  | integer
  | identifier
  | keyword (word : Keyword)
  | symbol (kind : Token.Kind)
deriving DecidableEq, Repr

/-- Whether a rule matches a piece of text that has `rest` behind it. -/
def Rule.Matches : Rule → (piece rest : List Char) → Prop
  | blank, piece, _ => piece ≠ [] ∧ ∀ c ∈ piece, c ∈ blanks
  | lineComment, piece, _ => ∃ body, piece = '/' :: '/' :: body ∧ '\n' ∉ body
  | blockComment, piece, rest =>
    ∃ body, piece = '/' :: '*' :: body ∧ (EndsWithClose body ∨ rest = [] ∧ ¬ HoldsClose body)
  | integer, piece, _ => piece ≠ [] ∧ ∀ c ∈ piece, IsDigit c
  | identifier, piece, _ => IsName piece
  | keyword word, piece, _ => piece = word.word.toList
  | symbol kind, piece, _ => kind ∈ symbols ∧ piece = kind.wording.toList

/-- Whether a rule matches a piece, no rule matches more of the text, and no keyword takes it. -/
structure Longest (rule : Rule) (piece rest : List Char) : Prop where
  fits : rule.Matches piece rest
  longest : ∀ (rule' : Rule) piece' rest', piece' ++ rest' = piece ++ rest →
    rule'.Matches piece' rest' → piece'.length ≤ piece.length
  keyword : rule = .identifier → ∀ word, ¬ (Rule.keyword word).Matches piece rest

/-- A piece of text with the rule that it is taken by; without one it is a stray character. -/
structure Piece where
  rule : Option Rule
  text : List Char
deriving DecidableEq, Repr

/-- Whether a piece is the first of a text: the longest that a rule matches or, where no rule matches,
a single character. -/
inductive Falls : (text : List Char) → Piece → (rest : List Char) → Prop where
  | longest {rule : Rule} {piece rest : List Char} (fits : Longest rule piece rest) :
    Falls (piece ++ rest) ⟨some rule, piece⟩ rest
  | stray {c : Char} {rest : List Char}
    (unmatched : ∀ (rule : Rule) piece rest', piece ++ rest' = c :: rest →
      ¬ rule.Matches piece rest') :
    Falls (c :: rest) ⟨none, [c]⟩ rest

/-- How a text falls into pieces, from left to right. -/
inductive Splits : List Char → List Piece → Prop where
  | nil : Splits [] []
  | cons {text rest : List Char} {piece : Piece} {pieces : List Piece}
    (first : Falls text piece rest) (others : Splits rest pieces) : Splits text (piece :: pieces)

/-! ## Steps -/

/-- What a step does to its variable: `++` adds to it, `--` takes away from it. -/
def changeOf : Step → BinaryOp
  | .up => .arith .add
  | .down => .arith .sub

/-- The tokens that a step of the variable `name` is written out with, `= name + 1` or `= name - 1`, all of
them at its own place. -/
def stepRow (direction : Step) (name : String) (position : Position) (span : Span) : List Token :=
  [⟨.assign, none, position, span⟩, ⟨.identifier, some name, position, span⟩,
    ⟨.operator (changeOf direction), none, position, span⟩, ⟨.integer, some "1", position, span⟩]

theorem operator_eq (direction : Step) : direction.operator = changeOf direction := by
  cases direction <;> rfl

theorem stepTokens_eq : Scan.stepTokens = stepRow := by
  funext direction name position span
  rw [Scan.stepTokens, stepRow, operator_eq]

end OliCompiler.Scanning
