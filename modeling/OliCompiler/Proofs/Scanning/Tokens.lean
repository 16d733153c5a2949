import OliCompiler.Proofs.Scanning.Longest
import OliCompiler.Proofs.Scanning.Positions
import OliCompiler.Token.Scan

/-!
The tokens of a text. Each piece gives its tokens in turn, and they stand where the piece does, which is
where the line index of the text has it.
-/

namespace OliCompiler

namespace Scanning

/-- The bytes of a piece of text behind another. -/
def spanBehind (passed piece : List Char) : Span :=
  ⟨byteLength passed, byteLength passed + byteLength piece⟩

/-- The token of a piece that stands behind the text `passed`. -/
def tokenBehind (passed piece : List Char) (kind : Token.Kind) (value : Option String) : Token :=
  ⟨kind, value, positionBehind passed, spanBehind passed piece⟩

/-- The tokens that a piece gives behind the text `passed` and the tokens `given`. -/
inductive Gives (passed : List Char) (given : List Token) : Piece → List Token → Prop where
  | blank {text : List Char} : Gives passed given ⟨some .blank, text⟩ []
  | lineComment {text : List Char} : Gives passed given ⟨some .lineComment, text⟩ []
  | blockComment {text : List Char} : Gives passed given ⟨some .blockComment, text⟩ []
  | integer {text : List Char} :
    Gives passed given ⟨some .integer, text⟩
      [tokenBehind passed text .integer (some (String.ofList text))]
  | identifier {text : List Char} :
    Gives passed given ⟨some .identifier, text⟩
      [tokenBehind passed text .identifier (some (String.ofList text))]
  | keyword {text : List Char} {word : Keyword} :
    Gives passed given ⟨some (.keyword word), text⟩ [tokenBehind passed text (.keyword word) none]
  | symbol {text : List Char} {kind : Token.Kind} (plain : ∀ direction, kind ≠ .step direction) :
    Gives passed given ⟨some (.symbol kind), text⟩ [tokenBehind passed text kind none]
  /-- Behind an identifier `x` a step stands for `= x + 1` or `= x - 1`. -/
  | step {text : List Char} {direction : Step} {target : Token} (last : given.getLast? = some target)
    (named : target.kind = .identifier) :
    Gives passed given ⟨some (.symbol (.step direction)), text⟩
      (stepRow direction target.text (positionBehind passed) (spanBehind passed text))
  | dangling {text : List Char} {direction : Step}
    (last : ∀ target, given.getLast? = some target → target.kind ≠ .identifier) :
    Gives passed given ⟨some (.symbol (.step direction)), text⟩ []
  | stray {text : List Char} :
    Gives passed given ⟨none, text⟩ [tokenBehind passed text .unknown none]

/-- The tokens that pieces give behind the text `passed` and the tokens `given`. One more stands for
the end of the text. -/
inductive Tokenizes : (passed : List Char) → (given : List Token) → List Piece → List Token → Prop
  | nil {passed : List Char} {given : List Token} :
    Tokenizes passed given [] [tokenBehind passed [] .endOfFile none]
  | cons {passed : List Char} {given tokens later : List Token} {piece : Piece} {pieces : List Piece}
    (first : Gives passed given piece tokens)
    (others : Tokenizes (passed ++ piece.text) (given ++ tokens) pieces later) :
    Tokenizes passed given (piece :: pieces) (tokens ++ later)

variable {passed : List Char} {given tokens tokens' : List Token} {piece : Piece}
  {pieces : List Piece} {lexeme : Lexeme}

theorem Gives.unique (one : Gives passed given piece tokens)
    (other : Gives passed given piece tokens') : tokens = tokens' := by
  cases one with
  | symbol plain =>
    cases other with
    | symbol => rfl
    | step | dangling => exact absurd rfl (plain _)
  | step last named =>
    cases other with
    | symbol plain => exact absurd rfl (plain _)
    | step last' =>
      obtain rfl := Option.some.inj (last.symm.trans last')
      rfl
    | dangling free => exact absurd named (free _ last)
  | dangling free =>
    cases other with
    | symbol plain => exact absurd rfl (plain _)
    | step last named => exact absurd named (free _ last)
    | dangling => rfl
  | _ =>
    cases other
    rfl

theorem Tokenizes.unique (one : Tokenizes passed given pieces tokens)
    (other : Tokenizes passed given pieces tokens') : tokens = tokens' := by
  induction one generalizing tokens' with
  | nil =>
    cases other
    rfl
  | cons first _ ih =>
    cases other with
    | cons first' others' =>
      obtain rfl := first.unique first'
      rw [ih others']

theorem step_gives (direction : Step) (text : List Char) :
    Gives passed given ⟨some (.symbol (.step direction)), text⟩
      (Scan.ofLexeme ⟨byteLength passed, positionBehind passed⟩ given.getLast?
        ⟨.symbol (.step direction), text⟩).tokens := by
  rw [Scan.ofLexeme]
  cases last : given.getLast? with
  | none =>
    refine .dangling fun target found => ?_
    rw [last] at found
    cases found
  | some target =>
    rw [Option.bind_some, Token.identifier?]
    by_cases named : target.kind = .identifier
    · rw [if_pos named]
      exact .step last named
    · rw [if_neg named]
      refine .dangling fun target' found => ?_
      obtain rfl := Option.some.inj (last.symm.trans found)
      exact named

theorem ofLexeme_gives :
    Gives passed given (.ofLexeme lexeme)
      (Scan.ofLexeme (Place.start.after passed) given.getLast? lexeme).tokens := by
  rw [after_start]
  obtain ⟨shape, text⟩ := lexeme
  cases shape with
  | blank => exact .blank
  | lineComment => exact .lineComment
  | blockComment closed =>
    cases closed with
    | false => exact .blockComment
    | true => exact .blockComment
  | integer => exact .integer
  | word =>
    rw [Piece.ofLexeme, Rule.ofWord, Scan.ofLexeme]
    cases Keyword.ofWord? (String.ofList text) with
    | some word => exact .keyword
    | none => exact .identifier
  | symbol kind =>
    cases kind with
    | step direction => exact step_gives direction text
    | _ => exact .symbol (by simp)
  | stray => exact .stray

theorem ofLexemes_tokenizes (lexemes : List Lexeme) :
    Tokenizes passed given (lexemes.map .ofLexeme)
      (Scan.ofLexemes (Place.start.after passed) given.getLast? lexemes).tokens := by
  induction lexemes generalizing passed given with
  | nil =>
    rw [after_start]
    exact .nil
  | cons lexeme lexemes ih =>
    rw [Scan.ofLexemes, ← Place.after_append, ← List.getLast?_append]
    exact .cons ofLexeme_gives ih

/-- Whether a token stands behind a text. -/
structure StandsBehind (passed : List Char) (token : Token) : Prop where
  position : token.position = positionBehind passed
  start : token.span.start = byteLength passed

theorem Gives.standsBehind (gives : Gives passed given piece tokens) :
    ∀ token ∈ tokens, StandsBehind passed token := by
  cases gives with
  | blank | lineComment | blockComment | dangling => exact List.forall_mem_nil _
  | integer | identifier | keyword | symbol | stray => exact List.forall_mem_singleton.mpr ⟨rfl, rfl⟩
  | step =>
    intro token member
    simp only [stepRow, List.mem_cons, List.not_mem_nil, or_false] at member
    rcases member with rfl | rfl | rfl | rfl <;> exact ⟨rfl, rfl⟩

theorem Tokenizes.standsBehind (tokenizes : Tokenizes passed given pieces tokens) :
    ∀ token ∈ tokens, ∃ before after, passed ++ pieces.flatMap (·.text) = before ++ after ∧
      StandsBehind before token := by
  induction tokenizes with
  | nil => exact List.forall_mem_singleton.mpr ⟨_, [], rfl, rfl, rfl⟩
  | cons first _ ih =>
    refine List.forall_mem_append.mpr ⟨fun token member => ?_, fun token member => ?_⟩
    · exact ⟨_, _, rfl, first.standsBehind token member⟩
    · rw [List.flatMap_cons, ← List.append_assoc]
      exact ih token member

end Scanning

open Scanning

theorem scan_tokenizes (source : String) :
    Tokenizes [] [] ((Lexeme.all source.toList).map .ofLexeme) (scan source).tokens :=
  ofLexemes_tokenizes _

/-- Every token stands somewhere in the text. -/
theorem scan_standsBehind {source : String} {token : Token} (member : token ∈ (scan source).tokens) :
    ∃ before after, source.toList = before ++ after ∧ StandsBehind before token := by
  obtain ⟨before, after, whole, stands⟩ := (scan_tokenizes source).standsBehind token member
  rw [List.nil_append, List.flatMap_map] at whole
  exact ⟨before, after, (Lexeme.flatMap_text_all source.toList).symm.trans whole, stands⟩

/-- Tokens have the positions that the line index of the text tells of their first bytes. -/
theorem scan_token_position {source : String} {token : Token} (member : token ∈ (scan source).tokens) :
    token.position = (LineIndex.ofText source.toList).position token.span.start := by
  obtain ⟨before, after, whole, stands⟩ := scan_standsBehind member
  rw [stands.position, stands.start, whole, LineIndex.position_append]

/-- A text falls into pieces in one way, with every character in one of them, and the tokens that it is
scanned to are those that the pieces give. Their positions are those that the line index of the text tells. -/
theorem scan_splits (source : String) : ∃ pieces,
    (∀ others, Splits source.toList others ↔ others = pieces) ∧
    pieces.flatMap (·.text) = source.toList ∧
    (∀ tokens, Tokenizes [] [] pieces tokens ↔ tokens = (scan source).tokens) ∧
    ∀ token ∈ (scan source).tokens,
      token.position = (LineIndex.ofText source.toList).position token.span.start := by
  refine ⟨(Lexeme.all source.toList).map .ofLexeme, fun others => splits_iff, ?_, fun tokens => ?_,
    fun token member => scan_token_position member⟩
  · rw [List.flatMap_map]
    exact Lexeme.flatMap_text_all source.toList
  · constructor
    · exact fun given => given.unique (scan_tokenizes source)
    · rintro rfl
      exact scan_tokenizes source

end OliCompiler
