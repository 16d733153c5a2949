import OliCompiler.Proofs.Expansion.Readings

/-!
A text further down. What a text gives hangs on its place only in where its tokens and faults stand, and on
the token before it only if its first lexeme, but for blank space and comments, is a step.
-/

namespace OliCompiler

/-- How far a text stands behind the start of another one. -/
structure Shift where
  bytes : Nat
  lines : Nat
deriving DecidableEq, Repr

/-- Whether a lexeme is a step. -/
def Lexeme.IsStep (lexeme : Lexeme) : Prop := ∃ direction, lexeme.shape = .symbol (.step direction)

/-- Whether a lexeme is blank space or a comment. -/
def Lexeme.IsGap (lexeme : Lexeme) : Prop :=
  match lexeme.shape with
  | .blank | .lineComment | .blockComment _ => True
  | .integer | .word | .symbol _ | .stray => False

/-- Whether the first of some lexemes, but for blank space and comments, is a step. -/
inductive StepFirst : List Lexeme → Prop where
  | step {lexeme : Lexeme} {lexemes : List Lexeme} (step : lexeme.IsStep) : StepFirst (lexeme :: lexemes)
  | gap {lexeme : Lexeme} {lexemes : List Lexeme} (gap : lexeme.IsGap) (behind : StepFirst lexemes) :
    StepFirst (lexeme :: lexemes)

theorem ofLexeme_tokens_ne_nil {place : Place} {last : Option Token} {lexeme : Lexeme}
    (solid : ¬lexeme.IsGap) (plain : ¬lexeme.IsStep) : (Scan.ofLexeme place last lexeme).tokens ≠ [] := by
  obtain ⟨shape, text⟩ := lexeme
  cases shape with
  | blank | lineComment | blockComment => exact absurd trivial solid
  | integer | stray => exact List.cons_ne_nil _ _
  | word =>
    simp only [Scan.ofLexeme]
    cases Keyword.ofWord? (String.ofList text) <;> exact List.cons_ne_nil _ _
  | symbol kind =>
    cases kind with
    | step direction => exact absurd ⟨direction, rfl⟩ plain
    | _ => exact List.cons_ne_nil _ _

namespace Shift

open Expansion (targetOf)

section

variable (shift : Shift)

def span (span : Span) : Span := ⟨span.start + shift.bytes, span.stop + shift.bytes⟩

def position (position : Position) : Position := ⟨position.line + .ofNat shift.lines, position.column⟩

def place (place : Place) : Place := ⟨place.offset + shift.bytes, shift.position place.position⟩

def token (token : Token) : Token :=
  { token with position := shift.position token.position, span := shift.span token.span }

def error (error : LexicalError) : LexicalError :=
  { error with position := shift.position error.position, span := shift.span error.span }

def scan (scan : Scan) : Scan := ⟨scan.tokens.map shift.token, scan.errors.map shift.error⟩

end

variable {shift : Shift} {here : Place} {text : List Char} {c : Char} {lexeme : Lexeme}
  {last last' : Option Token}

theorem next_position (position : Position) :
    (shift.position position).next c = shift.position (position.next c) := by
  unfold Position.next
  split
  · refine congrArg (Position.mk · 1) ?_
    rw [Shift.position, UInt32.add_assoc, UInt32.add_assoc, UInt32.add_comm 1]
  · rfl

theorem after_place : (shift.place here).after text = shift.place (here.after text) := by
  induction text generalizing here with
  | nil => rfl
  | cons c text ih =>
    have one : (shift.place here).next c = shift.place (here.next c) :=
      congr (congrArg Place.mk (Nat.add_right_comm _ _ _)) (next_position _)
    rw [Place.after_cons, one, ih, Place.after_cons]

theorem span_place (length : Nat) :
    Span.mk (shift.place here).offset ((shift.place here).offset + length) =
      shift.span ⟨here.offset, here.offset + length⟩ :=
  congrArg (Span.mk _) (Nat.add_right_comm _ _ _)

theorem integerErrors_place (digits : List Char) :
    Scan.integerErrors (shift.place here) digits =
      (Scan.integerErrors here digits).map shift.error := by
  unfold Scan.integerErrors
  split
  · simp only [List.map_cons, List.map_nil, error, place, next_position, span,
      Nat.add_right_comm _ shift.bytes]
  · split
    · rfl
    · rw [span_place]
      rfl

/-- Only a step asks what was before it, and then only which variable it names. -/
theorem ofLexeme_place (same : targetOf last' = targetOf last ∨ ¬lexeme.IsStep) :
    Scan.ofLexeme (shift.place here) last' lexeme = shift.scan (Scan.ofLexeme here last lexeme) := by
  obtain ⟨shape, text⟩ := lexeme
  simp only [Scan.ofLexeme, span_place, after_place, integerErrors_place]
  cases shape with
  | blank | lineComment | integer => rfl
  | blockComment closed => cases closed <;> rfl
  | word => cases Keyword.ofWord? (String.ofList text) <;> rfl
  | symbol kind =>
    cases kind with
    | step direction =>
      have same := same.resolve_right fun plain => plain ⟨direction, rfl⟩
      dsimp only
      rw [show last'.bind Token.identifier? = last.bind Token.identifier? from same]
      cases last.bind Token.identifier? <;> rfl
    | _ => rfl
  | stray =>
    simp only [scan, List.map_map]
    rfl

/-- The variable named does not hang on where the token stands. -/
theorem targetOf_shifted (tokens : List Token) (same : targetOf last' = targetOf last ∨ tokens ≠ []) :
    targetOf ((tokens.map shift.token).getLast?.or last') = targetOf (tokens.getLast?.or last) := by
  rw [List.getLast?_map]
  cases found : tokens.getLast? with
  | some token => rfl
  | none =>
    obtain rfl := List.getLast?_eq_none_iff.mp found
    exact same.resolve_right fun some => some rfl

theorem ofLexemes_place {lexemes : List Lexeme} (free : targetOf last' = targetOf last ∨ ¬StepFirst lexemes) :
    Scan.ofLexemes (shift.place here) last' lexemes = shift.scan (Scan.ofLexemes here last lexemes) := by
  induction lexemes generalizing here last last' with
  | nil => rfl
  | cons lexeme lexemes ih =>
    have one : Scan.ofLexeme (shift.place here) last' lexeme = shift.scan (.ofLexeme here last lexeme) :=
      ofLexeme_place (free.imp_right fun plain step => plain (.step step))
    have others : targetOf ((shift.scan (.ofLexeme here last lexeme)).tokens.getLast?.or last') =
        targetOf ((Scan.ofLexeme here last lexeme).tokens.getLast?.or last) ∨ ¬StepFirst lexemes := by
      rcases free with same | plain
      · exact .inl (targetOf_shifted _ (.inl same))
      · by_cases gap : lexeme.IsGap
        · exact .inr fun first => plain (.gap gap first)
        · exact .inl (targetOf_shifted _ (.inr (ofLexeme_tokens_ne_nil gap fun step => plain (.step step))))
    rw [Scan.ofLexemes, Scan.ofLexemes, one, after_place, ih others]
    simp only [scan, List.map_append]

end Shift

end OliCompiler
