import OliCompiler.Text.Decimal
import OliCompiler.Token

/-!
Lexemes: the pieces into which a source text falls, each the longest that fits at its place. Blank
space and comments are lexemes too, so the pieces of a text concatenate to the text.
-/

namespace OliCompiler

namespace Lexeme

/-- What a lexeme is. -/
inductive Shape where
  | blank
  | lineComment
  /-- A comment from `/*` on; `closed` tells that `*/` ends it. -/
  | blockComment (closed : Bool)
  | integer
  /-- A keyword or an identifier. -/
  | word
  | symbol (kind : Token.Kind)
  /-- A single character that fits nothing else. -/
  | stray
deriving DecidableEq, Repr

end Lexeme

structure Lexeme where
  shape : Lexeme.Shape
  text : List Char
deriving DecidableEq, Repr

namespace Lexeme

/-- The characters of blank space. -/
def isBlank (c : Char) : Bool :=
  c = ' ' || c = '\t' || c = '\r' || c = '\n' || c = '\x0c'

/-- The characters that open a word: ASCII letters and the underscore. -/
def isWordStart (c : Char) : Bool :=
  ('a' ≤ c && c ≤ 'z') || ('A' ≤ c && c ≤ 'Z') || c = '_'

/-- The characters that continue a word. -/
def isWordPart (c : Char) : Bool :=
  isWordStart c || Decimal.isDigit c

/-- The symbols of one character. -/
def symbol? : Char → Option Token.Kind
  | '+' => some (.operator (.arith .add))
  | '-' => some (.operator (.arith .sub))
  | '*' => some (.operator (.arith .mul))
  | '/' => some (.operator (.arith .div))
  | '<' => some (.operator (.compare .lt))
  | '>' => some (.operator (.compare .gt))
  | '=' => some .assign
  | '(' => some .openParen
  | ')' => some .closeParen
  | '{' => some .openBrace
  | '}' => some .closeBrace
  | ',' => some .comma
  | ';' => some .semicolon
  | _ => none

/-- The symbols of two characters. -/
def symbolPair? : Char → Char → Option Token.Kind
  | '=', '=' => some (.operator (.compare .eq))
  | '!', '=' => some (.operator (.compare .ne))
  | '<', '=' => some (.operator (.compare .le))
  | '>', '=' => some (.operator (.compare .ge))
  | '+', '+' => some (.step .up)
  | '-', '-' => some (.step .down)
  | _, _ => none

/-- The rest of a block comment behind its opening: all through the first `*/`, or all there is; then
what follows, and whether the comment was closed. -/
def commentRest : List Char → List Char × List Char × Bool
  | [] => ([], [], false)
  | '*' :: '/' :: text => (['*', '/'], text, true)
  | c :: text =>
    let (body, rest, closed) := commentRest text
    (c :: body, rest, closed)

/-- A symbol or a stray character. -/
def takeSymbol (c : Char) (text : List Char) : Lexeme × List Char :=
  match text.head?.bind (symbolPair? c), text with
  | some kind, d :: rest => (⟨.symbol kind, [c, d]⟩, rest)
  | _, _ =>
    match symbol? c with
    | some kind => (⟨.symbol kind, [c]⟩, text)
    | none => (⟨.stray, [c]⟩, text)

/-- The first lexeme of the text `c :: text`, and the text behind it. -/
def take (c : Char) (text : List Char) : Lexeme × List Char :=
  if isBlank c then
    (⟨.blank, c :: text.takeWhile isBlank⟩, text.dropWhile isBlank)
  else if Decimal.isDigit c then
    (⟨.integer, c :: text.takeWhile Decimal.isDigit⟩, text.dropWhile Decimal.isDigit)
  else if isWordStart c then
    (⟨.word, c :: text.takeWhile isWordPart⟩, text.dropWhile isWordPart)
  else
    match c, text with
    | '/', '/' :: text =>
      (⟨.lineComment, '/' :: '/' :: text.takeWhile (· ≠ '\n')⟩, text.dropWhile (· ≠ '\n'))
    | '/', '*' :: text =>
      let (body, rest, closed) := commentRest text
      (⟨.blockComment closed, '/' :: '*' :: body⟩, rest)
    | c, text => takeSymbol c text

theorem commentRest_append (text : List Char) :
    (commentRest text).1 ++ (commentRest text).2.1 = text := by
  fun_induction commentRest text <;> simp_all

theorem takeSymbol_append (c : Char) (text : List Char) :
    (takeSymbol c text).1.text ++ (takeSymbol c text).2 = c :: text := by
  fun_cases takeSymbol c text <;> simp_all

/-- No character is lost or used twice. -/
theorem take_append (c : Char) (text : List Char) :
    (take c text).1.text ++ (take c text).2 = c :: text := by
  fun_cases take c text with
  | case5 text =>
    have whole := commentRest_append text
    simp_all
  | _ => simp_all [takeSymbol_append]

theorem takeSymbol_ne_nil (c : Char) (text : List Char) : (takeSymbol c text).1.text ≠ [] := by
  fun_cases takeSymbol c text <;> simp_all

/-- Every lexeme holds a character. -/
theorem take_ne_nil (c : Char) (text : List Char) : (take c text).1.text ≠ [] := by
  fun_cases take c text <;> simp_all [takeSymbol_ne_nil]

theorem take_rest_length (c : Char) (text : List Char) :
    (take c text).2.length ≤ text.length := by
  have whole := congrArg List.length (take_append c text)
  have some := List.length_pos_iff.mpr (take_ne_nil c text)
  simp at whole
  omega

/-- The lexemes of a text, from left to right. -/
def all : List Char → List Lexeme
  | [] => []
  | c :: text => (take c text).1 :: all (take c text).2
termination_by text => text.length
decreasing_by
  have := take_rest_length c text
  simp
  omega

@[simp] theorem all_nil : all [] = [] := by rw [all]

theorem all_cons (c : Char) (text : List Char) :
    all (c :: text) = (take c text).1 :: all (take c text).2 := by rw [all]

/-- The lexemes of a text concatenate to the text. -/
theorem flatMap_text_all (text : List Char) : (all text).flatMap (·.text) = text := by
  fun_induction all text with
  | case1 => rfl
  | case2 c text ih => simp [ih, take_append]

end Lexeme

end OliCompiler
