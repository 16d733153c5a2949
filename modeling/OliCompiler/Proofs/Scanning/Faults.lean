import OliCompiler.Proofs.Numerals
import OliCompiler.Proofs.Scanning.Tokens
import OliCompiler.Proofs.Spans.Scanning

/-!
The lexical faults of a text. Each piece reports at most one, told by the piece and the tokens before it;
a comment that is not closed takes all that is left, so its fault at the end of the text is the last one
and faults stand in order.
-/

namespace OliCompiler

namespace Scanning

/-- The fault of a piece that stands behind the text `passed`. -/
def errorBehind (passed piece : List Char) (fault : LexicalError.Fault) : LexicalError :=
  ⟨fault, positionBehind passed, spanBehind passed piece⟩

/-- Whether digits start with a zero and go on. -/
def StartsWithZero (digits : List Char) : Prop := ∃ second others, digits = '0' :: second :: others

/-- The faults that a piece of the text `whole` reports behind the text `passed` and the tokens `given`. -/
inductive Reports (whole passed : List Char) (given : List Token) : Piece → List LexicalError → Prop where
  | blank {text : List Char} : Reports whole passed given ⟨some .blank, text⟩ []
  | lineComment {text : List Char} : Reports whole passed given ⟨some .lineComment, text⟩ []
  | closed {body : List Char} (closes : HoldsClose body) :
    Reports whole passed given ⟨some .blockComment, '/' :: '*' :: body⟩ []
  /-- Without `*/` behind its opening a comment runs to the end of the text. -/
  | unclosed {body : List Char} (opens : ¬HoldsClose body) (ends : passed ++ '/' :: '*' :: body = whole) :
    Reports whole passed given ⟨some .blockComment, '/' :: '*' :: body⟩
      [errorBehind whole [] .unterminatedComment]
  | leadingZero {second : Char} {others : List Char} :
    Reports whole passed given ⟨some .integer, '0' :: second :: others⟩
      [errorBehind (passed ++ ['0']) [second] (.leadingZero second)]
  | outOfRange {digits : List Char} (plain : ¬StartsWithZero digits)
    (large : 2147483647 < numberOf digits) :
    Reports whole passed given ⟨some .integer, digits⟩
      [errorBehind passed digits (.integerOutOfRange (String.ofList digits))]
  | inRange {digits : List Char} (plain : ¬StartsWithZero digits)
    (small : numberOf digits ≤ 2147483647) : Reports whole passed given ⟨some .integer, digits⟩ []
  | identifier {text : List Char} : Reports whole passed given ⟨some .identifier, text⟩ []
  | keyword {text : List Char} {word : Keyword} : Reports whole passed given ⟨some (.keyword word), text⟩ []
  | symbol {text : List Char} {kind : Token.Kind} (plain : ∀ direction, kind ≠ .step direction) :
    Reports whole passed given ⟨some (.symbol kind), text⟩ []
  | step {text : List Char} {direction : Step} {target : Token} (last : given.getLast? = some target)
    (named : target.kind = .identifier) :
    Reports whole passed given ⟨some (.symbol (.step direction)), text⟩ []
  | dangling {text : List Char} {direction : Step}
    (last : ∀ target, given.getLast? = some target → target.kind ≠ .identifier) :
    Reports whole passed given ⟨some (.symbol (.step direction)), text⟩
      [errorBehind passed text (.danglingStep direction)]
  | stray {c : Char} :
    Reports whole passed given ⟨none, [c]⟩ [errorBehind passed [c] (.unknownCharacter c)]

/-- The faults that pieces report one behind the other, as they give their tokens. -/
inductive Diagnoses (whole : List Char) :
    (passed : List Char) → (given : List Token) → List Piece → List LexicalError → Prop
  | nil {passed : List Char} {given : List Token} : Diagnoses whole passed given [] []
  | cons {passed : List Char} {given tokens : List Token} {piece : Piece} {pieces : List Piece}
    {errors later : List LexicalError} (first : Gives passed given piece tokens)
    (reported : Reports whole passed given piece errors)
    (others : Diagnoses whole (passed ++ piece.text) (given ++ tokens) pieces later) :
    Diagnoses whole passed given (piece :: pieces) (errors ++ later)

variable {whole passed text body digits : List Char} {given tokens : List Token} {piece : Piece}
  {pieces : List Piece} {errors errors' : List LexicalError} {c : Char}

theorem Reports.unique (one : Reports whole passed given piece errors)
    (other : Reports whole passed given piece errors') : errors = errors' := by
  cases one with
  | closed closes =>
    cases other with
    | closed => rfl
    | unclosed opens => exact absurd closes opens
  | unclosed opens =>
    cases other with
    | closed closes => exact absurd closes opens
    | unclosed => rfl
  | leadingZero =>
    cases other with
    | leadingZero => rfl
    | outOfRange plain | inRange plain => exact absurd ⟨_, _, rfl⟩ plain
  | outOfRange plain large =>
    cases other with
    | leadingZero => exact absurd ⟨_, _, rfl⟩ plain
    | outOfRange => rfl
    | inRange _ small => exact absurd large (Nat.not_lt.mpr small)
  | inRange plain small =>
    cases other with
    | leadingZero => exact absurd ⟨_, _, rfl⟩ plain
    | outOfRange _ large => exact absurd large (Nat.not_lt.mpr small)
    | inRange => rfl
  | symbol plain =>
    cases other with
    | symbol => rfl
    | step | dangling => exact absurd rfl (plain _)
  | step last named =>
    cases other with
    | symbol plain => exact absurd rfl (plain _)
    | step => rfl
    | dangling free => exact absurd named (free _ last)
  | dangling free =>
    cases other with
    | symbol plain => exact absurd rfl (plain _)
    | step last named => exact absurd named (free _ last)
    | dangling => rfl
  | _ =>
    cases other
    rfl

theorem Diagnoses.unique (one : Diagnoses whole passed given pieces errors)
    (other : Diagnoses whole passed given pieces errors') : errors = errors' := by
  induction one generalizing errors' with
  | nil =>
    cases other
    rfl
  | cons first reported _ ih =>
    cases other with
    | cons first' reported' others' =>
      obtain rfl := first.unique first'
      rw [reported.unique reported', ih others']

theorem commentRest_closes_iff : (Lexeme.commentRest text).2.2 = true ↔ HoldsClose text := by
  induction text using Lexeme.commentRest.induct with
  | case1 => exact iff_of_false Bool.false_ne_true not_holdsClose_nil
  | case2 text => exact iff_of_true rfl (holdsClose_cons.mpr (.inl ⟨rfl, _, rfl⟩))
  | case3 c text apart _ _ _ _ ih =>
    rw [commentRest_cons apart, ih, holdsClose_cons]
    refine (or_iff_right ?_).symm
    rintro ⟨star, others, slash⟩
    exact apart others star slash

/-- A comment is closed exactly if its own text holds a close; else it takes all that is left. -/
theorem commentRest_cases (text : List Char) :
    (∃ rest, HoldsClose (Lexeme.commentRest text).1 ∧
      Lexeme.commentRest text = ((Lexeme.commentRest text).1, rest, true)) ∨
    (¬HoldsClose text ∧ Lexeme.commentRest text = (text, [], false)) := by
  by_cases holds : HoldsClose text
  · have closes := commentRest_closes_iff.mpr holds
    rcases commentRest_ends text with ⟨inside, body, _⟩ | ⟨none, open_⟩
    · refine .inl ⟨(Lexeme.commentRest text).2.1, ?_, ?_⟩
      · rw [body]
        exact List.suffix_append inside _ |>.isInfix
      · rw [← closes]
    · have whole := Lexeme.commentRest_append text
      rw [none, List.append_nil] at whole
      exact absurd (whole.symm ▸ holds) open_
  · exact .inr ⟨holds, commentRest_open holds⟩

theorem comment_reports {rest : List Char} {closed : Bool}
    (taken : Lexeme.commentRest text = (body, rest, closed))
    (all : passed ++ '/' :: '*' :: text = whole) :
    Reports whole passed given ⟨some .blockComment, '/' :: '*' :: body⟩
      (Scan.ofLexeme (Place.start.after passed) given.getLast?
        ⟨.blockComment closed, '/' :: '*' :: body⟩).errors := by
  rcases commentRest_cases text with ⟨_, holds, known⟩ | ⟨opens, known⟩
  · rw [taken] at holds known
    cases known
    exact .closed holds
  · rw [taken] at known
    cases known
    simp only [Scan.ofLexeme, ← Place.after_append, all]
    rw [after_start]
    exact .unclosed opens all

/-- The digit behind a leading zero has a place of its own. -/
theorem integer_reports (digit : ∀ c ∈ digits, IsDigit c) :
    Reports whole passed given ⟨some .integer, digits⟩
      (Scan.integerErrors (Place.start.after passed) digits) := by
  unfold Scan.integerErrors
  split
  next second others =>
    have size := isDigit_utf8Size (digit second (by simp))
    have zero : Place.start.after (passed ++ ['0']) =
        ⟨byteLength passed + 1, (positionBehind passed).next '0'⟩ := by
      rw [Place.after_append, after_start]
      rfl
    rw [after_start] at zero
    obtain ⟨offset, position⟩ := Place.mk.inj zero
    have error : errorBehind (passed ++ ['0']) [second] (.leadingZero second) =
        ⟨.leadingZero second, (positionBehind passed).next '0',
          ⟨byteLength passed + 1, byteLength passed + 1 + 1⟩⟩ := by
      rw [errorBehind, spanBehind, offset, position, byteLength_cons, size]
      rfl
    have reported : Reports whole passed given ⟨some .integer, '0' :: second :: others⟩ _ := .leadingZero
    rw [error] at reported
    rw [after_start]
    exact reported
  next plain =>
    have single : ¬StartsWithZero digits := fun ⟨second, others, same⟩ => plain second others same
    rw [after_start, value_eq]
    split
    next small => exact .inRange single small
    next large => exact .outOfRange single (Nat.not_le.mp large)

theorem step_reports (direction : Step) (text : List Char) :
    Reports whole passed given ⟨some (.symbol (.step direction)), text⟩
      (Scan.ofLexeme (Place.start.after passed) given.getLast?
        ⟨.symbol (.step direction), text⟩).errors := by
  rw [Scan.ofLexeme, after_start]
  cases last : given.getLast? with
  | none =>
    refine .dangling fun target found => ?_
    rw [last] at found
    cases found
  | some target =>
    rw [Option.bind_some, Token.identifier?]
    by_cases named : target.kind = .identifier
    · rw [if_pos named]
      exact .step last named
    · rw [if_neg named]
      refine .dangling fun target' found => ?_
      obtain rfl := Option.some.inj (last.symm.trans found)
      exact named

theorem symbol_reports (kind : Token.Kind) (text : List Char) :
    Reports whole passed given ⟨some (.symbol kind), text⟩
      (Scan.ofLexeme (Place.start.after passed) given.getLast? ⟨.symbol kind, text⟩).errors := by
  cases kind with
  | step direction => exact step_reports direction text
  | _ => exact .symbol (by simp)

theorem takeSymbol_reports :
    Reports whole passed given (.ofLexeme (Lexeme.takeSymbol c text).1)
      (Scan.ofLexeme (Place.start.after passed) given.getLast? (Lexeme.takeSymbol c text).1).errors := by
  by_cases pair : IsPair c text
  · obtain ⟨d, rest, kind, rfl, known⟩ := pair
    rw [takeSymbol_pair known]
    exact symbol_reports kind [c, d]
  · rw [takeSymbol_single pair]
    cases Lexeme.symbol? c with
    | some kind => exact symbol_reports kind [c]
    | none =>
      rw [after_start]
      exact .stray

/-- The first lexeme of what is left of a text reports as a piece does. -/
theorem take_reports (all : passed ++ c :: text = whole) :
    Reports whole passed given (.ofLexeme (Lexeme.take c text).1)
      (Scan.ofLexeme (Place.start.after passed) given.getLast? (Lexeme.take c text).1).errors := by
  fun_cases Lexeme.take c text with
  | case1 => exact .blank
  | case2 _ _ _ digit =>
    exact integer_reports fun d inside => isDigit_iff.mp (all_run digit d inside)
  | case3 =>
    rw [Piece.ofLexeme, Rule.ofWord, Scan.ofLexeme]
    cases Keyword.ofWord? (String.ofList _) with
    | some word => exact .keyword
    | none => exact .identifier
  | case4 => exact .lineComment
  | case5 text body rest closed taken => exact comment_reports taken all
  | case6 => exact takeSymbol_reports

/-- The lexemes of what is left of a text report as its pieces do. -/
theorem all_diagnoses (text : List Char) {passed : List Char} {given : List Token}
    (all : passed ++ text = whole) :
    Diagnoses whole passed given ((Lexeme.all text).map .ofLexeme)
      (Scan.ofLexemes (Place.start.after passed) given.getLast? (Lexeme.all text)).errors := by
  induction text using Lexeme.all.induct generalizing passed given with
  | case1 =>
    rw [Lexeme.all_nil]
    exact .nil
  | case2 c text ih =>
    have behind : passed ++ (Lexeme.take c text).1.text ++ (Lexeme.take c text).2 = whole := by
      rw [List.append_assoc, Lexeme.take_append, all]
    rw [Lexeme.all_cons, List.map_cons, Scan.ofLexemes, ← Place.after_append, ← List.getLast?_append]
    exact .cons ofLexeme_gives (take_reports all) (ih behind)

theorem byteLength_lt_append (some : text ≠ []) : byteLength passed < byteLength (passed ++ text) := by
  rw [byteLength_append]
  exact Nat.lt_add_of_pos_right (byteLength_pos some)

/-- A piece has one fault at most. It starts inside the piece, or the piece is the end of the text. -/
theorem Reports.cases (reported : Reports whole passed given piece errors) (some : piece.text ≠ []) :
    errors = [] ∨ ∃ error, errors = [error] ∧
      (error.span.start < byteLength (passed ++ piece.text) ∨ passed ++ piece.text = whole) := by
  cases reported with
  | unclosed _ ends => exact .inr ⟨_, rfl, .inr ends⟩
  | @leadingZero second others =>
    refine .inr ⟨_, rfl, .inl ?_⟩
    have inside := @byteLength_lt_append (passed ++ ['0']) (second :: others) (List.cons_ne_nil _ _)
    rwa [List.append_assoc] at inside
  | outOfRange | dangling | stray => exact .inr ⟨_, rfl, .inl (byteLength_lt_append some)⟩
  | _ => exact .inl rfl

/-- Faults stand in order: one that starts behind its piece has no text behind it. -/
theorem all_errors_sorted (text : List Char) {passed : List Char} (given : List Token)
    (all : passed ++ text = whole) :
    (Scan.ofLexemes (Place.start.after passed) given.getLast? (Lexeme.all text)).errors.Pairwise
      fun error later => error.span.start < later.span.start := by
  induction text using Lexeme.all.induct generalizing passed given with
  | case1 =>
    rw [Lexeme.all_nil]
    exact .nil
  | case2 c text ih =>
    have behind : passed ++ (Lexeme.take c text).1.text ++ (Lexeme.take c text).2 = whole := by
      rw [List.append_assoc, Lexeme.take_append, all]
    have rest := @ih _
      (given ++ (Scan.ofLexeme (Place.start.after passed) given.getLast? (Lexeme.take c text).1).tokens)
      behind
    rw [Lexeme.all_cons, Scan.ofLexemes, ← Place.after_append, ← List.getLast?_append]
    rcases (@take_reports _ passed text given c all).cases (Lexeme.take_ne_nil c text) with
      none | ⟨error, one, starts | ends⟩
    · rw [none, List.nil_append]
      exact rest
    · rw [one, List.singleton_append, List.pairwise_cons]
      refine ⟨fun later member => Nat.lt_of_lt_of_le starts ?_, rest⟩
      have fits : ∀ lexeme ∈ Lexeme.all (Lexeme.take c text).2, (Piece.ofLexeme lexeme).Fits :=
        fun lexeme member => (all_splits _).fits _ (List.mem_map_of_mem member)
      have start := (ofLexemes_error_cuts fits later member).offset_le
      rwa [after_start] at start
    · have nothing : (Lexeme.take c text).2 = [] := by
        rw [← ends] at behind
        exact List.append_right_eq_self.mp behind
      rw [one, nothing, Lexeme.all_nil]
      exact List.pairwise_singleton _ _

end Scanning

/-- Where an unknown character stands, if the fault is about one. -/
def LexicalError.unknownAt? (error : LexicalError) : Option (Position × Span) :=
  match error.fault with
  | .unknownCharacter _ => some (error.position, error.span)
  | _ => none

/-- Where the token of an unknown character stands, if the token is one. -/
def Token.unknownAt? (token : Token) : Option (Position × Span) :=
  if token.kind = .unknown then some (token.position, token.span) else none

namespace Scanning

variable {whole passed : List Char} {given tokens : List Token} {piece : Piece}
  {pieces : List Piece} {errors : List LexicalError}

/-- A piece reports an unknown character exactly where it gives the token of one. -/
theorem Gives.unknown_eq (gives : Gives passed given piece tokens)
    (reported : Reports whole passed given piece errors) (fits : piece.Fits) :
    errors.filterMap LexicalError.unknownAt? = tokens.filterMap Token.unknownAt? := by
  cases gives with
  | @symbol text kind plain =>
    have known : kind ≠ .unknown := by
      obtain ⟨rest, fixed, _⟩ := fits.2 (.symbol kind) rfl
      rintro rfl
      exact absurd fixed (by decide)
    cases reported with
    | symbol => simp [Token.unknownAt?, tokenBehind, known]
    | step | dangling => exact absurd rfl (plain _)
  | step last named =>
    cases reported with
    | symbol plain => exact absurd rfl (plain _)
    | step => rfl
    | dangling free => exact absurd named (free _ last)
  | dangling => cases reported <;> rfl
  | _ => cases reported <;> rfl

theorem Diagnoses.unknown_eq (diagnosed : Diagnoses whole passed given pieces errors)
    (given_ : Tokenizes passed given pieces tokens) (fits : ∀ piece ∈ pieces, piece.Fits) :
    errors.filterMap LexicalError.unknownAt? = tokens.filterMap Token.unknownAt? := by
  induction diagnosed generalizing tokens with
  | nil =>
    cases given_
    rfl
  | cons first reported _ ih =>
    cases given_ with
    | cons first' others' =>
      obtain rfl := first.unique first'
      obtain ⟨one, rest⟩ := List.forall_mem_cons.mp fits
      rw [List.filterMap_append, List.filterMap_append, first.unknown_eq reported one, ih others' rest]

end Scanning

open Scanning

/-- The faults of a text are those that its pieces report. There is one for each unknown token, where the
token stands, and each starts behind the start of the one before it. -/
theorem scan_diagnoses (source : String) : ∃ pieces,
    (∀ others, Splits source.toList others ↔ others = pieces) ∧
    (∀ errors, Diagnoses source.toList [] [] pieces errors ↔ errors = (scan source).errors) ∧
    (scan source).errors.filterMap LexicalError.unknownAt? =
      (scan source).tokens.filterMap Token.unknownAt? ∧
    (scan source).errors.Pairwise fun error later => error.span.start < later.span.start := by
  have diagnosed : Diagnoses source.toList [] [] ((Lexeme.all source.toList).map .ofLexeme)
      (scan source).errors := all_diagnoses source.toList (List.nil_append _)
  refine ⟨(Lexeme.all source.toList).map .ofLexeme, fun others => splits_iff, ?_, ?_, ?_⟩
  · intro errors
    constructor
    · exact fun other => other.unique diagnosed
    · rintro rfl
      exact diagnosed
  · exact diagnosed.unknown_eq (ofLexemes_tokenizes _) (all_splits source.toList).fits
  · exact all_errors_sorted source.toList [] (List.nil_append _)

end OliCompiler
