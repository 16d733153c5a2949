import OliCompiler.Proofs.Scanning.Longest
import OliCompiler.Token.Scan

/-!
Words and how they are laid out as text. No two words that stand without blank space between them are
scanned as one, since one of them is a parenthesis, a brace, a comma or a semicolon.
-/

namespace OliCompiler

namespace Printing

open Scanning

/-- Whether a text can name a variable, a parameter or a function. -/
def IsIdentifier (name : String) : Prop := IsName name.toList ∧ isReserved name = false

instance : DecidablePred IsIdentifier := fun _ => inferInstanceAs (Decidable (_ ∧ _))

/-- A word: one that is always written the same, a name, or a numeral. -/
inductive Word where
  | fixed (kind : Token.Kind)
  | name (text : String)
  | number (value : Nat)
deriving DecidableEq, Repr

/-- The kinds of words that stand next to other words without blank space. -/
def delimiters : List Token.Kind :=
  [.openParen, .closeParen, .openBrace, .closeBrace, .comma, .semicolon]

namespace Word

def kind : Word → Token.Kind
  | fixed kind => kind
  | name _ => .identifier
  | number _ => .integer

def value : Word → Option String
  | fixed _ => none
  | name text => some text
  | number value => some (toString value)

def text : Word → List Char
  | fixed kind => kind.wording.toList
  | name text => text.toList
  | number value => (toString value).toList

/-- Whether a word is one of the language: a keyword, an operator, the sign of assignment, a delimiter,
an identifier or the numeral of a 32-bit integer. -/
inductive Legal : Word → Prop where
  | keyword (word : Keyword) : Legal (.fixed (.keyword word))
  | operator (op : BinaryOp) : Legal (.fixed (.operator op))
  | assign : Legal (.fixed .assign)
  | delimiter {kind : Token.Kind} (listed : kind ∈ delimiters) : Legal (.fixed kind)
  | name {text : String} (identifier : IsIdentifier text) : Legal (.name text)
  | number {value : Nat} (fits : value ≤ Decimal.greatest) : Legal (.number value)

def delimits : Word → Bool
  | fixed kind => kind ∈ delimiters
  | name _ | number _ => false

/-- What stands between a word and those behind it. -/
def gap (word : Word) : List Word → List Char
  | [] => []
  | next :: _ => if word.delimits || next.delimits then [] else [' ']

end Word

/-- The text of words in a line, with a blank where two of them would run together. -/
def layout : List Word → List Char
  | [] => []
  | word :: words => word.text ++ (word.gap words ++ layout words)

/-- The characters that end any word before them. -/
def stops : List Char := [' ', '(', ')', '{', '}', ',', ';']

/-- Whether a word that is not a delimiter ends before a text. -/
def Apart (rest : List Char) : Prop := ∀ c, rest.head? = some c → c ∈ stops

variable {c : Char} {rest others : List Char} {word : Word} {words : List Word}

theorem Apart.takeWhile {p : Char → Bool} (ends : ∀ c ∈ stops, p c = false) (apart : Apart rest) :
    rest.takeWhile p = [] ∧ rest.dropWhile p = rest := by
  cases rest with
  | nil => exact ⟨rfl, rfl⟩
  | cons c rest =>
    have stop := ends c (apart c rfl)
    constructor
    · rw [List.takeWhile_cons_of_neg (by rw [stop]; decide)]
    · rw [List.dropWhile_cons_of_neg (by rw [stop]; decide)]

theorem Apart.run {p : Char → Bool} (ends : ∀ c ∈ stops, p c = false)
    (all : ∀ c ∈ others, p c = true) (apart : Apart rest) :
    (others ++ rest).takeWhile p = others ∧ (others ++ rest).dropWhile p = rest := by
  obtain ⟨taken, left⟩ := apart.takeWhile ends
  constructor
  · rw [List.takeWhile_append_of_pos all, taken, List.append_nil]
  · rw [List.dropWhile_append_of_pos all, left]

theorem isWordPart_stop : ∀ c ∈ stops, Lexeme.isWordPart c = false := by
  have all : (stops.all fun c => Lexeme.isWordPart c = false) = true := by decide
  simpa only [List.all_eq_true, decide_eq_true_eq] using all

theorem isDigit_stop : ∀ c ∈ stops, Decimal.isDigit c = false := by
  have all : (stops.all fun c => Decimal.isDigit c = false) = true := by decide
  simpa only [List.all_eq_true, decide_eq_true_eq] using all

theorem take_blank (blank : Lexeme.isBlank c = true) : Lexeme.take c rest =
    (⟨.blank, c :: rest.takeWhile Lexeme.isBlank⟩, rest.dropWhile Lexeme.isBlank) := by
  unfold Lexeme.take
  rw [if_pos blank]

theorem take_letter (letter : IsLetter c) (parts : ∀ d ∈ others, IsLetter d ∨ IsDigit d)
    (apart : Apart rest) :
    Lexeme.take c (others ++ rest) = (⟨.word, c :: others⟩, rest) := by
  obtain ⟨taken, left⟩ := apart.run isWordPart_stop
    (fun d member => isWordPart_iff.mpr (parts d member))
  unfold Lexeme.take
  rw [if_neg (mt isBlank_iff.mp letter.not_blank),
    if_neg (mt isDigit_iff.mp letter.not_digit), if_pos (isWordStart_iff.mpr letter), taken, left]

theorem take_digit (digit : IsDigit c) (digits : ∀ d ∈ others, IsDigit d) (apart : Apart rest) :
    Lexeme.take c (others ++ rest) = (⟨.integer, c :: others⟩, rest) := by
  obtain ⟨taken, left⟩ := apart.run isDigit_stop
    (fun d member => isDigit_iff.mpr (digits d member))
  unfold Lexeme.take
  rw [if_neg (mt isBlank_iff.mp digit.not_blank), if_pos (isDigit_iff.mpr digit), taken,
    left]

/-- A sign that begins no comment is a symbol or stray. -/
theorem take_sign (sign : Opening.of c = .sign) (noLine : ∀ others, c :: rest ≠ '/' :: '/' :: others)
    (noBlock : ∀ others, c :: rest ≠ '/' :: '*' :: others) :
    Lexeme.take c rest = Lexeme.takeSymbol c rest := by
  fun_cases Lexeme.take c rest with
  | case1 _ _ blank => simp [Opening.of, blank] at sign
  | case2 _ _ blank digit => simp [Opening.of, blank, digit] at sign
  | case3 _ _ blank digit word => simp [Opening.of, blank, digit, word] at sign
  | case4 => exact absurd rfl (noLine _)
  | case5 => exact absurd rfl (noBlock _)
  | case6 => rfl

theorem symbolPair?_stop {d : Char} (stop : d ∈ stops) : Lexeme.symbolPair? c d = none := by
  fun_cases Lexeme.symbolPair? c d <;> first | rfl | exact absurd stop (by decide)

theorem take_symbol {kind : Token.Kind} (known : Lexeme.symbol? c = some kind) (apart : Apart rest) :
    Lexeme.take c rest = (⟨.symbol kind, [c]⟩, rest) := by
  have noPair : ¬ IsPair c rest := by
    rintro ⟨d, others, found, rfl, pair⟩
    rw [symbolPair?_stop (apart d rfl)] at pair
    cases pair
  rw [take_sign (symbol?_spells known).2.2, takeSymbol_single noPair, known]
  · rintro others same
    cases same
    exact absurd (apart '/' rfl) (by decide)
  · rintro others same
    cases same
    exact absurd (apart '*' rfl) (by decide)

theorem take_pair {d : Char} {kind : Token.Kind} (known : Lexeme.symbolPair? c d = some kind) :
    Lexeme.take c (d :: rest) = (⟨.symbol kind, [c, d]⟩, rest) := by
  rw [take_sign (symbolPair?_spells known).2.2, takeSymbol_pair known]
  · rintro others same
    cases same
    cases known
  · rintro others same
    cases same
    cases known

/-- A delimiter is taken alone, whatever stands behind it. -/
theorem take_delimiter {kind : Token.Kind} (listed : kind ∈ delimiters) :
    ∃ c, kind.wording.toList = [c] ∧ c ∈ stops ∧
      ∀ rest, Lexeme.take c rest = (⟨.symbol kind, [c]⟩, rest) := by
  simp only [delimiters, List.mem_cons, List.not_mem_nil, or_false] at listed
  rcases listed with rfl | rfl | rfl | rfl | rfl | rfl <;>
    exact ⟨_, rfl, by decide, fun rest => by cases rest <;> rfl⟩

/-- The digits of a numeral. -/
theorem digits_of_numeral (number : Nat) : ∀ c ∈ (toString number).toList, IsDigit c := by
  intro c member
  rw [Nat.toString_eq_ofList_toDigits, String.toList_ofList] at member
  have digit := Nat.isDigit_of_mem_toDigits (by decide) (Nat.le_refl 10) member
  simpa [Char.isDigit, IsDigit, Char.le_def, UInt32.le_iff_toNat_le] using digit

theorem numeral_ne_nil (number : Nat) : (toString number).toList ≠ [] := by
  rw [Nat.toString_eq_ofList_toDigits, String.toList_ofList]
  exact Nat.toDigits_ne_nil

theorem value_of_numeral (number : Nat) : Decimal.value (toString number).toList = number := by
  rw [Nat.toString_eq_ofList_toDigits, String.toList_ofList]
  exact Nat.ofDigitChars_ten_toDigits

/-- A numeral begins with a zero only where it is no more than that. -/
theorem numeral_leading (number : Nat) (positive : 0 < number) :
    ∃ c others, (toString number).toList = c :: others ∧ c ≠ '0' := by
  rw [Nat.toString_eq_ofList_toDigits, String.toList_ofList]
  induction number using Nat.strongRecOn with
  | ind number ih =>
    by_cases small : number < 10
    · rw [Nat.toDigits_of_lt_base small]
      have nonzero : ∀ digit < 10, 0 < digit → Nat.digitChar digit ≠ '0' := by decide
      exact ⟨_, _, rfl, nonzero number small positive⟩
    · obtain ⟨c, others, same, nonzero⟩ := ih (number / 10) (by omega) (by omega)
      rw [Nat.toDigits_of_base_le (by decide) (by omega), same]
      exact ⟨c, _, rfl, nonzero⟩

theorem numeral_leading_zero {second : Char} {number : Nat}
    (begins : (toString number).toList = '0' :: second :: others) : False := by
  rcases Nat.eq_zero_or_pos number with rfl | positive
  · cases begins
  · obtain ⟨c, behind, same, nonzero⟩ := numeral_leading number positive
    rw [begins] at same
    cases same
    exact nonzero rfl

theorem integerErrors_numeral {number : Nat} (fits : number ≤ Decimal.greatest) (place : Place) :
    Scan.integerErrors place (toString number).toList = [] := by
  unfold Scan.integerErrors
  split
  · rename_i second behind begins
    exact (numeral_leading_zero begins).elim
  · rw [value_of_numeral, if_pos fits]

/-- The lexeme that a word is scanned as. -/
def Word.lexeme (word : Word) : Lexeme where
  shape :=
    match word with
    | fixed (.keyword _) | name _ => .word
    | fixed kind => .symbol kind
    | number _ => .integer
  text := word.text

theorem Word.Legal.kind_ne (legal : word.Legal) : word.kind ≠ .endOfFile := by
  cases legal with
  | delimiter listed =>
    rintro rfl
    exact absurd listed (by decide)
  | _ => simp [Word.kind]

theorem lexeme_symbol {kind : Token.Kind} (sign : ∀ word, kind ≠ .keyword word) :
    (Word.fixed kind).lexeme = ⟨.symbol kind, kind.wording.toList⟩ := by
  cases kind with
  | keyword word => exact absurd rfl (sign word)
  | _ => rfl

theorem operator_mem_symbols (op : BinaryOp) : .operator op ∈ symbols := by
  rcases op with op | op <;> cases op <;> decide

/-- A word is taken as it is written, if it is a delimiter or ends where the rest begins. -/
theorem Word.Legal.take (legal : word.Legal) (apart : word.delimits = false → Apart rest) :
    ∃ c others, word.text = c :: others ∧
      Lexeme.take c (others ++ rest) = (word.lexeme, rest) := by
  cases legal with
  | keyword word =>
    obtain ⟨c, others, spelled, letter, parts⟩ := keyword_isName word
    refine ⟨c, others, spelled, ?_⟩
    rw [take_letter letter parts (apart rfl), ← spelled]
    rfl
  | operator op =>
    rw [lexeme_symbol (by simp)]
    rcases symbols_spelled (operator_mem_symbols op) with ⟨c, spelled, known⟩ | ⟨c, d, spelled, known⟩
    · exact ⟨c, [], spelled, spelled ▸ take_symbol known (apart rfl)⟩
    · exact ⟨c, [d], spelled, spelled ▸ take_pair known⟩
  | assign => exact ⟨_, [], rfl, take_symbol rfl (apart rfl)⟩
  | delimiter listed =>
    obtain ⟨c, spelled, _, taken⟩ := take_delimiter listed
    rw [lexeme_symbol (by rintro word rfl; simp [delimiters] at listed)]
    exact ⟨c, [], spelled, spelled ▸ taken rest⟩
  | name identifier =>
    obtain ⟨c, others, spelled, letter, parts⟩ := identifier.1
    refine ⟨c, others, spelled, ?_⟩
    rw [take_letter letter parts (apart rfl), ← spelled]
    rfl
  | @number value fits =>
    have digits := digits_of_numeral value
    obtain ⟨c, others, spelled⟩ := List.exists_cons_of_ne_nil (numeral_ne_nil value)
    rw [spelled] at digits
    refine ⟨c, others, spelled, ?_⟩
    rw [take_digit (digits c List.mem_cons_self)
      (fun d member => digits d (List.mem_cons_of_mem c member)) (apart rfl), ← spelled]
    rfl

/-- The token of a word at a place. -/
def Word.token (word : Word) (place : Place) : Token :=
  ⟨word.kind, word.value, place.position, ⟨place.offset, place.offset + byteLength word.text⟩⟩

theorem Word.Legal.ofLexeme (legal : word.Legal) (place : Place) (last : Option Token) :
    Scan.ofLexeme place last word.lexeme = ⟨[word.token place], []⟩ := by
  cases legal with
  | keyword word =>
    have known : Keyword.ofWord? (String.ofList (Word.fixed (.keyword word)).text) = some word :=
      ofWord?_ofList rfl
    unfold Scan.ofLexeme
    simp only [Word.lexeme, known]
    rfl
  | operator op => rfl
  | assign => rfl
  | @delimiter kind listed =>
    rw [lexeme_symbol (by rintro word rfl; simp [delimiters] at listed)]
    unfold Scan.ofLexeme
    cases kind with
    | step direction => simp [delimiters] at listed
    | _ => rfl
  | @name text identifier =>
    have free : Keyword.ofWord? text = none := by simpa [isReserved] using identifier.2
    unfold Scan.ofLexeme
    simp only [Word.lexeme, Word.text, String.ofList_toList, free]
    rfl
  | @number value fits =>
    unfold Scan.ofLexeme
    simp only [Word.lexeme, Word.text, String.ofList_toList, integerErrors_numeral fits]
    rfl

theorem text_of_delimits (delimits : word.delimits = true) : ∃ c, word.text = [c] ∧ c ∈ stops := by
  cases word with
  | fixed kind =>
    obtain ⟨c, spelled, stop, _⟩ := take_delimiter (of_decide_eq_true delimits)
    exact ⟨c, spelled, stop⟩
  | name | number => cases delimits

/-- The text behind a word that is not a delimiter begins with a character that ends it. -/
theorem apart_gap (solid : word.delimits = false) : Apart (word.gap words ++ layout words) := by
  intro c first
  cases words with
  | nil => cases first
  | cons next words =>
    rw [Word.gap, solid, Bool.false_or] at first
    cases delimits : next.delimits with
    | false =>
      rw [delimits] at first
      cases first
      decide
    | true =>
      obtain ⟨d, spelled, stop⟩ := text_of_delimits delimits
      rw [delimits, if_pos rfl, layout, spelled] at first
      cases first
      exact stop

theorem Word.Legal.take_layout (legal : word.Legal) (words : List Word) :
    ∃ c others, word.text = c :: others ∧
      Lexeme.take c (others ++ (word.gap words ++ layout words)) =
        (word.lexeme, word.gap words ++ layout words) :=
  legal.take apart_gap

theorem lexeme_ne_blank (word : Word) : word.lexeme.shape ≠ .blank := by
  cases word with
  | fixed kind => cases kind <;> simp [Word.lexeme]
  | name | number => simp [Word.lexeme]

theorem layout_begins (legal : ∀ word ∈ words, word.Legal) :
    (layout words).takeWhile Lexeme.isBlank = [] ∧
      (layout words).dropWhile Lexeme.isBlank = layout words := by
  cases words with
  | nil => exact ⟨rfl, rfl⟩
  | cons word words =>
    obtain ⟨c, others, spelled, taken⟩ := (legal word List.mem_cons_self).take_layout words
    rw [layout, spelled, List.cons_append]
    cases blank : Lexeme.isBlank c with
    | false =>
      constructor
      · rw [List.takeWhile_cons_of_neg (by rw [blank]; decide)]
      · rw [List.dropWhile_cons_of_neg (by rw [blank]; decide)]
    | true =>
      rw [take_blank blank] at taken
      exact absurd (congrArg (·.1.shape) taken).symm (lexeme_ne_blank word)

/-- The lexemes of words in a line: a blank, if there is one, is a lexeme of its own. -/
theorem all_layout_cons (legal : ∀ next ∈ word :: words, next.Legal) :
    Lexeme.all (layout (word :: words)) = word.lexeme :: Lexeme.all (layout words) ∨
    Lexeme.all (layout (word :: words)) =
      word.lexeme :: ⟨.blank, [' ']⟩ :: Lexeme.all (layout words) := by
  obtain ⟨c, others, spelled, taken⟩ := (legal word List.mem_cons_self).take_layout words
  obtain ⟨noBlank, whole⟩ := layout_begins fun next member =>
    legal next (List.mem_cons_of_mem word member)
  rw [layout, spelled, List.cons_append, Lexeme.all_cons, taken]
  have gaps : word.gap words = [] ∨ word.gap words = [' '] := by
    cases words with
    | nil => exact .inl rfl
    | cons next words =>
      rw [Word.gap]
      split
      · exact .inl rfl
      · exact .inr rfl
  rcases gaps with none | blank
  · rw [none]
    exact .inl rfl
  · right
    rw [blank, List.singleton_append, Lexeme.all_cons, take_blank (by decide), noBlank, whole]

/-- The kind and the value of a word or a token. -/
def Word.content (word : Word) : Token.Kind × Option String := (word.kind, word.value)

def content (token : Token) : Token.Kind × Option String := (token.kind, token.value)

/-- Words are scanned as they are written, without faults. -/
theorem ofLexemes_layout (legal : ∀ word ∈ words, word.Legal) (place : Place) (last : Option Token) :
    (Scan.ofLexemes place last (Lexeme.all (layout words))).errors = [] ∧
    ∃ tokens eof, (Scan.ofLexemes place last (Lexeme.all (layout words))).tokens = tokens ++ [eof] ∧
      eof.kind = .endOfFile ∧ tokens.map content = words.map Word.content := by
  induction words generalizing place last with
  | nil =>
    rw [layout, Lexeme.all_nil]
    exact ⟨rfl, [], _, rfl, rfl, rfl⟩
  | cons word words ih =>
    have given := (legal word List.mem_cons_self).ofLexeme place last
    have ih := ih fun next member => legal next (List.mem_cons_of_mem word member)
    rcases all_layout_cons legal with all | all
    · obtain ⟨noErrors, tokens, eof, scanned, ends, same⟩ := ih (place.after word.lexeme.text)
        ((some (word.token place)).or last)
      rw [all, Scan.ofLexemes, given]
      refine ⟨noErrors, word.token place :: tokens, eof, ?_, ends, ?_⟩
      · exact congrArg (word.token place :: ·) scanned
      · rw [List.map_cons, List.map_cons, same]
        rfl
    · obtain ⟨noErrors, tokens, eof, scanned, ends, same⟩ :=
        ih ((place.after word.lexeme.text).after [' ']) ((some (word.token place)).or last)
      rw [all, Scan.ofLexemes, given]
      refine ⟨noErrors, word.token place :: tokens, eof, ?_, ends, ?_⟩
      · exact congrArg (word.token place :: ·) scanned
      · rw [List.map_cons, List.map_cons, same]
        rfl

/-- The text of words is scanned to the tokens that they stand for and the end of the file. -/
theorem scan_layout (legal : ∀ word ∈ words, word.Legal) :
    (scan (String.ofList (layout words))).errors = [] ∧
    ∃ tokens eof, (scan (String.ofList (layout words))).tokens = tokens ++ [eof] ∧
      eof.kind = .endOfFile ∧ tokens.map content = words.map Word.content := by
  rw [scan, String.toList_ofList]
  exact ofLexemes_layout legal .start none

end Printing

end OliCompiler
