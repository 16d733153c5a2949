import OliCompiler.Proofs.Scanning.Rules

/-!
The lexemes of a text are the pieces into which it falls. The first character tells which rules can
match, so that each kind of lexeme has few rivals.
-/

namespace OliCompiler

namespace Scanning

variable {c : Char} {rule rule' : Rule} {piece piece' rest rest' text body inside : List Char}

theorem isBlank_iff : Lexeme.isBlank c = true ↔ c ∈ blanks := by
  simp [Lexeme.isBlank, blanks, or_assoc]

theorem isDigit_iff : Decimal.isDigit c = true ↔ IsDigit c := by
  simp [Decimal.isDigit, IsDigit]

theorem isWordStart_iff : Lexeme.isWordStart c = true ↔ IsLetter c := by
  simp [Lexeme.isWordStart, IsLetter, or_assoc]

theorem isWordPart_iff : Lexeme.isWordPart c = true ↔ IsLetter c ∨ IsDigit c := by
  simp [Lexeme.isWordPart, isDigit_iff, isWordStart_iff]

/-- What the first character of a piece tells about it. -/
inductive Opening where
  | blank
  | digit
  | letter
  | sign
deriving DecidableEq, Repr

/-- What a character opens. -/
def Opening.of (c : Char) : Opening :=
  if Lexeme.isBlank c then blank
  else if Decimal.isDigit c then digit
  else if Lexeme.isWordStart c then letter
  else sign

/-- The opening of the pieces that a rule matches. -/
def Rule.opening : Rule → Opening
  | blank => .blank
  | integer => .digit
  | identifier | keyword _ => .letter
  | lineComment | blockComment | symbol _ => .sign

theorem Opening.of_blank (blank : c ∈ blanks) : Opening.of c = .blank := by
  rw [Opening.of, if_pos (isBlank_iff.mpr blank)]

theorem IsDigit.not_blank (digit : IsDigit c) : c ∉ blanks := by
  intro blank
  obtain ⟨low, high⟩ := digit
  simp only [blanks, List.mem_cons, List.not_mem_nil, or_false] at blank
  rcases blank with rfl | rfl | rfl | rfl | rfl <;> exact absurd low (by decide)

theorem IsLetter.not_digit (letter : IsLetter c) : ¬ IsDigit c := by
  rintro ⟨low, high⟩
  rcases letter with ⟨from_, _⟩ | ⟨from_, _⟩ | rfl
  · exact absurd (Char.le_trans from_ high) (by decide)
  · exact absurd (Char.le_trans from_ high) (by decide)
  · exact absurd high (by decide)

theorem IsLetter.not_blank (letter : IsLetter c) : c ∉ blanks := by
  intro blank
  simp only [blanks, List.mem_cons, List.not_mem_nil, or_false] at blank
  rcases blank with rfl | rfl | rfl | rfl | rfl <;> exact absurd letter (by simp [IsLetter])

theorem Opening.of_digit (digit : IsDigit c) : Opening.of c = .digit := by
  rw [Opening.of, if_neg (mt isBlank_iff.mp digit.not_blank), if_pos (isDigit_iff.mpr digit)]

theorem Opening.of_letter (letter : IsLetter c) : Opening.of c = .letter := by
  rw [Opening.of, if_neg (mt isBlank_iff.mp letter.not_blank),
    if_neg (mt isDigit_iff.mp letter.not_digit), if_pos (isWordStart_iff.mpr letter)]

theorem keyword_isName (word : Keyword) : IsName word.word.toList := by
  cases word <;> decide

theorem symbols_spelled {kind : Token.Kind} (fixed : kind ∈ symbols) :
    (∃ c, kind.wording.toList = [c] ∧ Lexeme.symbol? c = some kind) ∨
    ∃ c d, kind.wording.toList = [c, d] ∧ Lexeme.symbolPair? c d = some kind := by
  simp only [symbols, List.mem_cons, List.not_mem_nil, or_false] at fixed
  rcases fixed with rfl | rfl | rfl | rfl | rfl | rfl | rfl | rfl | rfl | rfl | rfl | rfl | rfl |
    rfl | rfl | rfl | rfl | rfl | rfl
  all_goals first | exact .inl ⟨_, rfl, rfl⟩ | exact .inr ⟨_, _, rfl, rfl⟩

theorem symbol?_spells {kind : Token.Kind} (known : Lexeme.symbol? c = some kind) :
    kind ∈ symbols ∧ kind.wording.toList = [c] ∧ Opening.of c = .sign := by
  revert known
  fun_cases Lexeme.symbol? c
  case case14 => simp
  all_goals
    rintro ⟨⟩
    exact ⟨by decide, rfl, rfl⟩

theorem symbolPair?_spells {d : Char} {kind : Token.Kind}
    (known : Lexeme.symbolPair? c d = some kind) :
    kind ∈ symbols ∧ kind.wording.toList = [c, d] ∧ Opening.of c = .sign := by
  revert known
  fun_cases Lexeme.symbolPair? c d
  case case7 => simp
  all_goals
    rintro ⟨⟩
    exact ⟨by decide, rfl, rfl⟩

/-- A piece is not empty, and its first character tells the opening of the rule that matches it. -/
theorem Rule.Matches.opens (fits : rule.Matches piece rest) :
    ∃ c others, piece = c :: others ∧ Opening.of c = rule.opening := by
  cases rule with
  | blank =>
    obtain ⟨c, others, rfl⟩ := List.exists_cons_of_ne_nil fits.1
    exact ⟨c, others, rfl, Opening.of_blank (fits.2 c List.mem_cons_self)⟩
  | integer =>
    obtain ⟨c, others, rfl⟩ := List.exists_cons_of_ne_nil fits.1
    exact ⟨c, others, rfl, Opening.of_digit (fits.2 c List.mem_cons_self)⟩
  | identifier =>
    obtain ⟨c, others, rfl, letter, _⟩ := fits
    exact ⟨c, others, rfl, Opening.of_letter letter⟩
  | keyword word =>
    obtain ⟨c, others, spelled, letter, _⟩ := keyword_isName word
    exact ⟨c, others, Eq.trans fits spelled, Opening.of_letter letter⟩
  | lineComment =>
    obtain ⟨body, rfl, _⟩ := fits
    exact ⟨_, _, rfl, rfl⟩
  | blockComment =>
    obtain ⟨body, rfl, _⟩ := fits
    exact ⟨_, _, rfl, rfl⟩
  | symbol kind =>
    obtain ⟨fixed, rfl⟩ := fits
    rcases symbols_spelled fixed with ⟨c, spelled, known⟩ | ⟨c, d, spelled, known⟩
    · exact ⟨c, [], spelled, (symbol?_spells known).2.2⟩
    · exact ⟨c, [d], spelled, (symbolPair?_spells known).2.2⟩

theorem Rule.Matches.same_opening (fits : rule.Matches piece rest)
    (fits' : rule'.Matches piece' rest') (same : piece' ++ rest' = piece ++ rest) :
    rule'.opening = rule.opening := by
  obtain ⟨c, others, rfl, opens⟩ := fits.opens
  obtain ⟨c', others', rfl, opens'⟩ := fits'.opens
  obtain rfl : c' = c := (List.cons.inj same).1
  exact opens'.symm.trans opens

/-- Only a rule with the same opening can match more. -/
theorem longest_of_opening (fits : rule.Matches piece rest)
    (bound : ∀ (rule' : Rule) piece' rest', rule'.opening = rule.opening →
      piece' ++ rest' = piece ++ rest → rule'.Matches piece' rest' → piece'.length ≤ piece.length)
    (keyword : rule = .identifier → ∀ word, ¬ (Rule.keyword word).Matches piece rest) :
    Longest rule piece rest where
  fits := fits
  longest := by
    intro rule' piece' rest' same fits'
    exact bound rule' piece' rest' (fits.same_opening fits' same) same fits'
  keyword := keyword

/-- A run of characters is as long as any piece made of them. -/
theorem length_le_run {p : Char → Bool} (first : p c = true) (all : ∀ d ∈ piece, p d = true)
    (same : piece ++ rest = c :: text.takeWhile p ++ text.dropWhile p) :
    piece.length ≤ (c :: text.takeWhile p).length := by
  rw [List.cons_append, List.takeWhile_append_dropWhile] at same
  rw [← List.takeWhile_cons_of_pos first, ← same, List.takeWhile_append_of_pos all,
    List.length_append]
  exact Nat.le_add_right _ _

theorem all_run {p : Char → Bool} (first : p c = true) : ∀ d ∈ c :: text.takeWhile p, p d = true := by
  intro d member
  rcases List.mem_cons.mp member with rfl | inside
  · exact first
  · exact List.all_eq_true.mp List.all_takeWhile d inside

theorem blank_longest (first : Lexeme.isBlank c = true) :
    Longest .blank (c :: text.takeWhile Lexeme.isBlank) (text.dropWhile Lexeme.isBlank) := by
  apply longest_of_opening
  · exact ⟨List.cons_ne_nil _ _, fun d inside => isBlank_iff.mp (all_run first d inside)⟩
  · intro rule' piece' rest' opens same fits'
    cases rule' <;> cases opens
    exact length_le_run first (fun d inside => isBlank_iff.mpr (fits'.2 d inside)) same
  · intro absurd
    cases absurd

theorem integer_longest (first : Decimal.isDigit c = true) :
    Longest .integer (c :: text.takeWhile Decimal.isDigit) (text.dropWhile Decimal.isDigit) := by
  apply longest_of_opening
  · exact ⟨List.cons_ne_nil _ _, fun d inside => isDigit_iff.mp (all_run first d inside)⟩
  · intro rule' piece' rest' opens same fits'
    cases rule' <;> cases opens
    exact length_le_run first (fun d inside => isDigit_iff.mpr (fits'.2 d inside)) same
  · intro absurd
    cases absurd

theorem IsName.parts (named : IsName piece) : ∀ c ∈ piece, Lexeme.isWordPart c = true := by
  obtain ⟨first, others, rfl, letter, parts⟩ := named
  intro c member
  rcases List.mem_cons.mp member with rfl | inside
  · exact isWordPart_iff.mpr (.inl letter)
  · exact isWordPart_iff.mpr (parts c inside)

/-- The rule of a word: that of the keyword that it is, or that of identifiers. -/
def Rule.ofWord (word : List Char) : Rule :=
  match Keyword.ofWord? (String.ofList word) with
  | some word => keyword word
  | none => identifier

theorem ofWord?_ofList {word : Keyword} (spelled : piece = word.word.toList) :
    Keyword.ofWord? (String.ofList piece) = some word := by
  rw [spelled, String.ofList_toList, Keyword.ofWord?_word]

theorem word_longest (first : Lexeme.isWordStart c = true) :
    Longest (.ofWord (c :: text.takeWhile Lexeme.isWordPart)) (c :: text.takeWhile Lexeme.isWordPart)
      (text.dropWhile Lexeme.isWordPart) := by
  have letter := isWordStart_iff.mp first
  have part := isWordPart_iff.mpr (.inl letter)
  have bound : ∀ (rule' : Rule) piece' rest', rule'.opening = .letter →
      piece' ++ rest' = c :: text.takeWhile Lexeme.isWordPart ++ text.dropWhile Lexeme.isWordPart →
      rule'.Matches piece' rest' →
      piece'.length ≤ (c :: text.takeWhile Lexeme.isWordPart).length := by
    intro rule' piece' rest' opens same fits'
    have named : IsName piece' := by
      cases rule' with
      | identifier => exact fits'
      | keyword word => exact (show piece' = _ from fits') ▸ keyword_isName word
      | _ => cases opens
    exact length_le_run part named.parts same
  rw [Rule.ofWord]
  cases spelled : Keyword.ofWord? (String.ofList (c :: text.takeWhile Lexeme.isWordPart)) with
  | some word =>
    refine longest_of_opening ?_ bound (fun absurd => by cases absurd)
    have same := congrArg String.toList (Keyword.word_of_ofWord? spelled)
    rw [String.toList_ofList] at same
    exact same.symm
  | none =>
    refine longest_of_opening ?_ bound ?_
    · refine ⟨_, _, rfl, letter, fun d inside => isWordPart_iff.mp ?_⟩
      exact List.all_eq_true.mp List.all_takeWhile d inside
    · intro _ word same
      rw [ofWord?_ofList same] at spelled
      cases spelled

theorem not_holdsClose_nil : ¬ HoldsClose [] := by simp [HoldsClose]

theorem holdsClose_cons : HoldsClose (c :: text) ↔
    (c = '*' ∧ ∃ others, text = '/' :: others) ∨ HoldsClose text := by
  rw [HoldsClose, List.infix_cons_iff]
  refine or_congr ?_ Iff.rfl
  constructor
  · rintro ⟨others, same⟩
    cases same
    exact ⟨rfl, _, rfl⟩
  · rintro ⟨rfl, others, rfl⟩
    exact ⟨others, rfl⟩

/-- A character goes before a comment's rest if it does not close the comment with the next one. -/
theorem commentRest_cons (apart : ∀ others, c = '*' → text = '/' :: others → False) :
    Lexeme.commentRest (c :: text) =
      (c :: (Lexeme.commentRest text).1, (Lexeme.commentRest text).2) := by
  rw [Lexeme.commentRest.eq_3 c text apart]

theorem commentRest_open (open_ : ¬ HoldsClose body) :
    Lexeme.commentRest body = (body, [], false) := by
  induction body with
  | nil => rfl
  | cons c body ih =>
    rw [commentRest_cons, ih fun holds => open_ (holdsClose_cons.mpr (.inr holds))]
    rintro others rfl rfl
    exact open_ (holdsClose_cons.mpr (.inl ⟨rfl, _, rfl⟩))

theorem commentRest_closed (first : ¬ HoldsClose (inside ++ ['*'])) :
    Lexeme.commentRest (inside ++ '*' :: '/' :: rest) = (inside ++ ['*', '/'], rest, true) := by
  induction inside with
  | nil => rfl
  | cons c inside ih =>
    rw [List.cons_append, commentRest_cons, ih fun holds => first (holdsClose_cons.mpr (.inr holds))]
    · rfl
    · rintro others rfl same
      apply first
      cases inside with
      | nil => cases same
      | cons d inside =>
        obtain rfl : d = '/' := (List.cons.inj same).1
        exact holdsClose_cons.mpr (.inl ⟨rfl, _, rfl⟩)

/-- The body of a block comment is what is taken as one. -/
theorem commentRest_eq (ends : EndsWithClose body ∨ rest = [] ∧ ¬ HoldsClose body) :
    (Lexeme.commentRest (body ++ rest)).1 = body := by
  rcases ends with ⟨inside, rfl, first⟩ | ⟨rfl, open_⟩
  · rw [List.append_assoc]
    exact congrArg Prod.fst (commentRest_closed first)
  · rw [List.append_nil, commentRest_open open_]

theorem commentRest_ends (text : List Char) : EndsWithClose (Lexeme.commentRest text).1 ∨
    (Lexeme.commentRest text).2.1 = [] ∧ ¬ HoldsClose (Lexeme.commentRest text).1 := by
  induction text using Lexeme.commentRest.induct with
  | case1 => exact .inr ⟨rfl, not_holdsClose_nil⟩
  | case2 text => exact .inl ⟨[], rfl, by simp [holdsClose_cons, not_holdsClose_nil]⟩
  | case3 c text apart _ _ _ _ ih =>
    -- A body that begins with the sign that would close the comment is a text that does.
    have begins : ∀ others, c = '*' → (Lexeme.commentRest text).1 = '/' :: others → False := by
      intro others star same
      apply apart (others ++ (Lexeme.commentRest text).2.1) star
      rw [← List.cons_append, ← same, Lexeme.commentRest_append]
    rw [commentRest_cons apart]
    rcases ih with ⟨inside, same, first⟩ | ⟨none, open_⟩
    · refine .inl ⟨c :: inside, by rw [same, List.cons_append], ?_⟩
      rw [List.cons_append, holdsClose_cons]
      rintro (⟨star, others, slash⟩ | holds)
      · cases inside with
        | nil => cases slash
        | cons d inside =>
          obtain rfl : d = '/' := (List.cons.inj slash).1
          exact begins _ star same
      · exact first holds
    · refine .inr ⟨none, ?_⟩
      rw [holdsClose_cons]
      rintro (⟨star, others, slash⟩ | holds)
      · exact begins others star slash
      · exact open_ holds

theorem symbol_length {kind : Token.Kind} (fits : (Rule.symbol kind).Matches piece rest) :
    piece.length ≤ 2 := by
  obtain ⟨fixed, rfl⟩ := fits
  rcases symbols_spelled fixed with ⟨c, spelled, _⟩ | ⟨c, d, spelled, _⟩
  · rw [spelled]
    exact Nat.le_succ 1
  · rw [spelled]
    exact Nat.le_refl 2

theorem lineComment_longest :
    Longest .lineComment ('/' :: '/' :: text.takeWhile (· ≠ '\n')) (text.dropWhile (· ≠ '\n')) := by
  apply longest_of_opening
  · refine ⟨_, rfl, fun inside => ?_⟩
    have all := List.all_eq_true.mp List.all_takeWhile _ inside
    simp at all
  · intro rule' piece' rest' opens same fits'
    cases rule' with
    | lineComment =>
      obtain ⟨body, rfl, noBreak⟩ := fits'
      simp only [List.cons_append, List.cons.injEq, true_and, List.takeWhile_append_dropWhile] at same
      have within : ∀ c ∈ body, decide (c ≠ '\n') = true := by
        intro c member
        exact decide_eq_true fun same => noBreak (same ▸ member)
      rw [← same, List.takeWhile_append_of_pos within]
      simp
    | blockComment =>
      obtain ⟨body, rfl, _⟩ := fits'
      cases same
    | symbol kind => exact Nat.le_trans (symbol_length fits') (Nat.le_add_left _ _)
    | _ => cases opens
  · intro absurd
    cases absurd

theorem blockComment_longest :
    Longest .blockComment ('/' :: '*' :: (Lexeme.commentRest text).1)
      (Lexeme.commentRest text).2.1 := by
  apply longest_of_opening
  · exact ⟨_, rfl, commentRest_ends text⟩
  · intro rule' piece' rest' opens same fits'
    cases rule' with
    | lineComment =>
      obtain ⟨body, rfl, _⟩ := fits'
      cases same
    | blockComment =>
      obtain ⟨body, rfl, ends⟩ := fits'
      simp only [List.cons_append, List.cons.injEq, true_and, Lexeme.commentRest_append] at same
      apply Nat.le_of_eq
      rw [← same, commentRest_eq ends]
    | symbol kind => exact Nat.le_trans (symbol_length fits') (Nat.le_add_left _ _)
    | _ => cases opens
  · intro absurd
    cases absurd

/-- What a rule matches at a sign that begins no comment is a symbol. -/
theorem symbol_of_sign (noLine : ∀ others, c :: text ≠ '/' :: '/' :: others)
    (noBlock : ∀ others, c :: text ≠ '/' :: '*' :: others) (same : piece ++ rest = c :: text)
    (sign : Opening.of c = .sign) (fits : rule.Matches piece rest) :
    ∃ kind, rule = .symbol kind ∧ ((piece = [c] ∧ rest = text ∧ Lexeme.symbol? c = some kind) ∨
      ∃ d, piece = [c, d] ∧ text = d :: rest ∧ Lexeme.symbolPair? c d = some kind) := by
  obtain ⟨c', others, rfl, opens⟩ := fits.opens
  obtain ⟨rfl, behind⟩ := List.cons.inj same
  rw [sign] at opens
  cases rule with
  | lineComment =>
    obtain ⟨body, begins, _⟩ := fits
    exact absurd (same.symm.trans (congrArg (· ++ rest) begins)) (noLine _)
  | blockComment =>
    obtain ⟨body, begins, _⟩ := fits
    exact absurd (same.symm.trans (congrArg (· ++ rest) begins)) (noBlock _)
  | symbol kind =>
    refine ⟨kind, rfl, ?_⟩
    obtain ⟨fixed, written⟩ := fits
    rcases symbols_spelled fixed with ⟨e, spelled, known⟩ | ⟨e, d, spelled, known⟩
    · rw [spelled] at written
      cases written
      exact .inl ⟨rfl, behind, known⟩
    · rw [spelled] at written
      cases written
      exact .inr ⟨d, rfl, behind.symm, known⟩
  | _ => cases opens

/-- The piece that a lexeme is. -/
def Piece.ofLexeme (lexeme : Lexeme) : Piece where
  rule :=
    match lexeme.shape with
    | .blank => some .blank
    | .lineComment => some .lineComment
    | .blockComment _ => some .blockComment
    | .integer => some .integer
    | .word => some (.ofWord lexeme.text)
    | .symbol kind => some (.symbol kind)
    | .stray => none
  text := lexeme.text

theorem symbolPair_longest {d : Char} {kind : Token.Kind}
    (known : Lexeme.symbolPair? c d = some kind) : Longest (.symbol kind) [c, d] text := by
  obtain ⟨fixed, spelled, sign⟩ := symbolPair?_spells known
  apply longest_of_opening
  · exact ⟨fixed, spelled.symm⟩
  · intro rule' piece' rest' opens same fits'
    have noLine : ∀ others, c :: d :: text ≠ '/' :: '/' :: others := by
      rintro others same
      cases same
      cases known
    have noBlock : ∀ others, c :: d :: text ≠ '/' :: '*' :: others := by
      rintro others same
      cases same
      cases known
    obtain ⟨kind', rfl, _⟩ := symbol_of_sign noLine noBlock same sign fits'
    exact symbol_length fits'
  · intro absurd
    cases absurd

/-- Whether a symbol of two characters stands at the start of a text. -/
def IsPair (c : Char) (text : List Char) : Prop :=
  ∃ d rest kind, text = d :: rest ∧ Lexeme.symbolPair? c d = some kind

theorem takeSymbol_pair {d : Char} {kind : Token.Kind} (known : Lexeme.symbolPair? c d = some kind) :
    Lexeme.takeSymbol c (d :: rest) = (⟨.symbol kind, [c, d]⟩, rest) := by
  simp [Lexeme.takeSymbol, known]

theorem takeSymbol_single (single : ¬ IsPair c text) : Lexeme.takeSymbol c text =
    match Lexeme.symbol? c with
    | some kind => (⟨.symbol kind, [c]⟩, text)
    | none => (⟨.stray, [c]⟩, text) := by
  cases text with
  | nil => rfl
  | cons d rest =>
    cases known : Lexeme.symbolPair? c d with
    | some kind => exact absurd ⟨d, rest, kind, rfl, known⟩ single
    | none =>
      cases alone : Lexeme.symbol? c <;> simp [Lexeme.takeSymbol, known, alone]

theorem takeSymbol_falls (noLine : ∀ others, c :: text ≠ '/' :: '/' :: others)
    (noBlock : ∀ others, c :: text ≠ '/' :: '*' :: others) (sign : Opening.of c = .sign) :
    Falls (c :: text) (.ofLexeme (Lexeme.takeSymbol c text).1) (Lexeme.takeSymbol c text).2 := by
  by_cases pair : IsPair c text
  · obtain ⟨d, rest, kind, rfl, known⟩ := pair
    rw [takeSymbol_pair known]
    exact .longest (symbolPair_longest known)
  · have rival : ∀ (rule : Rule) piece rest', piece ++ rest' = c :: text → rule.Matches piece rest' →
        piece = [c] ∧ ∃ kind, Lexeme.symbol? c = some kind := by
      intro rule piece rest' same fits
      obtain ⟨kind, rfl, ⟨one, _, known⟩ | ⟨d, _, rfl, known⟩⟩ :=
        symbol_of_sign noLine noBlock same sign fits
      · exact ⟨one, kind, known⟩
      · exact absurd ⟨d, rest', kind, rfl, known⟩ pair
    rw [takeSymbol_single pair]
    cases known : Lexeme.symbol? c with
    | some kind =>
      obtain ⟨fixed, spelled, _⟩ := symbol?_spells known
      have longest : Longest (.symbol kind) [c] text := by
        apply longest_of_opening
        · exact ⟨fixed, spelled.symm⟩
        · intro rule' piece' rest' _ same fits'
          exact Nat.le_of_eq (congrArg List.length (rival rule' piece' rest' same fits').1)
        · intro absurd
          cases absurd
      exact .longest longest
    | none =>
      apply Falls.stray
      intro rule piece rest' same fits
      obtain ⟨_, kind, found⟩ := rival rule piece rest' same fits
      rw [known] at found
      cases found

theorem Opening.of_sign (blank : ¬ Lexeme.isBlank c = true) (digit : ¬ Decimal.isDigit c = true)
    (word : ¬ Lexeme.isWordStart c = true) : Opening.of c = .sign := by
  rw [Opening.of, if_neg blank, if_neg digit, if_neg word]

theorem Falls.of_longest {whole : List Char} (fits : Longest rule piece rest)
    (same : piece ++ rest = whole) : Falls whole ⟨some rule, piece⟩ rest :=
  same ▸ .longest fits

/-- A lexeme is the first piece of the text that it is taken from. -/
theorem take_falls (c : Char) (text : List Char) :
    Falls (c :: text) (.ofLexeme (Lexeme.take c text).1) (Lexeme.take c text).2 := by
  have whole := Lexeme.take_append c text
  revert whole
  fun_cases Lexeme.take c text with
  | case1 _ _ blank => exact fun whole => .of_longest (blank_longest blank) whole
  | case2 _ _ _ digit => exact fun whole => .of_longest (integer_longest digit) whole
  | case3 _ _ _ _ word => exact fun whole => .of_longest (word_longest word) whole
  | case4 => exact fun whole => .of_longest lineComment_longest whole
  | case5 text body rest closed taken =>
    have longest : Longest .blockComment ('/' :: '*' :: (Lexeme.commentRest text).1)
      (Lexeme.commentRest text).2.1 := blockComment_longest
    rw [taken] at longest
    exact fun whole => .of_longest longest whole
  | case6 c text noLine noBlock blank digit word =>
    intro _
    refine takeSymbol_falls ?_ ?_ (Opening.of_sign blank digit word)
    · rintro others same
      obtain ⟨slash, behind⟩ := List.cons.inj same
      exact noLine others slash behind
    · rintro others same
      obtain ⟨slash, behind⟩ := List.cons.inj same
      exact noBlock others slash behind

theorem all_splits (text : List Char) : Splits text ((Lexeme.all text).map .ofLexeme) := by
  induction text using Lexeme.all.induct with
  | case1 =>
    rw [Lexeme.all_nil]
    exact .nil
  | case2 c text ih =>
    rw [Lexeme.all_cons]
    exact .cons (take_falls c text) ih

/-- A symbol does not begin as a comment does. -/
theorem symbol_not_comment {kind : Token.Kind} {d : Char} (comment : d = '/' ∨ d = '*')
    (fits : (Rule.symbol kind).Matches ('/' :: d :: body) rest) : False := by
  obtain ⟨fixed, written⟩ := fits
  rcases symbols_spelled fixed with ⟨c, spelled, _⟩ | ⟨c, e, spelled, known⟩
  · rw [spelled] at written
    cases written
  · rw [spelled] at written
    cases written
    rcases comment with rfl | rfl <;> cases known

theorem symbol_unique {kind kind' : Token.Kind} (fits : (Rule.symbol kind).Matches piece rest)
    (fits' : (Rule.symbol kind').Matches piece rest) : kind = kind' := by
  obtain ⟨fixed, rfl⟩ := fits
  obtain ⟨fixed', same⟩ := fits'
  rcases symbols_spelled fixed with ⟨c, spelled, known⟩ | ⟨c, d, spelled, known⟩ <;>
    rcases symbols_spelled fixed' with ⟨c', spelled', known'⟩ | ⟨c', d', spelled', known'⟩ <;>
    rw [spelled, spelled'] at same <;> cases same <;>
    exact Option.some.inj (known.symm.trans known')

/-- No two rules take the same piece. -/
theorem Longest.same_rule (fits : Longest rule piece rest) (fits' : Longest rule' piece rest) :
    rule = rule' := by
  have opens := fits.fits.same_opening fits'.fits rfl
  obtain ⟨one, _, plain⟩ := fits
  obtain ⟨other, _, plain'⟩ := fits'
  cases rule with
  | blank | integer => cases rule' <;> cases opens; rfl
  | identifier =>
    cases rule' with
    | identifier => rfl
    | keyword word => exact absurd other (plain rfl word)
    | _ => cases opens
  | keyword word =>
    cases rule' with
    | identifier => exact absurd one (plain' rfl word)
    | keyword word' =>
      rw [Option.some.inj ((ofWord?_ofList one).symm.trans (ofWord?_ofList other))]
    | _ => cases opens
  | lineComment =>
    obtain ⟨body, rfl, _⟩ := one
    cases rule' with
    | lineComment => rfl
    | blockComment =>
      obtain ⟨body', same, _⟩ := other
      cases same
    | symbol kind => exact absurd other (symbol_not_comment (.inl rfl))
    | _ => cases opens
  | blockComment =>
    obtain ⟨body, rfl, _⟩ := one
    cases rule' with
    | lineComment =>
      obtain ⟨body', same, _⟩ := other
      cases same
    | blockComment => rfl
    | symbol kind => exact absurd other (symbol_not_comment (.inr rfl))
    | _ => cases opens
  | symbol kind =>
    cases rule' with
    | lineComment =>
      obtain ⟨body, rfl, _⟩ := other
      exact absurd one (symbol_not_comment (.inl rfl))
    | blockComment =>
      obtain ⟨body, rfl, _⟩ := other
      exact absurd one (symbol_not_comment (.inr rfl))
    | symbol kind' => rw [symbol_unique one other]
    | _ => cases opens

/-- A text has one first piece. -/
theorem Falls.unique {first first' : Piece} (one : Falls text first rest)
    (other : Falls text first' rest') : first = first' ∧ rest = rest' := by
  cases one with
  | @longest rule piece _ fits =>
    generalize same : piece ++ rest = text at other
    cases other with
    | @longest rule' piece' _ fits' =>
      have lengths := Nat.le_antisymm (fits'.longest rule piece rest same fits.fits)
        (fits.longest rule' piece' rest' same.symm fits'.fits)
      obtain ⟨rfl, rfl⟩ := List.append_inj same lengths
      rw [fits.same_rule fits']
      exact ⟨rfl, rfl⟩
    | stray unmatched => exact absurd fits.fits (unmatched rule piece rest same)
  | @stray c _ unmatched =>
    generalize same : c :: rest = text at other
    cases other with
    | @longest rule' piece' _ fits' =>
      exact absurd fits'.fits (unmatched rule' piece' rest' same.symm)
    | stray _ =>
      cases same
      exact ⟨rfl, rfl⟩

theorem Falls.ne_nil {first : Piece} (falls : Falls [] first rest) : False := by
  generalize none : ([] : List Char) = text at falls
  cases falls with
  | longest fits =>
    obtain ⟨c, others, rfl, _⟩ := fits.fits.opens
    cases none
  | stray => cases none

/-- A text falls into pieces in one way: its lexemes. -/
theorem splits_iff {pieces : List Piece} :
    Splits text pieces ↔ pieces = (Lexeme.all text).map .ofLexeme := by
  constructor
  · intro splits
    induction splits with
    | nil => rw [Lexeme.all_nil, List.map_nil]
    | @cons text rest piece pieces first _ ih =>
      cases text with
      | nil => exact first.ne_nil.elim
      | cons c text =>
        obtain ⟨rfl, rfl⟩ := first.unique (take_falls c text)
        rw [Lexeme.all_cons, List.map_cons, ih]
  · rintro rfl
    exact all_splits text

end Scanning

end OliCompiler
