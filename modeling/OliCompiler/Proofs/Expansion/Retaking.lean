import OliCompiler.Proofs.Printing.Words

/-!
When a lexeme is taken again before another text. One character behind a lexeme tells where it ends; and
a word or a closed comment ends before any blank.
-/

namespace OliCompiler

namespace Lexeme

open Scanning

variable {c : Char} {text rest rest' others : List Char} {lexeme : Lexeme} {p : Char → Bool}

/-- Whether a run of the characters of a class ends before a text. -/
def EndsBefore (p : Char → Bool) (rest : List Char) : Prop := ∀ c, rest.head? = some c → p c = false

theorem endsBefore_dropWhile : EndsBefore p (text.dropWhile p) := by
  intro c first
  have stopped := List.head?_dropWhile_not p text
  rw [first] at stopped
  exact stopped

theorem EndsBefore.of_head (ends : EndsBefore p rest) (same : rest'.head? = rest.head?) :
    EndsBefore p rest' :=
  fun c first => ends c (same ▸ first)

theorem EndsBefore.run (ends : EndsBefore p rest) (others : List Char) (all : ∀ c ∈ others, p c = true) :
    (others ++ rest).takeWhile p = others ∧ (others ++ rest).dropWhile p = rest := by
  rw [List.takeWhile_append_of_pos all, List.dropWhile_append_of_pos all]
  cases rest with
  | nil => simp
  | cons c rest =>
    have stop := ends c rfl
    simp [stop]

theorem mem_takeWhile : ∀ c ∈ text.takeWhile p, p c = true :=
  fun _ member => List.all_eq_true.mp List.all_takeWhile _ member

/-- Whether a lexeme that stands before one text also ends before another. -/
inductive Ends (lexeme : Lexeme) (rest rest' : List Char) : Prop where
  | same (head : rest'.head? = rest.head?)
  | step {c : Char} (sign : c = '+' ∨ c = '-') (before : rest.head? = some c)
    (blank : rest'.head? = some ' ') (noStray : lexeme.shape ≠ .stray)
    (noSymbol : ∀ kind, lexeme.shape ≠ .symbol kind)

theorem Ends.endsBefore (ends : Ends lexeme rest rest') (before : EndsBefore p rest)
    (blank : p ' ' = false) : EndsBefore p rest' := by
  cases ends with
  | same head => exact before.of_head head
  | step _ _ first =>
    intro c found
    cases first.symm.trans found
    exact blank

/-- A line ends no sooner for a step. -/
theorem Ends.head_of_line (ends : Ends lexeme rest rest') (before : EndsBefore (· ≠ '\n') rest) :
    rest'.head? = rest.head? := by
  cases ends with
  | same head => exact head
  | step sign first =>
    have newline := before _ first
    rcases sign with rfl | rfl <;> exact absurd newline (by decide)

theorem Ends.head_of_symbol (ends : Ends lexeme rest rest')
    (symbol : lexeme.shape = .stray ∨ ∃ kind, lexeme.shape = .symbol kind) : rest'.head? = rest.head? := by
  cases ends with
  | same head => exact head
  | step _ _ _ noStray noSymbol =>
    rcases symbol with stray | ⟨kind, symbol⟩
    · exact absurd stray noStray
    · exact absurd symbol (noSymbol kind)

theorem take_lineComment (text : List Char) : take '/' ('/' :: text) =
    (⟨.lineComment, '/' :: '/' :: text.takeWhile (· ≠ '\n')⟩, text.dropWhile (· ≠ '\n')) := rfl

theorem take_blockComment (text : List Char) : take '/' ('*' :: text) =
    (⟨.blockComment (commentRest text).2.2, '/' :: '*' :: (commentRest text).1⟩, (commentRest text).2.1) := rfl

theorem takeSymbol_shape (c : Char) (text : List Char) :
    (takeSymbol c text).1.shape = .stray ∨ ∃ kind, (takeSymbol c text).1.shape = .symbol kind := by
  by_cases pair : IsPair c text
  · obtain ⟨d, rest, kind, rfl, known⟩ := pair
    rw [takeSymbol_pair known]
    exact .inr ⟨kind, rfl⟩
  · rw [takeSymbol_single pair]
    cases symbol? c with
    | some kind => exact .inr ⟨kind, rfl⟩
    | none => exact .inl rfl

/-- Whether a symbol of two characters is taken is told by the second one. -/
theorem takeSymbol_of_head (head : rest.head? = text.head?) (single : ¬IsPair c text) :
    takeSymbol c rest = ((takeSymbol c text).1, rest) := by
  have single' : ¬IsPair c rest := by
    rintro ⟨d, others, kind, rfl, known⟩
    obtain ⟨behind, rfl⟩ := List.head?_eq_some_iff.mp head.symm
    exact single ⟨d, behind, kind, rfl, known⟩
  rw [takeSymbol_single single, takeSymbol_single single']
  cases symbol? c <;> rfl

theorem take_again_symbol (sign : Opening.of c = .sign) (noLine : ∀ others, c :: text ≠ '/' :: '/' :: others)
    (noBlock : ∀ others, c :: text ≠ '/' :: '*' :: others)
    (head : rest'.head? = (takeSymbol c text).2.head?) :
    take c ((takeSymbol c text).1.text.tail ++ rest') = ((takeSymbol c text).1, rest') := by
  by_cases pair : IsPair c text
  · obtain ⟨d, rest, kind, rfl, known⟩ := pair
    rw [takeSymbol_pair known]
    exact Printing.take_pair known
  · have whole : takeSymbol c text = ((takeSymbol c text).1, text) ∧
        (takeSymbol c text).1.text = [c] := by
      rw [takeSymbol_single pair]
      cases symbol? c <;> exact ⟨rfl, rfl⟩
    rw [whole.1] at head
    rw [whole.2, List.tail_cons, List.nil_append, Printing.take_sign sign, takeSymbol_of_head head pair]
    · rintro others same
      obtain ⟨rfl, rfl⟩ := List.cons.inj same
      obtain ⟨behind, rfl⟩ := List.head?_eq_some_iff.mp head.symm
      exact noLine behind rfl
    · rintro others same
      obtain ⟨rfl, rfl⟩ := List.cons.inj same
      obtain ⟨behind, rfl⟩ := List.head?_eq_some_iff.mp head.symm
      exact noBlock behind rfl

/-- A block comment is taken again: before any text if it is closed, and at the end if it is not. -/
theorem commentRest_again (text rest' : List Char)
    (atEnd : (commentRest text).2.1 = [] → (commentRest text).2.2 = false → rest' = []) :
    commentRest ((commentRest text).1 ++ rest') = ((commentRest text).1, rest', (commentRest text).2.2) := by
  have whole := commentRest_append text
  rcases commentRest_ends text with ⟨inside, same, first⟩ | ⟨none, unclosed⟩
  · have closed : (commentRest text).2.2 = true := by
      rw [← whole, same, List.append_assoc]
      exact congrArg (·.2.2) (commentRest_closed first)
    rw [closed, same, List.append_assoc]
    exact commentRest_closed first
  · have closed : (commentRest text).2.2 = false := by
      rw [none, List.append_nil] at whole
      rw [← whole, commentRest_open unclosed]
    rw [closed, atEnd none closed, List.append_nil, commentRest_open unclosed]

/-- A lexeme is taken again. -/
theorem take_again (solid : (take c text).1.shape ≠ .blank)
    (ends : Ends (take c text).1 (take c text).2 rest') :
    take c ((take c text).1.text.tail ++ rest') = ((take c text).1, rest') := by
  revert solid ends
  fun_cases take c text with
  | case1 => exact fun solid => absurd rfl solid
  | case2 c text blank digit =>
    intro _ ends
    obtain ⟨taken, left⟩ := (ends.endsBefore endsBefore_dropWhile rfl).run
      (text.takeWhile Decimal.isDigit) mem_takeWhile
    unfold take
    rw [if_neg blank, if_pos digit, List.tail_cons, taken, left]
  | case3 c text blank digit word =>
    intro _ ends
    obtain ⟨taken, left⟩ := (ends.endsBefore endsBefore_dropWhile rfl).run
      (text.takeWhile isWordPart) mem_takeWhile
    unfold take
    rw [if_neg blank, if_neg digit, if_pos word, List.tail_cons, taken, left]
  | case4 text =>
    intro _ ends
    obtain ⟨taken, left⟩ := (endsBefore_dropWhile.of_head (ends.head_of_line endsBefore_dropWhile)).run
      (text.takeWhile (· ≠ '\n')) mem_takeWhile
    refine (take_lineComment (text.takeWhile (· ≠ '\n') ++ rest')).trans ?_
    rw [taken, left]
  | case5 text body rest closed taken =>
    intro _ ends
    have again : commentRest (body ++ rest') = (body, rest', closed) := by
      have again := commentRest_again text rest'
      rw [taken] at again
      refine again fun none _ => ?_
      dsimp only at none
      subst none
      cases ends with
      | same head => exact List.head?_eq_none_iff.mp head
      | step _ before => cases before
    exact (take_blockComment (body ++ rest')).trans (by rw [again])
  | case6 c text noLine noBlock blank digit word =>
    intro _ ends
    refine take_again_symbol (Opening.of_sign blank digit word) ?_ ?_
      (ends.head_of_symbol (takeSymbol_shape c text))
    · rintro others same
      exact noLine others (List.cons.inj same).1 (List.cons.inj same).2
    · rintro others same
      exact noBlock others (List.cons.inj same).1 (List.cons.inj same).2

end Lexeme

end OliCompiler
