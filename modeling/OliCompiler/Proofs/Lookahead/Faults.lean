import OliCompiler.Proofs.Lookahead.Programs

/-!
Where the reading of tokens stops. A fault stands at a token of the list, or it is about the name or the
parameters of `main`, so what holds of the spans of tokens and of merges holds of the spans of faults.
-/

namespace OliCompiler

namespace Cursor

variable {tokens : List Token} {last : Token}

/-- Nothing is seen behind the first end of the file. -/
theorem ofTokens_end (ends : last.kind = .endOfFile) (none : ∀ token ∈ tokens, token.kind ≠ .endOfFile)
    (others : List Token) : ofTokens (tokens ++ last :: others) = ⟨[], tokens, last⟩ := by
  have found : (tokens ++ last :: others).find? (fun token => token.kind = .endOfFile) = some last :=
    List.find?_eq_some_iff_append.mpr ⟨decide_eq_true ends, tokens, others, rfl, by simpa using none⟩
  rw [ofTokens, eofOf, found, List.takeWhile_append_of_pos (by simpa using none),
    List.takeWhile_cons_of_neg (by simp [ends]), List.append_nil]

/-- A list that ends somewhere is read from its start. -/
theorem tokens_ofTokens_begins (ends : ∃ token ∈ tokens, token.kind = .endOfFile) :
    (ofTokens tokens).tokens <+: tokens := by
  cases found : tokens.find? fun token => token.kind = .endOfFile with
  | none =>
    obtain ⟨token, member, kind⟩ := ends
    exact absurd (decide_eq_true kind) (List.find?_eq_none.mp found token member)
  | some last =>
    obtain ⟨kind, before, after, rfl, none⟩ := List.find?_eq_some_iff_append.mp found
    rw [ofTokens_end (of_decide_eq_true kind) (by simpa using none)]
    exact ⟨after, List.append_assoc before [last] after⟩

end Cursor

variable {tokens : List Token} {error : ParseError}

/-- The fault that the reading of a list ends with stands at its tokens. -/
theorem parse_blames (ends : ∃ token ∈ tokens, token.kind = .endOfFile)
    (failed : parse tokens = .error error) : Blames tokens error := by
  obtain ⟨outcome, passed, behind, run⟩ := Parser.program_local (Cursor.ofTokens_proper tokens)
  rw [parse, run.reads] at failed
  cases outcome with
  | ok program => cases failed
  | error error' =>
    cases failed
    exact (run.blames error rfl).of_begins (Cursor.tokens_ofTokens_begins ends)

/-- A fault in tokens that end in an end of file has the span of a token, or a merge of such spans. -/
theorem parse_error_fine {fine : Span → Prop} (merged : ∀ a b, fine a → fine b → fine (a.merge b))
    (all : ∀ token ∈ tokens, fine token.span) (ends : ∃ token ∈ tokens, token.kind = .endOfFile)
    (failed : parse tokens = .error error) : fine error.span := by
  cases parse_blames ends failed with
  | token member => exact all _ member
  | duplicate _ named => exact all _ named
  | @params _ name first last _ _ given =>
    refine merged _ _ (all _ given.mem.2) (all _ ?_)
    obtain ⟨before, word, opening, after, rfl, _, _, _, _, closes⟩ := given
    have behind : last ∈ word :: name :: opening :: first :: after := by simp [closes]
    exact List.mem_append_right before behind

end OliCompiler
