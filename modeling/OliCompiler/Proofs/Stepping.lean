import OliCompiler.Proofs.Grammar.Programs
import OliCompiler.Proofs.Stepping.Bindings
import OliCompiler.Proofs.Stepping.Operands
import OliCompiler.Proofs.Stepping.Tokens

/-!
What a step does to its variable. It is one binding of the variable, and what the binding adds or takes away
is one unless an operator follows: a step is written out before any grammar is known, and the operator then
goes on with the sum.
-/

namespace OliCompiler

open Grammar Scanning Stepping

/-- How a step at a place is one binding of a program. The token of its variable is `target`, and `later` are
the tokens behind its own. -/
structure StepBinds (tokens : List Token) (program : Program) (direction : Step) (position : Position)
    (span : Span) (target : Token) (later : List Token) (binding : Binding) : Prop where
  /-- The tokens of the step stand between its variable and the others. -/
  row : ∃ earlier, tokens = earlier ++ target :: (stepRow direction target.text position span ++ later)
  named : target.kind = .identifier
  /-- Of all bindings of the program this one is of the variable where the step changes it. -/
  once : program.bindings.filter (fun other => other.name = nameOf target) = [binding]
  /-- Its value is spelled by the tokens of the step behind the sign of assignment and by those that follow,
  up to the one that ends the binding. -/
  value : ∃ inside stop behind, later = inside ++ stop :: behind ∧ EndsBinding stop ∧
    ExprForm 0 ((stepRow direction target.text position span).tail ++ inside) binding.value
  /-- The value is the variable and one exactly if no operator follows. -/
  plain : binding.value = .binary (changeOf direction) (.var ⟨target.text, span⟩) (.int 1 span) ↔
    ∀ next ∈ later.head?, next.kind.operator? = none

namespace Stepping

variable {program : Program} {direction : Step} {position : Position} {span : Span} {name : String}
  {earlier later inside behind : List Token} {target sign stop : Token} {binding : Binding} {value : Expr}

/-- A binding that begins with the tokens of a step holds all of them. -/
theorem inside_of_step (form : ExprForm 0 inside value) (ends : EndsBinding stop)
    (whole : (stepRow direction name position span).tail ++ later = inside ++ stop :: behind) :
    ∃ more, inside = (stepRow direction name position span).tail ++ more ∧
      later = more ++ stop :: behind := by
  match inside, whole with
  | [], _ => exact absurd form.length_pos (Nat.lt_irrefl 0)
  | [_], whole | [_, _], whole =>
    cases whole
    rcases ends with ends | ends <;> cases ends
  | _ :: _ :: _ :: more, whole =>
    cases whole
    exact ⟨more, rfl, rfl⟩

/-- Behind what a binding holds of the tokens after a step, there is no operator. -/
theorem value_iff {more : List Token}
    (form : ExprForm 0 ((stepRow direction name position span).tail ++ more) value)
    (ends : EndsBinding stop) :
    value = .binary (changeOf direction) (.var ⟨name, span⟩) (.int 1 span) ↔
      ∀ next ∈ (more ++ stop :: behind).head?, next.kind.operator? = none := by
  have denotes : Numeral "1".toList 1 := int32?_eq_some.mp (by decide)
  obtain ⟨same, follows⟩ := form.step_iff rfl rfl rfl denotes
  refine same.trans ?_
  cases more with
  | nil =>
    refine ⟨fun _ => ?_, fun _ => rfl⟩
    rintro next ⟨⟩
    rcases ends with ends | ends <;> rw [ends] <;> rfl
  | cons next more =>
    obtain ⟨op, joins⟩ := follows next rfl
    refine ⟨nofun, fun none => ?_⟩
    cases joins ▸ none next rfl

theorem takeWhile_inner {tokens : List Token} {eof : Token}
    (inner : ∀ token ∈ tokens, token.kind ≠ .endOfFile) (ends : eof.kind = .endOfFile) :
    (tokens ++ [eof]).takeWhile (fun token => token.kind ≠ .endOfFile) = tokens := by
  rw [List.takeWhile_append_of_pos (by simpa using inner), List.takeWhile_cons_of_neg (by simp [ends]),
    List.append_nil]

/-- A token that is followed by those of a step is alone where it stands. -/
theorem alone_of_distinct {tokens : List Token} (distinct : (earlier ++ target :: tokens).Pairwise Distinct)
    (named : target.kind = .identifier) :
    ∀ token ∈ earlier ++ tokens, token.kind = .identifier → token.span ≠ target.span := by
  obtain ⟨-, behind, across⟩ := List.pairwise_append.mp distinct
  obtain ⟨behind, -⟩ := List.pairwise_cons.mp behind
  refine List.forall_mem_append.mpr ⟨fun token member named' => ?_, fun token member named' => ?_⟩
  · exact across token member target List.mem_cons_self named' named
  · exact (behind token member named named').symm

/-- The tokens of a step behind its variable are those of one binding of a program. -/
theorem binding_of_row
    (form : ProgramForm (earlier ++ target :: (stepRow direction name position span ++ later)) program)
    (distinct : (earlier ++ target :: (stepRow direction name position span ++ later)).Pairwise Distinct)
    (named : target.kind = .identifier) :
    ∃ binding inside stop behind, later = inside ++ stop :: behind ∧ EndsBinding stop ∧
      ExprForm 0 ((stepRow direction name position span).tail ++ inside) binding.value ∧
      program.bindings.filter (fun other => other.name = nameOf target) = [binding] := by
  have alone := alone_of_distinct distinct named
  have assigns : (Token.mk .assign none position span).kind = .assign := rfl
  obtain ⟨binding, inside, stop, behind, same, ends, bound, once⟩ :=
    form.binding_of_sign assigns rfl fun token member => by
      rcases List.mem_append.mp member with before | within
      · exact alone token (List.mem_append_left _ before)
      · exact alone token (List.mem_append_right _ (List.mem_cons_of_mem _ within))
  cases bound with
  | mk _ _ spelled =>
    obtain ⟨more, rfl, rfl⟩ := inside_of_step spelled ends same
    exact ⟨_, more, stop, behind, rfl, ends, spelled, once⟩

end Stepping

/-- In a text without lexical faults every step stands behind an identifier, and it is one binding of that
variable in the program: the variable and one, unless an operator follows and goes on with the sum. -/
theorem step_binds_once {source : String} {program : Program} {before after : List Lexeme} {direction : Step}
    {text : List Char} (clean : (scan source).errors = [])
    (read : parse (scan source).tokens = .ok program)
    (split : Lexeme.all source.toList = before ++ ⟨.symbol (.step direction), text⟩ :: after) :
    ∃ target later binding, before.foldl Lexeme.targetAfter none = some target.text ∧
      StepBinds (scan source).tokens program direction (behind before).position
        ⟨(behind before).offset, (behind before).offset + byteLength text⟩ target later binding := by
  have spelled := Lexeme.all_spelled source.toList
  obtain ⟨eof, ends, whole⟩ := ofLexemes_eq_given .start none (Lexeme.all source.toList)
  have inner := given_inner .start none spelled
  have distinct : (scan source).tokens.Pairwise Distinct := ofLexemes_distinct spelled (all_present source.toList)
  have form := parse_eq_ok.mp read
  rw [show scan source = _ from whole] at clean form distinct ⊢
  rw [takeWhile_inner inner ends] at form
  have distinct := distinct.sublist (List.sublist_append_left _ _)
  rw [split] at clean spelled form distinct ⊢
  obtain ⟨earlier, target, later, named, leaves, row⟩ := given_step (List.forall_mem_append.mp spelled).1 clean
  rw [row] at form distinct ⊢
  obtain ⟨binding, inside, stop, behind, rfl, ends', reads, once⟩ := binding_of_row form distinct named
  refine ⟨target, inside ++ stop :: (behind ++ [eof]), binding, leaves, ⟨earlier, ?_⟩, named, once, ?_, ?_⟩
  · simp
  · exact ⟨inside, stop, behind ++ [eof], rfl, ends', reads⟩
  · exact value_iff reads ends'

/-- A text that steps a local and goes on with some more. -/
def stepping (more : String) : String :=
  "fn main() \x7b let x = 1; x++" ++ more ++ "; return x; \x7d"

/-- The lexemes before the step. -/
def beforeStep (more : String) : List Lexeme := (Lexeme.all (stepping more).toList).take 18

/-- The program of some tokens, from the operators that its bindings have. -/
theorem bindings_of_map (tokens : List Token) (counts : List Nat)
    (found : (parse tokens).map (·.bindings.map (·.value.operations)) = .ok counts) :
    ∃ program, parse tokens = .ok program ∧ program.bindings.map (·.value.operations) = counts := by
  cases read : parse tokens with
  | error fault =>
    rw [read] at found
    cases found
  | ok program =>
    rw [read] at found
    exact ⟨program, rfl, Except.ok.inj found⟩

theorem step_binds_once_alone :
    (scan (stepping "")).errors = [] ∧ ∃ program, parse (scan (stepping "")).tokens = .ok program ∧
      ∃ target later binding, some "x" = some target.text ∧
        StepBinds (scan (stepping "")).tokens program .up (behind (beforeStep "")).position
          ⟨(behind (beforeStep "")).offset, (behind (beforeStep "")).offset + byteLength "++".toList⟩
          target later binding := by
  have clean : (scan (stepping "")).errors = [] := by decide +kernel
  have split : Lexeme.all (stepping "").toList = beforeStep "" ++ ⟨.symbol (.step .up), "++".toList⟩ ::
      (Lexeme.all (stepping "").toList).drop 19 := by decide +kernel
  have leaves : (beforeStep "").foldl Lexeme.targetAfter none = some "x" := by decide +kernel
  obtain ⟨program, read, -⟩ := bindings_of_map (scan (stepping "")).tokens [0, 1] (by decide +kernel)
  exact ⟨clean, program, read, leaves ▸ step_binds_once clean read split⟩

/-- A step need not change its variable by one: a product behind it is taken of the one. -/
theorem not_forall_step_plain :
    ¬∀ (source : String) (program : Program), (scan source).errors = [] →
      parse (scan source).tokens = .ok program →
      ∀ (before after : List Lexeme) (direction : Step) (text : List Char) (name : String),
        Lexeme.all source.toList = before ++ ⟨.symbol (.step direction), text⟩ :: after →
        before.foldl Lexeme.targetAfter none = some name →
        ∃ binding ∈ program.bindings, binding.name.name = name ∧ ∃ first second,
          binding.value = .binary (changeOf direction) (.var ⟨name, first⟩) (.int 1 second) := by
  intro plain
  have clean : (scan (stepping " * 2")).errors = [] := by decide +kernel
  have split : Lexeme.all (stepping " * 2").toList =
      beforeStep " * 2" ++ ⟨.symbol (.step .up), "++".toList⟩ ::
        (Lexeme.all (stepping " * 2").toList).drop 19 := by decide +kernel
  have leaves : (beforeStep " * 2").foldl Lexeme.targetAfter none = some "x" := by decide +kernel
  obtain ⟨program, read, counts⟩ := bindings_of_map (scan (stepping " * 2")).tokens [0, 2]
    (by decide +kernel)
  obtain ⟨binding, member, -, first, second, value⟩ :=
    plain _ program clean read (beforeStep " * 2") _ .up _ "x" split leaves
  have one : binding.value.operations = 1 := by
    rw [value]
    rfl
  have counted := List.mem_map_of_mem (f := (·.value.operations)) member
  rw [counts, one] at counted
  revert counted
  decide

end OliCompiler
