import OliCompiler.Proofs.Lookahead
import OliCompiler.Proofs.Progress.Rounds

/-!
The cursor of a reader that is called again and again, also behind a fault. It stands before a token of the
list and never behind the first end of the file, it moves forward token by token, and what is read with
success passes a token; so every loop ends, and a program ends at the end of the file.
-/

namespace OliCompiler

namespace Cursor

/-- The index of the first end of the file. -/
def firstEnd (tokens : List Token) : Nat :=
  (closed tokens).findIdx fun token => token.kind = .endOfFile

variable {tokens passed : List Token} {cursor cursor' : Cursor}

theorem Passes.index_add (passes : Passes cursor passed cursor') :
    cursor'.index = cursor.index + passed.length := by
  rw [index, passes.passed, List.length_append, List.length_reverse, Nat.add_comm]
  rfl

theorem Passes.iterate (passes : Passes cursor passed cursor') :
    Cursor.advance^[passed.length] cursor = cursor' := by
  induction passed generalizing cursor with
  | nil => exact passes.eq_self.symm
  | cons token passed ih =>
    obtain ⟨middle, one, rest⟩ := passes.cons
    rw [List.length_cons, Function.iterate_succ_apply, one.advance, ih rest]

theorem at_passes (tokens : List Token) (place : Nat) :
    ∃ passed, Passes (.ofTokens tokens) passed (.at tokens place) := by
  induction place with
  | zero => exact ⟨[], .refl _⟩
  | succ place ih =>
    obtain ⟨passed, passes⟩ := ih
    have proper := at_proper tokens place
    have next : Cursor.at tokens (place + 1) = (Cursor.at tokens place).advance :=
      Function.iterate_succ_apply' _ _ _
    rw [next]
    by_cases ends : (Cursor.at tokens place).current.kind = .endOfFile
    · rw [proper.advance_eq_self ends]
      exact ⟨passed, passes⟩
    · exact ⟨_, passes.append (proper.passes ends)⟩

section

variable (passes : Passes (.ofTokens tokens) passed cursor)

include passes

theorem Passes.index_le_firstEnd : cursor.index ≤ firstEnd tokens := by
  obtain ⟨rest, whole⟩ := passes.begins_closed
  have solid : ∀ token ∈ passed, token.kind ≠ .endOfFile := fun token member =>
    (ofTokens_proper tokens).ahead token (passes.ahead ▸ List.mem_append_left _ member)
  have none : passed.findIdx (fun token => token.kind = .endOfFile) = passed.length :=
    List.findIdx_eq_length.mpr (by simpa using solid)
  rw [passes.index_eq, firstEnd, ← whole, List.append_assoc, List.findIdx_append, none,
    if_neg (Nat.lt_irrefl _)]
  exact Nat.le_add_left _ _

theorem Passes.index_eq_firstEnd (ends : cursor.current.kind = .endOfFile) :
    cursor.index = firstEnd tokens := by
  refine Nat.le_antisymm passes.index_le_firstEnd (Nat.le_of_not_lt fun before => ?_)
  obtain ⟨inside, same⟩ := List.getElem?_eq_some_iff.mp passes.at_index
  have other := List.not_of_lt_findIdx before
  rw [same] at other
  simp [ends] at other

/-- The tokens passed and those shown are in the list. -/
theorem Passes.index_ahead_le : cursor.index + (cursor.ahead.length + 1) ≤ (closed tokens).length := by
  have all := (throughEnd_begins (closed tokens)).length_le
  rw [← shown_ofTokens, passes.shown, List.length_append, Cursor.shown, List.length_append] at all
  rw [passes.index_eq]
  exact all

end

end Cursor

namespace Parser

open Cursor Grammar

variable {α : Type}

/-- Where a run of a reader leaves the cursor, also with a fault. -/
def leaves (reader : Parser α) (cursor : Cursor) : Cursor :=
  match reader cursor with
  | .ok _ behind | .error _ behind => behind

/-- A call of a reader on the cursor that the calls before have left. -/
inductive Request where
  | expr
  | program

def Request.leaves : Request → Cursor → Cursor
  | expr => Parser.leaves Parser.expr
  | program => Parser.leaves Parser.program

/-- Whether a reader moves a cursor forward token by token, by so many at least if it succeeds. -/
structure Goes (least : Nat) (reader : Parser α) (cursor : Cursor) : Prop where
  steps : ∃ count, leaves reader cursor = Cursor.advance^[count] cursor ∧
    (leaves reader cursor).index = cursor.index + count
  gains : ∀ value behind, reader cursor = .ok value behind → cursor.index + least ≤ behind.index

/-- Whether a reader reads as a loop does that goes no more rounds than there are tokens from the cursor
on. -/
structure Loop.Bounded (loop : Loop α) (tokens : List Token) (value : α) (reader : Parser α)
    (cursor : Cursor) : Prop where
  runs : ∃ rounds, loop.Runs rounds value cursor (reader cursor)
  few : ∀ rounds result, loop.Runs rounds value cursor result →
    cursor.index + rounds ≤ (closed tokens).length

/-- What holds of the readers at a cursor in a list of tokens. Where a loop has a budget, it is any that
suffices for the tokens ahead. -/
structure Advances (tokens : List Token) (cursor : Cursor) : Prop where
  indexes : cursor.Indexes tokens
  within : cursor.index ≤ firstEnd tokens
  expr : Goes 1 expr cursor
  stmt : ∀ inLoop budget, Goes 1 (stmtWithin inLoop budget) cursor
  declaration : Goes 1 declaration cursor
  letDeclaration : Goes 1 letDeclaration cursor
  function : Goes 1 function cursor
  program : Goes 0 program cursor
  ends : ∀ result behind, Parser.program cursor = .ok result behind →
    behind.index = firstEnd tokens ∧ behind.current.kind = .endOfFile
  operatorLoop : ∀ least left budget, 3 * cursor.ahead.length ≤ budget →
    (operatorLoop least).Bounded tokens left (climbWithin least left budget) cursor
  argumentLoop : ∀ budget, 3 * cursor.ahead.length + 3 ≤ budget →
    argumentLoop.Bounded tokens [] (argumentsWithin budget) cursor
  paramLoop : ∀ budget, cursor.ahead.length < budget →
    paramLoop.Bounded tokens [] (paramsWithin budget) cursor
  stmtLoop : ∀ inLoop budget, 2 * cursor.ahead.length < budget →
    (stmtLoop inLoop).Bounded tokens [] (stmtsWithin inLoop budget) cursor
  itemLoop : itemLoop.Bounded tokens .empty Parser.program cursor

variable {reader : Parser α} {cursor behind : Cursor} {least : Nat} {tokens passed : List Token} {value : α}

theorem Local.goes (near : Local reader cursor)
    (gains : ∀ value behind, reader cursor = .ok value behind →
      ∃ passed, Passes cursor passed behind ∧ least ≤ passed.length) : Goes least reader cursor where
  steps := by
    obtain ⟨outcome, passed, behind, run⟩ := near
    have left : leaves reader cursor = behind := by
      rw [leaves, run.reads]
      cases outcome <;> rfl
    rw [left]
    exact ⟨passed.length, run.passes.iterate.symm, run.passes.index_add⟩
  gains value behind reads := by
    obtain ⟨passed, passes, some⟩ := gains value behind reads
    rw [passes.index_add]
    exact Nat.add_le_add_left some _

theorem Loop.bounded {loop : Loop α} {reader' : α → Parser α} (gains : loop.Gains)
    (unfolds : loop.Unfolds reader') (same : reader cursor = reader' value cursor) (proper : cursor.Proper)
    (within : cursor.index + (cursor.ahead.length + 1) ≤ (closed tokens).length) :
    loop.Bounded tokens value reader cursor where
  runs := same ▸ unfolds.runs gains proper
  few _ _ runs := Nat.le_trans (Nat.add_le_add_left (runs.rounds_le gains proper) _) within

/-- What is read as a program ends at the end of the file, where alone its loop stops. -/
theorem program_ends {result : Program} (proper : cursor.Proper)
    (reads : program cursor = .ok result behind) : behind.current.kind = .endOfFile := by
  have reads : items .empty cursor = .ok result behind := reads
  obtain ⟨rounds, runs⟩ := itemLoop_unfolds.runs itemLoop_gains proper
  rw [reads] at runs
  have stops := runs.stopped itemLoop_gains (fun _ _ _ _ proper reads => by
    cases (itemLoop_round proper reads).1) proper
  simpa [itemLoop] using stops

theorem at_advances (tokens : List Token) (place : Nat) : Advances tokens (.at tokens place) := by
  obtain ⟨passed, passes⟩ := at_passes tokens place
  have proper := at_proper tokens place
  have within := passes.index_ahead_le
  generalize Cursor.at tokens place = cursor at *
  exact {
    indexes := passes.indexes
    within := passes.index_le_firstEnd
    expr := (expr_local proper).goes fun value behind reads => by
      obtain ⟨tokens, passes, form⟩ := expr_sound proper reads
      exact ⟨tokens, passes, form.length_pos⟩
    stmt := fun inLoop budget => (stmtWithin_local budget inLoop proper).goes fun stmt behind reads => by
      obtain ⟨tokens, passes, form⟩ := (soundStmts budget).stmt proper reads
      obtain ⟨token, rest, rfl, _⟩ := form.begins
      exact ⟨_, passes, Nat.succ_pos _⟩
    declaration := (declaration_local proper).goes fun binding behind reads => by
      obtain ⟨tokens, passes, form⟩ := declaration_sound proper reads
      cases form with
      | mk => exact ⟨_, passes, Nat.succ_pos _⟩
    letDeclaration := (letDeclaration_local proper).goes fun binding behind reads => by
      obtain ⟨tokens, passes, form⟩ := letDeclaration_sound proper reads
      exact ⟨tokens, passes, form.length_pos⟩
    function := (function_local proper).goes fun definition behind reads => by
      obtain ⟨tokens, passes, form⟩ := function_sound proper reads
      exact ⟨tokens, passes, form.length_pos⟩
    program := (program_local proper).goes fun result behind reads => by
      obtain ⟨tokens, passes⟩ := (program_local proper).passes reads
      exact ⟨tokens, passes, Nat.zero_le _⟩
    ends := fun result behind reads => by
      obtain ⟨others, rest⟩ := (program_local proper).passes reads
      have ends := program_ends proper reads
      exact ⟨(passes.append rest).index_eq_firstEnd ends, ends⟩
    operatorLoop := fun least left budget enough =>
      Loop.bounded (operatorLoop_gains least) (operatorLoop_unfolds least) (climbWithin_eq proper enough)
        proper within
    argumentLoop := fun budget enough =>
      Loop.bounded argumentLoop_gains argumentLoop_unfolds
        (by rw [further_nil, argumentsWithin_eq proper enough]) proper within
    paramLoop := fun budget enough =>
      Loop.bounded paramLoop_gains paramLoop_unfolds
        (by rw [further_nil, paramsWithin_eq proper enough]) proper within
    stmtLoop := fun inLoop budget enough =>
      Loop.bounded (stmtLoop_gains inLoop) (stmtLoop_unfolds inLoop)
        (by rw [further_nil, stmtsWithin_eq proper enough]) proper within
    itemLoop := Loop.bounded itemLoop_gains itemLoop_unfolds rfl proper within }

theorem Goes.leaves_at {place : Nat} (goes : Goes least reader (.at tokens place)) :
    ∃ place', leaves reader (.at tokens place) = .at tokens place' := by
  obtain ⟨count, left, _⟩ := goes.steps
  exact ⟨count + place, left.trans (Function.iterate_add_apply _ _ _ _).symm⟩

theorem Request.leaves_at (tokens : List Token) (place : Nat) (request : Request) :
    ∃ place', request.leaves (.at tokens place) = .at tokens place' := by
  have advances := at_advances tokens place
  cases request with
  | expr => exact advances.expr.leaves_at
  | program => exact advances.program.leaves_at

/-- Whatever is asked of a reader, in whatever order, its cursor is one that moves token by token lead to,
and at each of those the readers and their loops advance. -/
theorem requests_advance (tokens : List Token) :
    (∀ requests : List Request, ∃ place,
      requests.foldl (fun cursor request => request.leaves cursor) (.ofTokens tokens) =
        .at tokens place) ∧
    ∀ place, Advances tokens (.at tokens place) := by
  refine ⟨fun requests => ?_, at_advances tokens⟩
  suffices all : ∀ place, ∃ place',
      requests.foldl (fun cursor request => request.leaves cursor) (.at tokens place) =
        .at tokens place' from all 0
  induction requests with
  | nil => exact fun place => ⟨place, rfl⟩
  | cons request requests ih =>
    intro place
    obtain ⟨middle, left⟩ := request.leaves_at tokens place
    rw [List.foldl_cons, left]
    exact ih middle

/-- Neither a name nor a semicolon begins a program. An expression is read behind the first fault, and the
calls behind the second one find the semicolon still ahead. -/
example :
    let name : Token := ⟨.identifier, some "x", ⟨1, 1⟩, ⟨0, 1⟩⟩
    let sign : Token := ⟨.semicolon, none, ⟨1, 2⟩, ⟨1, 2⟩⟩
    ([.program, .expr, .expr, .program].foldl (fun cursor request => Request.leaves request cursor)
      (.ofTokens [name, sign])).index = 1 := by
  decide

end Parser

end OliCompiler
