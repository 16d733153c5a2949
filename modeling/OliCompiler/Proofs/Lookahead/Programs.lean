import OliCompiler.Proofs.Lookahead.Reading

/-!
Readers of programs are local. A reader within a budget is the one within the next budget as soon as the
budget bounds the tokens ahead, by induction on the budget; and a line that is looked up for `main` is
found among the tokens passed.
-/

namespace OliCompiler

namespace Grammar

variable {tokens : List Token} {params : List Ident} {name first : Ident}

theorem ParamsForm.mem (form : ParamsForm tokens params) (member : name ∈ params) :
    ∃ token ∈ tokens, nameOf token = name := by
  induction form with
  | nil => exact absurd member List.not_mem_nil
  | last =>
    obtain rfl := List.mem_singleton.mp member
    exact ⟨_, List.mem_singleton_self _, rfl⟩
  | cons _ _ _ ih =>
    rcases List.mem_cons.mp member with rfl | later
    · exact ⟨_, List.mem_cons_self, rfl⟩
    · obtain ⟨token, inside, rfl⟩ := ih later
      exact ⟨token, List.mem_cons_of_mem _ (List.mem_cons_of_mem _ inside), rfl⟩

theorem ParamsForm.head (form : ParamsForm tokens params) (starts : params.head? = some first) :
    ∃ token rest, tokens = token :: rest ∧ token.kind = .identifier ∧ nameOf token = first := by
  cases form with
  | nil => cases starts
  | last named | cons named => exact ⟨_, _, rfl, named, Option.some.inj starts⟩

end Grammar

namespace Parser

open Cursor Grammar

variable {α β : Type} {reader : Parser α} {cursor start : Cursor} {budget : Nat} {inLoop : Bool}
  {tokens : List Token} {definition : Function}

theorem Local.bind_congr {next next' : α → Parser β} (proper : cursor.Proper)
    (first : Local reader cursor)
    (goesOn : ∀ value middle, middle.Proper → middle.ahead.length ≤ cursor.ahead.length →
      next value middle = next' value middle) :
    (reader >>= next) cursor = (reader >>= next') cursor := by
  refine bind_congr_at rfl fun value middle reads => ?_
  obtain ⟨tokens, passes⟩ := first.passes reads
  have length := passes.length
  exact goesOn value middle (passes.proper proper) (by omega)

theorem braced_congr {content content' : Parser α} (proper : cursor.Proper)
    (inside : ∀ middle : Cursor, middle.Proper → middle.ahead.length ≤ cursor.ahead.length →
      content middle = content' middle) : braced content cursor = braced content' cursor :=
  (expect_local .openBrace proper).bind_congr proper fun _ middle proper shorter =>
    bind_congr_at (inside middle proper shorter) fun _ _ _ => rfl

/-- What one more of a sufficient budget does not change: the reading of a statement, of statements, and
of what follows the body of an `if`. Two of a budget suffice for a token, and for statements and tails one
more; a statement is read only where some token is ahead. -/
structure Spared (budget : Nat) : Prop where
  stmt : ∀ {inLoop cursor}, Cursor.Proper cursor → 0 < cursor.ahead.length →
    2 * cursor.ahead.length ≤ budget →
    stmtWithin inLoop (budget + 1) cursor = stmtWithin inLoop budget cursor
  stmts : ∀ {inLoop cursor}, Cursor.Proper cursor → 2 * cursor.ahead.length < budget →
    stmtsWithin inLoop (budget + 1) cursor = stmtsWithin inLoop budget cursor
  tail : ∀ {inLoop cursor}, Cursor.Proper cursor → 2 * cursor.ahead.length < budget →
    tailWithin inLoop (budget + 1) cursor = tailWithin inLoop budget cursor

theorem Spared.braced (spared : Spared budget) (proper : cursor.Proper)
    (enough : 2 * cursor.ahead.length < budget) :
    braced (stmtsWithin inLoop (budget + 1)) cursor = braced (stmtsWithin inLoop budget) cursor :=
  braced_congr proper fun _ proper shorter => spared.stmts proper (by omega)

/-- A condition with both of its arms, as in an `if` and behind an `else if`. -/
theorem Spared.arms {wrap : Expr → List Stmt → Tail → α} (spared : Spared budget)
    (proper : cursor.Proper) (enough : 2 * cursor.ahead.length < budget) :
    (do
      let condition ← expr
      let (body, _) ← Parser.braced (stmtsWithin inLoop (budget + 1))
      let tail ← tailWithin inLoop (budget + 1)
      return wrap condition body tail : Parser α) cursor = (do
      let condition ← expr
      let (body, _) ← Parser.braced (stmtsWithin inLoop budget)
      let tail ← tailWithin inLoop budget
      return wrap condition body tail : Parser α) cursor := by
  refine (expr_local proper).bind_congr proper fun condition middle proper shorter => ?_
  refine bind_congr_at (spared.braced proper (by omega)) fun body behind reads => ?_
  have inside := braced_local proper (stmtsWithin_local (budget + 1) inLoop)
  obtain ⟨tokens, passes⟩ := inside.passes reads
  have length := passes.length
  exact bind_congr_at (spared.tail (passes.proper proper) (by omega)) fun _ _ _ => rfl

theorem stmtWithin_spared (spared : Spared budget) (proper : cursor.Proper)
    (enough : 2 * cursor.ahead.length ≤ budget + 1) :
    stmtWithin inLoop (budget + 2) cursor = stmtWithin inLoop (budget + 1) cursor := by
  rw [stmtWithin, stmtWithin, peek_bind, peek_bind]
  cases ahead : cursor.current.kind with
  | keyword word =>
    -- The keyword is passed first, so whatever takes a budget has a token less ahead.
    have shorter := proper.length_advance (by simp [ahead])
    have properNext := proper.advance
    cases word with
    | «if» =>
      simp only [advance_bind]
      exact spared.arms properNext (by omega)
    | «for» =>
      simp only [advance_bind]
      refine (expect_local .openParen properNext).bind_congr properNext fun _ _ proper less₁ => ?_
      refine (consume_local (.keyword .let) proper).bind_congr proper fun _ _ proper less₂ => ?_
      refine (declaration_local proper).bind_congr proper fun _ _ proper less₃ => ?_
      refine (expect_local .semicolon proper).bind_congr proper fun _ _ proper less₄ => ?_
      refine (expr_local proper).bind_congr proper fun _ _ proper less₅ => ?_
      refine (expect_local .semicolon proper).bind_congr proper fun _ _ proper less₆ => ?_
      refine (assignment_local proper).bind_congr proper fun _ _ proper less₇ => ?_
      refine (expect_local .closeParen proper).bind_congr proper fun _ _ proper less₈ => ?_
      exact bind_congr_at (spared.braced proper (by omega)) fun _ _ _ => rfl
    | «while» =>
      simp only [advance_bind]
      refine (expect_local .openParen properNext).bind_congr properNext fun _ _ proper less₁ => ?_
      refine (expr_local proper).bind_congr proper fun _ _ proper less₂ => ?_
      refine (expect_local .closeParen proper).bind_congr proper fun _ _ proper less₃ => ?_
      exact bind_congr_at (spared.braced proper (by omega)) fun _ _ _ => rfl
    | _ => rfl
  | _ => rfl

theorem stmtsWithin_spared (spared : Spared budget) (proper : cursor.Proper)
    (enough : 2 * cursor.ahead.length < budget + 1) :
    stmtsWithin inLoop (budget + 2) cursor = stmtsWithin inLoop (budget + 1) cursor := by
  by_cases ends : cursor.current.kind = .closeBrace ∨ cursor.current.kind = .endOfFile
  · rw [stmts_stops ends, stmts_stops ends]
  · obtain ⟨noBrace, noEnd⟩ := not_or.mp ends
    have shorter := proper.length_advance noEnd
    rw [stmts_goes noBrace noEnd, stmts_goes noBrace noEnd]
    -- The first statement has the same tokens ahead; it passes one, which pays for the others.
    refine bind_congr_at (spared.stmt proper (by omega) (by omega)) fun stmt middle reads => ?_
    obtain ⟨tokens, passes, form⟩ := (soundStmts (budget + 1)).stmt proper reads
    obtain ⟨token, rest, rfl, _⟩ := form.begins
    have length := passes.length
    rw [List.length_cons] at length
    exact bind_congr_at (spared.stmts (passes.proper proper) (by omega)) fun _ _ _ => rfl

theorem tailWithin_spared (spared : Spared budget) (proper : cursor.Proper)
    (enough : 2 * cursor.ahead.length < budget + 1) :
    tailWithin inLoop (budget + 2) cursor = tailWithin inLoop (budget + 1) cursor := by
  rw [tailWithin, tailWithin]
  rcases consume_eq (.keyword .else) (by decide) proper with ⟨begins, _, consumed⟩ | ⟨_, kept⟩
  · have shorter := proper.length_advance (by simp [begins])
    rw [bind_eq consumed, bind_eq consumed, if_pos rfl, if_pos rfl]
    refine (consume_local (.keyword .if) proper.advance).bind_congr proper.advance
      fun tests _ proper less => ?_
    cases tests with
    | true => exact spared.arms proper (by omega)
    | false => exact bind_congr_at (spared.braced proper (by omega)) fun _ _ _ => rfl
  · rw [bind_eq kept, bind_eq kept]
    rfl

theorem spared : ∀ budget, Spared budget
  | 0 => {
    stmt := fun _ some enough => absurd some (by omega)
    stmts := fun _ enough => absurd enough (Nat.not_lt_zero _)
    tail := fun _ enough => absurd enough (Nat.not_lt_zero _) }
  | budget + 1 => {
    stmt := fun proper _ enough => stmtWithin_spared (spared budget) proper enough
    stmts := stmtsWithin_spared (spared budget)
    tail := tailWithin_spared (spared budget) }

/-- Where one more of a sufficient budget does not change what is read, no more of it does. -/
theorem eq_of_spared {reader : Nat → Parser α} {needs : Nat}
    (spared : ∀ budget, needs ≤ budget → reader (budget + 1) cursor = reader budget cursor)
    (enough : needs ≤ budget) : reader budget cursor = reader needs cursor := by
  induction enough with
  | refl => rfl
  | step enough ih => rw [spared _ enough, ih]

theorem block_local (inLoop : Bool) (proper : cursor.Proper) : Local (block inLoop) cursor := by
  have enough {cursor : Cursor} {budget : Nat} (proper : cursor.Proper)
      (enough : 2 * cursor.ahead.length + 2 ≤ budget) : braced (stmtsWithin inLoop budget) cursor =
        braced (stmtsWithin inLoop (2 * cursor.ahead.length + 2)) cursor := by
    refine @eq_of_spared _ _ _ (fun budget => braced (stmtsWithin inLoop budget)) _ ?_ enough
    exact fun budget enough => (spared budget).braced proper (by omega)
  exact .budgeted enough proper fun budget => braced_local proper (stmtsWithin_local budget inLoop)

theorem paramsWithin_local (budget : Nat) (proper : cursor.Proper) : Local (paramsWithin budget) cursor := by
  induction budget generalizing cursor with
  | zero => exact unexpected_local .identifier proper
  | succ budget ih =>
    refine check_local proper (pure_local []) ?_
    refine (declaredName_local .parameter proper).bind proper fun name _ proper _ => ?_
    refine (consume_local .comma proper).bind proper fun more _ proper _ => ?_
    cases more with
    | true => exact (ih proper).bind proper fun names _ _ _ => pure_local (name :: names)
    | false => exact pure_local [name]

theorem paramsWithin_spared (proper : cursor.Proper) (enough : cursor.ahead.length < budget) :
    paramsWithin (budget + 1) cursor = paramsWithin budget cursor := by
  induction budget generalizing cursor with
  | zero => exact absurd enough (Nat.not_lt_zero _)
  | succ budget ih =>
    rw [paramsWithin, paramsWithin, check_bind, check_bind]
    by_cases closes : cursor.current.kind = .closeParen
    · simp only [closes, decide_true, if_true]
    · simp only [closes, decide_false, Bool.false_eq_true, if_false]
      refine bind_congr_at rfl fun name middle reads => ?_
      obtain ⟨token, passes, _⟩ := (declaredName_ok proper).mp reads
      have length := passes.length
      rw [List.length_singleton] at length
      have proper := passes.proper proper
      refine (consume_local .comma proper).bind_congr proper fun more _ proper less => ?_
      cases more with
      | true => exact bind_congr_at (ih proper (by omega)) fun _ _ _ => rfl
      | false => rfl

theorem params_local (proper : cursor.Proper) : Local params cursor := by
  have inside {cursor : Cursor} (proper : cursor.Proper) :
      Local (do paramsWithin ((← get).ahead.length + 1)) cursor := by
    refine Local.budgeted (fun proper enough => ?_) proper fun budget => paramsWithin_local budget proper
    exact eq_of_spared (fun budget enough => paramsWithin_spared proper (by omega)) enough
  refine (expect_local .openParen proper).bind proper fun _ _ proper _ => ?_
  rw [← bind_assoc]
  exact (inside proper).bind proper fun names _ proper _ =>
    (expect_local .closeParen proper).bind proper fun _ _ _ _ => pure_local names

theorem function_local (proper : cursor.Proper) : Local function cursor :=
  (expect_local (.keyword .fn) proper).bind proper fun _ _ proper _ =>
    (declaredName_local .function proper).bind proper fun _ _ proper _ =>
      (params_local proper).bind proper fun _ _ proper _ =>
        (block_local false proper).bind proper fun _ _ _ _ => pure_local _

/-- The line of what starts where a passed token does is the line of a token. -/
theorem lineOf_found {name : Token} (member : name ∈ cursor.passed) :
    ∃ token ∈ cursor.tokens, token.span.start = name.span.start ∧
      cursor.lineOf name.span = token.line := by
  cases found : cursor.passed.reverse.find? fun token => token.span.start = name.span.start with
  | none =>
    have other := List.find?_eq_none.mp found name (List.mem_reverse.mpr member)
    exact absurd (decide_eq_true rfl) other
  | some token =>
    refine ⟨token, List.mem_append_left _ (List.mem_of_find?_eq_some found), ?_, ?_⟩
    · simpa using List.find?_some found
    · rw [Cursor.lineOf, found]

/-- A reader that passes nothing and whose outcome is told by a line that it looks up is local. -/
theorem local_of_line {reader : Parser α} (outcome : UInt32 → Except ParseError α) (span : Span)
    (reads : ∀ cursor : Cursor, reader cursor = ending (outcome (cursor.lineOf span)) cursor)
    (blames : ∀ error, outcome (cursor.lineOf span) = .error error → Blames cursor.tokens error) :
    Local reader cursor := by
  refine local_of_current _ (reads cursor) blames fun other passed current => ?_
  have same : other.lineOf span = cursor.lineOf span := by
    rw [Cursor.lineOf, Cursor.lineOf, passed, current]
  rw [reads, same]

/-- A definition that has been read is added by its own tokens alone. -/
theorem addFunction_local {program : Program} (form : FunctionForm tokens definition)
    (passes : Passes start tokens cursor) : Local (addFunction program definition) cursor := by
  cases form with
  | @mk word name opening closing inside block params body close begins named opens form closes blocks =>
    have present : name ∈ cursor.passed := by
      rw [passes.passed]
      simp
    obtain ⟨token, member, starts, line⟩ := lineOf_found present
    unfold addFunction
    by_cases main : name.text = "main"
    · simp only [nameOf, main, if_true]
      cases program.main with
      | some other =>
        refine local_of_line (fun line => .error ⟨.duplicateMain, line, name.span⟩) name.span
          (fun _ => rfl) ?_
        rintro _ ⟨⟩
        rw [line]
        exact .duplicate member (List.mem_append_left _ (List.mem_reverse.mpr present)) starts
      | none =>
        cases starting : params.head? with
        | none => exact local_of_line (fun _ => .ok _) name.span (fun _ => rfl) (blames_ok _)
        | some first =>
          cases ending : params.getLast? with
          | none => exact local_of_line (fun _ => .ok _) name.span (fun _ => rfl) (blames_ok _)
          | some last =>
            refine local_of_line (fun line => .error ⟨.mainWithParams, line, first.span.merge last.span⟩)
              name.span (fun _ => rfl) ?_
            rintro _ ⟨⟩
            rw [line]
            obtain ⟨param, rest, rfl, declares, rfl⟩ := form.head starting
            obtain ⟨param', inside, rfl⟩ := form.mem (List.mem_of_getLast? ending)
            have split : cursor.tokens = start.passed.reverse ++
                word :: name :: opening :: param :: (rest ++ closing :: block ++ cursor.shown) := by
              rw [passes.tokens, Cursor.tokens, passes.shown]
              simp
            refine .params member starts ⟨_, word, opening, _, split, begins, main, opens, declares, ?_⟩
            rw [List.append_assoc, ← List.cons_append]
            exact List.mem_append_left _ inside
    · simp only [nameOf, main, if_false]
      exact pure_local _

theorem itemsWithin_local (budget : Nat) (program : Program) (proper : cursor.Proper) :
    Local (itemsWithin program budget) cursor := by
  induction budget generalizing cursor program with
  | zero => exact pure_local program
  | succ budget ih =>
    refine peek_local proper ?_
    cases cursor.current.kind with
    | endOfFile => exact pure_local program
    | keyword word =>
      cases word with
      | fn =>
        refine (function_local proper).bind proper fun definition middle properMiddle reads => ?_
        obtain ⟨tokens, passes, form⟩ := function_sound proper reads
        exact (addFunction_local form passes).bind properMiddle fun program _ proper _ => ih program proper
      | «let» => exact (letDeclaration_local proper).bind proper fun _ _ proper _ => ih _ proper
      | _ => exact fail_local cursor.current_mem (by simp)
    | _ => exact fail_local cursor.current_mem (by simp)

theorem itemsWithin_spared {program : Program} (proper : cursor.Proper)
    (enough : cursor.ahead.length < budget) :
    itemsWithin program (budget + 1) cursor = itemsWithin program budget cursor := by
  induction budget generalizing cursor program with
  | zero => exact absurd enough (Nat.not_lt_zero _)
  | succ budget ih =>
    rw [itemsWithin, itemsWithin, peek_bind, peek_bind]
    cases cursor.current.kind with
    | keyword word =>
      cases word with
      | fn =>
        refine bind_congr_at rfl fun definition middle reads => ?_
        obtain ⟨tokens, passes, form⟩ := function_sound proper reads
        have length := passes.length
        have positive := form.length_pos
        refine bind_congr_at rfl fun program behind adds => ?_
        obtain ⟨_, rfl⟩ := addFunction_ok.mp adds
        exact ih (passes.proper proper) (by omega)
      | «let» =>
        refine bind_congr_at rfl fun binding middle reads => ?_
        obtain ⟨tokens, passes, form⟩ := letDeclaration_sound proper reads
        have length := passes.length
        have positive := form.length_pos
        exact ih (passes.proper proper) (by omega)
      | _ => rfl
    | _ => rfl

theorem program_local (proper : cursor.Proper) : Local program cursor := by
  refine Local.budgeted (fun proper enough => ?_) proper fun budget =>
    itemsWithin_local budget .empty proper
  exact eq_of_spared (fun budget enough => itemsWithin_spared proper (by omega)) enough

end Parser

end OliCompiler
