import Mathlib.Data.List.Perm.Basic
import OliCompiler.Proofs.Grammar.Expressions

/-!
The bindings of a program and their tokens. Signs of assignment stand in bindings and nowhere else, so each
of them belongs to one binding, whose name is the token before it.
-/

namespace OliCompiler

mutual

/-- The bindings of a statement: its declarations and assignments, also those of a loop. -/
def Stmt.bindings : Stmt → List Binding
  | .declare binding | .assign binding => [binding]
  | .return _ | .expr _ | .break _ | .continue _ => []
  | .if _ body tail => Stmt.bindingsOfAll body ++ tail.bindings
  | .while _ body => Stmt.bindingsOfAll body
  | .for init _ update body => init :: update :: Stmt.bindingsOfAll body

def Tail.bindings : Tail → List Binding
  | .none => []
  | .elseIf _ body tail => Stmt.bindingsOfAll body ++ tail.bindings
  | .else body => Stmt.bindingsOfAll body

def Stmt.bindingsOfAll : List Stmt → List Binding
  | [] => []
  | stmt :: stmts => stmt.bindings ++ Stmt.bindingsOfAll stmts

end

/-- The bindings of a program: its globals, and all declarations and assignments in its functions. -/
def Program.bindings (program : Program) : List Binding :=
  program.globals ++
    (program.functions ++ program.main.toList).flatMap fun function => Stmt.bindingsOfAll function.body

namespace Grammar

/-- Whether a token ends a binding: a semicolon, or the parenthesis that closes the head of a loop. -/
def EndsBinding (stop : Token) : Prop := stop.kind = .semicolon ∨ stop.kind = .closeParen

/-- Whether some tokens hold some bindings in their order, each before a token that ends it, and no sign
of assignment besides. -/
inductive Holds : List Token → List Binding → Prop where
  | plain {tokens : List Token} (free : ∀ token ∈ tokens, token.kind ≠ .assign) : Holds tokens []
  | binding {tokens : List Token} {stop : Token} {binding : Binding} (form : BindingForm tokens binding)
    (ends : EndsBinding stop) : Holds (tokens ++ [stop]) [binding]
  | append {first rest : List Token} {bindings others : List Binding} (one : Holds first bindings)
    (other : Holds rest others) : Holds (first ++ rest) (bindings ++ others)

variable {tokens earlier later : List Token} {target sign stop : Token} {held : List Binding}

theorem EndsBinding.ne_assign (ends : EndsBinding stop) : stop.kind ≠ .assign := by
  rcases ends with ends | ends <;> simp [ends]

/-- Tokens that hold bindings do not begin with a sign of assignment. -/
theorem Holds.head_ne (holds : Holds tokens held) : ∀ token ∈ tokens.head?, token.kind ≠ .assign := by
  induction holds with
  | plain free => exact fun token head => free token (List.mem_of_mem_head? head)
  | binding form =>
    obtain ⟨named, _, _⟩ := form
    rintro token ⟨⟩
    simp [named]
  | @append first _ rest _ _ _ ih ih' =>
    cases first with
    | nil => exact ih'
    | cons token first => exact ih

/-- The name of a binding is written by an identifier among the tokens. -/
theorem Holds.named (holds : Holds tokens held) :
    ∀ binding ∈ held, ∃ token ∈ tokens, token.kind = .identifier ∧ binding.name = nameOf token := by
  induction holds with
  | plain => exact List.forall_mem_nil _
  | binding form =>
    obtain ⟨named, _, _⟩ := form
    exact List.forall_mem_singleton.mpr ⟨_, List.mem_cons_self, named, rfl⟩
  | append _ _ ih ih' =>
    refine List.forall_mem_append.mpr ⟨fun binding among => ?_, fun binding among => ?_⟩
    · obtain ⟨token, member, named⟩ := ih binding among
      exact ⟨token, List.mem_append_left _ member, named⟩
    · obtain ⟨token, member, named⟩ := ih' binding among
      exact ⟨token, List.mem_append_right _ member, named⟩

/-- A sign of assignment is that of one binding, and the tokens around the binding hold the others. -/
theorem Holds.split (holds : Holds tokens held) (assigns : sign.kind = .assign)
    (whole : tokens = earlier ++ target :: sign :: later) :
    ∃ before binding after inside stop behind, held = before ++ binding :: after ∧
      later = inside ++ stop :: behind ∧ EndsBinding stop ∧
      BindingForm (target :: sign :: inside) binding ∧ Holds earlier before ∧ Holds behind after := by
  induction holds generalizing earlier later with
  | plain free => exact absurd assigns (free sign (by simp [whole]))
  | @binding tokens stop binding form ends =>
    obtain @⟨token, sign', inside, value, named, assigns', form⟩ := form
    have free : ∀ token ∈ inside ++ [stop], token.kind ≠ .assign :=
      List.forall_mem_append.mpr ⟨form.ne_assign, List.forall_mem_singleton.mpr ends.ne_assign⟩
    -- The first token of a binding is a name and its second one the sign; no other sign is among the rest.
    match earlier, whole with
    | [], whole =>
      obtain ⟨rfl, rfl, rfl⟩ : token = target ∧ sign' = sign ∧ inside ++ [stop] = later := by
        simpa using whole
      exact ⟨[], _, [], inside, stop, [], rfl, rfl, ends, .mk named assigns form, .plain (by simp),
        .plain (by simp)⟩
    | [_], whole =>
      obtain ⟨-, -, same⟩ : token = _ ∧ sign' = target ∧ inside ++ [stop] = sign :: later := by
        simpa using whole
      exact absurd assigns (free sign (by simp [same]))
    | _ :: _ :: front, whole =>
      obtain ⟨-, -, same⟩ : token = _ ∧ sign' = _ ∧ inside ++ [stop] = front ++ target :: sign :: later := by
        simpa using whole
      exact absurd assigns (free sign (by simp [same]))
  | @append first rest bindings others one other ih ih' =>
    rcases List.append_eq_append_iff.mp whole with ⟨front, rfl, same⟩ | ⟨back, rfl, same⟩
    · obtain ⟨before, binding, after, inside, stop, behind, rfl, rfl, ends, form, left, right⟩ := ih' same
      exact ⟨bindings ++ before, binding, after, inside, stop, behind, by simp, rfl, ends, form,
        one.append left, right⟩
    · match back, same with
      | [], same =>
        have whole : rest = [] ++ target :: sign :: later := same.symm
        obtain ⟨before, binding, after, inside, stop, behind, rfl, rfl, ends, form, left, right⟩ := ih' whole
        refine ⟨bindings ++ before, binding, after, inside, stop, behind, by simp, rfl, ends, form, ?_, right⟩
        simpa using one.append left
      | [_], same =>
        obtain ⟨-, rfl⟩ : target = _ ∧ sign :: later = rest := by simpa using same
        exact absurd assigns (other.head_ne sign rfl)
      | _ :: _ :: back, same =>
        obtain ⟨rfl, rfl, rfl⟩ : target = _ ∧ sign = _ ∧ later = back ++ rest := by simpa using same
        obtain ⟨before, binding, after, inside, stop, behind, rfl, rfl, ends, form, left, right⟩ := ih rfl
        exact ⟨before, binding, after ++ others, inside, stop, behind ++ rest, by simp, by simp, ends, form, left,
          right.append other⟩

/-! ## The tokens of statements -/

theorem Holds.before {word : Token} {kind : Token.Kind} (holds : Holds tokens held)
    (is : word.kind = kind) (plain : kind ≠ .assign) : Holds (word :: tokens) held := by
  have alone : Holds [word] [] := .plain (List.forall_mem_singleton.mpr (is ▸ plain))
  exact alone.append holds

theorem Holds.behind {kind : Token.Kind} (holds : Holds tokens held) (is : stop.kind = kind)
    (plain : kind ≠ .assign) : Holds (tokens ++ [stop]) held := by
  have alone : Holds [stop] [] := .plain (List.forall_mem_singleton.mpr (is ▸ plain))
  simpa using holds.append alone

theorem LetForm.holds {binding : Binding} (form : LetForm tokens binding) : Holds tokens [binding] := by
  obtain ⟨begins, form, ends⟩ := form
  exact Holds.before (.binding form (.inl ends)) begins (by decide)

theorem OptionalLet.holds (form : OptionalLet tokens) : Holds tokens [] := by
  cases form with
  | absent => exact .plain (List.forall_mem_nil _)
  | present begins => exact .before (.plain (List.forall_mem_nil _)) begins (by decide)

mutual

theorem StmtForm.holds : ∀ {inLoop : Bool} {tokens : List Token} {stmt : Stmt},
    StmtForm inLoop tokens stmt → Holds tokens stmt.bindings
  | _, _, _, .declare form => form.holds
  | _, _, _, .assign form ends => .binding form (.inl ends)
  | _, _, _, .return begins form ends => by
    have inside := Holds.plain form.ne_assign
    exact (inside.behind ends (by decide)).before begins (by decide)
  | _, _, _, .expr form ends => (Holds.plain form.ne_assign).behind ends (by decide)
  | _, _, _, .if begins tests blocks follows => by
    have test := Holds.plain tests.ne_assign
    exact (test.append (blocks.holds.append follows.holds)).before begins (by decide)
  | _, _, _, .while begins opens tests closes blocks => by
    have test := Holds.plain tests.ne_assign
    have body := blocks.holds.before closes (by decide)
    exact ((test.append body).before opens (by decide)).before begins (by decide)
  | _, _, _, .for begins opens mayDeclare starts ends tests ends' updates closes blocks => by
    have first := Holds.binding starts (.inl ends)
    have test := (Holds.plain tests.ne_assign).behind ends' (by decide)
    have next := Holds.binding updates (.inr closes)
    have inside := mayDeclare.holds.append (first.append (test.append (next.append blocks.holds)))
    simpa [Stmt.bindings] using (inside.before opens (by decide)).before begins (by decide)
  | _, _, _, .break begins ends => .plain (by simp [begins, ends])
  | _, _, _, .continue begins ends => .plain (by simp [begins, ends])

theorem TailForm.holds : ∀ {inLoop : Bool} {tokens : List Token} {tail : Tail},
    TailForm inLoop tokens tail → Holds tokens tail.bindings
  | _, _, _, .none => .plain (List.forall_mem_nil _)
  | _, _, _, .elseIf begins continues tests blocks follows => by
    have test := Holds.plain tests.ne_assign
    have branch := test.append (blocks.holds.append follows.holds)
    exact (branch.before continues (by decide)).before begins (by decide)
  | _, _, _, .else begins blocks => blocks.holds.before begins (by decide)

theorem BlockForm.holds : ∀ {inLoop : Bool} {tokens : List Token} {body : List Stmt} {close : Span},
    BlockForm inLoop tokens body close → Holds tokens (Stmt.bindingsOfAll body)
  | _, _, _, _, .mk opens form closes =>
    (form.holds.behind closes (by decide)).before opens (by decide)

theorem StmtsForm.holds : ∀ {inLoop : Bool} {tokens : List Token} {stmts : List Stmt},
    StmtsForm inLoop tokens stmts → Holds tokens (Stmt.bindingsOfAll stmts)
  | _, _, _, .nil => .plain (List.forall_mem_nil _)
  | _, _, _, .cons form others => form.holds.append others.holds

end

theorem ParamsForm.ne_assign {params : List Ident} (form : ParamsForm tokens params) :
    ∀ token ∈ tokens, token.kind ≠ .assign := by
  induction form with
  | nil => exact List.forall_mem_nil _
  | last named => simp [named]
  | cons named separates _ ih => simp_all

theorem FunctionForm.holds {definition : Function} (form : FunctionForm tokens definition) :
    Holds tokens (Stmt.bindingsOfAll definition.body) := by
  obtain ⟨begins, named, opens, form, closes, blocks⟩ := form
  have body := (Holds.plain form.ne_assign).append (blocks.holds.before closes (by decide))
  exact ((body.before opens (by decide)).before named (by decide)).before begins (by decide)

/-! ## The tokens of programs -/

/-- The bindings of a definition. -/
def Item.bindings : Item → List Binding
  | .function definition => Stmt.bindingsOfAll definition.body
  | .global binding => [binding]

theorem ItemsForm.holds {items : List Item} (form : ItemsForm tokens items) :
    Holds tokens (items.flatMap Item.bindings) := by
  induction form with
  | nil => exact .plain (List.forall_mem_nil _)
  | function form _ ih => exact form.holds.append ih
  | global form _ ih => exact form.holds.append ih

/-- The bindings of definitions are those of the globals and those of the functions. -/
theorem bindings_perm (items : List Item) : (items.flatMap Item.bindings).Perm
    (items.filterMap Item.global? ++ (items.filterMap Item.function?).flatMap fun function =>
      Stmt.bindingsOfAll function.body) := by
  induction items with
  | nil => exact .refl _
  | cons item items ih =>
    cases item with
    | function definition =>
      refine (ih.append_left (Stmt.bindingsOfAll definition.body)).trans ?_
      exact List.perm_append_comm_assoc _ _ _
    | global binding => exact ih.cons binding

/-- The tokens of a program hold its bindings, though in another order where the entry function does not
come last. -/
theorem ProgramForm.holds {program : Program} (form : ProgramForm tokens program) :
    ∃ held, Holds tokens held ∧ held.Perm program.bindings := by
  obtain ⟨items, form, whole⟩ := form
  refine ⟨_, form.holds, (bindings_perm items).trans ?_⟩
  have functions : (program.functions ++ program.main.toList).Perm (items.filterMap Item.function?) := by
    rw [whole.functions, whole.main]
    exact List.perm_append_comm.trans (List.filter_append_perm _ _)
  rw [Program.bindings, whole.globals]
  exact (functions.symm.flatMap_right _).append_left _

/-- The tokens that hold no binding of a name are those that do not spell it. -/
theorem Holds.filter_eq_nil (holds : Holds tokens held) (target : Token)
    (alone : ∀ token ∈ tokens, token.kind = .identifier → token.span ≠ target.span) :
    held.filter (fun other => other.name = nameOf target) = [] := by
  refine List.filter_eq_nil_iff.mpr fun other among => ?_
  obtain ⟨token, member, named, name⟩ := holds.named other among
  rw [decide_eq_true_iff, name]
  exact fun same => alone token member named (congrArg Ident.span same)

/-- A sign of assignment among the tokens of a program is that of one binding of the program, if no other
token spells a name where the token before the sign does. -/
theorem ProgramForm.binding_of_sign {program : Program} (form : ProgramForm tokens program)
    (assigns : sign.kind = .assign) (whole : tokens = earlier ++ target :: sign :: later)
    (alone : ∀ token ∈ earlier ++ later, token.kind = .identifier → token.span ≠ target.span) :
    ∃ binding inside stop behind, later = inside ++ stop :: behind ∧ EndsBinding stop ∧
      BindingForm (target :: sign :: inside) binding ∧
      program.bindings.filter (fun other => other.name = nameOf target) = [binding] := by
  obtain ⟨held, holds, permuted⟩ := form.holds
  obtain ⟨before, binding, after, inside, stop, behind, rfl, rfl, ends, bound, left, right⟩ :=
    holds.split assigns whole
  refine ⟨binding, inside, stop, behind, rfl, ends, bound, ?_⟩
  have named : binding.name = nameOf target := by
    cases bound
    rfl
  have noneBefore := left.filter_eq_nil target fun token member => alone token (by simp [member])
  have noneAfter := right.filter_eq_nil target fun token member => alone token (by simp [member])
  have one : (before ++ binding :: after).filter (fun other => other.name = nameOf target) = [binding] := by
    rw [List.filter_append, List.filter_cons_of_pos (by simp [named]), noneBefore, noneAfter, List.nil_append]
  exact List.perm_singleton.mp (one ▸ permuted.symm.filter _)

end Grammar

end OliCompiler
