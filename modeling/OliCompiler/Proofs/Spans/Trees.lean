import OliCompiler.Proofs.Grammar.Programs
import OliCompiler.Proofs.Spans.Rules

/-!
The spans of a tree. They are those of its tokens and merges of these, so what holds of the tokens of a
form and of merges holds of its nodes; and as tokens stand in order, the first and the last token of a
call or a function enclose all the others.
-/

namespace OliCompiler

open Grammar List

theorem InOrder.inside {first last : Token} {between : List Token}
    (sorted : InOrder (first :: (between ++ [last]))) :
    ∀ token ∈ first :: (between ++ [last]), token.span.Inside (first.span.merge last.span) := by
  obtain ⟨before, others⟩ := List.pairwise_cons.mp sorted
  have behind := (List.pairwise_append.mp others).2.2
  refine List.forall_mem_cons.mpr ⟨Span.inside_merge_left _ _, List.forall_mem_append.mpr ⟨?_, ?_⟩⟩
  · intro token member
    exact (before token (List.mem_append_left _ member)).inside
      (behind token member last (List.mem_singleton_self last))
  · exact List.forall_mem_singleton.mpr (Span.inside_merge_right _ _)

theorem Expr.mem_nodes (value : Expr) : .expr value ∈ value.nodes := by
  cases value <;> exact List.mem_cons_self

namespace Grammar

mutual

theorem ExprForm.nodes_fine {fine : Span → Prop} (merged : ∀ a b, fine a → fine b → fine (a.merge b)) :
    ∀ {level : Nat} {tokens : List Token} {value : Expr}, ExprForm level tokens value →
      (∀ token ∈ tokens, fine token.span) → ∀ node ∈ value.nodes, fine node.span
  | _, _, _, .binary first _ second, all => by
    obtain ⟨left, right⟩ := List.forall_mem_append.mp all
    have inLeft := first.nodes_fine merged left
    have inRight := second.nodes_fine merged (List.forall_mem_cons.mp right).2
    refine List.forall_mem_cons.mpr ⟨?_, List.forall_mem_append.mpr ⟨inLeft, inRight⟩⟩
    exact merged _ _ (inLeft _ (Expr.mem_nodes _)) (inRight _ (Expr.mem_nodes _))
  | _, _, _, .tighter _ form, all => form.nodes_fine merged all
  | _, _, _, .paren _ form _, all => form.nodes_fine merged fun token member =>
    all token (List.mem_cons_of_mem _ (List.mem_append_left _ member))
  | _, _, _, .int _ _, all => List.forall_mem_singleton.mpr (all _ List.mem_cons_self)
  | _, _, _, .var _, all => by
    have named := all _ List.mem_cons_self
    exact List.forall_mem_cons.mpr ⟨named, List.forall_mem_singleton.mpr named⟩
  | _, _, _, .call _ _ form _, all => by
    obtain ⟨named, others⟩ := List.forall_mem_cons.mp all
    obtain ⟨inside, closes⟩ := List.forall_mem_append.mp (List.forall_mem_cons.mp others).2
    have whole := merged _ _ named (closes _ List.mem_cons_self)
    exact List.forall_mem_cons.mpr ⟨whole, List.forall_mem_cons.mpr ⟨named, form.nodes_fine merged inside⟩⟩

theorem ArgsForm.nodes_fine {fine : Span → Prop} (merged : ∀ a b, fine a → fine b → fine (a.merge b)) :
    ∀ {tokens : List Token} {args : List Expr}, ArgsForm tokens args →
      (∀ token ∈ tokens, fine token.span) → ∀ node ∈ Expr.nodesOfAll args, fine node.span
  | _, _, .nil, _ => List.forall_mem_nil _
  | _, _, .last form, all =>
    List.forall_mem_append.mpr ⟨form.nodes_fine merged all, List.forall_mem_nil _⟩
  | _, _, .cons form _ others, all => by
    obtain ⟨first, rest⟩ := List.forall_mem_append.mp all
    have behind := others.nodes_fine merged (List.forall_mem_cons.mp rest).2
    exact List.forall_mem_append.mpr ⟨form.nodes_fine merged first, behind⟩

end

mutual

/-- In a call all tokens stand between the callee and the closing parenthesis. An operation encloses its
sides by its own span, whatever stands around them. -/
theorem ExprForm.nested : ∀ {level : Nat} {tokens : List Token} {value : Expr},
    ExprForm level tokens value → InOrder tokens → ∀ node ∈ value.nodes, node.Nested
  | _, _, _, @ExprForm.binary op _ _ _ a b first _ second, sorted => by
    obtain ⟨left, right, _⟩ := List.pairwise_append.mp sorted
    have inLeft := first.nested left
    have inRight := second.nested right.of_cons
    have whole : Node.Nested (.expr (.binary op a b)) := by
      refine List.forall_mem_cons.mpr ⟨.refl _, List.forall_mem_append.mpr ⟨?_, ?_⟩⟩
      · intro part member
        exact (inLeft _ a.mem_nodes part member).trans (Span.inside_merge_left _ _)
      · intro part member
        exact (inRight _ b.mem_nodes part member).trans (Span.inside_merge_right _ _)
    exact List.forall_mem_cons.mpr ⟨whole, List.forall_mem_append.mpr ⟨inLeft, inRight⟩⟩
  | _, _, _, .tighter _ form, sorted => form.nested sorted
  | _, _, _, .paren _ form _, sorted => form.nested (sorted.sublist (by grind))
  | _, _, _, .int _ _, _ => by
    refine List.forall_mem_singleton.mpr ?_
    exact List.forall_mem_singleton.mpr (.refl _)
  | _, _, _, .var _, _ => by
    refine List.forall_mem_cons.mpr ⟨?_, List.forall_mem_singleton.mpr (List.forall_mem_nil _)⟩
    exact List.forall_mem_cons.mpr ⟨.refl _, List.forall_mem_singleton.mpr (.refl _)⟩
  | _, _, _, @ExprForm.call token opening closing inside args _ _ form _, sorted => by
    have around := InOrder.inside (show InOrder (token :: (opening :: inside ++ [closing])) from sorted)
    obtain ⟨named, others⟩ := List.forall_mem_cons.mp around
    have within := (List.forall_mem_append.mp (List.forall_mem_cons.mp others).2).1
    have whole : Node.Nested (.expr (.call (nameOf token) args (token.span.merge closing.span))) := by
      refine List.forall_mem_cons.mpr ⟨.refl _, List.forall_mem_cons.mpr ⟨named, ?_⟩⟩
      exact form.nodes_fine (Span.merge_inside _) within
    refine List.forall_mem_cons.mpr ⟨whole, List.forall_mem_cons.mpr ⟨List.forall_mem_nil _, ?_⟩⟩
    exact form.nested (sorted.sublist (by grind))

theorem ArgsForm.nested : ∀ {tokens : List Token} {args : List Expr}, ArgsForm tokens args →
    InOrder tokens → ∀ node ∈ Expr.nodesOfAll args, node.Nested
  | _, _, .nil, _ => List.forall_mem_nil _
  | _, _, .last form, sorted =>
    List.forall_mem_append.mpr ⟨form.nested sorted, List.forall_mem_nil _⟩
  | _, _, .cons form _ others, sorted => by
    obtain ⟨first, rest, _⟩ := List.pairwise_append.mp sorted
    exact List.forall_mem_append.mpr ⟨form.nested first, others.nested rest.of_cons⟩

end

/-- Whether a node comes from some tokens: it is a name or a jump that one of them writes, or it stands in
an expression whose tokens are among them. -/
inductive Arises (tokens : List Token) : Node → Prop where
  | name {token : Token} (member : token ∈ tokens) : Arises tokens (.name (nameOf token))
  | jump {token : Token} (member : token ∈ tokens) : Arises tokens (.jump token.span)
  | expr {part : List Token} {value : Expr} {node : Node} (form : ExprForm 0 part value)
    (among : part <+ tokens) (member : node ∈ value.nodes) : Arises tokens node

namespace Arises

variable {tokens part : List Token} {node : Node}

theorem mono (arises : Arises part node) (among : part <+ tokens) : Arises tokens node := by
  cases arises with
  | name member => exact .name (among.subset member)
  | jump member => exact .jump (among.subset member)
  | expr form inner member => exact .expr form (inner.trans among) member

theorem fine {fine : Span → Prop} (merged : ∀ a b, fine a → fine b → fine (a.merge b))
    (arises : Arises tokens node) (all : ∀ token ∈ tokens, fine token.span) : fine node.span := by
  cases arises with
  | name member | jump member => exact all _ member
  | expr form among member =>
    exact form.nodes_fine merged (fun token within => all token (among.subset within)) node member

theorem nested (arises : Arises tokens node) (sorted : InOrder tokens) : node.Nested := by
  cases arises with
  | name | jump => exact List.forall_mem_nil _
  | expr form among member => exact form.nested (sorted.sublist among) node member

end Arises

theorem BindingForm.arises {tokens : List Token} {binding : Binding}
    (form : BindingForm tokens binding) : ∀ node ∈ binding.nodes, Arises tokens node := by
  obtain @⟨token, sign, tokens, value, _, _, form⟩ := form
  refine List.forall_mem_cons.mpr ⟨.name List.mem_cons_self, fun node member => ?_⟩
  exact .expr form (by grind) member

theorem LetForm.arises {tokens : List Token} {binding : Binding} (form : LetForm tokens binding) :
    ∀ node ∈ binding.nodes, Arises tokens node := by
  obtain @⟨word, stop, tokens, binding, _, form, _⟩ := form
  exact fun node member => (form.arises node member).mono (by grind)

mutual

theorem StmtForm.arises : ∀ {inLoop : Bool} {tokens : List Token} {stmt : Stmt},
    StmtForm inLoop tokens stmt → ∀ node ∈ stmt.nodes, Arises tokens node
  | _, _, _, .declare form => form.arises
  | _, _, _, .assign form _ => fun node member => (form.arises node member).mono (by grind)
  | _, _, _, .return _ form _ => fun node member => .expr form (by grind) member
  | _, _, _, .expr form _ => fun node member => .expr form (by grind) member
  | _, _, _, .if _ tests blocks follows => by
    refine List.forall_mem_append.mpr ⟨fun node member => .expr tests (by grind) member, ?_⟩
    refine List.forall_mem_append.mpr ⟨fun node member => ?_, fun node member => ?_⟩
    · exact (blocks.arises node member).mono (by grind)
    · exact (follows.arises node member).mono (by grind)
  | _, _, _, .while _ _ tests _ blocks => by
    refine List.forall_mem_append.mpr ⟨fun node member => .expr tests (by grind) member, ?_⟩
    exact fun node member => (blocks.arises node member).mono (by grind)
  | _, _, _, .for _ _ _ starts _ tests _ updates _ blocks => by
    refine List.forall_mem_append.mpr ⟨fun node member => ?_, List.forall_mem_append.mpr
      ⟨fun node member => .expr tests (by grind) member, List.forall_mem_append.mpr
        ⟨fun node member => ?_, fun node member => ?_⟩⟩⟩
    · exact (starts.arises node member).mono (by grind)
    · exact (updates.arises node member).mono (by grind)
    · exact (blocks.arises node member).mono (by grind)
  | _, _, _, .break _ _ => List.forall_mem_singleton.mpr (.jump List.mem_cons_self)
  | _, _, _, .continue _ _ => List.forall_mem_singleton.mpr (.jump List.mem_cons_self)

theorem TailForm.arises : ∀ {inLoop : Bool} {tokens : List Token} {tail : Tail},
    TailForm inLoop tokens tail → ∀ node ∈ tail.nodes, Arises tokens node
  | _, _, _, .none => List.forall_mem_nil _
  | _, _, _, .elseIf _ _ tests blocks follows => by
    refine List.forall_mem_append.mpr ⟨fun node member => .expr tests (by grind) member, ?_⟩
    refine List.forall_mem_append.mpr ⟨fun node member => ?_, fun node member => ?_⟩
    · exact (blocks.arises node member).mono (by grind)
    · exact (follows.arises node member).mono (by grind)
  | _, _, _, .else _ blocks => fun node member =>
    (blocks.arises node member).mono (List.sublist_cons_self _ _)

theorem BlockForm.arises : ∀ {inLoop : Bool} {tokens : List Token} {body : List Stmt} {close : Span},
    BlockForm inLoop tokens body close → ∀ node ∈ Stmt.nodesOfAll body, Arises tokens node
  | _, _, _, _, .mk _ form _ => fun node member => (form.arises node member).mono (by grind)

theorem StmtsForm.arises : ∀ {inLoop : Bool} {tokens : List Token} {stmts : List Stmt},
    StmtsForm inLoop tokens stmts → ∀ node ∈ Stmt.nodesOfAll stmts, Arises tokens node
  | _, _, _, .nil => List.forall_mem_nil _
  | _, _, _, .cons form others => by
    refine List.forall_mem_append.mpr ⟨fun node member => ?_, fun node member => ?_⟩
    · exact (form.arises node member).mono (List.sublist_append_left _ _)
    · exact (others.arises node member).mono (List.sublist_append_right _ _)

end

theorem ParamsForm.arises {tokens : List Token} {params : List Ident}
    (form : ParamsForm tokens params) : ∀ node ∈ params.map Node.name, Arises tokens node := by
  induction form with
  | nil => exact List.forall_mem_nil _
  | last => exact List.forall_mem_singleton.mpr (.name List.mem_cons_self)
  | cons _ _ _ ih =>
    refine List.forall_mem_cons.mpr ⟨.name List.mem_cons_self, fun node member => ?_⟩
    exact (ih node member).mono (by grind)

section

variable {tokens : List Token} {definition : Function} {program : Program} {items : List Item}

/-- A function stands from its first token to its last one, and the rest of its nodes come from its
tokens. -/
theorem FunctionForm.arises (form : FunctionForm tokens definition) :
    (∃ first between last, tokens = first :: (between ++ [last]) ∧
      definition.span = first.span.merge last.span) ∧
    ∀ node ∈ definition.nodes.tail, Arises tokens node := by
  obtain @⟨word, token, opening, closing, inside, block, params, body, close, _, _, _, form, _,
    blocks⟩ := form
  have bodyNodes := blocks.arises
  obtain @⟨_, brace, brace', statements, _, _, _, _⟩ := blocks
  constructor
  · refine ⟨word, token :: opening :: (inside ++ closing :: brace :: statements), brace', ?_, rfl⟩
    simp
  · refine List.forall_mem_cons.mpr ⟨.name (by simp), List.forall_mem_append.mpr ⟨?_, ?_⟩⟩
    · exact fun node member => (form.arises node member).mono (by grind)
    · exact fun node member => (bodyNodes node member).mono (by grind)

theorem FunctionForm.nodes_fine {fine : Span → Prop}
    (merged : ∀ a b, fine a → fine b → fine (a.merge b)) (form : FunctionForm tokens definition)
    (all : ∀ token ∈ tokens, fine token.span) : ∀ node ∈ definition.nodes, fine node.span := by
  obtain ⟨⟨first, between, last, rfl, span⟩, arises⟩ := form.arises
  refine List.forall_mem_cons.mpr ⟨?_, fun node member => (arises node member).fine merged all⟩
  rw [Node.span, span]
  exact merged _ _ (all first (by simp)) (all last (by simp))

theorem FunctionForm.nested (form : FunctionForm tokens definition) (sorted : InOrder tokens) :
    ∀ node ∈ definition.nodes, node.Nested := by
  obtain ⟨⟨first, between, last, rfl, span⟩, arises⟩ := form.arises
  have within := sorted.inside
  rw [← span] at within
  refine List.forall_mem_cons.mpr ⟨?_, fun node member => (arises node member).nested sorted⟩
  exact form.nodes_fine (Span.merge_inside _) within

/-- Each definition of a program has a form of its own among the tokens. -/
theorem ItemsForm.definitions (form : ItemsForm tokens items) :
    (∀ definition ∈ items.filterMap Item.function?, ∃ part, part <+ tokens ∧
      FunctionForm part definition) ∧
    ∀ binding ∈ items.filterMap Item.global?, ∃ part, part <+ tokens ∧ LetForm part binding := by
  induction form with
  | nil => exact ⟨List.forall_mem_nil _, List.forall_mem_nil _⟩
  | @function first rest definition items form _ ih =>
    obtain ⟨functions, globals⟩ := ih
    refine ⟨List.forall_mem_cons.mpr ⟨⟨first, List.sublist_append_left _ _, form⟩, ?_⟩, ?_⟩
    · intro definition member
      obtain ⟨part, among, form⟩ := functions definition member
      exact ⟨part, among.trans (List.sublist_append_right _ _), form⟩
    · intro binding member
      obtain ⟨part, among, form⟩ := globals binding member
      exact ⟨part, among.trans (List.sublist_append_right _ _), form⟩
  | @global first rest binding items form _ ih =>
    obtain ⟨functions, globals⟩ := ih
    refine ⟨?_, List.forall_mem_cons.mpr ⟨⟨first, List.sublist_append_left _ _, form⟩, ?_⟩⟩
    · intro definition member
      obtain ⟨part, among, form⟩ := functions definition member
      exact ⟨part, among.trans (List.sublist_append_right _ _), form⟩
    · intro binding member
      obtain ⟨part, among, form⟩ := globals binding member
      exact ⟨part, among.trans (List.sublist_append_right _ _), form⟩

/-- A node of a program is one of a function or of a global, and these have forms. -/
theorem ProgramForm.nodes (form : ProgramForm tokens program) : ∀ node ∈ program.nodes,
    (∃ part definition, part <+ tokens ∧ FunctionForm part definition ∧ node ∈ definition.nodes) ∨
      ∃ part binding, part <+ tokens ∧ LetForm part binding ∧ node ∈ binding.nodes := by
  obtain ⟨items, form, whole⟩ := form
  obtain ⟨functions, globals⟩ := form.definitions
  refine List.forall_mem_append.mpr ⟨fun node member => ?_, fun node member => ?_⟩
  · obtain ⟨definition, listed, inside⟩ := List.mem_flatMap.mp member
    have read : definition ∈ items.filterMap Item.function? := by
      rcases List.mem_append.mp listed with plain | entry
      · rw [whole.functions] at plain
        exact (List.mem_filter.mp plain).1
      · rw [whole.main] at entry
        exact (List.mem_filter.mp entry).1
    obtain ⟨part, among, form⟩ := functions definition read
    exact .inl ⟨part, definition, among, form, inside⟩
  · obtain ⟨binding, listed, inside⟩ := List.mem_flatMap.mp member
    rw [whole.globals] at listed
    obtain ⟨part, among, form⟩ := globals binding listed
    exact .inr ⟨part, binding, among, form, inside⟩

theorem ProgramForm.nodes_fine {fine : Span → Prop}
    (merged : ∀ a b, fine a → fine b → fine (a.merge b)) (form : ProgramForm tokens program)
    (all : ∀ token ∈ tokens, fine token.span) : ∀ node ∈ program.nodes, fine node.span := by
  intro node member
  rcases form.nodes node member with
    ⟨part, definition, among, form, inside⟩ | ⟨part, binding, among, form, inside⟩
  · exact form.nodes_fine merged (fun token within => all token (among.subset within)) node inside
  · exact ((form.arises node inside).mono among).fine merged all

theorem ProgramForm.nested (form : ProgramForm tokens program) (sorted : InOrder tokens) :
    ∀ node ∈ program.nodes, node.Nested := by
  intro node member
  rcases form.nodes node member with
    ⟨part, definition, among, form, inside⟩ | ⟨part, binding, among, form, inside⟩
  · exact form.nested (sorted.sublist among) node inside
  · exact ((form.arises node inside).mono among).nested sorted

end

end Grammar

end OliCompiler
