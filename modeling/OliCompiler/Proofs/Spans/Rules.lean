import OliCompiler.Compile

/-!
What a span says. It fits a source text if the text can be cut at both of its ends, and the nodes of a
tree are nested as their spans are.
-/

namespace OliCompiler

namespace Span

/-- Whether a span is a piece of a source text: its ends come in order, lie within the text and part no
character. -/
structure Fits (source : String) (span : Span) : Prop where
  ordered : span.start ≤ span.stop
  bounded : span.stop ≤ source.utf8ByteSize
  start : (String.Pos.Raw.mk span.start).IsValid source
  stop : (String.Pos.Raw.mk span.stop).IsValid source

/-- Whether a span lies inside another one. -/
structure Inside (inner outer : Span) : Prop where
  start : outer.start ≤ inner.start
  stop : inner.stop ≤ outer.stop

/-- Whether a span neither starts nor stops behind another one. -/
structure Precedes (one other : Span) : Prop where
  start : one.start ≤ other.start
  stop : one.stop ≤ other.stop

variable {a b c : Span}

theorem Inside.refl (span : Span) : span.Inside span := ⟨Nat.le_refl _, Nat.le_refl _⟩

theorem Inside.trans (one : a.Inside b) (other : b.Inside c) : a.Inside c :=
  ⟨Nat.le_trans other.start one.start, Nat.le_trans one.stop other.stop⟩

theorem inside_merge_left (a b : Span) : a.Inside (a.merge b) :=
  ⟨Nat.min_le_left _ _, Nat.le_max_left _ _⟩

theorem inside_merge_right (a b : Span) : b.Inside (a.merge b) :=
  ⟨Nat.min_le_right _ _, Nat.le_max_right _ _⟩

theorem merge_inside (outer a b : Span) (one : a.Inside outer) (other : b.Inside outer) :
    (a.merge b).Inside outer :=
  ⟨Nat.le_min.mpr ⟨one.start, other.start⟩, Nat.max_le.mpr ⟨one.stop, other.stop⟩⟩

/-- What stands between two spans lies inside the least span that covers both. -/
theorem Precedes.inside (first : a.Precedes b) (last : b.Precedes c) : b.Inside (a.merge c) :=
  ⟨Nat.le_trans (Nat.min_le_left _ _) first.start, Nat.le_trans last.stop (Nat.le_max_right _ _)⟩

theorem merge_fits (source : String) (a b : Span) (one : a.Fits source) (other : b.Fits source) :
    (a.merge b).Fits source where
  ordered := Nat.le_trans (Nat.min_le_left _ _) (Nat.le_trans one.ordered (Nat.le_max_left _ _))
  bounded := Nat.max_le.mpr ⟨one.bounded, other.bounded⟩
  start := by
    rcases Nat.le_total a.start b.start with less | less
    · simpa only [Span.merge, Nat.min_eq_left less] using one.start
    · simpa only [Span.merge, Nat.min_eq_right less] using other.start
  stop := by
    rcases Nat.le_total a.stop b.stop with less | less
    · simpa only [Span.merge, Nat.max_eq_right less] using other.stop
    · simpa only [Span.merge, Nat.max_eq_left less] using one.stop

end Span

/-- A part of a program that stands somewhere. -/
inductive Node where
  | name (name : Ident)
  | jump (span : Span)
  | expr (expr : Expr)
  | function (function : Function)

def Node.span : Node → Span
  | .name ident => ident.span
  | .jump place => place
  | .expr value => value.span
  | .function definition => definition.span

mutual

/-- The nodes of an expression, with itself in front. -/
def Expr.nodes : Expr → List Node
  | .int value span => [.expr (.int value span)]
  | .var name => [.expr (.var name), .name name]
  | .call callee args span => .expr (.call callee args span) :: .name callee :: Expr.nodesOfAll args
  | .binary op left right => .expr (.binary op left right) :: (left.nodes ++ right.nodes)

def Expr.nodesOfAll : List Expr → List Node
  | [] => []
  | arg :: args => arg.nodes ++ Expr.nodesOfAll args

end

def Binding.nodes (binding : Binding) : List Node := .name binding.name :: binding.value.nodes

mutual

def Stmt.nodes : Stmt → List Node
  | .declare binding | .assign binding => binding.nodes
  | .return value | .expr value => value.nodes
  | .if condition body tail => condition.nodes ++ (Stmt.nodesOfAll body ++ tail.nodes)
  | .while condition body => condition.nodes ++ Stmt.nodesOfAll body
  | .for init condition update body =>
    init.nodes ++ (condition.nodes ++ (update.nodes ++ Stmt.nodesOfAll body))
  | .break span | .continue span => [.jump span]

def Tail.nodes : Tail → List Node
  | .none => []
  | .elseIf condition body tail => condition.nodes ++ (Stmt.nodesOfAll body ++ tail.nodes)
  | .else body => Stmt.nodesOfAll body

def Stmt.nodesOfAll : List Stmt → List Node
  | [] => []
  | stmt :: stmts => stmt.nodes ++ Stmt.nodesOfAll stmts

end

/-- The nodes of a function, with itself in front. -/
def Function.nodes (function : Function) : List Node :=
  .function function :: .name function.name ::
    (function.params.map .name ++ Stmt.nodesOfAll function.body)

def Program.nodes (program : Program) : List Node :=
  (program.functions ++ program.main.toList).flatMap Function.nodes ++
    program.globals.flatMap Binding.nodes

/-- The nodes that a node encloses, itself among them if it is an expression or a function. -/
def Node.parts : Node → List Node
  | .name _ | .jump _ => []
  | .expr value => value.nodes
  | .function definition => definition.nodes

/-- Whether all that a node encloses lies inside it. -/
def Node.Nested (node : Node) : Prop := ∀ part ∈ node.parts, part.span.Inside node.span

/-- Whether no token starts or stops before one that stands in front of it. -/
def InOrder (tokens : List Token) : Prop :=
  tokens.Pairwise fun token later => token.span.Precedes later.span

/-- The spans that a failure carries. -/
def CompileError.spans : CompileError → List Span
  | .lexical errors => errors.map LexicalError.span
  | .parse error => [error.span]
  | .lower error => error.span?.toList
  | .extension _ | .io _ _ => []

/-- Whether all that is located in a source text is located rightly. -/
structure SpansSound (source : String) : Prop where
  tokens : ∀ token ∈ (scan source).tokens, token.span.Fits source
  sorted : InOrder (scan source).tokens
  lexical : ∀ error ∈ (scan source).errors, error.span.Fits source
  nodes : ∀ program, parse (scan source).tokens = .ok program →
    ∀ node ∈ program.nodes, node.span.Fits source
  nested : ∀ program, parse (scan source).tokens = .ok program →
    ∀ node ∈ program.nodes, node.Nested
  parse : ∀ error, parse (scan source).tokens = .error error → error.span.Fits source
  compile : ∀ error, compile source = .error error → ∀ span ∈ error.spans, span.Fits source

end OliCompiler
