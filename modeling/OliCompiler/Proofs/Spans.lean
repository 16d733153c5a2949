import OliCompiler.Proofs.Lookahead.Faults
import OliCompiler.Proofs.Spans.Names
import OliCompiler.Proofs.Spans.Scanning
import OliCompiler.Proofs.Spans.Trees
import OliCompiler.Proofs.Stages.Outcomes

/-!
Spans are sound. Whatever a stage says of a place in the source text, the text can be cut there, and the
tree of the text is nested as its spans are.
-/

namespace OliCompiler

open Grammar

section

variable {source : String} {program : Program}

theorem parsed_nodes_fit (read : parse (scan source).tokens = .ok program) :
    ∀ node ∈ program.nodes, node.span.Fits source := by
  refine (parse_eq_ok.mp read).nodes_fine (Span.merge_fits source) fun token member => ?_
  exact scan_token_fits source token ((List.takeWhile_sublist _).subset member)

theorem parsed_nodes_nested (read : parse (scan source).tokens = .ok program) :
    ∀ node ∈ program.nodes, node.Nested :=
  (parse_eq_ok.mp read).nested ((scan_inOrder source).sublist (List.takeWhile_sublist _))

theorem parse_error_fits {error : ParseError} (failed : parse (scan source).tokens = .error error) :
    error.span.Fits source :=
  parse_error_fine (Span.merge_fits source) (scan_token_fits source) (scan_end source) failed

/-- A fault of the lowering stands at a node, and the nodes of the program fit the text. -/
theorem compile_error_fits {error : CompileError} (failed : compile source = .error error) :
    ∀ span ∈ error.spans, span.Fits source := by
  rcases compile_error_cases failed with
    ⟨_, rfl⟩ | ⟨_, ⟨fault, refused, rfl⟩ | ⟨program, read, fault, refused, rfl⟩⟩
  · exact List.forall_mem_map.mpr (scan_error_fits source)
  · exact List.forall_mem_singleton.mpr (parse_error_fits refused)
  · intro span member
    obtain ⟨node, present, rfl⟩ := lower_error_shown refused span (Option.mem_toList.mp member)
    exact parsed_nodes_fit read node present

end

/-- Every span that comes from a text cuts it between characters, tokens stand in order, and every node
of a tree lies inside the expressions, calls and functions around it. -/
theorem spans_sound (source : String) : SpansSound source where
  tokens := scan_token_fits source
  sorted := scan_inOrder source
  lexical := scan_error_fits source
  nodes _ := parsed_nodes_fit
  nested _ := parsed_nodes_nested
  parse _ := parse_error_fits
  compile _ := compile_error_fits

end OliCompiler
