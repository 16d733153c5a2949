import OliCompiler.Parse.Stmt
import OliCompiler.Proofs.Grammar.Forms

/-!
How readers move. A cursor passes some tokens when it comes to stand behind them, and each reader of a
single token is told by the token that it passes.
-/

namespace OliCompiler

namespace Cursor

/-- Whether the end of the file stands behind the tokens ahead and not among them. -/
structure Proper (cursor : Cursor) : Prop where
  eof : cursor.eof.kind = .endOfFile
  ahead : ∀ token ∈ cursor.ahead, token.kind ≠ .endOfFile

/-- Whether a cursor comes to another one by passing some tokens. -/
structure Passes (cursor : Cursor) (tokens : List Token) (cursor' : Cursor) : Prop where
  ahead : cursor.ahead = tokens ++ cursor'.ahead
  passed : cursor'.passed = tokens.reverse ++ cursor.passed
  eof : cursor'.eof = cursor.eof

variable {cursor middle cursor' : Cursor} {tokens first rest : List Token} {token : Token}

theorem Passes.refl (cursor : Cursor) : Passes cursor [] cursor := ⟨rfl, rfl, rfl⟩

theorem Passes.append (one : Passes cursor first middle) (others : Passes middle rest cursor') :
    Passes cursor (first ++ rest) cursor' where
  ahead := by rw [one.ahead, others.ahead, List.append_assoc]
  passed := by rw [others.passed, one.passed, List.reverse_append, List.append_assoc]
  eof := others.eof.trans one.eof

theorem Passes.split (passes : Passes cursor (first ++ rest) cursor') :
    ∃ middle, Passes cursor first middle ∧ Passes middle rest cursor' := by
  refine ⟨⟨first.reverse ++ cursor.passed, rest ++ cursor'.ahead, cursor.eof⟩, ?_, ?_⟩
  · exact ⟨by rw [passes.ahead, List.append_assoc], rfl, rfl⟩
  · exact ⟨rfl, by rw [passes.passed, List.reverse_append, List.append_assoc], passes.eof⟩

theorem Passes.cons (passes : Passes cursor (token :: rest) cursor') :
    ∃ middle, Passes cursor [token] middle ∧ Passes middle rest cursor' := by
  rw [← List.singleton_append] at passes
  exact passes.split

theorem Passes.eq_self (passes : Passes cursor [] cursor') : cursor' = cursor := by
  obtain ⟨ahead, passed, eof⟩ := passes
  cases cursor
  cases cursor'
  simp_all

theorem Passes.proper (passes : Passes cursor tokens cursor') (proper : cursor.Proper) :
    cursor'.Proper where
  eof := passes.eof ▸ proper.eof
  ahead := by
    intro token member
    exact proper.ahead token (passes.ahead ▸ List.mem_append_right _ member)

theorem Passes.length (passes : Passes cursor tokens cursor') :
    cursor.ahead.length = tokens.length + cursor'.ahead.length := by
  rw [passes.ahead, List.length_append]

theorem Passes.current (passes : Passes cursor (token :: rest) cursor') :
    cursor.current = token := by
  rw [Cursor.current, passes.ahead]
  rfl

theorem Passes.following {token' : Token} (passes : Passes cursor (token :: token' :: rest) cursor') :
    cursor.following = token' := by
  rw [Cursor.following, passes.ahead]
  rfl

theorem exists_passes (all : cursor.ahead = first ++ rest) :
    ∃ middle, Passes cursor first middle ∧ middle.ahead = rest :=
  ⟨⟨first.reverse ++ cursor.passed, rest, cursor.eof⟩, ⟨all, rfl, rfl⟩, rfl⟩

theorem passes_one : Passes cursor [token] cursor' ↔ ∃ ahead, cursor.ahead = token :: ahead ∧
    cursor' = ⟨token :: cursor.passed, ahead, cursor.eof⟩ := by
  constructor
  · intro passes
    obtain ⟨ahead, passed, eof⟩ := passes
    exact ⟨cursor'.ahead, ahead, by cases cursor'; simp_all⟩
  · rintro ⟨ahead, split, rfl⟩
    exact ⟨split, rfl, rfl⟩

theorem Passes.advance (passes : Passes cursor [token] cursor') : cursor.advance = cursor' := by
  obtain ⟨ahead, split, rfl⟩ := passes_one.mp passes
  rw [Cursor.advance, split]

/-- A token that is not the end of the file can be passed. -/
theorem Proper.passes (proper : cursor.Proper) (solid : cursor.current.kind ≠ .endOfFile) :
    Passes cursor [cursor.current] cursor.advance := by
  obtain ⟨passed, ahead, eof⟩ := cursor
  cases ahead with
  | nil => exact absurd proper.eof solid
  | cons token ahead => exact ⟨rfl, rfl, rfl⟩

theorem Proper.current_of_nil (proper : cursor.Proper) (none : cursor.ahead = []) :
    cursor.current.kind = .endOfFile := by
  rw [Cursor.current, none]
  exact proper.eof

theorem Proper.ahead_eq_nil (proper : cursor.Proper) (ends : cursor.current.kind = .endOfFile) :
    cursor.ahead = [] := by
  obtain ⟨passed, ahead, eof⟩ := cursor
  cases ahead with
  | nil => rfl
  | cons token ahead => exact absurd ends (proper.ahead token List.mem_cons_self)

end Cursor

namespace Parser

open Cursor Grammar

variable {α β : Type} {cursor cursor' : Cursor} {token : Token} {kind : Token.Kind}

theorem bind_eq {reader : Parser α} {next : α → Parser β} {value : α}
    (reads : reader cursor = .ok value cursor') : (reader >>= next) cursor = next value cursor' := by
  simp only [bind, EStateM.bind, reads]

theorem bind_ok {reader : Parser α} {next : α → Parser β} {result : β} :
    (reader >>= next) cursor = .ok result cursor' ↔
      ∃ value middle, reader cursor = .ok value middle ∧ next value middle = .ok result cursor' := by
  simp only [bind, EStateM.bind]
  cases reader cursor with
  | ok value middle =>
    constructor
    · intro reads
      exact ⟨value, middle, rfl, reads⟩
    · rintro ⟨_, _, same, reads⟩
      cases same
      exact reads
  | error => simp

theorem pure_ok {value result : α} :
    (pure value : Parser α) cursor = .ok result cursor' ↔ value = result ∧ cursor = cursor' := by
  simp [pure, EStateM.pure]

theorem peek_bind {next : Token → Parser β} : (peek >>= next) cursor = next cursor.current cursor := rfl

theorem peekFollowing_bind {next : Token → Parser β} :
    (peekFollowing >>= next) cursor = next cursor.following cursor := rfl

theorem check_bind {next : Bool → Parser β} :
    (check kind >>= next) cursor = next (decide (cursor.current.kind = kind)) cursor := rfl

theorem get_bind {next : Cursor → Parser β} : (get >>= next) cursor = next cursor cursor := rfl

theorem advance_bind {next : Token → Parser β} :
    (advance >>= next) cursor = next cursor.current cursor.advance := rfl

theorem fail_ne_ok {cause : ParseError.Cause} {value : α} :
    (fail cause token : Parser α) cursor ≠ .ok value cursor' := by
  intro same
  cases same

theorem unexpected_ne_ok {expected : ParseError.Expectation} {value : α} :
    (unexpected expected : Parser α) cursor ≠ .ok value cursor' := by
  intro same
  cases same

theorem expect_ok (proper : cursor.Proper) (solid : kind ≠ .endOfFile) :
    expect kind cursor = .ok token cursor' ↔ Passes cursor [token] cursor' ∧ token.kind = kind := by
  rw [expect, check_bind]
  by_cases same : cursor.current.kind = kind
  · rw [decide_eq_true same, if_pos rfl]
    have solid : cursor.current.kind ≠ .endOfFile := same ▸ solid
    constructor
    · intro reads
      cases reads
      exact ⟨proper.passes solid, same⟩
    · rintro ⟨passes, _⟩
      rw [← passes.current, ← passes.advance]
      rfl
  · rw [decide_eq_false same, if_neg Bool.false_ne_true]
    constructor
    · intro reads
      exact absurd reads unexpected_ne_ok
    · rintro ⟨passes, known⟩
      exact absurd (passes.current ▸ known) same

theorem consume_eq (kind : Token.Kind) (solid : kind ≠ .endOfFile) (proper : cursor.Proper) :
    (cursor.current.kind = kind ∧ Passes cursor [cursor.current] cursor.advance ∧
      consume kind cursor = .ok true cursor.advance) ∨
    (cursor.current.kind ≠ kind ∧ consume kind cursor = .ok false cursor) := by
  by_cases same : cursor.current.kind = kind
  · refine .inl ⟨same, proper.passes (same ▸ solid), ?_⟩
    rw [consume, check_bind, decide_eq_true same]
    rfl
  · refine .inr ⟨same, ?_⟩
    rw [consume, check_bind, decide_eq_false same]
    rfl

theorem consume_passes (passes : Passes cursor [token] cursor') (known : token.kind = kind) :
    consume kind cursor = .ok true cursor' := by
  rw [consume, check_bind, passes.current, decide_eq_true known, if_pos rfl, advance_bind,
    passes.advance]
  rfl

theorem consume_keeps (other : cursor.current.kind ≠ kind) : consume kind cursor = .ok false cursor := by
  rw [consume, check_bind, decide_eq_false other]
  rfl

theorem ident_ok (proper : cursor.Proper) {name : Ident} :
    ident cursor = .ok name cursor' ↔
      ∃ token, Passes cursor [token] cursor' ∧ token.kind = .identifier ∧ nameOf token = name := by
  rw [ident, check_bind]
  by_cases same : cursor.current.kind = .identifier
  · rw [decide_eq_true same, if_pos rfl, advance_bind]
    constructor
    · intro reads
      obtain ⟨rfl, rfl⟩ := pure_ok.mp reads
      exact ⟨_, proper.passes (by simp [same]), same, rfl⟩
    · rintro ⟨token, passes, _, rfl⟩
      rw [passes.current, passes.advance]
      rfl
  · rw [decide_eq_false same, if_neg Bool.false_ne_true]
    constructor
    · intro reads
      exact absurd reads unexpected_ne_ok
    · rintro ⟨token, passes, known, _⟩
      exact absurd (passes.current ▸ known) same

theorem declaredName_ok (proper : cursor.Proper) {role : ParseError.Role} {name : Ident} :
    declaredName role cursor = .ok name cursor' ↔
      ∃ token, Passes cursor [token] cursor' ∧ token.kind = .identifier ∧ nameOf token = name := by
  rw [declaredName, peek_bind]
  cases kind : cursor.current.kind with
  | keyword word =>
    constructor
    · intro reads
      exact absurd reads fail_ne_ok
    · rintro ⟨token, passes, known, _⟩
      rw [passes.current, known] at kind
      cases kind
  | _ => exact ident_ok proper

end Parser

end OliCompiler
