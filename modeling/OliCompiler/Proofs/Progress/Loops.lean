import OliCompiler.Proofs.Lookahead.Programs

/-!
Loops of readers, with a count of their rounds. A loop whose rounds pass a token whenever they are to be
repeated comes to an end by itself, after at most as many rounds as there are tokens to come, the end of
the file among them.
-/

namespace OliCompiler.Parser

open Cursor

variable {α : Type}

/-- A loop. The token ahead tells whether there is a round; a round changes what has been read so far, and
tells whether to look at the next token for a further one. -/
structure Loop (α : Type) where
  goesOn : Token.Kind → Bool
  round : α → Parser (α × Bool)

namespace Loop

/-- How many rounds a loop goes from a cursor, with its result. A round that fails or is the last one by its
own word is counted too. -/
inductive Runs (loop : Loop α) : Nat → α → Cursor → EStateM.Result ParseError Cursor α → Prop where
  | stop {value : α} {cursor : Cursor} (ends : loop.goesOn cursor.current.kind = false) :
    Runs loop 0 value cursor (.ok value cursor)
  | fail {value : α} {cursor behind : Cursor} {error : ParseError}
    (goes : loop.goesOn cursor.current.kind = true)
    (fails : loop.round value cursor = .error error behind) : Runs loop 1 value cursor (.error error behind)
  | last {value value' : α} {cursor behind : Cursor} (goes : loop.goesOn cursor.current.kind = true)
    (reads : loop.round value cursor = .ok (value', false) behind) :
    Runs loop 1 value cursor (.ok value' behind)
  | next {rounds : Nat} {value value' : α} {cursor middle : Cursor}
    {result : EStateM.Result ParseError Cursor α} (goes : loop.goesOn cursor.current.kind = true)
    (reads : loop.round value cursor = .ok (value', true) middle)
    (rest : Runs loop rounds value' middle result) : Runs loop (rounds + 1) value cursor result

/-- Whether a round passes a token at least, unless it is the last one. -/
def Gains (loop : Loop α) : Prop :=
  ∀ ⦃value value' : α⦄ ⦃cursor middle : Cursor⦄, cursor.Proper →
    loop.goesOn cursor.current.kind = true → loop.round value cursor = .ok (value', true) middle →
    ∃ token tokens, Passes cursor (token :: tokens) middle

/-- Whether readers read as a loop does that goes on from what has been read. -/
def Unfolds (loop : Loop α) (reader : α → Parser α) : Prop :=
  ∀ ⦃value : α⦄ ⦃cursor : Cursor⦄, cursor.Proper → reader value cursor =
    if loop.goesOn cursor.current.kind then
      (do
        let (value, again) ← loop.round value
        if again then reader value else return value : Parser α) cursor
    else .ok value cursor

variable {loop : Loop α} {reader : α → Parser α} {rounds : Nat} {value value' : α} {cursor behind : Cursor}
  {result : EStateM.Result ParseError Cursor α}

theorem Runs.rounds_le (gains : loop.Gains) (proper : cursor.Proper)
    (runs : loop.Runs rounds value cursor result) : rounds ≤ cursor.ahead.length + 1 := by
  induction runs with
  | stop | fail | last => omega
  | next goes reads _ ih =>
    obtain ⟨token, tokens, passes⟩ := gains proper goes reads
    have fewer := passes.length
    rw [List.length_cons] at fewer
    have rest := ih (passes.proper proper)
    omega

/-- A loop that succeeds, and no round of which is the last one by its own word, stops at a token that tells
it to. -/
theorem Runs.stopped (gains : loop.Gains) (unbroken : ∀ ⦃value value' : α⦄ ⦃cursor middle : Cursor⦄,
      cursor.Proper → loop.round value cursor ≠ .ok (value', false) middle) (proper : cursor.Proper)
    (runs : loop.Runs rounds value cursor (.ok value' behind)) :
    loop.goesOn behind.current.kind = false := by
  generalize reaches : EStateM.Result.ok value' behind = result at runs
  induction runs with
  | stop ends =>
    cases reaches
    exact ends
  | fail => cases reaches
  | last _ reads => exact absurd reads (unbroken proper)
  | next goes reads _ ih =>
    obtain ⟨token, tokens, passes⟩ := gains proper goes reads
    exact ih (passes.proper proper) reaches

/-- What reads as a loop goes so many rounds. The induction is on the tokens ahead, of which every round
but the last one passes some. -/
theorem Unfolds.runs (unfolds : loop.Unfolds reader) (gains : loop.Gains) (proper : cursor.Proper) :
    ∃ rounds, loop.Runs rounds value cursor (reader value cursor) := by
  induction many : cursor.ahead.length using Nat.strongRecOn generalizing cursor value with
  | ind count ih =>
    rw [unfolds proper]
    cases goes : loop.goesOn cursor.current.kind with
    | false => exact ⟨0, .stop goes⟩
    | true =>
      rw [if_pos rfl]
      cases reads : loop.round value cursor with
      | error error behind =>
        rw [bind_error reads]
        exact ⟨1, .fail goes reads⟩
      | ok outcome middle =>
        obtain ⟨value', again⟩ := outcome
        rw [bind_eq reads]
        cases again with
        | false => exact ⟨1, .last goes reads⟩
        | true =>
          obtain ⟨token, tokens, passes⟩ := gains proper goes reads
          have fewer := passes.length
          rw [List.length_cons] at fewer
          obtain ⟨rounds, rest⟩ := ih middle.ahead.length (by omega) (passes.proper proper) rfl
          exact ⟨rounds + 1, .next goes reads rest⟩

end Loop

end OliCompiler.Parser
