/-!
Taking lists apart again: groups that stand one behind the other are found by the items that end them,
or by those that they start with.
-/

namespace OliCompiler.Text

section

variable {α β : Type}

/-- Lists are equal if what two functions make of them is equal and tells their items apart. -/
theorem eq_of_map_eq {f g : α → β} {xs ys : List α} (same : xs.map f = ys.map g)
    (apart : ∀ x ∈ xs, ∀ y ∈ ys, f x = g y → x = y) : xs = ys := by
  induction xs generalizing ys with
  | nil => exact (List.map_eq_nil_iff.mp same.symm).symm
  | cons x xs ih =>
    obtain ⟨y, ys, rfl, first, rest⟩ := List.map_eq_cons_iff.mp same.symm
    obtain ⟨one, others⟩ := List.forall_mem_cons.mp apart
    rw [one y List.mem_cons_self first.symm]
    exact congrArg (y :: ·) (ih rest.symm fun x member y listed =>
      others x member y (List.mem_cons_of_mem _ listed))

variable [DecidableEq α] {stop : α}

/-- Groups that each have the same item behind them can be told apart by it. -/
theorem splitOn_ended {groups : List (List α)} (inside : ∀ group ∈ groups, stop ∉ group) :
    (groups.flatMap (· ++ [stop])).splitOn stop = groups ++ [[]] := by
  induction groups with
  | nil => rfl
  | cons group groups ih =>
    obtain ⟨first, others⟩ := List.forall_mem_cons.mp inside
    rw [List.flatMap_cons, List.append_assoc, List.singleton_append,
      List.splitOn_append_cons_self_of_not_mem first, ih others]
    rfl

/-- Lists are equal if they are with an item behind each group that no group holds. -/
theorem ended_inj {groups groups' : List (List α)} (inside : ∀ group ∈ groups, stop ∉ group)
    (inside' : ∀ group ∈ groups', stop ∉ group)
    (same : groups.flatMap (· ++ [stop]) = groups'.flatMap (· ++ [stop])) : groups = groups' := by
  have split := congrArg (List.splitOn stop) same
  rw [splitOn_ended inside, splitOn_ended inside'] at split
  exact List.append_cancel_right split

/-- The first of an item tells what stands before it from what stands behind it. -/
theorem split_inj {before before' behind behind' : List α} (first : stop ∉ before)
    (first' : stop ∉ before') (same : before ++ stop :: behind = before' ++ stop :: behind') :
    before = before' ∧ behind = behind' := by
  have split := congrArg (List.splitOn stop) same
  rw [List.splitOn_append_cons_self_of_not_mem first,
    List.splitOn_append_cons_self_of_not_mem first'] at split
  obtain rfl := (List.cons.inj split).1
  exact ⟨rfl, (List.cons.inj (List.append_cancel_left same)).2⟩

omit [DecidableEq α] in
theorem eq_or_mem_of_mem_intercalate {x : α} {groups : List (List α)}
    (member : x ∈ [stop].intercalate groups) : x = stop ∨ ∃ group ∈ groups, x ∈ group := by
  induction groups with
  | nil => simp at member
  | cons group groups ih =>
    by_cases empty : groups = []
    · subst empty
      exact .inr ⟨group, List.mem_cons_self, by simpa using member⟩
    · rw [List.intercalate_cons_of_ne_nil empty, List.mem_append, List.mem_append,
        List.mem_singleton] at member
      rcases member with (inside | same) | behind
      · exact .inr ⟨group, List.mem_cons_self, inside⟩
      · exact .inl same
      · refine (ih behind).imp_right fun ⟨other, listed, inside⟩ => ?_
        exact ⟨other, List.mem_cons_of_mem _ listed, inside⟩

end

section

variable {α β : Type} {heads : α → Bool} {head : β → α} {inner : β → List α}

/-- Groups that each start with an item of some kind can be told apart where no other item is of that
kind. -/
theorem headed_inj {xs ys : List β}
    (headed : ∀ x ∈ xs, heads (head x) = true ∧ ∀ item ∈ inner x, heads item = false)
    (headed' : ∀ y ∈ ys, heads (head y) = true ∧ ∀ item ∈ inner y, heads item = false)
    (same : xs.flatMap (fun x => head x :: inner x) = ys.flatMap fun y => head y :: inner y) :
    xs.map (fun x => (head x, inner x)) = ys.map fun y => (head y, inner y) := by
  -- behind a group stands the head of the next one, if anything
  have stops : ∀ {xs : List β}, (∀ x ∈ xs, heads (head x) = true) →
      (xs.flatMap fun x => head x :: inner x).takeWhile (!heads ·) = [] := by
    intro xs headed
    cases xs with
    | nil => rfl
    | cons x xs => simp [headed x List.mem_cons_self]
  induction xs generalizing ys with
  | nil =>
    cases ys with
    | nil => rfl
    | cons => cases same
  | cons x xs ih =>
    cases ys with
    | nil => cases same
    | cons y ys =>
      obtain ⟨⟨_, rest⟩, others⟩ := List.forall_mem_cons.mp headed
      obtain ⟨⟨_, rest'⟩, others'⟩ := List.forall_mem_cons.mp headed'
      simp only [List.flatMap_cons, List.cons_append, List.cons.injEq] at same
      have taken := congrArg (List.takeWhile (!heads ·)) same.2
      rw [List.takeWhile_append_of_pos (by simpa using rest), stops fun x member => (others x member).1,
        List.takeWhile_append_of_pos (by simpa using rest'),
        stops fun y member => (others' y member).1, List.append_nil, List.append_nil] at taken
      rw [taken] at same
      rw [List.map_cons, List.map_cons, same.1, taken,
        ih others others' (List.append_cancel_left same.2)]

end

end OliCompiler.Text
