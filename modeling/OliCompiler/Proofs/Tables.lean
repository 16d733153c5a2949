import Mathlib.Data.List.Nodup
import Mathlib.Data.List.Perm.Basic

/-!
Lists of pairs as tables: what is found at a key behind a change at another, and when the order of the
pairs does not matter.
-/

namespace OliCompiler

variable {κ β : Type} [BEq κ] [LawfulBEq κ] {pairs pairs' : List (κ × β)} {key : κ} {value : β}

theorem lookup_filter_ne [DecidableEq κ] (pairs : List (κ × β)) (key other : κ) :
    (pairs.filter fun pair => pair.1 ≠ key).lookup other =
      if key = other then none else pairs.lookup other := by
  induction pairs with
  | nil => by_cases same : key = other <;> simp [same]
  | cons pair pairs ih =>
    obtain ⟨first, value⟩ := pair
    by_cases same : first = key
    · rw [List.filter_cons_of_neg (by simpa using same), ih, List.lookup_cons]
      by_cases asked : key = other
      · simp [asked]
      · have apart : (other == first) = false := by
          rw [beq_eq_false_iff_ne, same]
          exact Ne.symm asked
        simp [asked, apart]
    · rw [List.filter_cons_of_pos (by simpa using same), List.lookup_cons, List.lookup_cons, ih]
      by_cases asked : other = first
      · subst asked
        simp [Ne.symm same]
      · have apart : (other == first) = false := beq_eq_false_iff_ne.mpr asked
        simp [apart]

theorem lookup_eq_some_iff_mem (distinct : (pairs.map Prod.fst).Nodup) :
    pairs.lookup key = some value ↔ (key, value) ∈ pairs := by
  constructor
  · intro found
    obtain ⟨before, after, rfl, _⟩ := List.lookup_eq_some_iff.mp found
    simp
  · intro member
    obtain ⟨before, after, rfl⟩ := List.append_of_mem member
    refine List.lookup_eq_some_iff.mpr ⟨before, after, rfl, fun pair earlier => ?_⟩
    rw [List.map_append, List.map_cons] at distinct
    have apart : pair.1 ≠ key := by
      rintro rfl
      exact List.disjoint_of_nodup_append distinct (List.mem_map_of_mem earlier) List.mem_cons_self
    simpa using apart.symm

/-- Keys that are distinct are looked up alike in any order of the pairs. -/
theorem lookup_perm (permuted : pairs'.Perm pairs) (distinct : (pairs.map Prod.fst).Nodup) (key : κ) :
    pairs'.lookup key = pairs.lookup key := by
  have distinct' : (pairs'.map Prod.fst).Nodup := (permuted.map Prod.fst).nodup_iff.mpr distinct
  ext value
  rw [lookup_eq_some_iff_mem distinct, lookup_eq_some_iff_mem distinct', permuted.mem_iff]

end OliCompiler
