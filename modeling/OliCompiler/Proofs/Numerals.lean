import Mathlib.Tactic.Ring
import OliCompiler.Proofs.Scanning.Longest

/-!
Numerals: the number that digits denote by their places, and the texts that denote integers of 32 bits. What
is computed digit by digit from the left is that number, and a text is read as an integer exactly if it is a
numeral of it.
-/

namespace OliCompiler

namespace Scanning

/-- What a digit counts in the last place. -/
def digitOf (c : Char) : Nat := c.toNat - '0'.toNat

/-- The number that digits denote: one place before the last a digit counts ten times as much, and so on. -/
def numberOf : List Char → Nat
  | [] => 0
  | c :: digits => digitOf c * 10 ^ digits.length + numberOf digits

theorem value_eq (digits : List Char) : Decimal.value digits = numberOf digits := by
  have behind : ∀ number, digits.foldl (fun number digit => 10 * number + digitOf digit) number =
      number * 10 ^ digits.length + numberOf digits := by
    induction digits with
    | nil => simp [numberOf]
    | cons c digits ih =>
      intro number
      rw [List.foldl_cons, ih, List.length_cons, numberOf, Nat.pow_succ]
      ring
  exact (behind 0).trans (by rw [Nat.zero_mul, Nat.zero_add])

end Scanning

namespace Grammar

open Scanning

/-- The texts of the integers of 32 bits: digits, at least one, and perhaps a sign in front of them. -/
inductive Numeral : List Char → Int32 → Prop where
  | plain {digits : List Char} (present : digits ≠ []) (spelled : ∀ c ∈ digits, IsDigit c)
    (fits : numberOf digits ≤ 2147483647) : Numeral digits (.ofInt (numberOf digits))
  | plus {digits : List Char} (present : digits ≠ []) (spelled : ∀ c ∈ digits, IsDigit c)
    (fits : numberOf digits ≤ 2147483647) : Numeral ('+' :: digits) (.ofInt (numberOf digits))
  | minus {digits : List Char} (present : digits ≠ []) (spelled : ∀ c ∈ digits, IsDigit c)
    (fits : numberOf digits ≤ 2147483648) : Numeral ('-' :: digits) (.ofInt (-numberOf digits))

/-- What is read of the digits behind a sign. -/
def magnitude? (negative : Bool) (digits : List Char) : Option Int32 :=
  if digits.isEmpty || !digits.all Decimal.isDigit then none
  else Decimal.signed? negative (Decimal.value digits)

variable {digits text : List Char} {value : Int32}

theorem int32?_unsigned (plus : text.head? ≠ some '+') (minus : text.head? ≠ some '-') :
    Decimal.int32? text = magnitude? false text := by
  unfold Decimal.int32?
  split
  rename_i unsigned
  split at unsigned
  · exact absurd rfl minus
  · exact absurd rfl plus
  · cases unsigned
    rfl

theorem magnitude?_eq_some {negative : Bool} : magnitude? negative digits = some value ↔
    digits ≠ [] ∧ (∀ c ∈ digits, IsDigit c) ∧ Decimal.signed? negative (numberOf digits) = some value := by
  have refused : (digits.isEmpty || !digits.all Decimal.isDigit) = true ↔
      ¬(digits ≠ [] ∧ ∀ c ∈ digits, IsDigit c) := by
    simp only [Bool.or_eq_true, List.isEmpty_iff, Bool.not_eq_true', ← Bool.not_eq_true, List.all_eq_true,
      isDigit_iff, not_and_or, not_not]
  rw [magnitude?, value_eq, ← and_assoc]
  split
  · rename_i none
    exact iff_of_false nofun fun denotes => refused.mp none denotes.1
  · rename_i digital
    exact (and_iff_right (not_not.mp (mt refused.mpr digital))).symm

theorem signed?_false_eq_some {number : Nat} : Decimal.signed? false number = some value ↔
    number ≤ 2147483647 ∧ Int32.ofInt number = value := by
  rw [Decimal.signed?, if_neg Bool.false_ne_true, Option.ite_none_right_eq_some, Option.some.injEq,
    Decimal.greatest]

theorem signed?_true_eq_some {number : Nat} : Decimal.signed? true number = some value ↔
    number ≤ 2147483648 ∧ Int32.ofInt (-number) = value := by
  rw [Decimal.signed?, if_pos rfl, Option.ite_none_right_eq_some, Option.some.injEq, Decimal.greatest]

/-- Exactly the numerals are read as integers, each as its own. -/
theorem int32?_eq_some : Decimal.int32? text = some value ↔ Numeral text value := by
  constructor
  · intro denotes
    by_cases minus : text.head? = some '-'
    · obtain ⟨digits, rfl⟩ := List.head?_eq_some_iff.mp minus
      obtain ⟨present, spelled, signed⟩ := magnitude?_eq_some.mp (show magnitude? true digits = _ from denotes)
      obtain ⟨fits, rfl⟩ := signed?_true_eq_some.mp signed
      exact .minus present spelled fits
    by_cases plus : text.head? = some '+'
    · obtain ⟨digits, rfl⟩ := List.head?_eq_some_iff.mp plus
      obtain ⟨present, spelled, signed⟩ := magnitude?_eq_some.mp (show magnitude? false digits = _ from denotes)
      obtain ⟨fits, rfl⟩ := signed?_false_eq_some.mp signed
      exact .plus present spelled fits
    · rw [int32?_unsigned plus minus] at denotes
      obtain ⟨present, spelled, signed⟩ := magnitude?_eq_some.mp denotes
      obtain ⟨fits, rfl⟩ := signed?_false_eq_some.mp signed
      exact .plain present spelled fits
  · intro numeral
    cases numeral with
    | plain present spelled fits =>
      have unsigned : ∀ sign, ¬IsDigit sign → text.head? ≠ some sign := fun sign other first =>
        other (spelled sign (List.mem_of_mem_head? first))
      rw [int32?_unsigned (unsigned '+' (by decide)) (unsigned '-' (by decide))]
      exact magnitude?_eq_some.mpr ⟨present, spelled, signed?_false_eq_some.mpr ⟨fits, rfl⟩⟩
    | plus present spelled fits =>
      exact magnitude?_eq_some.mpr ⟨present, spelled, signed?_false_eq_some.mpr ⟨fits, rfl⟩⟩
    | minus present spelled fits =>
      exact magnitude?_eq_some.mpr ⟨present, spelled, signed?_true_eq_some.mpr ⟨fits, rfl⟩⟩

end Grammar

end OliCompiler
