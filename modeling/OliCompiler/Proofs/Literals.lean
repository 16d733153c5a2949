import OliCompiler.Ir.Llvm
import OliCompiler.Proofs.Builder.Rules

/-!
The literals of constant texts. Whoever reads a backslash with two hexadecimal digits as a byte, and any
other character as itself, finds in a literal the bytes of the text with a zero byte behind them, and as
many bytes as the type of the constant says.
-/

namespace OliCompiler

namespace Text

/-- Bytes are listed from a place on, behind those listed before. -/
theorem toList_loop_eq (bytes : ByteArray) (place : Nat) (listed : List UInt8) :
    ByteArray.toList.loop bytes place listed = listed.reverse ++ bytes.data.toList.drop place := by
  fun_induction ByteArray.toList.loop bytes place listed with
  | case1 place listed inside ih =>
    have within : place < bytes.data.toList.length := inside
    rw [ih, List.drop_eq_getElem_cons within]
    simp [ByteArray.get!, inside]
  | case2 place listed outside =>
    rw [List.drop_eq_nil_of_le (Nat.le_of_not_lt outside), List.append_nil]

theorem toList_eq (bytes : ByteArray) : bytes.toList = bytes.data.toList :=
  toList_loop_eq bytes 0 []

theorem toList_toUTF8 (text : String) : text.toUTF8.toList = text.toList.flatMap String.utf8EncodeChar := by
  rw [toList_eq, String.toUTF8_eq_toByteArray]
  conv => lhs; rw [← text.ofList_toList, String.toByteArray_ofList]
  exact List.toList_data_toByteArray

theorem length_toUTF8 (text : String) : text.toUTF8.toList.length = text.utf8ByteSize := by
  rw [toList_eq]
  rfl

theorem toUTF8_inj {text other : String} (same : text.toUTF8.toList = other.toUTF8.toList) :
    text = other := by
  rw [toList_eq, toList_eq] at same
  exact String.toByteArray_inj.mp (ByteArray.ext (Array.toList_inj.mp same))

end Text

namespace Ir

namespace Llvm

open Text (toUTF8_inj)

/-- The number that a hexadecimal digit stands for. -/
def hexValue? (c : Char) : Option Nat :=
  if '0' ≤ c ∧ c ≤ '9' then some (c.toNat - '0'.toNat)
  else if 'A' ≤ c ∧ c ≤ 'F' then some (c.toNat - 'A'.toNat + 10)
  else if 'a' ≤ c ∧ c ≤ 'f' then some (c.toNat - 'a'.toNat + 10)
  else none

/-- The byte that two hexadecimal digits stand for. -/
def byteOf? (high low : Char) : Option UInt8 :=
  match hexValue? high, hexValue? low with
  | some high, some low => some (.ofNat (16 * high + low))
  | _, _ => none

/-- The bytes that the characters of a literal stand for. -/
def unescape : List Char → List UInt8
  | [] => []
  | '\\' :: high :: low :: chars =>
    match byteOf? high low with
    | some byte => byte :: unescape chars
    | none => String.utf8EncodeChar '\\' ++ unescape (high :: low :: chars)
  | c :: chars => String.utf8EncodeChar c ++ unescape chars

/-- Whether a character stands for itself in a literal. -/
def StandsAlone (c : Char) : Prop := (' ' ≤ c ∧ c ≤ '~') ∧ c ≠ '"' ∧ c ≠ '\\'

instance : DecidablePred StandsAlone := fun _ => inferInstanceAs (Decidable (_ ∧ _))

/-- Whether characters can stand between the quotes of a literal, and stand there for some bytes. -/
structure Spells (chars : List Char) (bytes : List UInt8) : Prop where
  printable : ∀ c ∈ chars, ' ' ≤ c ∧ c ≤ '~'
  unquoted : '"' ∉ chars
  /-- Every backslash stands before the two digits of a byte. -/
  escapes : ∀ after, '\\' :: after <:+ chars →
    ∃ high low rest, after = high :: low :: rest ∧ (byteOf? high low).isSome
  bytes : unescape chars = bytes

variable {c high low : Char} {chars after : List Char} {byte : UInt8} {bytes : List UInt8}

theorem unescape_alone (alone : c ≠ '\\') :
    unescape (c :: chars) = String.utf8EncodeChar c ++ unescape chars := by
  rw [unescape]
  exact fun _ _ _ same _ => alone same

theorem escape_behind (alone : c ≠ '\\') (suffix : '\\' :: after <:+ c :: chars) :
    '\\' :: after <:+ chars :=
  (List.suffix_cons_iff.mp suffix).resolve_left fun same => alone (List.cons.inj same).1.symm

theorem spells_nil : Spells [] [] where
  printable := List.forall_mem_nil _
  unquoted := List.not_mem_nil
  escapes after suffix := by simp at suffix
  bytes := rfl

theorem Spells.alone (rest : Spells chars bytes) (alone : StandsAlone c)
    (encodes : String.utf8EncodeChar c = [byte]) : Spells (c :: chars) (byte :: bytes) := by
  obtain ⟨printable, quote, backslash⟩ := alone
  constructor
  case printable => exact List.forall_mem_cons.mpr ⟨printable, rest.printable⟩
  case unquoted =>
    simp only [List.mem_cons, not_or]
    exact ⟨quote.symm, rest.unquoted⟩
  case escapes => exact fun after suffix => rest.escapes after (escape_behind backslash suffix)
  case bytes =>
    rw [unescape_alone backslash, encodes, rest.bytes]
    rfl

theorem Spells.escape (rest : Spells chars bytes) (first : StandsAlone high) (second : StandsAlone low)
    (denotes : byteOf? high low = some byte) :
    Spells ('\\' :: high :: low :: chars) (byte :: bytes) := by
  obtain ⟨printable, quote, backslash⟩ := first
  obtain ⟨printable', quote', backslash'⟩ := second
  constructor
  case printable =>
    simp only [List.forall_mem_cons]
    exact ⟨by decide, printable, printable', rest.printable⟩
  case unquoted =>
    simp only [List.mem_cons, not_or]
    exact ⟨by decide, quote.symm, quote'.symm, rest.unquoted⟩
  case escapes =>
    -- The digits are no backslashes, so it is the one in front or one of the rest.
    intro after suffix
    rcases List.suffix_cons_iff.mp suffix with same | within
    · obtain rfl := (List.cons.inj same).2
      exact ⟨high, low, chars, rfl, Option.isSome_of_eq_some denotes⟩
    · exact rest.escapes after (escape_behind backslash' (escape_behind backslash within))
  case bytes => rw [unescape, denotes, rest.bytes]

/-- A digit that a byte is written with is read as the number that it was made from. -/
theorem hexValue?_digit : ∀ n < 16, hexValue? (Nat.digitChar n).toUpper = some n ∧
    StandsAlone (Nat.digitChar n).toUpper := by
  decide

theorem plain_encodes : ∀ n < 127, isPlain (.ofNat n) = true →
    StandsAlone (Char.ofNat n) ∧ String.utf8EncodeChar (Char.ofNat n) = [.ofNat n] := by
  decide

theorem hexByte_eq (byte : UInt8) : ∃ high low, hexByte byte = [high, low] ∧
    StandsAlone high ∧ StandsAlone low ∧ byteOf? high low = some byte := by
  have small : byte.toNat < 256 := byte.toNat_lt
  obtain ⟨first, high⟩ := hexValue?_digit (byte.toNat / 16) (by omega)
  obtain ⟨second, low⟩ := hexValue?_digit (byte.toNat % 16) (by omega)
  refine ⟨_, _, rfl, high, low, ?_⟩
  rw [byteOf?, first, second]
  simp only [Nat.div_add_mod, UInt8.ofNat_toNat]

theorem spells_escapeByte (byte : UInt8) (rest : Spells chars bytes) :
    Spells (escapeByte byte ++ chars) (byte :: bytes) := by
  rw [escapeByte]
  split
  case isTrue plain =>
    have most : byte.toNat < 127 := by
      simp only [isPlain, Bool.and_eq_true, decide_eq_true_eq, UInt8.le_iff_toNat_le] at plain
      exact Nat.lt_succ_of_le plain.1.1.2
    obtain ⟨alone, encodes⟩ := plain_encodes _ most (by rwa [UInt8.ofNat_toNat])
    rw [UInt8.ofNat_toNat] at encodes
    exact rest.alone alone encodes
  case isFalse =>
    obtain ⟨high, low, digits, first, second, denotes⟩ := hexByte_eq byte
    rw [digits]
    exact rest.escape first second denotes

theorem spells_escapeBytes (bytes : List UInt8) : Spells (escapeBytes bytes) bytes := by
  induction bytes with
  | nil => exact spells_nil
  | cons byte bytes ih => exact spells_escapeByte byte ih

theorem literal_inj {text other : String} (same : literal text = literal other) : text = other := by
  have quoted := (String.append_left_inj _).mp same
  have chars := String.ofList_inj.mp ((String.append_right_inj _).mp quoted)
  have bytes := congrArg unescape chars
  rw [(spells_escapeBytes _).bytes, (spells_escapeBytes _).bytes] at bytes
  exact toUTF8_inj (List.append_cancel_right bytes)

end Llvm

theorem Module.globalLine_mem {module : Module} {global : Global} (member : global ∈ module.globals) :
    Llvm.globalLine global ∈ module.llvmLines := by
  have line := List.mem_map_of_mem (f := Llvm.globalLine) member
  have section_ : Llvm.globalLine global ∈ Llvm.section? (module.globals.map Llvm.globalLine) := by
    rw [Llvm.section?, if_neg (by simpa using List.ne_nil_of_mem member)]
    exact List.mem_cons_of_mem _ line
  simp only [llvmLines, List.mem_append]
  exact .inl (.inl (.inr section_))

namespace Builder

open Text (toList_toUTF8 length_toUTF8)

variable {ν : Type} {builder : Builder ν}

theorem globals_startBlock (builder : Builder ν) (id : BlockId) :
    (builder.startBlock id).globals = builder.globals := by
  rw [startBlock]
  cases builder.pending.lookup id with
  | none | some => rfl

variable [Counter ν]

/-- Calls only add to the globals. -/
theorem globals_perform (call : Call) : builder.globals <+: (builder.perform call).globals := by
  cases call with
  | addGlobal | addText => exact List.prefix_append _ _
  | startBlock id =>
    rw [perform, globals_startBlock]
  | startFunction name arity =>
    have same : (builder.startFunction name arity).2.globals = builder.globals := globals_startBlock _ _
    rw [perform, same]
  | _ => exact List.prefix_refl _

theorem globals_foldl (calls : List Call) : builder.globals <+: (calls.foldl perform builder).globals := by
  induction calls generalizing builder with
  | nil => exact List.prefix_refl _
  | cons call calls ih => exact (globals_perform call).trans ih

/-- Whatever is called before and behind, a text that is added stands in the assembly as a literal of plain
characters, from which its bytes and a zero byte can be read back. There are as many of them as the type of
the constant says, and no other text has that literal. -/
theorem addText_literal (builder : Builder ν) (symbol text : String) (calls : List Call) :
    let module := (calls.foldl perform (builder.addText symbol text).2).finish
    ∃ (size : Nat) (chars : List Char),
      ⟨symbol, .array .i8 size, .text text, true⟩ ∈ module.globals ∧
      "@" ++ symbol ++ " = private unnamed_addr constant " ++ (Ty.array .i8 size).text ++
        (" c\"" ++ String.ofList chars ++ "\"") ∈ module.llvmLines ∧
      Llvm.Spells chars (text.toList.flatMap String.utf8EncodeChar ++ [0]) ∧
      (Llvm.unescape chars).length = size ∧
      ∀ other, Llvm.literal other = "c\"" ++ String.ofList chars ++ "\"" → other = text := by
  intro module
  have spells := Llvm.spells_escapeBytes (text.toUTF8.toList ++ [0])
  have size : (Llvm.unescape (Llvm.escapeBytes (text.toUTF8.toList ++ [0]))).length =
      text.utf8ByteSize + 1 := by
    rw [spells.bytes, List.length_append, length_toUTF8, List.length_singleton]
  have added : ⟨symbol, .array .i8 (text.utf8ByteSize + 1), .text text, true⟩ ∈ module.globals :=
    (globals_foldl calls).subset (List.mem_append_right _ (List.mem_singleton_self _))
  have written := Module.globalLine_mem added
  rw [toList_toUTF8] at spells size
  refine ⟨text.utf8ByteSize + 1, Llvm.escapeBytes (text.toList.flatMap String.utf8EncodeChar ++ [0]), added,
    ?_, spells, size, fun other same => Llvm.literal_inj ?_⟩
  · have start : " = private unnamed_addr constant " = " = " ++ "private unnamed_addr constant " := by decide
    have opening : " c\"" = " " ++ "c\"" := by decide
    simpa only [Llvm.globalLine, Llvm.literal, toList_toUTF8, start, opening, String.append_assoc]
      using written
  · rw [same, Llvm.literal, toList_toUTF8]

/-- What looks like an escape in a text is escaped itself. -/
example : Llvm.literal "\\22\"é" = "c\"\\5C22\\22\\C3\\A9\\00\"" := by decide +kernel

end Builder

end Ir

end OliCompiler
