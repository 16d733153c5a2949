/-!
The layout of texts: lines, each with a newline behind it, lists with commas between their items, and outlines,
which are nested records and lists, with one field or item a line and four blanks a level.
-/

namespace OliCompiler.Text

/-- The lines as one text. -/
def unlines (lines : List String) : String :=
  String.join (lines.map (· ++ "\n"))

/-- The items with a comma and a space between them. -/
def commaSeparated (items : List String) : String :=
  String.intercalate ", " items

inductive Outline where
  | atom (text : String)
  | record (name : String) (fields : List (String × Outline))
  /-- A name applied to one value. -/
  | wrapped (name : String) (value : Outline)
  | list (items : List Outline)

namespace Outline

/-- The blanks in front of the lines of a level. -/
def indent (level : Nat) : String := String.ofList (List.replicate (4 * level) ' ')

mutual

/-- The layout of an outline at a level, from the end of the blanks of its first line on. -/
def layout (level : Nat) : Outline → String
  | atom text => text
  | record name fields =>
    name ++ " \x7b\n" ++ layoutFields (level + 1) fields ++ indent level ++ "\x7d"
  | wrapped name value =>
    name ++ "(\n" ++ indent (level + 1) ++ layout (level + 1) value ++ ",\n" ++ indent level ++ ")"
  | list [] => "[]"
  | list (item :: items) =>
    "[\n" ++ layoutItems (level + 1) (item :: items) ++ indent level ++ "]"

def layoutFields (level : Nat) : List (String × Outline) → String
  | [] => ""
  | (name, value) :: fields =>
    indent level ++ name ++ ": " ++ layout level value ++ ",\n" ++ layoutFields level fields

def layoutItems (level : Nat) : List Outline → String
  | [] => ""
  | item :: items => indent level ++ layout level item ++ ",\n" ++ layoutItems level items

end

/-- An optional value: `None`, or `Some` around it. -/
def option : Option Outline → Outline
  | none => atom "None"
  | some value => wrapped "Some" value

end Outline

end OliCompiler.Text
