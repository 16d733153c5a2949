import OliCompiler.Machine.Fault

/-!
Formatted output. A format is copied, but for two directives: `%%` gives a percent sign and `%d` the
next integer argument.
-/

namespace OliCompiler.Machine

/-- The output for a format and its arguments; none if a directive is unknown or lacks its integer.
Arguments left over do not matter. -/
def expand : List Char → List Value → Option (List Char)
  | [], _ => some []
  | '%' :: '%' :: format, args => (expand format args).map ('%' :: ·)
  | '%' :: 'd' :: format, .int value :: args =>
    (expand format args).map ((toString value.toInt).toList ++ ·)
  | c :: format, args => if c = '%' then none else (expand format args).map (c :: ·)

/-- The format that the first argument gives: the text of the global that it points to. A global that
is an integer gives its digits, one that is missing its name, and any other argument its showing. -/
def formatOf (module : Ir.Module) (arg : Option Value) : String :=
  match arg with
  | some (.ptr (.global name)) =>
    match module.global? name with
    | some global =>
      match global.init with
      | .text text => text
      | .int value => toString value.toInt
    | none => name
  | arg => shownOption arg

/-- The output of a call of the printer. -/
def printed (module : Ir.Module) (args : List Value) : Except Fault String :=
  let format := formatOf module args.head?
  match expand format.toList args.tail with
  | some output => .ok (String.ofList output)
  | none => .error (.unsupportedFormat format)

end OliCompiler.Machine
