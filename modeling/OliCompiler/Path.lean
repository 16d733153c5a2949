/-!
Paths as text. A path is an anchor, either the root or a leading dot, and names with slashes between
them; empty names and further dots mean nothing. The parts of a path are pieces of its own text.
-/

namespace OliCompiler.Path

/-- The pieces of a text between its slashes; there is at least one. -/
def segments : List Char → List (List Char)
  | [] => [[]]
  | '/' :: text => [] :: segments text
  | c :: text =>
    match segments text with
    | [] => [[c]]
    | first :: rest => (c :: first) :: rest

/-- The segments as one text. -/
def joined (segments : List (List Char)) : List Char := ['/'].intercalate segments

/-- The anchor of a path and the text behind it. -/
def anchored : List Char → List Char × List Char
  | '/' :: body => (['/'], body)
  | ['.'] => (['.'], [])
  | '.' :: '/' :: body => (['.'], '/' :: body)
  | body => ([], body)

/-- A part of a path that means something. -/
inductive Component where
  | root
  | here
  | up
  | name (name : List Char)
deriving DecidableEq, Repr

/-- What a segment behind the anchor means, if it means anything. -/
def component? (segment : List Char) : Option Component :=
  if segment = [] ∨ segment = ['.'] then none
  else if segment = ['.', '.'] then some .up
  else some (.name segment)

/-- What the anchor means. -/
def anchor? : List Char → Option Component
  | ['/'] => some .root
  | ['.'] => some .here
  | _ => none

/-- The components of a path, in order. Paths that have the same lead to the same place. -/
def components (path : String) : List Component :=
  let (anchor, body) := anchored path.toList
  (anchor? anchor).toList ++ (segments body).filterMap component?

/-- The last component, which is the name of a file unless the path ends in `..` or has no name. -/
def fileName? (path : String) : Option (List Char) :=
  match (components path).getLast? with
  | some (.name name) => some name
  | _ => none

/-- A file name before and behind its last dot. A name has no second part if it has no dot or only
one in front. -/
def splitName (name : List Char) : List Char × Option (List Char) :=
  match name.reverse.span (· ≠ '.') with
  | (_, []) => (name, none)
  | (_, [_]) => (name, none)
  | (extension, _ :: stem) => (stem.reverse, some extension.reverse)

/-- The file name without its extension. -/
def stem? (path : String) : Option String :=
  (fileName? path).map fun name => String.ofList (splitName name).1

/-- The part of the file name behind its last dot. -/
def extension? (path : String) : Option String :=
  (fileName? path).bind fun name => (splitName name).2.map String.ofList

/-- The path without its last component; the root and the empty path have no parent. -/
def parent? (path : String) : Option String :=
  let (anchor, body) := anchored path.toList
  let idle (segment : List Char) : Bool := (component? segment).isNone
  match (segments body).reverse.dropWhile idle with
  | _ :: rest => some (String.ofList (anchor ++ joined (rest.dropWhile idle).reverse))
  | [] =>
    match anchor with
    | ['.'] => some ""
    | _ => none

/-- Whether the path starts at the root. -/
def isAbsolute (path : String) : Bool := path.toList.head? = some '/'

/-- The path that `path` means when it starts in `directory`. -/
def join (directory path : String) : String :=
  if isAbsolute path then path
  else
    match directory.toList.getLast? with
    | none => path
    | some '/' => directory ++ path
    | some _ => directory ++ "/" ++ path

/-- The extension of source files. -/
def sourceExtension : String := "oli"

/-- The extension of compiled files. -/
def outputExtension : String := "ll"

/-- Whether the path is that of a source file. -/
def isSource (path : String) : Bool := extension? path = some sourceExtension

/-- The path of the compiled file: in the given directory, or else beside the input, under the name
of the input with the extension of compiled files. -/
def output (input : String) (directory : Option String) : String :=
  let stem := (stem? input).getD input
  join ((directory.or (parent? input)).getD "") (stem ++ "." ++ outputExtension)

end OliCompiler.Path
