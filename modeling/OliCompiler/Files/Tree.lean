import OliCompiler.Path

/-!
Files and directories as a value. A tree holds what stands at each place, and the directory in which
relative paths start. There are no links in it, so no two places share a file. A write can fail when it has
emptied its file already.
-/

namespace OliCompiler

/-- The names from the root to a file or directory. -/
abbrev Location := List (List Char)

inductive FileEntry where
  | directory
  | file (bytes : List UInt8)
deriving DecidableEq, Repr

/-- How a write fails. -/
inductive WriteFault where
  /-- The file is not opened. -/
  | refused
  /-- The file is opened, which empties it, and holds some bytes when the writing breaks off. -/
  | brokenOff (left : List UInt8)
deriving DecidableEq, Repr

structure FileTree where
  entries : List (Location × FileEntry)
  /-- Where relative paths start. -/
  current : Location
  /-- How the writes to come fail, in order; those without a fault are carried out, as are all others. -/
  faults : List (Option WriteFault) := []
deriving DecidableEq, Repr

namespace FileTree

/-- What stands at a location; the root is a directory. -/
def item? (tree : FileTree) (location : Location) : Option FileEntry :=
  if location = [] then some .directory else tree.entries.lookup location

def isDirectory (tree : FileTree) (location : Location) : Bool :=
  tree.item? location = some .directory

/-- Puts something at a location, in place of what stood there. -/
def put (tree : FileTree) (location : Location) (entry : FileEntry) : FileTree :=
  { tree with
    entries := tree.entries.filter (fun (other, _) => other ≠ location) ++ [(location, entry)] }

/-- The names of files have at most 255 bytes and no zero character. -/
def isName (name : List Char) : Bool :=
  (String.ofList name).utf8ByteSize ≤ 255 && !name.contains '\x00'

/-- Where segments lead from a location. All that is passed on the way has to be a directory. -/
def walk (tree : FileTree) (location : Location) : List (List Char) → Option Location
  | [] => some location
  | segment :: segments =>
    if tree.isDirectory location then
      match Path.component? segment with
      | some .up => tree.walk location.dropLast segments
      | some (.name name) =>
        if isName name then tree.walk (location ++ [name]) segments else none
      | _ => tree.walk location segments
    else none

/-- Where a path starts, and the segments that it goes through. -/
def startOf (tree : FileTree) (path : String) : Location × List (List Char) :=
  match path.toList with
  | '/' :: body => ([], Path.segments body)
  | body => (tree.current, Path.segments body)

/-- The most bytes that a path may have. -/
def longestPath : Nat := 4095

/-- Where a path leads; the empty path and overlong ones lead nowhere. -/
def locate (tree : FileTree) (path : String) : Option Location :=
  if path = "" || longestPath < path.utf8ByteSize then none
  else
    let (start, segments) := tree.startOf path
    tree.walk start segments

/-- Goes through segments and makes the directories that are missing; tells whether it gets to the end. -/
def makeWay (tree : FileTree) (location : Location) : List (List Char) → Bool × FileTree
  | [] => (true, tree)
  | segment :: segments =>
    match Path.component? segment with
    | some .up => tree.makeWay location.dropLast segments
    | some (.name name) =>
      let next := location ++ [name]
      if isName name then
        match tree.item? next with
        | none => (tree.put next .directory).makeWay next segments
        | some .directory => tree.makeWay next segments
        | some (.file _) => (false, tree)
      else (false, tree)
    | _ => tree.makeWay location segments

/-- Makes a directory and those above it, where they are missing. -/
def makeDirectories (tree : FileTree) (path : String) : Bool × FileTree :=
  if longestPath < path.utf8ByteSize then (false, tree)
  else
    let (start, segments) := tree.startOf path
    tree.makeWay start segments

/-- Makes the directories above a path, where they are missing. -/
def prepare (tree : FileTree) (path : String) : Bool × FileTree :=
  match Path.parent? path with
  | none | some "" => (true, tree)
  | some parent => tree.makeDirectories parent

/-- The bytes of the file at a path. -/
def read (tree : FileTree) (path : String) : Option (List UInt8) := do
  let location ← tree.locate path
  match ← tree.item? location with
  | .file bytes => some bytes
  | .directory => none

/-- The text of the file at a path, if its bytes are UTF-8. -/
def readText (tree : FileTree) (path : String) : Option String := do
  let bytes ← tree.read path
  String.fromUTF8? ⟨bytes.toArray⟩

/-- The tree behind the fault of one write. -/
def passFault (tree : FileTree) : FileTree := { tree with faults := tree.faults.tail }

/-- Writes a file anew, if no fault keeps it from that. -/
def overwrite (tree : FileTree) (location : Location) (bytes : List UInt8) : Bool × FileTree :=
  match tree.faults.head?.join with
  | none => (true, tree.passFault.put location (.file bytes))
  | some .refused => (false, tree.passFault)
  | some (.brokenOff left) => (false, tree.passFault.put location (.file left))

/-- Writes a file in place of the one at the path; tells whether that succeeded. Its directory has to be
there. -/
def write (tree : FileTree) (path : String) (bytes : List UInt8) : Bool × FileTree :=
  match tree.locate path with
  | none => (false, tree)
  | some location =>
    if tree.isDirectory location || !tree.isDirectory location.dropLast then (false, tree)
    else tree.overwrite location bytes

/-- Writes a text to a file and makes the directories above it that are missing. -/
def writeText (tree : FileTree) (path text : String) : Bool × FileTree :=
  match tree.prepare path with
  | (true, tree) => tree.write path (text.toList.flatMap String.utf8EncodeChar)
  | (false, tree) => (false, tree)

end FileTree

end OliCompiler
