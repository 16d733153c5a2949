/-!
The arguments of the command. Options may stand before and behind the input, short ones may share a
dash, and behind `--` every argument is an input. No option may be given twice, and no path may be
empty.
-/

namespace OliCompiler

/-- What a build tells while it runs. -/
structure BuildOptions where
  emitTokens : Bool
  emitTree : Bool
  emitCode : Bool
  quiet : Bool
  silent : Bool
deriving DecidableEq, Repr

namespace BuildOptions

/-- Whether progress and success are told. -/
def reportsProgress (options : BuildOptions) : Bool := !options.quiet && !options.silent

/-- Whether failures are told. -/
def reportsErrors (options : BuildOptions) : Bool := !options.silent

end BuildOptions

/-- The commands that take an input and nothing else. -/
inductive Inspection where
  | check
  | tokenize
  | parse
  | run
deriving DecidableEq, Repr

inductive Command where
  | build (input : String) (directory : Option String) (options : BuildOptions)
  | inspect (inspection : Inspection) (input : String)
deriving DecidableEq, Repr

namespace Command

/-- Why arguments lead to no command: they ask for help or for the version, or they are wrong. -/
inductive Refusal where
  | help
  | version
  | usage
deriving DecidableEq, Repr

inductive Flag where
  | emitTokens
  | emitTree
  | emitCode
  | quiet
  | silent
deriving DecidableEq, Repr

def Flag.all : List Flag := [emitTokens, emitTree, emitCode, quiet, silent]

def Flag.long : Flag → String
  | emitTokens => "emit-tokens"
  | emitTree => "emit-ast"
  | emitCode => "emit-ir"
  | quiet => "quiet"
  | silent => "silent"

def Flag.short? : Flag → Option Char
  | quiet => some 'q'
  | silent => some 's'
  | _ => none

/-- The form of an argument. -/
inductive Form where
  /-- The two dashes behind which no options follow. -/
  | escape
  | long (name : String) (value : Option String)
  | cluster (letters : List Char)
  | plain
deriving DecidableEq, Repr

def formOf (arg : String) : Form :=
  match arg.toList with
  | ['-', '-'] => .escape
  | '-' :: '-' :: text =>
    match text.span (· ≠ '=') with
    | (name, []) => .long (String.ofList name) none
    | (name, _ :: value) => .long (String.ofList name) (some (String.ofList value))
  | ['-'] => .plain
  | '-' :: letters => .cluster letters
  | _ => .plain

/-- What has been given so far. -/
structure Given where
  input : Option String
  directory : Option String
  flags : List Flag
deriving DecidableEq, Repr

namespace Given

def addInput (given : Given) (input : String) : Except Refusal Given :=
  if given.input.isSome || input = "" then .error .usage
  else .ok { given with input := some input }

def addDirectory (given : Given) (directory : String) : Except Refusal Given :=
  if given.directory.isSome || directory = "" then .error .usage
  else .ok { given with directory := some directory }

def addFlag (given : Given) (flag : Flag) : Except Refusal Given :=
  if given.flags.contains flag then .error .usage
  else .ok { given with flags := flag :: given.flags }

end Given

/-- Reads letters behind one dash; tells whether the directory is to follow as an argument. -/
def readCluster (build : Bool) (given : Given) : List Char → Except Refusal (Given × Bool)
  | [] => .ok (given, false)
  | letter :: letters =>
    if letter = 'h' then .error .help
    else if !build then .error .usage
    else if letter = 'o' then
      match letters with
      | [] => .ok (given, true)
      | '=' :: value => do return (← given.addDirectory (String.ofList value), false)
      | value => do return (← given.addDirectory (String.ofList value), false)
    else
      match Flag.all.find? fun flag => flag.short? = some letter with
      | some flag => do readCluster build (← given.addFlag flag) letters
      | none => .error .usage

/-- Reads a long option; tells whether the directory is to follow as an argument. -/
def readLong (build : Bool) (given : Given) (name : String) (value : Option String) :
    Except Refusal (Given × Bool) :=
  if name = "help" then .error (if value.isNone then .help else .usage)
  else if !build then .error .usage
  else if name = "out-dir" then
    match value with
    | none => .ok (given, true)
    | some value => do return (← given.addDirectory value, false)
  else
    match Flag.all.find? (fun flag => flag.long = name), value with
    | some flag, none => do return (← given.addFlag flag, false)
    | _, _ => .error .usage

/-- Reads the arguments behind the name of a command. -/
def readArgs (build : Bool) (given : Given) : List String → Except Refusal Given
  | [] => .ok given
  | arg :: args =>
    match formOf arg with
    | .escape => args.foldlM Given.addInput given
    | .plain => do readArgs build (← given.addInput arg) args
    | form => do
      let (given, wanting) ←
        match form with
        | .long name value => readLong build given name value
        | .cluster letters => readCluster build given letters
        | _ => pure (given, false)
      if wanting then
        match args with
        | value :: args =>
          if formOf value = .plain then
            readArgs build (← given.addDirectory value) args
          else .error .usage
        | [] => .error .usage
      else readArgs build given args

/-- The command without options of a name. -/
def inspection? : String → Option Inspection
  | "check" => some .check
  | "tokenize" => some .tokenize
  | "parse" => some .parse
  | "run" => some .run
  | _ => none

/-- Whether a name is that of a command. -/
def isCommand (name : String) : Bool :=
  name = "build" || name = "help" || (inspection? name).isSome

/-- Reads the arguments of a command by its name. -/
def ofName (name : String) (args : List String) : Except Refusal Command := do
  let build := name = "build"
  let given ← readArgs build ⟨none, none, []⟩ args
  match given.input, inspection? name with
  | none, _ => .error .usage
  | some input, some inspection => return .inspect inspection input
  | some input, none =>
    let options : BuildOptions :=
      { emitTokens := given.flags.contains .emitTokens
        emitTree := given.flags.contains .emitTree
        emitCode := given.flags.contains .emitCode
        quiet := given.flags.contains .quiet
        silent := given.flags.contains .silent }
    return .build input given.directory options

/-- The command that the arguments ask for. -/
def ofArgs : List String → Except Refusal Command
  | [] => .error .usage
  | arg :: args =>
    match formOf arg with
    | .plain =>
      if arg = "help" then
        .error (if args.all isCommand && args.length ≤ 1 then .help else .usage)
      else if isCommand arg then ofName arg args
      else .error .usage
    | .long "version" none | .cluster ('V' :: _) => .error .version
    | .long "help" none | .cluster ('h' :: _) => .error .help
    | _ => .error .usage

end Command

end OliCompiler
