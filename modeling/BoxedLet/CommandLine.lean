import BoxedLet.Capacity
import BoxedLet.Document.Unit

/-!
# BoxedLet.CommandLine

The **command line**: which files to read, what to print, and how to fail.

A run reads and prints at a console in any monad, so that the same definition serves a real file
system with its streams and a fixed set of texts. It reads what the arguments ask for, compiles it
and prints the code, or it prints one message on the error stream.
-/

namespace BoxedLet.CommandLine

/-- What the arguments ask for. -/
structure Config where
  unitPath : String
  /-- The file of options that replace those of the unit. -/
  optionsPath : Option String := none
  deriving Repr, DecidableEq, Inhabited

/-- Why a file cannot be read. -/
inductive ReadError
  | notFound
  | other (text : String)
  deriving Repr, DecidableEq, Inhabited

/-- Why a run fails. -/
inductive Failure
  | missingOptionsFile
  | unknownOption (arg : String)
  | noUnit
  | cannotRead (path : String) (error : ReadError)
  | invalidUnit (path : String) (fault : Json.Fault)
  | invalidOptions (path : String) (fault : Json.Fault)
  | lowering (error : LowerError)
  deriving Repr, DecidableEq, Inhabited

/-! ### Arguments -/

/-- The option that takes a file of options. -/
def optionsFlag : String := "--options"

/-- Reads the arguments from left to right, with what the earlier ones have set. Of several units
or option files the last counts. -/
def parseFrom (unit? options? : Option String) : List String → Except Failure Config
  | [] =>
    match unit? with
    | some unit => .ok ⟨unit, options?⟩
    | none => .error .noUnit
  | [arg] =>
    if arg = optionsFlag then .error .missingOptionsFile
    else if arg.startsWith "-" then .error (.unknownOption arg)
    else parseFrom (some arg) options? []
  | arg :: next :: args =>
    if arg = optionsFlag then parseFrom unit? (some next) args
    else if arg.startsWith "-" then .error (.unknownOption arg)
    else parseFrom (some arg) options? (next :: args)

/-- Reads the arguments. -/
def parse (args : List String) : Except Failure Config :=
  parseFrom none none args

/-! ### Reading -/

section

variable {m : Type → Type} [Monad m] (read : String → m (Except ReadError String))

/-- What the document in a file describes. -/
def readDocument {α : Type} (decode : String → Except Json.Fault α)
    (invalid : String → Json.Fault → Failure) (path : String) : ExceptT Failure m α := do
  match ← read path with
  | .error e => throw (.cannotRead path e)
  | .ok text =>
    match decode text with
    | .error fault => throw (invalid path fault)
    | .ok a => return a

/-- The unit at the paths of a configuration. -/
def readUnit (config : Config) : ExceptT Failure m CompilationUnit := do
  let unit ← readDocument read CompilationUnit.ofJson .invalidUnit config.unitPath
  match config.optionsPath with
  | none => return unit
  | some path =>
    let options ← readDocument read Options.ofJson .invalidOptions path
    return { unit with options }

/-- The unit that the arguments ask for. -/
def requestedUnit (args : List String) : ExceptT Failure m CompilationUnit := do
  match parse args with
  | .error e => throw e
  | .ok config => readUnit read config

end

/-! ### Wording -/

/-- The text of an error in reading a file. -/
def ReadError.text : ReadError → String
  | notFound => "No such file or directory (os error 2)"
  | other text => text

/-- The message of a failure of the program of that name. -/
def Failure.message (program : String) : Failure → String
  | missingOptionsFile => optionsFlag ++ " requires a file"
  | unknownOption arg => "Unknown option: " ++ arg
  | noUnit => "Usage: " ++ program ++ " [" ++ optionsFlag ++ " <file>] <unit.json>"
  | cannotRead path error => "Cannot read " ++ path ++ ": " ++ error.text
  | invalidUnit path fault => "Invalid unit " ++ path ++ ": " ++ fault.message
  | invalidOptions path fault => "Invalid options " ++ path ++ ": " ++ fault.message
  | lowering error => error.message

/-- The printed lines of a compiled unit: an include per header, a blank line after them if there
are any, and the code. -/
def printedLines (c : Compiled) : List String :=
  let includes := c.headers.map fun h => "#include \"" ++ h.path ++ ".h\""
  includes ++ (if includes.isEmpty then [] else [""]) ++ c.lines

/-! ### Running -/

/-- Where a run reads and prints. -/
structure Console (m : Type → Type) where
  /-- The contents of a file. -/
  read : String → m (Except ReadError String)
  /-- Prints a line. -/
  print : String → m Unit
  /-- Prints a line on the error stream. -/
  report : String → m Unit

/-- Runs the command line of the program of that name and returns its exit code, or nothing if the
lowering breaks off. -/
def run {m : Type → Type} [Monad m] (console : Console m) (program : String) (args : List String) :
    m (Option UInt32) := do
  match ← (requestedUnit console.read args).run with
  | .error e => fail e
  | .ok unit =>
    match unit.compile? with
    | none => return none
    | some (.error e) => fail (.lowering e)
    | some (.ok c) =>
      (printedLines c).forM console.print
      return some 0
where
  fail (e : Failure) : m (Option UInt32) := do
    console.report ("Error: " ++ e.message program)
    return some 1

/-! ### Fixed files -/

/-- The files that there are: what is in them, or why they cannot be read. -/
abbrev Files := String → Except ReadError String

/-- What a run does at its console. -/
inductive Event
  | read (path : String)
  | print (line : String)
  | report (line : String)
  deriving Repr, DecidableEq, Inhabited

/-- A console that answers from the given files and keeps a record. -/
def Console.recording (files : Files) : Console (StateM (List Event)) where
  read path := do
    modify (· ++ [.read path])
    return files path
  print line := modify (· ++ [.print line])
  report line := modify (· ++ [.report line])

/-- What is known of a run when it is over. -/
structure Outcome where
  /-- None if the run has broken off. -/
  exitCode? : Option UInt32
  /-- What it did, in order. -/
  events : List Event
  deriving Repr, DecidableEq, Inhabited

/-- The outcome of a run on the given files. -/
def outcome (files : Files) (program : String) (args : List String) : Outcome :=
  let (exitCode?, events) := (run (.recording files) program args).run []
  { exitCode?, events }

namespace Outcome

end Outcome

end BoxedLet.CommandLine
