import BoxedLet.CommandLine

/-!
# BoxedLet.Main

The command line on the real file system and the standard streams.
-/

open BoxedLet

/-- Reads a file. -/
def readTextFile (path : String) : IO (Except CommandLine.ReadError String) := do
  try
    return .ok (← IO.FS.readFile path)
  catch e =>
    match e with
    | .noFileOrDirectory .. => return .error .notFound
    | e => return .error (.other (toString e))

/-- The real file system and the standard streams. -/
def systemConsole : CommandLine.Console IO where
  read := readTextFile
  print line := do (← IO.getStdout).putStrLn line
  report line := do (← IO.getStderr).putStrLn line

/-- Runs the command line and exits with its code. -/
def main (args : List String) : IO UInt32 := do
  match ← CommandLine.run systemConsole "letlower" args with
  | some code => return code
  | none =>
    systemConsole.report "capacity overflow"
    return 101
