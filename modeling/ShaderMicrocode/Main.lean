import ShaderMicrocode.Compiler.Run
/-!
# Command line

Runs the compiler on the arguments and the files of the process.
-/
namespace ShaderMicrocode.Compiler

/-- The number of a system error, which some calls report with its sign turned. -/
def errorNumber (code : UInt32) : UInt32 := min code (0 - code)

/-- What went wrong with a file of the process. -/
def FileError.ofProcess : IO.Error → FileError
  | .noFileOrDirectory .. => .notFound
  | .alreadyExists .. => .alreadyExists
  | .inappropriateType _ code _ => if errorNumber code = 20 then .notADirectory else .isADirectory
  | .permissionDenied .. => .permissionDenied
  | .invalidArgument _ code message => if errorNumber code = 36 then .nameTooLong else .other message
  | e => .other (toString e)

def attempt {α : Type} (act : IO α) : IO (Except FileError α) := do
  match ← act.toBaseIO with
  | .ok a => pure (.ok a)
  | .error e => pure (.error (.ofProcess e))

/-- Makes a directory and those above it. What stands in the way of the directory itself counts before what stands in
the way of one above it. -/
def makeDirectories (path : String) : IO (Except FileError Unit) := do
  let first ← attempt (IO.FS.createDir path)
  match first, ← attempt (IO.FS.createDirAll path) with
  | _, .ok () => pure (.ok ())
  | .error .notFound, .error e => pure (.error e)
  | first, _ => pure first

/-- The files of the process, and its standard error as the log. -/
def processHost : Host IO where
  contains path := do
    match ← attempt (IO.FS.realPath path) with
    | .ok _ => pure true
    | .error _ => pure false
  read path := attempt (IO.FS.readBinFile path)
  write path content := attempt (IO.FS.writeBinFile path content)
  makeParents path := makeDirectories (directoryOf path)
  log level message := IO.eprintln (level.label ++ " " ++ message)

end ShaderMicrocode.Compiler

open ShaderMicrocode Compiler

def main (arguments : List String) : IO UInt32 := do
  let userConfig := userConfigPath (← IO.getEnv "XDG_CONFIG_HOME") (← IO.getEnv "HOME")
  let outcome ← run processHost userConfig arguments
  (← IO.getStdout).write outcome.printed
  if let .failed e := outcome then
    IO.eprintln (e.text (← (← IO.getStderr).isTty))
  pure outcome.exitCode
