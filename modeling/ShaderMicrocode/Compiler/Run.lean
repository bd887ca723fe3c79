import ShaderMicrocode.Session
import ShaderMicrocode.Compiler.Arguments
import ShaderMicrocode.Compiler.Files
import ShaderMicrocode.Settings.Reading
/-!
# The compiler

One run of the command line tool: it loads the settings, finds out the stage, reads the dump, translates it to its
disassembly and writes that down. The first thing that fails ends the run.
-/
namespace ShaderMicrocode.Compiler

inductive ConfigError where
  | unreachable (e : FileError)
  | invalid
deriving DecidableEq, Inhabited

/-- The reason why a file cannot be reached stands both in the message and behind it. -/
def ConfigError.message : ConfigError → String
  | unreachable e => "IO error: " ++ e.message ++ ": " ++ e.message
  | invalid => "Config error: the file holds no valid settings"

inductive Failure where
  | usage (e : UsageError)
  | config (path : String) (e : ConfigError)
  | defaultConfig (e : ConfigError)
  | unknownStage (input : String)
  | reading (path : String) (e : FileError)
  | partialWord (length : Nat)
  | writing (path : String) (e : FileError)
deriving DecidableEq, Inhabited

def Failure.message : Failure → String
  | usage e => plainText e.styledMessage
  | config path e => "loading config " ++ path ++ ": " ++ e.message
  | defaultConfig e => "loading default config: " ++ e.message
  | unknownStage input => "cannot infer shader type of " ++ input ++ "; pass --shader-type"
  | reading path e => "reading " ++ path ++ ": " ++ e.message
  | partialWord length => Shader.partialWordMessage length
  | writing path e => "writing " ++ path ++ ": " ++ e.message

/-- What tells of a failure, on a terminal or elsewhere. -/
def Failure.text (onTerminal : Bool) : Failure → String
  | usage e => if onTerminal then e.styledText else plainText e.styledText
  | e => "error: " ++ e.message

/-- How a run ended. -/
inductive Outcome where
  | helped
  /-- The dump was translated, with these errors in it; `printed` goes to the standard output. -/
  | translated (errors : List Diagnostic) (printed : ByteArray)
  | failed (e : Failure)

namespace Outcome

def exitCode : Outcome → UInt32
  | helped => 0
  | translated errors _ => if errors.isEmpty then 0 else 1
  | failed _ => 2

def printed : Outcome → ByteArray
  | helped => Arguments.help.toUTF8
  | translated _ bytes => bytes
  | failed _ => .empty

end Outcome

/-- What a run needs from where it takes place. -/
structure Host (m : Type → Type) extends FileAccess m where
  log : LogLevel → String → m Unit

variable {m : Type → Type} [Monad m]

/-- Logs a message if the settings ask for it. -/
def Host.note (host : Host m) (settings : LoggingSettings) (level : LogLevel) (message : String) : m Unit :=
  if settings.level.includes level then host.log level message else pure ()

/-- The settings in a file. -/
def loadSettings (files : FileAccess m) (path : String) : ExceptT ConfigError m Settings := do
  match ← files.read path with
  | .error e => throw (.unreachable e)
  | .ok bytes =>
    match String.fromUTF8? bytes with
    | none => throw (.unreachable .notText)
    | some text =>
      match Settings.ofText? text with
      | some settings => pure settings
      | none => throw .invalid

/-- The user's own settings. The file is made with the defaults if there is none. -/
def loadUserSettings (files : FileAccess m) (path : String) : ExceptT ConfigError m Settings := do
  if ← files.contains path then loadSettings files path
  else
    match ← files.makeParents path with
    | .error e => throw (.unreachable e)
    | .ok () =>
      match ← files.write path (Settings.text {}).toUTF8 with
      | .error e => throw (.unreachable e)
      | .ok () => pure {}

/-- The stage asked for, or else the one that the extension of the input names. -/
def Arguments.stage (a : Arguments) : Except Failure Stage :=
  match a.stage?.or ((extension? a.input).bind Stage.parse?) with
  | some stage => .ok stage
  | none => .error (.unknownStage a.input)

def Arguments.byteOrder (a : Arguments) : ByteOrder := if a.isBigEndian then .big else .little

/-- The run of arguments that make sense. -/
def runArguments (host : Host m) (userConfig : String) (a : Arguments) : ExceptT Failure m Outcome := do
  let settings ← match a.config? with
    | some path => ExceptT.adapt (Failure.config path) (loadSettings host.toFileAccess path)
    | none => ExceptT.adapt Failure.defaultConfig (loadUserSettings host.toFileAccess userConfig)
  let stage ← liftExcept a.stage
  let bytes ← match ← host.read a.input with
    | .ok bytes => pure bytes
    | .error e => throw (.reading a.input e)
  let shader ← match Shader.ofBytes? stage a.byteOrder bytes.toList with
    | some shader => pure shader
    | none => throw (.partialWord bytes.size)
  host.note settings.logging .info
    ("Translating " ++ stage.name ++ " shader " ++ a.input ++ " (" ++ shader.words.size.repr ++ " words)")
  let t := shader.translate .listing settings.translator ()
  t.log.forM fun entry => host.note settings.logging entry.level entry.message
  t.shader.errors.forM fun e => host.note settings.logging .error e.text
  match a.output? with
  | none => pure (.translated t.shader.errors t.shader.artifact)
  | some path =>
    match ← host.write path t.shader.artifact with
    | .ok () => pure (.translated t.shader.errors .empty)
    | .error e => throw (.writing path e)
where
  liftExcept {α : Type} : Except Failure α → ExceptT Failure m α
    | .ok a => pure a
    | .error e => throw e

/-- One run, with the arguments behind the name of the program and the path of the user's own settings. -/
def run (host : Host m) (userConfig : String) (arguments : List String) : m Outcome := do
  match Arguments.read arguments with
  | .error e => pure (.failed (.usage e))
  | .ok .help => pure .helped
  | .ok (.translate a) =>
    match ← (runArguments host userConfig a).run with
    | .ok outcome => pure outcome
    | .error e => pure (.failed e)

end ShaderMicrocode.Compiler
