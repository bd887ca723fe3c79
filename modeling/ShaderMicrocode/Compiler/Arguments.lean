import ShaderMicrocode.Stage
import ShaderMicrocode.Compiler.StyledText
/-!
# Command line arguments

What the user asks of the compiler, read from left to right. A value is checked once the next parameter has been met,
so an argument that makes no sense by itself is refused before a bad value in front of it.
-/
namespace ShaderMicrocode.Compiler

structure Arguments where
  /-- The microcode dump. -/
  input : String
  stage? : Option Stage
  /-- Where the artifact goes; without it to the standard output. -/
  output? : Option String
  isBigEndian : Bool
  /-- The file of settings; without it the user's own. -/
  config? : Option String
deriving DecidableEq, Inhabited

/-- What the arguments ask for. -/
inductive Command where
  | help
  | translate (a : Arguments)
deriving DecidableEq, Inhabited

/-- An option or argument. -/
inductive Parameter where
  | input
  | shaderType
  | output
  | bigEndian
  | config
  | help
deriving DecidableEq, Inhabited

namespace Parameter

/-- The parameter, as messages show it. -/
def text : Parameter → String
  | input => "<INPUT>"
  | shaderType => "--shader-type <TYPE>"
  | output => "--output <PATH>"
  | bigEndian => "--big-endian"
  | config => "--config <PATH>"
  | help => "--help"

/-- The option that a long name selects. -/
def ofLongName? : String → Option Parameter
  | "shader-type" => some shaderType
  | "output" => some output
  | "big-endian" => some bigEndian
  | "config" => some config
  | "help" => some help
  | _ => none

/-- The option that a letter selects. -/
def ofLetter? : Char → Option Parameter
  | 'o' => some output
  | 'h' => some help
  | _ => none

def takesValue : Parameter → Bool
  | bigEndian | help => false
  | input | shaderType | output | config => true

end Parameter

inductive UsageError where
  | invalidStage (value : String)
  | missingValue (parameter : Parameter)
  | unexpectedValue (value : String) (parameter : Parameter)
  | unexpectedArgument (argument : String)
  | repeated (parameter : Parameter)
  | missingInput
deriving DecidableEq, Inhabited

namespace UsageError

def styledMessage : UsageError → String
  | invalidStage value =>
    "invalid value '" ++ Style.invalid.apply value ++ "' for '" ++ Style.literal.apply Parameter.shaderType.text ++ "': "
      ++ Stage.unknownMessage value
  | missingValue p => "a value is required for '" ++ Style.literal.apply p.text ++ "' but none was supplied"
  | unexpectedValue value p =>
    "unexpected value '" ++ Style.invalid.apply value ++ "' for '" ++ Style.literal.apply p.text
      ++ "' found; no more were expected"
  | unexpectedArgument argument => "unexpected argument '" ++ Style.invalid.apply argument ++ "' found"
  | repeated p => "the argument '" ++ Style.invalid.apply p.text ++ "' cannot be used multiple times"
  | missingInput =>
    "the following required arguments were not provided:\n  " ++ Style.literal.apply Parameter.input.text

/-- The message as a terminal gets it, with a hint at the help. -/
def styledText (e : UsageError) : String :=
  Style.error.apply "error:" ++ " " ++ e.styledMessage ++ "\n\nFor more information, try '"
    ++ Style.literal.apply Parameter.help.text ++ "'."

end UsageError

namespace Arguments

/-- The answer to a request for help. -/
def help : String :=
  "Disassemble and translate Xenos shader microcode.\n\n"
    ++ "Usage: xenos-shader-compiler [OPTIONS] <INPUT>\n\n"
    ++ "Arguments:\n"
    ++ "  <INPUT>  Microcode dump (raw 32-bit words)\n\n"
    ++ "Options:\n"
    ++ "      --shader-type <TYPE>  Shader type: vs or ps (defaults to the input extension)\n"
    ++ "  -o, --output <PATH>       Write the artifact here instead of stdout\n"
    ++ "      --big-endian          The dump stores words big-endian\n"
    ++ "      --config <PATH>       Configuration file (defaults to the user config)\n"
    ++ "  -h, --help                Print help\n"

/-- A parameter that has been met but not checked, with its value once that has been met too. -/
structure Pending where
  parameter : Parameter
  value? : Option String
deriving DecidableEq, Inhabited

/-- Arguments of which only some have been read. -/
structure Draft where
  input? : Option String := none
  stage? : Option Stage := none
  output? : Option String := none
  isBigEndian : Bool := false
  config? : Option String := none
  pending? : Option Pending := none
deriving DecidableEq, Inhabited

/-- A file name may not be empty. -/
def fileName (p : Parameter) (value : String) : Except UsageError String :=
  if value.isEmpty then .error (.missingValue p) else .ok value

namespace Draft

def has (d : Draft) : Parameter → Bool
  | .input => d.input?.isSome
  | .shaderType => d.stage?.isSome
  | .output => d.output?.isSome
  | .bigEndian => d.isBigEndian
  | .config => d.config?.isSome
  | .help => false

/-- Sets a parameter, which must not be set yet. -/
def set (d : Draft) (p : Parameter) (value : String) : Except UsageError Draft :=
  if d.has p then .error (.repeated p)
  else
    match p with
    | .input => (fileName p value).map fun v => { d with input? := some v }
    | .shaderType =>
      match Stage.parse? value with
      | some s => .ok { d with stage? := some s }
      | none => .error (.invalidStage value)
    | .output => (fileName p value).map fun v => { d with output? := some v }
    | .bigEndian => .ok { d with isBigEndian := true }
    | .config => (fileName p value).map fun v => { d with config? := some v }
    | .help => .ok d

/-- Checks the pending parameter and sets it. -/
def settle (d : Draft) : Except UsageError Draft :=
  match d.pending? with
  | none => .ok d
  | some ⟨p, none⟩ => .error (.missingValue p)
  | some ⟨p, some value⟩ => { d with pending? := none }.set p value

/-- The option whose value has not been met yet. -/
def awaiting? (d : Draft) : Option Parameter :=
  match d.pending? with
  | some ⟨p, none⟩ => some p
  | _ => none

/-- Whether an input has been met. -/
def hasInput (d : Draft) : Bool := d.input?.isSome || (d.pending?.map Pending.parameter) == some .input

def addInput (d : Draft) (value : String) : Except UsageError Draft :=
  if d.hasInput then .error (.unexpectedArgument value)
  else d.settle.map fun settled => { settled with pending? := some ⟨.input, some value⟩ }

/-- An option by its long name, with what stands behind its equals sign. -/
def addOption (d : Draft) (p : Parameter) (attached? : Option String) : Except UsageError Draft :=
  match p.takesValue, attached? with
  | true, none => d.settle.map fun settled => { settled with pending? := some ⟨p, none⟩ }
  | true, some value => do (← d.settle).set p value
  | false, none => do (← d.settle).set p ""
  | false, some value => .error (.unexpectedValue value p)

def finish (d : Draft) : Except UsageError Arguments :=
  match d.input? with
  | some input => .ok ⟨input, d.stage?, d.output?, d.isBigEndian, d.config?⟩
  | none => .error .missingInput

end Draft

/-- How an argument reads by itself. -/
inductive Shape where
  /-- Two hyphens alone: only inputs follow. -/
  | separator
  /-- Two hyphens, a name, and perhaps a value behind an equals sign. -/
  | long (name : String) (attached? : Option String)
  /-- One hyphen, a letter, and perhaps a value, which an equals sign may set off. -/
  | short (letter : Char) (attached? : Option String)
  | plain
deriving DecidableEq, Inhabited

def shape (argument : String) : Shape :=
  match argument.toList with
  | ['-', '-'] => .separator
  | '-' :: '-' :: cs =>
    let name := String.ofList (cs.takeWhile (· ≠ '='))
    match cs.dropWhile (· ≠ '=') with
    | _ :: value => .long name (some (String.ofList value))
    | [] => .long name none
  | ['-', c] => .short c none
  | '-' :: c :: '=' :: value => .short c (some (String.ofList value))
  | '-' :: c :: value => .short c (some (String.ofList value))
  | _ => .plain

/-- Reads the arguments after `d`; behind a separator all of them are inputs. A letter that asks for help does so
whatever is attached to it. -/
def readFrom (d : Draft) (isSeparated : Bool) : List String → Except UsageError Command
  | [] => do pure (.translate (← (← d.settle).finish))
  | argument :: rest =>
    match if isSeparated then .plain else shape argument with
    | .separator => readFrom d true rest
    | .plain =>
      match if isSeparated then none else d.awaiting? with
      | some p => readFrom { d with pending? := some ⟨p, some argument⟩ } isSeparated rest
      | none => do readFrom (← d.addInput argument) isSeparated rest
    | .long name attached? =>
      match Parameter.ofLongName? name with
      | none => .error (.unexpectedArgument ("--" ++ name))
      | some p => do
        let d ← d.addOption p attached?
        if p = .help then pure .help else readFrom d false rest
    | .short letter attached? =>
      match Parameter.ofLetter? letter with
      | none => .error (.unexpectedArgument ("-" ++ letter.toString))
      | some .help => do
        let _ ← d.settle
        pure .help
      | some p => do readFrom (← d.addOption p attached?) false rest

/-- The arguments behind the name of the program. -/
def read (arguments : List String) : Except UsageError Command := readFrom {} false arguments

end Arguments

end ShaderMicrocode.Compiler
