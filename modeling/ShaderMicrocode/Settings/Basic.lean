/-!
# Settings

What the user decides: what happens after an error, which lines are traced, and how much is logged.
-/
namespace ShaderMicrocode

/-- What follows once an error has been recorded. -/
inductive ErrorPolicy where
  | proceed
  | abortOnError
deriving DecidableEq, Inhabited

def ErrorPolicy.name : ErrorPolicy → String
  | proceed => "Continue"
  | abortOnError => "AbortOnError"

inductive LogLevel where
  | off
  | error
  | warn
  | info
  | debug
  | trace
deriving DecidableEq, Inhabited

namespace LogLevel

def name : LogLevel → String
  | off => "Off"
  | error => "Error"
  | warn => "Warn"
  | info => "Info"
  | debug => "Debug"
  | trace => "Trace"

/-- The word in front of a message of this level. -/
def label : LogLevel → String
  | off => "OFF"
  | error => "ERROR"
  | warn => "WARN"
  | info => "INFO"
  | debug => "DEBUG"
  | trace => "TRACE"

/-- How much is logged at this level. -/
def rank : LogLevel → Nat
  | off => 0
  | error => 1
  | warn => 2
  | info => 3
  | debug => 4
  | trace => 5

/-- Whether a log of this level takes messages of another. -/
def includes (level message : LogLevel) : Bool := message.rank ≤ level.rank

/-- The word that selects the level in a log filter. -/
def filter : LogLevel → String
  | off => "off"
  | error => "error"
  | warn => "warn"
  | info => "info"
  | debug => "debug"
  | trace => "trace"

end LogLevel

structure TranslatorSettings where
  errorPolicy : ErrorPolicy := .proceed
  /-- Whether every line of the disassembly goes to the log as well. -/
  traceDisassembly : Bool := false
deriving DecidableEq, Inhabited

structure LoggingSettings where
  level : LogLevel := .info
  withTarget : Bool := false
deriving DecidableEq, Inhabited

structure Settings where
  translator : TranslatorSettings := {}
  logging : LoggingSettings := {}
deriving DecidableEq, Inhabited

namespace Settings

/-- The file in which settings are kept. -/
def text (s : Settings) : String :=
  "[translator]\n"
    ++ "error_policy = \"" ++ s.translator.errorPolicy.name ++ "\"\n"
    ++ "trace_disassembly = " ++ toString s.translator.traceDisassembly ++ "\n\n"
    ++ "[logging]\n"
    ++ "level = \"" ++ s.logging.level.name ++ "\"\n"
    ++ "with_target = " ++ toString s.logging.withTarget ++ "\n"

end Settings

end ShaderMicrocode
