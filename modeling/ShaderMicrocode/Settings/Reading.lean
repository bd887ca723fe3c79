import ShaderMicrocode.Settings.Basic
import ShaderMicrocode.Toml.Document
/-!
# Reading settings

Settings are kept as TOML. What is absent takes its default and what is unknown is ignored. A group of settings may
also be written as an array of its values in order, and a choice as a table whose only key is its name.
-/
namespace ShaderMicrocode

open Toml

/-- The values given for the fields of a group; nothing when the value cannot be a group. A date gives none of
them. -/
def Toml.Value.group? (fields : List String) : Value → Option (List (Option Value))
  | .table _ es => some (fields.map (Entries.get? es))
  | .array items => some ((List.range fields.length).map fun i => items[i]?)
  | .tables items => some ((List.range fields.length).map fun i => items[i]?)
  | .datetime _ => some (fields.map fun _ => none)
  | _ => none

/-- Whether a value holds no values. -/
def Toml.Value.isVacant : Value → Bool
  | .table _ es => es.isEmpty
  | .array items => items.isEmpty
  | .tables items => items.isEmpty
  | _ => false

/-- The name of a choice. -/
def Toml.Value.choice? : Value → Option String
  | .string text => some text
  | .table _ [(name, v)] => if v.isVacant then some name else none
  | _ => none

def Toml.Value.boolean? : Value → Option Bool
  | .boolean b => some b
  | _ => none

/-- A field that may be absent. -/
def readField {α : Type} (dflt : α) (read : Value → Option α) : Option Value → Option α
  | none => some dflt
  | some v => read v

namespace ErrorPolicy

def ofName? (name : String) : Option ErrorPolicy := [proceed, abortOnError].find? (·.name == name)

end ErrorPolicy

namespace LogLevel

def ofName? (name : String) : Option LogLevel := [off, error, warn, info, debug, trace].find? (·.name == name)

end LogLevel

def TranslatorSettings.ofValue? (v : Value) : Option TranslatorSettings := do
  match ← v.group? ["error_policy", "trace_disassembly"] with
  | [policy, traced] =>
    pure
      { errorPolicy := ← readField .proceed (fun v => v.choice?.bind ErrorPolicy.ofName?) policy
        traceDisassembly := ← readField false Value.boolean? traced }
  | _ => none

def LoggingSettings.ofValue? (v : Value) : Option LoggingSettings := do
  match ← v.group? ["level", "with_target"] with
  | [level, target] =>
    pure
      { level := ← readField .info (fun v => v.choice?.bind LogLevel.ofName?) level
        withTarget := ← readField false Value.boolean? target }
  | _ => none

namespace Settings

def ofEntries? (es : Entries) : Option Settings := do
  pure
    { translator := ← readField {} TranslatorSettings.ofValue? (es.get? "translator")
      logging := ← readField {} LoggingSettings.ofValue? (es.get? "logging") }

/-- The settings that a file holds; nothing when its text is no TOML or a setting has a wrong value. -/
def ofText? (text : String) : Option Settings := (Toml.parse? text).bind ofEntries?

end Settings

end ShaderMicrocode
