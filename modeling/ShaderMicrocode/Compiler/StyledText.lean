/-!
# Styled text

Text for a terminal carries control sequences that set its style. Where no terminal shows it, they are taken out,
together with all that a terminal would not print.
-/
namespace ShaderMicrocode.Compiler

inductive Style where
  | error
  | literal
  | invalid
deriving DecidableEq, Inhabited

namespace Style

/-- The control sequence that switches the style on. -/
def code : Style → String
  | error => "\x1b[1m\x1b[31m"
  | literal => "\x1b[1m"
  | invalid => "\x1b[33m"

/-- A text in this style, and the normal style behind it. -/
def apply (style : Style) (text : String) : String := style.code ++ text ++ "\x1b[0m"

end Style

/-- Where a reader stands with respect to control sequences. -/
inductive SequenceState where
  | outside
  /-- Behind an escape character. -/
  | opened
  /-- Behind an escape character and intermediate characters. -/
  | intermediate
  /-- In a control sequence proper. -/
  | control
  /-- In a command to the operating system, which a bell ends. -/
  | command
  /-- At the head of a string for a device, before its parameters. -/
  | deviceHead
  /-- Among the parameters of a string for a device. -/
  | deviceParameters
  /-- Among the intermediate characters of a string for a device. -/
  | deviceIntermediate
  /-- In the text of a string, which the byte 9C ends. -/
  | stringText
deriving DecidableEq, Inhabited

/-- The characters that move the cursor and take effect even inside a control sequence. -/
def isLayout (c : Char) : Bool := c == '\t' || c == '\n' || c == '\x0c' || c == '\r'

namespace SequenceState

/-- The state behind a character that does not show. -/
def next (state : SequenceState) (c : Char) : SequenceState :=
  if c = '\x1b' then opened
  else if c = '\x18' ∨ c = '\x1a' then outside
  else
    match state with
    | outside => outside
    | opened =>
      if ' ' ≤ c ∧ c ≤ '/' then intermediate
      else if c = '[' then control
      else if c = ']' then command
      else if c = 'P' then deviceHead
      else if c = 'X' ∨ c = '^' ∨ c = '_' then stringText
      else if '0' ≤ c ∧ c ≤ '~' then outside
      else opened
    | intermediate => if '0' ≤ c ∧ c ≤ '~' then outside else intermediate
    | control => if '@' ≤ c ∧ c ≤ '~' then outside else control
    | command => if c = '\x07' then outside else command
    | deviceHead =>
      if ' ' ≤ c ∧ c ≤ '/' then deviceIntermediate
      else if '0' ≤ c ∧ c ≤ '?' then deviceParameters
      else if '@' ≤ c ∧ c ≤ '~' then stringText
      else deviceHead
    | deviceParameters =>
      if ' ' ≤ c ∧ c ≤ '/' then deviceIntermediate
      else if '<' ≤ c ∧ c ≤ '~' then stringText
      else deviceParameters
    | deviceIntermediate => if '0' ≤ c ∧ c ≤ '~' then stringText else deviceIntermediate
    | stringText => if (String.utf8EncodeChar c).contains 0x9c then outside else stringText

/-- Whether a character shows. -/
def shows (state : SequenceState) (c : Char) : Bool :=
  match state with
  | outside => isLayout c || (' ' ≤ c && c != '\x7f')
  | opened | intermediate | control => isLayout c
  | command | deviceHead | deviceParameters | deviceIntermediate | stringText => false

/-- The state kept behind a character that shows. Beyond ASCII no sequence is kept. -/
def keep (state : SequenceState) (c : Char) : SequenceState := if c < '\x80' then state else outside

/-- The characters that show. A layout character suspends a sequence: what follows shows as if outside, up to the
first character that does not, and with that the sequence goes on. -/
def shown (state : SequenceState) (isSuspended : Bool) : List Char → List Char
  | [] => []
  | c :: rest =>
    if (if isSuspended then outside else state).shows c then c :: shown (state.keep c) true rest
    else shown (state.next c) false rest

end SequenceState

/-- What is left of a styled text without a terminal. -/
def plainText (styled : String) : String := String.ofList (SequenceState.outside.shown false styled.toList)

end ShaderMicrocode.Compiler
