/-!
# TOML text

Blanks, comments, line ends, keys and strings. Each reader takes the text from where it stands and yields what it
read with the rest, or nothing.
-/
namespace ShaderMicrocode.Toml

abbrev Reader (α : Type) := List Char → Option (α × List Char)

def isBlank (c : Char) : Bool := c == ' ' || c == '\t'

def skipBlanks (cs : List Char) : List Char := cs.dropWhile isBlank

/-- Tab and everything but control characters. -/
def isPrintable (c : Char) : Bool := c == '\t' || (' ' ≤ c && c != '\x7f')

/-- The rest after a newline, which may open with a carriage return. -/
def newline? : List Char → Option (List Char)
  | '\n' :: rest => some rest
  | '\r' :: '\n' :: rest => some rest
  | _ => none

/-- The rest after the end of a line: blanks, perhaps a comment, and a newline or the end of the text. -/
def endOfLine? (cs : List Char) : Option (List Char) :=
  let afterComment := match skipBlanks cs with
    | '#' :: rest => rest.dropWhile isPrintable
    | rest => rest
  if afterComment.isEmpty then some [] else newline? afterComment

/-- Skips blanks, newlines and comments. -/
def skipSpace (inComment : Bool) : List Char → List Char
  | [] => []
  | c :: rest =>
    if c = '\n' then skipSpace false rest
    else if c = '\r' then (if rest.head? = some '\n' then skipSpace inComment rest else c :: rest)
    else if inComment then (if isPrintable c then skipSpace true rest else c :: rest)
    else if isBlank c then skipSpace false rest
    else if c = '#' then skipSpace true rest
    else c :: rest

def digitValue (c : Char) : Nat :=
  if c.isDigit then c.toNat - '0'.toNat
  else if 'a' ≤ c ∧ c ≤ 'z' then c.toNat - 'a'.toNat + 10
  else c.toNat - 'A'.toNat + 10

def isHexDigit (c : Char) : Bool := c.isDigit || ('a' ≤ c && c ≤ 'f') || ('A' ≤ c && c ≤ 'F')

/-- The close of a string. A multi-line string is closed by three delimiters, and the first two of up to five
belong to its text. -/
def close? (delimiter : Char) (isMultiLine : Bool) (cs : List Char) : Option (List Char × List Char) :=
  if isMultiLine then
    let n := ((cs.take 5).takeWhile (· == delimiter)).length
    if 3 ≤ n then some (List.replicate (n - 3) delimiter, cs.drop n) else none
  else
    match cs with
    | c :: rest => if c = delimiter then some ([], rest) else none
    | [] => none

/-- The text of a literal string from where it stands; `read` is what came before, backwards. -/
def literalText (isMultiLine : Bool) (read : List Char) : Reader String
  | [] => none
  | c :: rest =>
    match close? '\'' isMultiLine (c :: rest) with
    | some (extra, rest) => some (String.ofList (read.reverse ++ extra), rest)
    | none =>
      if isPrintable c ∨ (isMultiLine ∧ c = '\n') then literalText isMultiLine (c :: read) rest
      else if isMultiLine ∧ c = '\r' ∧ rest.head? = some '\n' then literalText isMultiLine read rest
      else none

/-- Where the reader of a basic string stands. -/
inductive Escape where
  /-- In plain text; when `isTrimming`, blanks and newlines are skipped. -/
  | plain (isTrimming : Bool)
  /-- Behind a backslash. -/
  | opened
  /-- Behind a backslash and blanks, which have to end in a newline. -/
  | lineEnd
  /-- In a code point of which `left` digits are still to come. -/
  | codePoint (left value : Nat)

/-- The character that a backslash and a letter stand for. -/
def escaped? : Char → Option Char
  | 'b' => some '\x08'
  | 't' => some '\t'
  | 'n' => some '\n'
  | 'f' => some '\x0c'
  | 'r' => some '\r'
  | '"' => some '"'
  | '\\' => some '\\'
  | _ => none

/-- The character of a code point that is a scalar value. -/
def scalar? (n : Nat) : Option Char := if n.isValidChar then some (Char.ofNat n) else none

/-- The text of a basic string from where it stands; `read` is what came before, backwards. -/
def basicText (isMultiLine : Bool) (state : Escape) (read : List Char) : Reader String
  | [] => none
  | c :: rest =>
    let isLineEnd := isMultiLine ∧ (c = '\n' ∨ c = '\r' ∧ rest.head? = some '\n')
    match state with
    | .plain isTrimming =>
      if isTrimming ∧ (isBlank c ∨ isLineEnd) then basicText isMultiLine (.plain true) read rest
      else
        match close? '"' isMultiLine (c :: rest) with
        | some (extra, rest) => some (String.ofList (read.reverse ++ extra), rest)
        | none =>
          if c = '\\' then basicText isMultiLine .opened read rest
          else if isPrintable c ∨ (isMultiLine ∧ c = '\n') then basicText isMultiLine (.plain false) (c :: read) rest
          else if isLineEnd then basicText isMultiLine (.plain false) read rest
          else none
    | .opened =>
      match escaped? c with
      | some e => basicText isMultiLine (.plain false) (e :: read) rest
      | none =>
        if c = 'u' then basicText isMultiLine (.codePoint 4 0) read rest
        else if c = 'U' then basicText isMultiLine (.codePoint 8 0) read rest
        else if isLineEnd then basicText isMultiLine (.plain true) read rest
        else if isMultiLine ∧ isBlank c then basicText isMultiLine .lineEnd read rest
        else none
    | .lineEnd =>
      if isLineEnd then basicText isMultiLine (.plain true) read rest
      else if isBlank c then basicText isMultiLine .lineEnd read rest
      else none
    | .codePoint left value =>
      if isHexDigit c then
        let value := 16 * value + digitValue c
        if left = 1 then
          match scalar? value with
          | some e => basicText isMultiLine (.plain false) (e :: read) rest
          | none => none
        else basicText isMultiLine (.codePoint (left - 1) value) read rest
      else none

/-- The text after the newline that may directly follow the opening of a multi-line string. -/
def skipFirstNewline (cs : List Char) : List Char := (newline? cs).getD cs

def readString : Reader String
  | '"' :: '"' :: '"' :: rest => basicText true (.plain false) [] (skipFirstNewline rest)
  | '"' :: rest => basicText false (.plain false) [] rest
  | '\'' :: '\'' :: '\'' :: rest => literalText true [] (skipFirstNewline rest)
  | '\'' :: rest => literalText false [] rest
  | _ => none

def isBareKeyChar (c : Char) : Bool := c.isAlphanum || c == '-' || c == '_'

/-- One part of a key: a string on one line, or bare characters. -/
def readKeyPart : Reader String
  | '"' :: rest => basicText false (.plain false) [] rest
  | '\'' :: rest => literalText false [] rest
  | cs =>
    let bare := cs.takeWhile isBareKeyChar
    if bare.isEmpty then none else some (String.ofList bare, cs.dropWhile isBareKeyChar)

/-- The parts of a key, at most `n` of them, with the blanks around them. -/
def readKeyParts : Nat → Reader (List String)
  | 0, _ => none
  | n + 1, cs => do
    let (part, rest) ← readKeyPart (skipBlanks cs)
    match skipBlanks rest with
    | '.' :: rest => do
      let (parts, rest) ← readKeyParts n rest
      pure (part :: parts, rest)
    | rest => pure ([part], rest)

/-- How many parts a key may have, and how deep arrays and tables in braces may nest. -/
def maxDepth : Nat := 79

/-- A key: the path to its table, and its name there. -/
def readKey : Reader (List String × String) := fun cs => do
  let (parts, rest) ← readKeyParts maxDepth cs
  match parts.getLast? with
  | some name => pure ((parts.dropLast, name), rest)
  | none => none

end ShaderMicrocode.Toml
