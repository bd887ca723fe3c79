import ShaderMicrocode.Toml.Number
import ShaderMicrocode.Toml.Value
/-!
# TOML documents

Values, and the lines of a document: keys with values, and headers that open the table to which the following keys
belong.
-/
namespace ShaderMicrocode.Toml

/-- The values of an array up to its bracket, at most `n` of them. -/
def readItems (readValue : Reader Value) : Nat → Reader (List Value)
  | 0, _ => none
  | n + 1, cs =>
    match skipSpace false cs with
    | ']' :: rest => some ([], rest)
    | cs => do
      let (v, rest) ← readValue cs
      match skipSpace false rest with
      | ',' :: rest => do
        let (vs, rest) ← readItems readValue n rest
        pure (v :: vs, rest)
      | ']' :: rest => pure ([v], rest)
      | _ => none

/-- The keys and values of a table in braces up to its brace, at most `n` of them. -/
def readPairs (readValue : Reader Value) (form : TableForm) (es : Entries) : Nat → Reader Entries
  | 0, _ => none
  | n + 1, cs => do
    let ((path, name), rest) ← readKey cs
    let (v, rest) ← readValue (skipBlanks (← expect '=' rest))
    let es ← es.addDotted form path name v
    match skipBlanks rest with
    | ',' :: rest => readPairs readValue form es n rest
    | '}' :: rest => pure (es, rest)
    | _ => none

/-- A table in braces, from behind its opening brace. -/
def readInlineTable (readValue : Reader Value) : Reader Value := fun cs =>
  let form : TableForm := { isInline := true }
  match skipBlanks cs with
  | '}' :: rest => some (.table form [], rest)
  | _ => (readPairs readValue form [] (cs.length + 1) cs).map fun (es, rest) => (.table form es, rest)

/-- Numbers and dates; the text tells which of them it is. -/
def readNumber : Reader Value := fun cs =>
  let lexeme (rest : List Char) : String := String.ofList (cs.take (cs.length - rest.length))
  match readDatetime cs with
  | some rest => some (.datetime (lexeme rest), rest)
  | none =>
    match readFloat cs with
    | some rest => some (.float (lexeme rest), rest)
    | none => (readInteger cs).map fun (n, rest) => (.integer n, rest)

/-- A value in which arrays and tables in braces nest at most `depth` deep. -/
def readValue (depth : Nat) : Reader Value := fun cs =>
  match cs with
  | 't' :: 'r' :: 'u' :: 'e' :: rest => some (.boolean true, rest)
  | 'f' :: 'a' :: 'l' :: 's' :: 'e' :: rest => some (.boolean false, rest)
  | '[' :: rest =>
    match depth with
    | 0 => none
    | d + 1 => (readItems (readValue d) (rest.length + 1) rest).map fun (vs, rest) => (.array vs, rest)
  | '{' :: rest =>
    match depth with
    | 0 => none
    | d + 1 => readInlineTable (readValue d) rest
  | '"' :: _ => (readString cs).map fun (s, rest) => (.string s, rest)
  | '\'' :: _ => (readString cs).map fun (s, rest) => (.string s, rest)
  | _ => readNumber cs

/-- The entries read so far, and the path of the table that the following keys belong to. -/
structure Draft where
  root : Entries
  header : List String

namespace Draft

def empty : Draft := ⟨[], []⟩

/-- Opens the table of a header in brackets. A table that longer headers brought about keeps what they put there;
one that is written already is refused. -/
def openTable (d : Draft) (path : List String) (name : String) : Option Draft := do
  let root ← Entries.update false (fun _ es =>
    match es.get? name with
    | none => some (es.set name (.table {} []))
    | some (.table form inner) =>
      if form.isImplicit ∧ ¬form.isDotted ∧ ¬form.isInline then some (es.set name (.table {} inner)) else none
    | some _ => none) {} path d.root
  pure ⟨root, path ++ [name]⟩

/-- Opens the next table of an array of tables. -/
def openItem (d : Draft) (path : List String) (name : String) : Option Draft := do
  let root ← Entries.update false (fun _ es =>
    match es.get? name with
    | none => some (es.set name (.tables [.table {} []]))
    | some (.tables items) => some (es.set name (.tables (items ++ [.table {} []])))
    | some _ => none) {} path d.root
  pure ⟨root, path ++ [name]⟩

/-- Adds a key and its value to the open table. -/
def addPair (d : Draft) (path : List String) (name : String) (v : Value) : Option Draft := do
  let root ← Entries.update false (fun form es => es.addDotted form path name v) {} d.header d.root
  pure { d with root }

end Draft

/-- One line that is not blank. -/
def readLine (d : Draft) (cs : List Char) : Option (Draft × List Char) := do
  match skipBlanks cs with
  | '[' :: '[' :: rest =>
    let ((path, name), rest) ← readKey rest
    let rest ← endOfLine? (← expect ']' (← expect ']' rest))
    pure (← d.openItem path name, rest)
  | '[' :: rest =>
    let ((path, name), rest) ← readKey rest
    let rest ← endOfLine? (← expect ']' rest)
    pure (← d.openTable path name, rest)
  | cs =>
    let ((path, name), rest) ← readKey cs
    let (v, rest) ← readValue maxDepth (skipBlanks (← expect '=' rest))
    pure (← d.addPair path name v, ← endOfLine? rest)

/-- The lines of a document, at most `n` of them. -/
def readLines : Nat → Draft → List Char → Option Entries
  | _, d, [] => some d.root
  | 0, _, _ => none
  | n + 1, d, cs =>
    match endOfLine? cs with
    | some rest => readLines n d rest
    | none => do
      let (d, rest) ← readLine d cs
      readLines n d rest

/-- The table of a document; a byte order mark in front of it is skipped. -/
def parse? (text : String) : Option Entries :=
  match text.toList with
  | '\uFEFF' :: cs => readLines cs.length .empty cs
  | cs => readLines cs.length .empty cs

end ShaderMicrocode.Toml
