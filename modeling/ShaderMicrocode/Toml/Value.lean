/-!
# TOML values

A TOML document is a table. Tables remember how they came about, because that decides what may still be added to
them.
-/
namespace ShaderMicrocode.Toml

/-- How a table was written. -/
structure TableForm where
  /-- Written in braces, as a value. -/
  isInline : Bool := false
  /-- Brought about by a longer name only, and not yet written itself. -/
  isImplicit : Bool := false
  /-- Brought about by a dotted key. -/
  isDotted : Bool := false
deriving DecidableEq, Inhabited

/-- Floats and dates are kept as they are written. -/
inductive Value where
  | string (text : String)
  | integer (n : Int)
  | float (text : String)
  | boolean (b : Bool)
  | datetime (text : String)
  | array (items : List Value)
  | tables (items : List Value)
  | table (form : TableForm) (entries : List (String × Value))

instance : Inhabited Value := ⟨.array []⟩

/-- The entries of a table in the order of their keys' first appearance; no key appears twice. -/
abbrev Entries := List (String × Value)

namespace Entries

def get? (es : Entries) (key : String) : Option Value := (es.find? (·.1 == key)).map (·.2)

/-- The entries with `key` set to `v`, in its old place if it has one. -/
def set (es : Entries) (key : String) (v : Value) : Entries :=
  if es.any (·.1 == key) then es.map fun e => if e.1 == key then (key, v) else e else es ++ [(key, v)]

/-- Changes the table that `path` leads to, from a table of the given form. Missing tables on the way are brought
about, and a way through an array of tables leads through its last table. With `isDotted` the path is that of a
dotted key, which must not reach into tables written elsewhere. -/
def update (isDotted : Bool) (f : TableForm → Entries → Option Entries) (form : TableForm) :
    List String → Entries → Option Entries
  | [], es => f form es
  | key :: path, es =>
    match es.get? key with
    | none => do
      let made : TableForm := { isInline := form.isInline, isImplicit := true, isDotted }
      let inner ← update isDotted f made path []
      pure (es.set key (.table made inner))
    | some (.table next inner) =>
      if next.isInline ≠ form.isInline ∨ (isDotted ∧ ¬next.isImplicit) then none
      else do
        let inner ← update isDotted f next path inner
        pure (es.set key (.table next inner))
    | some (.tables items) =>
      match items.getLast? with
      | some (.table next inner) => do
        let inner ← update isDotted f next path inner
        pure (es.set key (.tables (items.dropLast ++ [.table next inner])))
      | _ => none
    | some _ => none

/-- Adds a key and its value; no key may be given twice. -/
def add (key : String) (v : Value) (es : Entries) : Option Entries :=
  match es.get? key with
  | some _ => none
  | none => some (es ++ [(key, v)])

/-- Adds the value of a dotted key to a table of the given form. Only a table that dotted keys brought about may be
added to by one. -/
def addDotted (form : TableForm) (path : List String) (key : String) (v : Value) (es : Entries) : Option Entries :=
  update true (fun form es => if form.isDotted = path.isEmpty then none else add key v es) form path es

end Entries

end ShaderMicrocode.Toml
