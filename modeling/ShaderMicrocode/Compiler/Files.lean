/-!
# Files

File names and where they lead, what can go wrong with a file, the access that the compiler needs, and files kept in
memory.
-/
namespace ShaderMicrocode.Compiler

inductive FileError where
  | notFound
  | alreadyExists
  | notADirectory
  | isADirectory
  | nameTooLong
  | permissionDenied
  | notText
  | other (message : String)
deriving DecidableEq, Inhabited

def FileError.message : FileError → String
  | notFound => "No such file or directory (os error 2)"
  | alreadyExists => "File exists (os error 17)"
  | notADirectory => "Not a directory (os error 20)"
  | isADirectory => "Is a directory (os error 21)"
  | nameTooLong => "File name too long (os error 36)"
  | permissionDenied => "Permission denied (os error 13)"
  | notText => "stream did not contain valid UTF-8"
  | other m => m

/-- The names along a path; empty names and single dots lead nowhere. -/
def components (path : String) : List String :=
  ((path.splitToList (· = '/')).filter fun name => name ≠ "" ∧ name ≠ ".")

/-- What follows the last dot of a file's name; a dot in front of all else does not count. -/
def extension? (path : String) : Option String :=
  match (components path).getLast? with
  | none => none
  | some name =>
    let cs := name.toList
    let last := (cs.reverse.takeWhile (· ≠ '.')).reverse
    if name = ".." ∨ cs.length ≤ last.length + 1 then none else some (String.ofList last)

/-- The directory part of a path, with its last separator. -/
def directoryOf (path : String) : String := String.ofList ((path.toList.reverse.dropWhile (· ≠ '/')).reverse)

/-- Where the user's own settings are kept, below the directory for settings or else below the home directory. A
relative directory for settings is passed over. -/
def userConfigPath (configHome? home? : Option String) : String :=
  match configHome?.filter (·.startsWith "/"), home? with
  | some directory, _ => directory ++ "/xenos/config.toml"
  | none, some home => home ++ "/.config/xenos/config.toml"
  | none, none => "./xenos/config.toml"

/-- How files are reached. -/
structure FileAccess (m : Type → Type) where
  contains : String → m Bool
  read : String → m (Except FileError ByteArray)
  write : String → ByteArray → m (Except FileError Unit)
  /-- Makes the directories above a path. -/
  makeParents : String → m (Except FileError Unit)

/-- A path taken apart. -/
structure Route where
  isAbsolute : Bool
  /-- The names of the directories that it leads through. -/
  through : List String
  /-- The name that it ends with. A path that ends in dots, or nowhere but at the root, leads to a directory. -/
  name? : Option String
  /-- Whether a separator stands behind the name. -/
  isOpen : Bool
deriving DecidableEq, Inhabited

def Route.ofPath (path : String) : Route :=
  let names := (path.splitToList (· = '/')).filter (· ≠ "")
  let isAbsolute := path.startsWith "/"
  match names.getLast? with
  | some name =>
    if name = "." ∨ name = ".." then ⟨isAbsolute, components path, none, false⟩
    else ⟨isAbsolute, (components path).dropLast, some name, path.endsWith "/"⟩
  | none => ⟨isAbsolute, [], none, false⟩

/-- How many bytes a name may have. -/
def maxNameSize : Nat := 255

/-- How many bytes a path may have. -/
def maxPathSize : Nat := 4095

/-- What stands at a place. -/
inductive Node where
  | directory
  | file (content : ByteArray)
  /-- Holds nothing, whatever is written to it. -/
  | sink

/-- The names on the way from the root. -/
abbrev Place := List String

/-- Files in memory. The root is a directory and the parent of itself. -/
structure FileTree where
  /-- The directory where relative paths start. -/
  current : Place
  nodes : List (Place × Node)

namespace FileTree

def node? (t : FileTree) (place : Place) : Option Node :=
  if place = [] then some .directory else (t.nodes.find? (·.1 = place)).map (·.2)

def put (t : FileTree) (place : Place) (node : Node) : FileTree :=
  { t with nodes := (place, node) :: t.nodes.filter (·.1 ≠ place) }

/-- What a directory holds under a name. -/
def child (t : FileTree) (directory : Place) (name : String) : Except FileError Node :=
  if maxNameSize < name.utf8ByteSize then .error .nameTooLong
  else
    match t.node? (directory ++ [name]) with
    | some node => .ok node
    | none => .error .notFound

/-- The directory that names lead to from a directory. -/
def enter (t : FileTree) (directory : Place) : List String → Except FileError Place
  | [] => .ok directory
  | name :: rest =>
    if name = ".." then t.enter directory.dropLast rest
    else
      match t.child directory name with
      | .error e => .error e
      | .ok .directory => t.enter (directory ++ [name]) rest
      | .ok _ => .error .notADirectory

/-- The tree in which the directories exist that names lead through, and where they lead. A file in the way is no
directory to go on from; where the last directory should be, it takes the name. -/
def enterNew (t : FileTree) (directory : Place) : List String → Except FileError (FileTree × Place)
  | [] => .ok (t, directory)
  | name :: rest =>
    if name = ".." then t.enterNew directory.dropLast rest
    else
      match t.child directory name with
      | .error .notFound => (t.put (directory ++ [name]) .directory).enterNew (directory ++ [name]) rest
      | .error e => .error e
      | .ok .directory => t.enterNew (directory ++ [name]) rest
      | .ok _ => .error (if rest.isEmpty then .alreadyExists else .notADirectory)

/-- The directory where a route starts. -/
def start (t : FileTree) (route : Route) : Place := if route.isAbsolute then [] else t.current

/-- The directory that a route leads through last. -/
def holder (t : FileTree) (path : String) (route : Route) : Except FileError Place :=
  if path.isEmpty then .error .notFound
  else if maxPathSize < path.utf8ByteSize then .error .nameTooLong
  else t.enter (t.start route) route.through

def read (t : FileTree) (path : String) : Except FileError ByteArray := do
  let route := Route.ofPath path
  let directory ← t.holder path route
  match route.name? with
  | none => throw .isADirectory
  | some name =>
    match ← t.child directory name with
    | .directory => throw .isADirectory
    | .file content => if route.isOpen then throw .notADirectory else pure content
    | .sink => if route.isOpen then throw .notADirectory else pure .empty

/-- A file may be made anew, but its directory has to exist. -/
def write (t : FileTree) (path : String) (content : ByteArray) : Except FileError FileTree := do
  let route := Route.ofPath path
  let directory ← t.holder path route
  match route.name? with
  | none => throw .isADirectory
  | some name =>
    if route.isOpen then throw .isADirectory
    else
      match t.child directory name with
      | .error .notFound | .ok (.file _) => pure (t.put (directory ++ [name]) (.file content))
      | .error e => throw e
      | .ok .directory => throw .isADirectory
      | .ok .sink => pure t

def makeParents (t : FileTree) (path : String) : Except FileError FileTree :=
  let route := Route.ofPath path
  (t.enterNew (t.start route) route.through).map (·.1)

/-- Access to the files of a tree. -/
def access {n : Type → Type} [Monad n] : FileAccess (StateT FileTree n) where
  contains path := do
    match (← get).read path with
    | .ok _ | .error .isADirectory => pure true
    | .error _ => pure false
  read path := do pure ((← get).read path)
  write path content := do
    match (← get).write path content with
    | .ok t => set t; pure (.ok ())
    | .error e => pure (.error e)
  makeParents path := do
    match (← get).makeParents path with
    | .ok t => set t; pure (.ok ())
    | .error e => pure (.error e)

end FileTree

end ShaderMicrocode.Compiler
