import SecretStore.Text.Utf8

/-!
# Files

What the program reads is given to it as a function from paths to contents or the reason why there
are none.
-/

namespace SecretStore

/-- Why a file cannot be read. -/
inductive FileError where
  | notFound
  | isDirectory
  | notDirectory
  | denied
  /-- The contents are no text. -/
  | notText
  /-- Another reason, in words. -/
  | other (message : String)
  deriving DecidableEq, Repr

/-- The words for a reason. -/
def FileError.message : FileError → String
  | notFound => "No such file or directory (os error 2)"
  | isDirectory => "Is a directory (os error 21)"
  | notDirectory => "Not a directory (os error 20)"
  | denied => "Permission denied (os error 13)"
  | notText => "stream did not contain valid UTF-8"
  | other message => message

/-- The contents of files by path. -/
abbrev Files := String → Except FileError Bytes

namespace Files

/-- The text of a file. -/
def readText (files : Files) (path : String) : Except FileError String :=
  match files path with
  | .error e => .error e
  | .ok bytes =>
    match bytes.toString? with
    | some s => .ok s
    | none => .error .notText

/-- Whether a path leads to a file, readable or not. -/
def isFile (files : Files) (path : String) : Bool :=
  match files path with
  | .ok _ | .error .denied => true
  | .error _ => false

/-- The files of a list of paths. There is nothing at other paths. -/
def ofList (contents : List (String × Except FileError Bytes)) : Files := fun path =>
  match contents.find? fun c => c.1 == path with
  | some (_, c) => c
  | none => .error .notFound

/-! ### Paths -/

/-- The names that a path leads through. A point stands for the directory itself. -/
def names (path : String) : List String :=
  ((path.toList.splitOn '/').filter fun part => !part.isEmpty && part != ['.']).map String.ofList

/-- Whether a path starts at the root. -/
def isAbsolute (path : String) : Bool := path.toList.head? == some '/'

/-- The absolute path of names. -/
def absolute (directory : List String) : String :=
  String.join (directory.map ("/" ++ ·))

/-- The absolute paths at which a file of some path may be, seen from a directory that is given
from the root on: a relative path is looked for there and in the directories above it. -/
def candidates (directory : List String) (path : String) : List String :=
  if isAbsolute path then [path]
  else
    (List.range (directory.length + 1)).map fun up =>
      absolute (directory.take (directory.length - up)) ++ "/" ++ path

/-- The nearest file of that path. -/
def nearest? (files : Files) (directory : List String) (path : String) : Option String :=
  (candidates directory path).find? files.isFile

/-- The names that lead from one directory to a path, going up first. -/
def relative : List String → List String → List String
  | d :: directory, n :: path =>
    if d = n then relative directory path
    else List.replicate (directory.length + 1) ".." ++ n :: path
  | directory, path => List.replicate directory.length ".." ++ path

/-- A path as messages show it: relative to the working directory if that is shorter. -/
def shown (directory : List String) (path : String) : String :=
  let ns := names path
  let rs := relative directory ns
  if rs.length < ns.length + 1 then String.intercalate "/" rs else path

end Files

end SecretStore
