import SecretStore.Files

/-!
# File systems held in memory

A `Snapshot` lists the files and directories of a file system by the names that lead to them from
the root. `Snapshot.files` reads from it as seen from a working directory.
-/

namespace SecretStore

/-- The files and directories of a file system. -/
structure Snapshot where
  files : List (List String × Bytes)
  /-- Directories besides those in which the files lie. -/
  directories : List (List String)

namespace Snapshot

/-- The contents of a file. -/
def contents? (s : Snapshot) (path : List String) : Option Bytes :=
  (s.files.find? fun f => f.1 == path).map (·.2)

/-- Whether there is such a directory: something listed lies in it, or it is listed itself. -/
def isDirectory (s : Snapshot) (path : List String) : Bool :=
  path.isEmpty || s.directories.any (path.isPrefixOf ·) ||
    s.files.any fun f => path.isPrefixOf f.1 && path != f.1

/-- Where names lead from a directory. Every step needs a directory to start from. -/
def walk (s : Snapshot) (here : List String) : List String → Except FileError (List String)
  | [] => .ok here
  | n :: rest =>
    if !s.isDirectory here then
      .error (if (s.contents? here).isSome then .notDirectory else .notFound)
    else walk s (if n = ".." then here.dropLast else here ++ [n]) rest

/-- The contents of a path, seen from a working directory. -/
def read (s : Snapshot) (directory : List String) (path : String) : Except FileError Bytes :=
  if path.isEmpty then .error .notFound
  else
    match s.walk (if Files.isAbsolute path then [] else directory) (Files.names path) with
    | .error e => .error e
    | .ok place =>
      match s.contents? place with
      | some bytes => if path.toList.getLast? = some '/' then .error .notDirectory else .ok bytes
      | none => .error (if s.isDirectory place then .isDirectory else .notFound)

end Snapshot

end SecretStore
