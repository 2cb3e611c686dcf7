import SecretStore.Config.Setting
import SecretStore.Config.Toml.Scalar

/-!
# TOML documents

`Toml.parse?` reads the text of a configuration file as a table of settings. While it is read, the
document is a tree of `Node`s that remember how each table came about, since that decides what may
still be added to it: a table is headed only once, a dotted key extends only tables that no header
has opened, and a value is closed.
-/

namespace SecretStore.Config.Toml

/-- How a table came about. -/
inductive Opened where
  /-- On the way to a table with a header. -/
  | onTheWay
  /-- By a dotted key. -/
  | dotted
  /-- By its header. -/
  | headed
  deriving DecidableEq

/-- A part of a document. -/
inductive Node where
  | value (v : Setting)
  | table (opened : Opened) (entries : List (String × Node))
  /-- Tables under one repeated header, the last one first. -/
  | tables (last : List (String × Node)) (earlier : List (List (String × Node)))

/-- The entries of a table. -/
abbrev Entries := List (String × Node)

/-- Puts a node in the place of one with that name, or at the end. -/
def put (name : String) (n : Node) : Entries → Entries
  | [] => [(name, n)]
  | (m, old) :: rest => if m = name then (m, n) :: rest else (m, old) :: put name n rest

/-- Opens the table of a header. -/
def openTable : List String → Entries → Option Entries
  | [], _ => none
  | [name], es =>
    match Setting.lookup name es with
    | none => some (put name (.table .headed []) es)
    | some (.table .onTheWay inner) => some (put name (.table .headed inner) es)
    | some _ => none
  | name :: path, es =>
    match Setting.lookup name es with
    | none => (openTable path []).map fun inner => put name (.table .onTheWay inner) es
    | some (.table opened inner) =>
      (openTable path inner).map fun inner => put name (.table opened inner) es
    | some (.tables last earlier) =>
      (openTable path last).map fun last => put name (.tables last earlier) es
    | some (.value _) => none

/-- Opens one more table of a repeated header. -/
def openItem : List String → Entries → Option Entries
  | [], _ => none
  | [name], es =>
    match Setting.lookup name es with
    | none => some (put name (.tables [] []) es)
    | some (.tables last earlier) => some (put name (.tables [] (last :: earlier)) es)
    | some _ => none
  | name :: path, es =>
    match Setting.lookup name es with
    | none => (openItem path []).map fun inner => put name (.table .onTheWay inner) es
    | some (.table opened inner) =>
      (openItem path inner).map fun inner => put name (.table opened inner) es
    | some (.tables last earlier) =>
      (openItem path last).map fun last => put name (.tables last earlier) es
    | some (.value _) => none

/-- Adds a value under a dotted key. -/
def addValue (v : Setting) : List String → Entries → Option Entries
  | [], _ => none
  | [name], es =>
    match Setting.lookup name es with
    | none => some (put name (.value v) es)
    | some _ => none
  | name :: path, es =>
    match Setting.lookup name es with
    | none => (addValue v path []).map fun inner => put name (.table .dotted inner) es
    | some (.table opened inner) =>
      if opened = .headed then none
      else (addValue v path inner).map fun inner => put name (.table opened inner) es
    | some (.tables last earlier) =>
      (addValue v path last).map fun last => put name (.tables last earlier) es
    | some (.value _) => none

/-- Adds a value under a dotted key below the table of a header. -/
def addBelow (v : Setting) (key : List String) : List String → Entries → Option Entries
  | [], es => addValue v key es
  | name :: path, es =>
    match Setting.lookup name es with
    | some (.table opened inner) =>
      (addBelow v key path inner).map fun inner => put name (.table opened inner) es
    | some (.tables last earlier) =>
      (addBelow v key path last).map fun last => put name (.tables last earlier) es
    | _ => none

mutual

/-- A node as a setting. -/
def Node.toSetting (source : Source) : Node → Setting
  | .value v => v
  | .table _ es => .table source (Json.Value.sorted (entriesToSettings source es))
  | .tables last earlier =>
    .list source ((tablesToSettings source earlier).reverse ++
      [.table source (Json.Value.sorted (entriesToSettings source last))])

/-- Entries as settings. -/
def entriesToSettings (source : Source) : List (String × Node) → List (String × Setting)
  | [] => []
  | (name, n) :: rest => (name, n.toSetting source) :: entriesToSettings source rest

/-- Tables as settings. -/
def tablesToSettings (source : Source) : List (List (String × Node)) → List Setting
  | [] => []
  | es :: rest =>
    .table source (Json.Value.sorted (entriesToSettings source es)) ::
      tablesToSettings source rest

end

/-! ### Values -/

/-- The table that stands for a moment. -/
def moment (source : Source) (text : String) : Setting :=
  .table source [("$__toml_private_datetime", .text source text)]

/-- A number or a moment: the first that can be read of a moment, a number with a fraction and an
integer. -/
def numeral? (source : Source) (cs : List Char) : Option (Setting × List Char) :=
  match moment? cs with
  | some (text, r) => some (moment source text, r)
  | none =>
    match float? cs with
    | some (n, r) => some (.number source n, r)
    | none => (integer? cs).map fun (n, r) => (.number source n, r)

mutual

/-- A value with arrays and inline tables nested less than `depth` deep. -/
def value? (source : Source) (fuel depth : Nat) (cs : List Char) : Option (Setting × List Char) :=
  match fuel with
  | 0 => none
  | fuel + 1 =>
    match cs with
    | [] => none
    | '"' :: _ | '\'' :: _ => (string? cs).map fun (s, r) => (.text source s, r)
    | '[' :: rest =>
      if depth ≤ 1 then none
      else (items? source fuel (depth - 1) rest).map fun (vs, r) => (.list source vs, r)
    | '\x7b' :: rest =>
      if depth ≤ 1 then none
      else
        match skipBlanks rest with
        | '\x7d' :: r => some (.table source [], r)
        | _ =>
          (members? source fuel (depth - 1) [] rest).map fun (es, r) =>
            (.table source (Json.Value.sorted (entriesToSettings source es)), r)
    | 't' :: 'r' :: 'u' :: 'e' :: r => some (.flag source true, r)
    | 'f' :: 'a' :: 'l' :: 's' :: 'e' :: r => some (.flag source false, r)
    | c :: _ =>
      if c.isDigit ∨ c = '+' ∨ c = '-' ∨ c = 'i' ∨ c = 'n' then numeral? source cs else none

/-- The items of an array and its bracket. -/
def items? (source : Source) (fuel depth : Nat) (cs : List Char) :
    Option (List Setting × List Char) :=
  match fuel with
  | 0 => none
  | fuel + 1 =>
    match skipLines cs.length cs with
    | ']' :: r => some ([], r)
    | cs =>
      match value? source fuel depth cs with
      | none => none
      | some (v, rest) =>
        match skipLines rest.length rest with
        | ']' :: r => some ([v], r)
        | ',' :: r => (items? source fuel depth r).map fun (vs, r) => (v :: vs, r)
        | _ => none

/-- The members of an inline table and its brace. -/
def members? (source : Source) (fuel depth : Nat) (es : Entries) (cs : List Char) :
    Option (Entries × List Char) :=
  match fuel with
  | 0 => none
  | fuel + 1 =>
    match key? maxDepth cs with
    | none => none
    | some (key, rest) =>
      match rest with
      | '=' :: rest =>
        match value? source fuel depth (skipBlanks rest) with
        | none => none
        | some (v, rest) =>
          match addValue v key es with
          | none => none
          | some es =>
            match skipBlanks rest with
            | '\x7d' :: r => some (es, r)
            | ',' :: r => members? source fuel depth es r
            | _ => none
      | _ => none

end

/-! ### Lines -/

/-- What the lines so far have built, and the header that holds. -/
structure Progress where
  entries : Entries
  header : List String

/-- A header between single or double brackets, or a value under a key. -/
def statement? (source : Source) (p : Progress) (cs : List Char) :
    Option (Progress × List Char) :=
  match cs with
  | '[' :: '[' :: rest => do
    let (path, rest) ← key? maxDepth rest
    match rest with
    | ']' :: ']' :: rest => do
      let es ← openItem path p.entries
      pure (⟨es, path⟩, rest)
    | _ => none
  | '[' :: rest => do
    let (path, rest) ← key? maxDepth rest
    let rest ← eat? ']' rest
    let es ← openTable path p.entries
    pure (⟨es, path⟩, rest)
  | _ => do
    let (key, rest) ← key? maxDepth cs
    let rest ← eat? '=' rest
    let rest := skipBlanks rest
    let (v, rest) ← value? source (2 * rest.length + 2) maxDepth rest
    let es ← addBelow v key p.header p.entries
    pure (⟨es, p.header⟩, rest)

/-- All lines. -/
def lines? (source : Source) (fuel : Nat) (p : Progress) (cs : List Char) : Option Entries :=
  match fuel with
  | 0 => none
  | fuel + 1 =>
    match skipLines cs.length cs with
    | [] => some p.entries
    | cs => do
      let (p, rest) ← statement? source p cs
      let rest ← endLine? rest
      lines? source fuel p rest

/-- The table that a text spells. A byte order mark at its start is dropped. -/
def parse? (source : Source) (s : String) : Option Setting :=
  let cs := match s.toList with
    | '\uFEFF' :: rest => rest
    | cs => cs
  (lines? source (cs.length + 2) ⟨[], []⟩ cs).map fun es =>
    .table source (Json.Value.sorted (entriesToSettings source es))

end SecretStore.Config.Toml
