import SecretStore.Config.Setting
import SecretStore.Config.Toml.Text
import SecretStore.Number.Text
import SecretStore.Text.Blank

/-!
# Settings from the environment

A variable whose name begins with `VAULTADM_`, in any letter case, sets the value under the rest of
its name. Two underscores or a point go one level down. The value of a variable is a truth value, a
number, a list, a table or a text, by its looks; a text that does not fit any form to its end stands
for itself.
-/

namespace SecretStore.Config.Environment

/-- A variable of the environment. -/
structure Variable where
  name : String
  value : String
  deriving DecidableEq, Repr

/-- What the names of settings begin with. -/
def opening : String := "VAULTADM_"

/-! ### Values -/

/-- Whether a character ends a bare value. -/
def isSeparator (c : Char) : Bool :=
  c = ',' || c = '\x7b' || c = '\x7d' || c = '[' || c = ']'

/-- Whether a character is blank between the parts of a value. -/
def isSpace (c : Char) : Bool :=
  c = ' ' || c = '\t' || c = '\n' || c = '\x0c' || c = '\r'

/-- What follows the blanks. -/
def skipSpace (cs : List Char) : List Char := cs.dropWhile isSpace

/-- The characters up to a double quote that no backslash precedes, the quote being taken. -/
def upToQuote : List Char → Option (List Char × List Char)
  | [] => none
  | '"' :: rest => some ([], rest)
  | '\\' :: c :: rest => (upToQuote rest).map fun (s, r) => ('\\' :: c :: s, r)
  | c :: rest => (upToQuote rest).map fun (s, r) => (c :: s, r)

/-- What a text with escapes stands for. -/
def unescape (fuel : Nat) (cs : List Char) : Option (List Char) :=
  match fuel with
  | 0 => none
  | fuel + 1 =>
    match cs with
    | [] => some []
    | '\\' :: rest => do
      let (c, rest) ← Toml.escape? rest
      let s ← unescape fuel rest
      pure (c :: s)
    | c :: rest => if Toml.inString c then (unescape fuel rest).map (c :: ·) else none

/-- A text between double quotes. -/
def quoted? : List Char → Option (String × List Char)
  | '"' :: rest => do
    let (inner, rest) ← upToQuote rest
    let s ← unescape (inner.length + 1) inner
    pure (String.ofList s, rest)
  | _ => none

/-- The name of an entry of a table. -/
def name? (cs : List Char) : Option (String × List Char) :=
  match cs with
  | '"' :: _ => quoted? cs
  | _ =>
    let bare := cs.takeWhile Toml.inKey
    if bare.isEmpty then none else some (String.ofList bare, cs.dropWhile Toml.inKey)

/-- The value of a text without structure. -/
def bare (cs : List Char) : Setting :=
  let cs := Text.trim cs
  match if '.' ∈ cs then Number.float? cs else none with
  | some x => .number .environment (.float x)
  | none =>
    match Number.natural? cs with
    | some n => .number .environment (.unsigned n)
    | none =>
      match Number.integer? cs with
      | some i => .number .environment (.signed i)
      | none => .text .environment (String.ofList cs)

mutual

/-- The next value. -/
def value? (fuel : Nat) (cs : List Char) : Option (Setting × List Char) :=
  match fuel with
  | 0 => none
  | fuel + 1 =>
    match skipSpace cs with
    | 't' :: 'r' :: 'u' :: 'e' :: rest => some (.flag .environment true, skipSpace rest)
    | 'f' :: 'a' :: 'l' :: 's' :: 'e' :: rest => some (.flag .environment false, skipSpace rest)
    | '\x7b' :: rest =>
      (entries? fuel rest).map fun (es, r) =>
        (.table .environment (Json.Value.sorted es), skipSpace r)
    | '[' :: rest => (items? fuel rest).map fun (vs, r) => (.list .environment vs, skipSpace r)
    | '"' :: rest =>
      (quoted? ('"' :: rest)).map fun (s, r) => (.text .environment s, skipSpace r)
    | '\'' :: rest =>
      match rest with
      | c :: '\'' :: rest => some (.text .environment c.toString, skipSpace rest)
      | _ => none
    | cs => some (bare (cs.takeWhile (!isSeparator ·)), skipSpace (cs.dropWhile (!isSeparator ·)))

/-- The items of a list and its bracket. -/
def items? (fuel : Nat) (cs : List Char) : Option (List Setting × List Char) :=
  match fuel with
  | 0 => none
  | fuel + 1 =>
    match cs with
    | ']' :: rest => some ([], rest)
    | cs =>
      match value? fuel cs with
      | none => none
      | some (v, rest) =>
        match skipSpace rest with
        | ',' :: rest => (items? fuel rest).map fun (vs, r) => (v :: vs, r)
        | ']' :: rest => some ([v], rest)
        | _ => none

/-- The entries of a table and its brace. -/
def entries? (fuel : Nat) (cs : List Char) : Option (List (String × Setting) × List Char) :=
  match fuel with
  | 0 => none
  | fuel + 1 =>
    match cs with
    | '\x7d' :: rest => some ([], rest)
    | cs =>
      match name? (skipSpace cs) with
      | none => none
      | some (name, rest) =>
        match skipSpace rest with
        | '=' :: rest =>
          match value? fuel rest with
          | none => none
          | some (v, rest) =>
            match skipSpace rest with
            | ',' :: rest => (entries? fuel rest).map fun (es, r) => ((name, v) :: es, r)
            | '\x7d' :: rest => some ([(name, v)], rest)
            | _ => none
        | _ => none

end

/-- The value of a variable. -/
def parse (s : String) : Setting :=
  let cs := Text.trim s.toList
  match value? (2 * cs.length + 2) cs with
  | some (v, []) => v
  | _ => .text .environment (String.ofList cs)

/-! ### Names -/

/-- A text with every two underscores made one point. -/
def points : List Char → List Char
  | '_' :: '_' :: rest => '.' :: points rest
  | c :: rest => c :: points rest
  | [] => []

/-- The rest of a text behind an opening, whatever the letter case. -/
def dropOpening? : List Char → List Char → Option (List Char)
  | [], cs => some cs
  | _ :: _, [] => none
  | o :: os, c :: cs => if o.toLower = c.toLower then dropOpening? os cs else none

/-- The levels that the name of a variable leads through, if it is that of a setting. -/
def levels? (name : String) : Option (List String) := do
  let rest ← dropOpening? opening.toList name.toList
  let parts := ((Text.trim (points rest)).map Char.toLower).splitOn '.'
  if parts.any List.isEmpty then none else some (parts.map String.ofList)

/-- A value under some levels. -/
def nest (v : Setting) : List String → Setting
  | [] => v
  | name :: rest => .table .environment [(name, nest v rest)]

/-- A variable laid over the settings of others. -/
def lay (acc : Setting) (x : Variable) : Setting :=
  match levels? x.name with
  | some levels => acc.merge (nest (parse x.value) levels)
  | none => acc

/-- The settings of the environment: each variable is laid over those that are listed before it. -/
def settings (vars : List Variable) : Setting := vars.foldl lay (.table .environment [])

/-- The value of a variable. -/
def get? (vars : List Variable) (name : String) : Option String :=
  (vars.find? (·.name == name)).map (·.value)

end SecretStore.Config.Environment
