import SecretStore.Config.Environment

/-!
# Variables from a file

A `.env` file adds variables to the environment, one to a line: a name, an equals sign and a value.
A value may hold quoted parts, which may go on over several lines, escapes, and references to other
variables. What the environment already defines stays as it is, and so does the first definition of
a name in the file. The first line that cannot be read ends the file.
-/

namespace SecretStore.Dotenv

open Config.Environment (Variable get?)

/-! ### Lines -/

/-- Where the reader of a line stands. -/
inductive State where
  | plain
  | escaped
  | blank
  | single
  | singleEscaped
  | double
  | doubleEscaped
  deriving DecidableEq

/-- The state behind the characters of a physical line, and the part in front of a comment if one
begins. -/
def scan (s : State) : List Char → State × Option (List Char)
  | [] => (s, none)
  | c :: rest =>
    let go := fun s => (fun (s, cut) => (s, cut.map (c :: ·))) (scan s rest)
    match s with
    | .blank =>
      if c = '#' then (.blank, some [])
      else if c = '\\' then go .escaped
      else if c = '"' then go .double
      else if c = '\'' then go .single
      else go .plain
    | .escaped => go .plain
    | .plain =>
      if Text.isBlank c ∧ c ≠ '\n' ∧ c ≠ '\r' then go .blank
      else if c = '\\' then go .escaped
      else if c = '"' then go .double
      else if c = '\'' then go .single
      else go .plain
    | .double => go (if c = '\\' then .doubleEscaped else if c = '"' then .plain else .double)
    | .doubleEscaped => go .double
    | .single => go (if c = '\\' then .singleEscaped else if c = '\'' then .plain else .single)
    | .singleEscaped => go .single

/-- The physical lines of a text, each with its line break. -/
def physical (bs : Bytes) : List Bytes :=
  match bs with
  | [] => []
  | b :: rest =>
    if b = 10 then [b] :: physical rest
    else
      match physical rest with
      | [] => [[b]]
      | line :: lines => (b :: line) :: lines

/-- A line without its line break. -/
def dropBreak (cs : List Char) : List Char :=
  match cs.reverse with
  | '\n' :: '\r' :: rest => rest.reverse
  | '\n' :: rest => rest.reverse
  | _ => cs

/-- The logical lines: physical lines joined while a quote is open. `none` stands for a line that
cannot be read. -/
def logical (before : List Char) (s : State) : List Bytes → List (Option (List Char))
  | [] => if s = .plain then [] else [none]
  | line :: lines =>
    match Utf8.decode? line with
    | none => [none]
    | some cs =>
      let whole := before ++ cs
      if (Text.trimLeft whole).head? = some '#' then some [] :: logical [] .plain lines
      else
        match scan s cs with
        | (_, some kept) => some (before ++ kept) :: logical [] .plain lines
        | (.plain, none) => some (dropBreak whole) :: logical [] .plain lines
        | (s, none) => logical whole s lines

/-! ### Definitions -/

/-- The name in front of a definition. -/
def key? (cs : List Char) : Option (String × List Char) :=
  let isPart := fun c : Char => c.isAlphanum || c = '_' || c = '.'
  match cs with
  | c :: _ =>
    if c.isAlpha ∨ c = '_' then some (String.ofList (cs.takeWhile isPart), cs.dropWhile isPart)
    else none
  | [] => none

/-- The name of a definition and what follows its equals sign. The word `export` may stand in
front. -/
def definition? (cs : List Char) : Option (String × List Char) := do
  let (key, rest) ← key? cs
  match Text.trimLeft rest with
  | '=' :: rest => pure (key, rest)
  | rest =>
    if key = "export" then
      let (key, rest) ← key? rest
      match Text.trimLeft rest with
      | '=' :: rest => pure (key, rest)
      | _ => none
    else none

/-- How a value is being read. -/
inductive Mode where
  | plain
  | single
  | double
  /-- Behind a value; only blanks and a comment may follow. -/
  | ending
  /-- Behind a backslash inside or outside of double quotes. -/
  | escape (inDouble : Bool)
  /-- In the name behind a dollar sign. -/
  | name (inDouble : Bool) (read : List Char)
  /-- In the name between braces behind a dollar sign. -/
  | braced (inDouble : Bool) (read : List Char)

/-- The mode inside or outside of double quotes. -/
def quoting (inDouble : Bool) : Mode := if inDouble then .double else .plain

/-- Whether a character may stand in the name of a reference. -/
def inName (c : Char) : Bool := c.isAlphanum || c.toNat ≥ 0x80

/-- The character that a backslash and one more character stand for. -/
def escaped? (c : Char) : Option Char :=
  if c = '\\' ∨ c = '\'' ∨ c = '"' ∨ c = '$' ∨ c = ' ' then some c
  else if c = 'n' then some '\n'
  else none

/-- The text of a value, with references looked up by name. -/
def value? (look : String → String) : Mode → List Char → Option (List Char)
  | .plain, [] | .ending, [] | .escape false, [] => some []
  | .name false read, [] => some (look (String.ofList read)).toList
  | _, [] => none
  | .ending, c :: rest =>
    if c = ' ' ∨ c = '\t' then value? look .ending rest
    else if c = '#' then some []
    else none
  | .escape inDouble, c :: rest => do
    let d ← escaped? c
    let s ← value? look (quoting inDouble) rest
    pure (d :: s)
  | .single, c :: rest =>
    if c = '\'' then value? look .plain rest else (value? look .single rest).map (c :: ·)
  | .name inDouble read, c :: rest =>
    if inName c then value? look (.name inDouble (read ++ [c])) rest
    else if c = '\x7b' ∧ read.isEmpty then value? look (.braced inDouble []) rest
    else
      let found := (look (String.ofList read)).toList
      if c = '$' then (value? look (.name inDouble []) rest).map (found ++ ·)
      else (value? look (quoting inDouble) rest).map (found ++ c :: ·)
  | .braced inDouble read, c :: rest =>
    if c = '\x7d' then
      (value? look (quoting inDouble) rest).map ((look (String.ofList read)).toList ++ ·)
    else value? look (.braced inDouble (read ++ [c])) rest
  | .double, c :: rest =>
    if c = '$' then value? look (.name true []) rest
    else if c = '"' then value? look .plain rest
    else if c = '\\' then value? look (.escape true) rest
    else (value? look .double rest).map (c :: ·)
  | .plain, c :: rest =>
    if c = '$' then value? look (.name false []) rest
    else if c = '\'' then value? look .single rest
    else if c = '"' then value? look .double rest
    else if c = '\\' then value? look (.escape false) rest
    else if c = ' ' ∨ c = '\t' then value? look .ending rest
    else (value? look .plain rest).map (c :: ·)

/-- What the lines so far define: the environment, and the file's own values. -/
structure Definitions where
  environment : List Variable
  own : List Variable

/-- The value of a name in the environment, or else in the file. -/
def Definitions.look (d : Definitions) (name : String) : String :=
  match get? d.environment name with
  | some v => v
  | none => (get? d.own name).getD ""

/-- Adds a definition. The environment keeps what it has. -/
def Definitions.add (d : Definitions) (v : Variable) : Definitions where
  environment := if (get? d.environment v.name).isSome then d.environment else d.environment ++ [v]
  own := v :: d.own

/-- The definition on a logical line: `none` when the line cannot be read, `some none` when it
defines nothing. -/
def line? (d : Definitions) (cs : List Char) : Option (Option Variable) :=
  match Text.trim cs with
  | [] | '#' :: _ => some none
  | cs => do
    let (name, rest) ← definition? cs
    match Text.trimLeft rest with
    | [] | '#' :: _ => pure (some ⟨name, ""⟩)
    | rest =>
      let v ← value? d.look .plain rest
      pure (some ⟨name, String.ofList v⟩)

/-- The definitions of the lines up to the first that cannot be read. -/
def define (d : Definitions) : List (Option (List Char)) → Definitions
  | [] => d
  | none :: _ => d
  | some cs :: rest =>
    match line? d cs with
    | none => d
    | some none => define d rest
    | some (some v) => define (d.add v) rest

/-- A file without the byte order mark at its start. -/
def dropMark : Bytes → Bytes
  | 0xEF :: 0xBB :: 0xBF :: rest => rest
  | bs => bs

/-- The environment with the variables of a file. -/
def extend (environment : List Variable) (file : Bytes) : List Variable :=
  (define ⟨environment, []⟩ (logical [] .plain (physical (dropMark file)))).environment

end SecretStore.Dotenv
