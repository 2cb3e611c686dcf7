import SecretStore.Log.Event

/-!
# Which events are logged

A filter is a list of directives with commas between them: a level, or a target with an optional
level behind an equals sign. Of the directives whose target begins the target of an event, the one
with the longest target decides; of two for the same target, the later one.
-/

namespace SecretStore.Log

/-- A rule that lets events pass. -/
structure Directive where
  /-- What the target of an event has to begin with. -/
  target : Option String
  /-- The fields that an event has to have. -/
  fields : List String
  /-- Whether the rule is about events inside a span, of which there are none. -/
  spans : Bool
  /-- How many levels pass. -/
  rank : Nat
  deriving DecidableEq, Repr

namespace Filter

/-- How many levels a name or number lets pass. -/
def rank? (s : List Char) : Option Nat :=
  let digits := match s with
    | '+' :: rest => rest
    | _ => s
  if !digits.isEmpty ∧ digits.all Char.isDigit then
    let n := digits.foldl (fun acc c => acc * 10 + (c.toNat - 48)) 0
    if n ≤ 5 then some n else none
  else
    let s := String.ofList (s.map Char.toLower)
    if s = "off" then some 0
    else if s = "error" ∨ s = "" then some 1
    else if s = "warn" then some 2
    else if s = "info" then some 3
    else if s = "debug" then some 4
    else if s = "trace" then some 5
    else none

/-- The number of levels behind an equals sign, all of them when nothing stands there. -/
def level? (s : List Char) : Option Nat := if s.isEmpty then some 5 else rank? s

/-- A directive about a span or about fields: a target, brackets, and an optional level. -/
def bracketed? (target inside behind : List Char) : Option Directive := do
  let rank ← match behind with
    | [] => some 5
    | '=' :: level => level? level
    | _ => none
  let target := if target.isEmpty then none else some (String.ofList target)
  match inside.dropWhile (· ≠ '\x7b') with
  | [] => pure ⟨target, [], true, rank⟩
  | _ :: rest =>
    if rest.getLast? ≠ some '\x7d' then none
    else
      let fields := rest.dropLast.splitOn ','
      if fields.any List.isEmpty then none
      else
        let names := inside.takeWhile (· ≠ '\x7b')
        pure ⟨target, fields.map String.ofList, !names.isEmpty || fields.any ('=' ∈ ·), rank⟩

/-- Whether a directive may begin with the character. -/
def mayBegin (c : Char) : Bool :=
  c = '-' || c = ':' || c = '_' || c.isAlphanum || c.toNat ≥ 0x80

/-- One directive. -/
def directive? (cs : List Char) : Option Directive :=
  match cs with
  | [] => none
  | c :: _ =>
    if c = '[' ∨ (mayBegin c ∧ '[' ∈ cs.takeWhile (· ≠ '=')) then
      let target := cs.takeWhile (· ≠ '[')
      match (cs.dropWhile (· ≠ '[')).drop 1 with
      | rest =>
        match rest.dropWhile (· ≠ ']') with
        | [] => none
        | _ :: behind => bracketed? target (rest.takeWhile (· ≠ ']')) behind
    else if !mayBegin c then none
    else
      match cs.dropWhile (· ≠ '=') with
      | [] =>
        match rank? cs with
        | some rank => some ⟨none, [], false, rank⟩
        | none => some ⟨some (String.ofList cs), [], false, 5⟩
      | _ :: level =>
        (level? level).map (⟨some (String.ofList (cs.takeWhile (· ≠ '='))), [], false, ·⟩)

end Filter

/-- The rules that decide which events are logged. -/
structure Filter where
  directives : List Directive
  deriving DecidableEq, Repr

namespace Filter

/-- The filter of some directives. Without any, errors pass. -/
def ofDirectives (ds : List Directive) : Filter :=
  ⟨if ds.isEmpty then [⟨none, [], false, 1⟩] else ds⟩

/-- The filter that a text spells, if all of it can be read. -/
def parse? (s : String) : Option Filter :=
  if s.isEmpty then some (ofDirectives [])
  else ((s.toList.splitOn ',').mapM directive?).map ofDirectives

/-- The filter of those directives of a text that can be read. -/
def parse (s : String) : Filter :=
  ofDirectives (((s.toList.splitOn ',').filter fun part => !part.isEmpty).filterMap directive?)

/-- Whether a directive is about an event. -/
def applies (r : Record) (d : Directive) : Bool :=
  !d.spans &&
    (match d.target with
      | some t => t.toList.isPrefixOf r.target.toList
      | none => true) &&
    d.fields.all fun f => f == "message" || r.fields.any (·.1 == f)

/-- How closely a directive is about events. -/
def closeness (d : Directive) : Nat × Nat :=
  (match d.target with
    | some t => t.utf8ByteSize + 1
    | none => 0, d.fields.length)

/-- Whether the second directive is at least as close as the first. -/
def closer (a b : Directive) : Bool :=
  let (m, m') := closeness a
  let (n, n') := closeness b
  m < n || (m == n && m' ≤ n')

/-- The directive that decides about an event. -/
def deciding? (f : Filter) (r : Record) : Option Directive :=
  (f.directives.filter (applies r)).foldl (fun best d =>
    match best with
    | some b => if closer b d then some d else some b
    | none => some d) none

/-- Whether an event is logged. -/
def passes (f : Filter) (r : Record) : Bool :=
  match f.deciding? r with
  | some d => r.level.rank ≤ d.rank
  | none => false

end Filter

end SecretStore.Log
