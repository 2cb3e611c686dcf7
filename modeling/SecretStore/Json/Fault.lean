import SecretStore.Mismatch
import SecretStore.Text.Utf8

/-!
# Faults of a JSON text

A reader takes a value from the front of the remaining bytes. When it fails, its `Fault` carries
the reason and the bytes that remained at the point of failure, which fix the position once the
whole text is known: `Fault.locate` counts the lines and the bytes of the last line before that
point.
-/

namespace SecretStore.Json

/-- Why a text cannot be read. -/
inductive Reason where
  | valueEnded
  | listEnded
  | objectEnded
  | stringEnded
  | expectedColon
  | expectedListEnd
  | expectedObjectEnd
  | expectedLiteral
  | expectedValue
  | expectedKey
  | trailingComma
  | trailingCharacters
  | invalidEscape
  | invalidNumber
  | numberOutOfRange
  | invalidCodePoint
  | controlCharacter
  | loneSurrogate
  | escapeEnded
  | tooDeep
  | mismatch (m : Mismatch)
  deriving DecidableEq, Repr

/-- The wording of a reason. -/
def Reason.message : Reason → String
  | valueEnded => "EOF while parsing a value"
  | listEnded => "EOF while parsing a list"
  | objectEnded => "EOF while parsing an object"
  | stringEnded => "EOF while parsing a string"
  | expectedColon => "expected `:`"
  | expectedListEnd => "expected `,` or `]`"
  | expectedObjectEnd => "expected `,` or `\x7d`"
  | expectedLiteral => "expected ident"
  | expectedValue => "expected value"
  | expectedKey => "key must be a string"
  | trailingComma => "trailing comma"
  | trailingCharacters => "trailing characters"
  | invalidEscape => "invalid escape"
  | invalidNumber => "invalid number"
  | numberOutOfRange => "number out of range"
  | invalidCodePoint => "invalid unicode code point"
  | controlCharacter => "control character (\\u0000-\\u001F) found while parsing a string"
  | loneSurrogate => "lone leading surrogate in hex escape"
  | escapeEnded => "unexpected end of hex escape"
  | tooDeep => "recursion limit exceeded"
  | mismatch m => m.inDocument

/-- A failure of a reader, with the bytes that remained. -/
structure Fault where
  reason : Reason
  rest : Bytes
  deriving DecidableEq, Repr

/-- A fault behind the next byte, which shows what is wrong. -/
def Fault.behind (reason : Reason) (rest : Bytes) : Fault := ⟨reason, rest.tail⟩

/-- A failure with its place in the text. -/
structure Error where
  reason : Reason
  line : Nat
  column : Nat
  deriving DecidableEq, Repr

/-- The wording of a failure. -/
def Error.message (e : Error) : String :=
  s!"{e.reason.message} at line {e.line} column {e.column}"

/-- The line and column behind some bytes, lines counting from one and columns from zero. -/
def position (read : Bytes) : Nat × Nat :=
  read.foldl (fun p b => if b = 10 then (p.1 + 1, 0) else (p.1, p.2 + 1)) (1, 0)

/-- The place of a fault in the text it occurred in. -/
def Fault.locate (whole : Bytes) (f : Fault) : Error :=
  let (line, column) := position (whole.take (whole.length - f.rest.length))
  ⟨f.reason, line, column⟩

/-- Takes a value from the front of the remaining bytes. -/
abbrev Reader (α : Type) := Bytes → Except Fault (α × Bytes)

/-- Whether a byte is blank between the parts of a document. -/
def isBlank (b : UInt8) : Bool := b = 0x20 || b = 0x0A || b = 0x09 || b = 0x0D

/-- The bytes from the first one that is not blank. -/
def skipBlanks (bs : Bytes) : Bytes := bs.dropWhile isBlank

/-- Whether a byte is a decimal digit. -/
def isDigit (b : UInt8) : Bool := 0x30 ≤ b && b ≤ 0x39

/-- The code of an ASCII character. -/
def byte (c : Char) : UInt8 := c.toNat.toUInt8

end SecretStore.Json
