import SecretStore.Text.Hidden

/-!
# Quoted text

`Text.quote` writes a text between double quotes. A quote, a backslash and the common control
characters get a backslash and a letter, every other character that does not show its code in
braces, and all else stands for itself.
-/

namespace SecretStore.Text

/-- The digits of a number in base sixteen, in lower case. -/
def hex (n : Nat) : List Char := Nat.toDigits 16 n

/-- One character inside quotes. -/
def quoteChar (c : Char) : List Char :=
  if c = '"' then ['\\', '"']
  else if c = '\\' then ['\\', '\\']
  else if c = '\n' then ['\\', 'n']
  else if c = '\r' then ['\\', 'r']
  else if c = '\t' then ['\\', 't']
  else if c = '\x00' then ['\\', '0']
  else if hidden c then ['\\', 'u', '\x7b'] ++ hex c.toNat ++ ['\x7d']
  else [c]

/-- The text between double quotes. -/
def quote (s : String) : String :=
  String.ofList (['"'] ++ s.toList.flatMap quoteChar ++ ['"'])

end SecretStore.Text
