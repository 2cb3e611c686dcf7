/-!
# Slashes around a text

Mount points, base addresses and request paths are taken without the slashes at one of their ends
or at both.
-/

namespace SecretStore.Slashes

/-- A text without the slashes at its start. -/
def trimStart (cs : List Char) : List Char := cs.dropWhile (· == '/')

/-- A text without the slashes at its end. -/
def trimEnd (cs : List Char) : List Char := (cs.reverse.dropWhile (· == '/')).reverse

end SecretStore.Slashes
