/-!
# Powers

A power of a natural number or of an integer is that of the core library, whatever else a module
imports.
-/

attribute [instance (high)] instPowNat

attribute [default_instance 10001] instPowNat
