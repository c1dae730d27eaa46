/-!
# Powers

A power of naturals or of integers is the one of the core library in every module. Elaboration would
otherwise prefer the instance of monoids wherever Mathlib is in scope, and one text would mean two
terms.
-/

attribute [instance (2000), default_instance 20000] instPowNat
