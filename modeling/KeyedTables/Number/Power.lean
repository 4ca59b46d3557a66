/-!
This module settles which powers of natural numbers and integers are meant: those of the core
library, also where another instance for powers is in scope.
-/

attribute [instance (10000)] instPowNat
attribute [default_instance (10000)] instPowNat
