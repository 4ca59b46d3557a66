/-!
This module contains hexadecimal numerals in lower case.
-/

namespace KeyedTables

namespace Text

/--
The hexadecimal digits of `n`, filled up with leading zeros to `width` characters.
-/
def hex (width n : Nat) : String :=
  String.ofList (List.leftpad width '0' (Nat.toDigits 16 n))

/--
The value of a hexadecimal digit of either case.
-/
def hexDigit? (c : Char) : Option Nat :=
  if '0' ≤ c ∧ c ≤ '9' then some (c.toNat - '0'.toNat)
  else if 'a' ≤ c ∧ c ≤ 'f' then some (c.toNat - 'a'.toNat + 10)
  else if 'A' ≤ c ∧ c ≤ 'F' then some (c.toNat - 'A'.toNat + 10)
  else none

end Text

end KeyedTables
