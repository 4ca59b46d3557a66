import KeyedTables.Text.Hex

/-!
This module contains JSON values, how they are written without any blanks, and a strict reader.

A string may escape half of a surrogate pair, which is correct JSON but spells no text. Such a
string is kept as `none`, so that it can be passed over where nobody asks for its text.
-/

namespace KeyedTables

/--
A JSON value. A number is kept as it was spelled.
-/
inductive Json where
  | null
  | bool (value : Bool)
  | number (literal : String)
  | string (text : Option String)
  | array (elements : List Json)
  | object (members : List (Option String × Json))

namespace Json

/--
The members of an object that is written here all have names that are text.
-/
def ofMembers (members : List (String × Json)) : Json :=
  .object (members.map fun (name, value) => (some name, value))

/--
A character inside a written string. Control characters are escaped, by a letter where there is one,
and all others that need no escape stand for themselves.
-/
def escape (c : Char) : List Char :=
  if c = '"' then ['\\', '"']
  else if c = '\\' then ['\\', '\\']
  else if c.toNat = 8 then ['\\', 'b']
  else if c.toNat = 9 then ['\\', 't']
  else if c.toNat = 10 then ['\\', 'n']
  else if c.toNat = 12 then ['\\', 'f']
  else if c.toNat = 13 then ['\\', 'r']
  else if c.toNat < 32 then '\\' :: 'u' :: (Text.hex 4 c.toNat).toList
  else [c]

/--
A string between quotes. What spells no text is written as half of a surrogate pair.
-/
def writeString : Option String → List Char
  | some s => '"' :: s.toList.flatMap escape ++ ['"']
  | none => ['"', '\\', 'u', 'd', '8', '0', '0', '"']

mutual

def write : Json → List Char
  | .null => ['n', 'u', 'l', 'l']
  | .bool true => ['t', 'r', 'u', 'e']
  | .bool false => ['f', 'a', 'l', 's', 'e']
  | .number literal => literal.toList
  | .string text => writeString text
  | .array elements => '[' :: writeElements elements ++ [']']
  | .object members => '\x7b' :: writeMembers members ++ ['\x7d']

/--
The elements of an array with commas between them.
-/
def writeElements : List Json → List Char
  | [] => []
  | [e] => write e
  | e :: es => write e ++ ',' :: writeElements es

/--
The members of an object with commas between them.
-/
def writeMembers : List (Option String × Json) → List Char
  | [] => []
  | [(name, value)] => writeString name ++ ':' :: write value
  | (name, value) :: ms => writeString name ++ ':' :: write value ++ ',' :: writeMembers ms

end

def toText (j : Json) : String :=
  String.ofList j.write

/--
The characters that may stand between the tokens.
-/
def isGap (c : Char) : Bool :=
  c = ' ' || c = '\n' || c = '\t' || c = '\r'

/--
What follows the gap.
-/
def skipGap (cs : List Char) : List Char :=
  cs.dropWhile isGap

/--
The code unit of four hexadecimal digits.
-/
def codeUnit? (a b c d : Char) : Option Nat := do
  let a ← Text.hexDigit? a
  let b ← Text.hexDigit? b
  let c ← Text.hexDigit? c
  let d ← Text.hexDigit? d
  some (((a * 16 + b) * 16 + c) * 16 + d)

/--
The character that is escaped by a letter or by itself.
-/
def escaped? (c : Char) : Option Nat :=
  if c = '"' || c = '\\' || c = '/' then some c.toNat
  else if c = 'b' then some 8
  else if c = 't' then some 9
  else if c = 'n' then some 10
  else if c = 'f' then some 12
  else if c = 'r' then some 13
  else none

/--
Read the rest of a string after its opening quote. The characters come as numbers, those that are
escaped by their code unit as one number per unit.
-/
def readUnits : List Char → Option (List Nat × List Char)
  | [] => none
  | '"' :: cs => some ([], cs)
  | '\\' :: 'u' :: a :: b :: c :: d :: cs => do
    let unit ← codeUnit? a b c d
    let (units, rest) ← readUnits cs
    some (unit :: units, rest)
  | '\\' :: e :: cs => do
    let unit ← escaped? e
    let (units, rest) ← readUnits cs
    some (unit :: units, rest)
  | c :: cs =>
    if c.toNat < 32 then
      none
    else do
      let (units, rest) ← readUnits cs
      some (c.toNat :: units, rest)

/--
The first half of a surrogate pair.
-/
def isHighSurrogate (n : Nat) : Bool :=
  decide (0xD800 ≤ n) && decide (n ≤ 0xDBFF)

/--
The second half of a surrogate pair.
-/
def isLowSurrogate (n : Nat) : Bool :=
  decide (0xDC00 ≤ n) && decide (n ≤ 0xDFFF)

/--
The text of the numbers of a string, if each half of a surrogate pair has its other half.
-/
def spell : List Nat → Option (List Char)
  | [] => some []
  | [n] => if isHighSurrogate n || isLowSurrogate n then none else some [Char.ofNat n]
  | n :: m :: rest =>
    if isLowSurrogate n then
      none
    else if isHighSurrogate n then
      if isLowSurrogate m then
        (spell rest).map
          (Char.ofNat (0x10000 + (n - 0xD800) * 0x400 + (m - 0xDC00)) :: ·)
      else
        none
    else
      (spell (m :: rest)).map (Char.ofNat n :: ·)

def readString (cs : List Char) : Option (Option String × List Char) := do
  let (units, rest) ← readUnits cs
  some ((spell units).map String.ofList, rest)

/--
Split off the leading digits, of which there must be one.
-/
def readDigits (cs : List Char) : Option (List Char × List Char) :=
  match cs.takeWhile Char.isDigit with
  | [] => none
  | ds => some (ds, cs.dropWhile Char.isDigit)

/--
Read the whole part of a number. Nothing follows a leading zero.
-/
def readWhole : List Char → Option (List Char × List Char)
  | '0' :: cs => some (['0'], cs)
  | cs => readDigits cs

/--
Read the places of a number, if a point follows.
-/
def readPlaces : List Char → Option (List Char × List Char)
  | '.' :: cs => do
    let (ds, rest) ← readDigits cs
    some ('.' :: ds, rest)
  | cs => some ([], cs)

def readSignedDigits : List Char → Option (List Char × List Char)
  | '+' :: cs => do
    let (ds, rest) ← readDigits cs
    some ('+' :: ds, rest)
  | '-' :: cs => do
    let (ds, rest) ← readDigits cs
    some ('-' :: ds, rest)
  | cs => readDigits cs

/--
Read the exponent of a number, if one follows.
-/
def readExponent : List Char → Option (List Char × List Char)
  | 'e' :: cs => do
    let (ds, rest) ← readSignedDigits cs
    some ('e' :: ds, rest)
  | 'E' :: cs => do
    let (ds, rest) ← readSignedDigits cs
    some ('E' :: ds, rest)
  | cs => some ([], cs)

def readMagnitude (cs : List Char) : Option (List Char × List Char) := do
  let (whole, cs) ← readWhole cs
  let (places, cs) ← readPlaces cs
  let (exponent, cs) ← readExponent cs
  some (whole ++ places ++ exponent, cs)

def readNumber : List Char → Option (Json × List Char)
  | '-' :: cs => do
    let (literal, rest) ← readMagnitude cs
    some (.number (String.ofList ('-' :: literal)), rest)
  | cs => do
    let (literal, rest) ← readMagnitude cs
    some (.number (String.ofList literal), rest)

mutual

/--
Read a value that starts right here. The values inside it have one unit of fuel less each.
-/
def readValue : Nat → List Char → Option (Json × List Char)
  | 0, _ => none
  | fuel + 1, cs =>
    match cs with
    | 'n' :: 'u' :: 'l' :: 'l' :: rest => some (.null, rest)
    | 't' :: 'r' :: 'u' :: 'e' :: rest => some (.bool true, rest)
    | 'f' :: 'a' :: 'l' :: 's' :: 'e' :: rest => some (.bool false, rest)
    | '"' :: rest => do
      let (text, rest) ← readString rest
      some (.string text, rest)
    | '[' :: rest =>
      match skipGap rest with
      | ']' :: rest => some (.array [], rest)
      | rest => do
        let (elements, rest) ← readElements fuel rest
        some (.array elements, rest)
    | '\x7b' :: rest =>
      match skipGap rest with
      | '\x7d' :: rest => some (.object [], rest)
      | rest => do
        let (members, rest) ← readMembers fuel rest
        some (.object members, rest)
    | cs => readNumber cs

/--
Read the elements of an array up to its closing bracket.
-/
def readElements : Nat → List Char → Option (List Json × List Char)
  | 0, _ => none
  | fuel + 1, cs => do
    let (element, rest) ← readValue fuel (skipGap cs)
    match skipGap rest with
    | ']' :: rest => some ([element], rest)
    | ',' :: rest =>
      let (elements, rest) ← readElements fuel rest
      some (element :: elements, rest)
    | _ => none

/--
Read the members of an object up to its closing brace.
-/
def readMembers : Nat → List Char → Option (List (Option String × Json) × List Char)
  | 0, _ => none
  | fuel + 1, cs =>
    match skipGap cs with
    | '"' :: rest => do
      let (name, rest) ← readString rest
      match skipGap rest with
      | ':' :: rest =>
        let (value, rest) ← readValue fuel (skipGap rest)
        match skipGap rest with
        | '\x7d' :: rest => some ([(name, value)], rest)
        | ',' :: rest =>
          let (members, rest) ← readMembers fuel rest
          some ((name, value) :: members, rest)
        | _ => none
      | _ => none
    | _ => none

end

/--
Read a text that holds one value and nothing else but gaps. Each call inside takes a character, so
the length of the text is fuel enough.
-/
def parse? (s : String) : Option Json :=
  let cs := s.toList
  match readValue (cs.length + 1) (skipGap cs) with
  | some (value, rest) => if (skipGap rest).isEmpty then some value else none
  | none => none

end Json

end KeyedTables
