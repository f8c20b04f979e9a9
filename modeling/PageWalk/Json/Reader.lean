/-
PageWalk/Json/Reader.lean

Reading json.  A text is one value with nothing but spaces around it.
Each reader takes the front of the bytes and returns what it leaves; the
nesting of values is bounded by the number of bytes, which is what `fuel`
counts.
-/
import PageWalk.Json.Value

namespace PageWalk.Json

/-- The bytes that may stand between the signs of a text. -/
def isSpace (b : UInt8) : Bool := b == 0x20 || b == 0x09 || b == 0x0A || b == 0x0D

/-- The bytes after the spaces at the front. -/
def skipSpace (bs : Bytes) : Bytes := bs.dropWhile isSpace

/-- Whether a byte is a digit to base 16. -/
def isHexDigit (b : UInt8) : Bool := (Text.hexDigitValue? (Char.ofNat b.toNat)).isSome

/-- The spelling of a string whose opening quote has been read. -/
def takeString : Bytes → Option (Bytes × Bytes)
  | [] => none
  | 0x22 :: bs => some ([], bs)
  | 0x5C :: 0x75 :: a :: b :: c :: d :: bs =>
    if [a, b, c, d].all isHexDigit then
      (takeString bs).map fun (s, rest) => (0x5C :: 0x75 :: a :: b :: c :: d :: s, rest)
    else none
  | 0x5C :: b :: bs =>
    if (escaped? b).isSome then
      (takeString bs).map fun (s, rest) => (0x5C :: b :: s, rest)
    else none
  | b :: bs =>
    if b < 0x20 || b == 0x5C then none
    else (takeString bs).map fun (s, rest) => (b :: s, rest)

/-- The character of an ASCII byte. -/
def charOf (b : UInt8) : Char := Char.ofNat b.toNat

/-- Whether a byte is a digit. -/
def isDigit (b : UInt8) : Bool := (charOf b).isDigit

/-- The digits at the front; at least one. -/
def takeDigits (bs : Bytes) : Option (Bytes × Bytes) :=
  let digits := bs.takeWhile isDigit
  if digits.isEmpty then none else some (digits, bs.dropWhile isDigit)

/-- The whole part of a number: a zero, or digits that start with none. -/
def takeWhole : Bytes → Option (Bytes × Bytes)
  | 0x30 :: bs => some ([0x30], bs)
  | bs => takeDigits bs

/-- The fraction of a number, if there is one. -/
def takeFraction : Bytes → Option (Bytes × Bytes)
  | 0x2E :: bs => (takeDigits bs).map fun (ds, rest) => (0x2E :: ds, rest)
  | bs => some ([], bs)

/-- The exponent of a number, if there is one. -/
def takeExponent : Bytes → Option (Bytes × Bytes)
  | b :: bs =>
    if b == 0x65 || b == 0x45 then
      match bs with
      | s :: bs' =>
        if s == 0x2B || s == 0x2D then
          (takeDigits bs').map fun (ds, rest) => (b :: s :: ds, rest)
        else (takeDigits bs).map fun (ds, rest) => (b :: ds, rest)
      | [] => none
    else some ([], b :: bs)
  | [] => some ([], [])

/-- The number at the front. -/
def takeNumber (bs : Bytes) : Option (Json × Bytes) := do
  let (sign, bs) : Bytes × Bytes := match bs with
    | 0x2D :: bs => ([0x2D], bs)
    | bs => ([], bs)
  let (whole, bs) ← takeWhole bs
  let (fraction, bs) ← takeFraction bs
  let (exponent, bs) ← takeExponent bs
  return (.number ((sign ++ whole ++ fraction ++ exponent).map charOf), bs)

/-- The rest of the bytes after a word at their front. -/
def afterWord? (word : String) (bs : Bytes) : Option Bytes :=
  let w := Utf8.encode word.toList
  if w.isPrefixOf bs then some (bs.drop w.length) else none

mutual

/-- The value at the front, spaces before it aside. -/
def takeValue : Nat → Bytes → Option (Json × Bytes)
  | 0, _ => none
  | fuel + 1, bs =>
    match skipSpace bs with
    | [] => none
    | 0x22 :: bs => (takeString bs).map fun (s, rest) => (.string s, rest)
    | 0x5B :: bs =>
      match skipSpace bs with
      | 0x5D :: rest => some (.array [], rest)
      | bs => (takeItems fuel bs).map fun (js, rest) => (.array js, rest)
    | 0x7B :: bs =>
      match skipSpace bs with
      | 0x7D :: rest => some (.object [], rest)
      | bs => (takeMembers fuel bs).map fun (ms, rest) => (.object ms, rest)
    | bs =>
      match afterWord? "null" bs with
      | some rest => some (.null, rest)
      | none => match afterWord? "true" bs with
        | some rest => some (.bool true, rest)
        | none => match afterWord? "false" bs with
          | some rest => some (.bool false, rest)
          | none => takeNumber bs

/-- The items of an array, up to its closing bracket. -/
def takeItems : Nat → Bytes → Option (List Json × Bytes)
  | 0, _ => none
  | fuel + 1, bs => do
    let (j, bs) ← takeValue fuel bs
    match skipSpace bs with
    | 0x2C :: bs =>
      let (js, bs) ← takeItems fuel bs
      return (j :: js, bs)
    | 0x5D :: bs => return ([j], bs)
    | _ => none

/-- The members of an object, up to its closing brace. -/
def takeMembers : Nat → Bytes → Option (List (Bytes × Json) × Bytes)
  | 0, _ => none
  | fuel + 1, bs => do
    let (key, bs) ← match skipSpace bs with
      | 0x22 :: bs => takeString bs
      | _ => none
    let bs ← match skipSpace bs with
      | 0x3A :: bs => some bs
      | _ => none
    let (j, bs) ← takeValue fuel bs
    match skipSpace bs with
    | 0x2C :: bs =>
      let (ms, bs) ← takeMembers fuel bs
      return ((key, j) :: ms, bs)
    | 0x7D :: bs => return ([(key, j)], bs)
    | _ => none

end

/-- The value of a json text. -/
def parse? (bs : Bytes) : Option Json := do
  let (j, rest) ← takeValue (bs.length + 1) bs
  if (skipSpace rest).isEmpty then return j else none

end PageWalk.Json
