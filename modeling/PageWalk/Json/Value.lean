/-
PageWalk/Json/Value.lean

Json values as their texts spell them.  Strings and numbers keep their
spelling: what a reader has no use for is only checked for form, so a
string may stand where its text is of no interest even if it spells none,
and a number even if no double is that large.  `text?`, `count?` and
`float?` interpret them.
-/
import PageWalk.Decimal.Reading
import PageWalk.Text.Utf8

namespace PageWalk

/-- A json value.  Strings and object keys are the bytes between their
quotes, numbers the characters they are written with. -/
inductive Json where
  | null
  | bool (b : Bool)
  | number (digits : List Char)
  | string (spelling : Bytes)
  | array (items : List Json)
  | object (members : List (Bytes × Json))
deriving Inhabited

namespace Json

/-! ### Strings -/

/-- The value of four digits to base 16. -/
def codeUnit? (bs : Bytes) : Option Nat :=
  bs.foldlM (fun n b => (Text.hexDigitValue? (Char.ofNat b.toNat)).map (n * 16 + ·)) 0

/-- What the letter after a backslash stands for. -/
def escaped? (b : UInt8) : Option UInt8 :=
  if b == 0x22 || b == 0x5C || b == 0x2F then some b
  else if b == 0x62 then some 0x08
  else if b == 0x66 then some 0x0C
  else if b == 0x6E then some 0x0A
  else if b == 0x72 then some 0x0D
  else if b == 0x74 then some 0x09
  else none

/-- The bytes that a string stands for.  A code point past U+FFFF takes two
escapes; one of the two alone stands for nothing. -/
def unescape? : Bytes → Option Bytes
  | [] => some []
  | 0x5C :: 0x75 :: a :: b :: c :: d :: 0x5C :: 0x75 :: e :: f :: g :: h :: bs =>
    (codeUnit? [a, b, c, d]).bind fun u =>
      if 0xD800 ≤ u && u < 0xDC00 then
        (codeUnit? [e, f, g, h]).bind fun v =>
          if 0xDC00 ≤ v && v < 0xE000 then
            (unescape? bs).map
              (Utf8.encodeChar (.ofNat (0x10000 + (u - 0xD800) * 0x400 + (v - 0xDC00))) ++ ·)
          else none
      else if 0xDC00 ≤ u && u < 0xE000 then none
      else
        (unescape? (0x5C :: 0x75 :: e :: f :: g :: h :: bs)).map (Utf8.encodeChar (.ofNat u) ++ ·)
  | 0x5C :: 0x75 :: a :: b :: c :: d :: bs =>
    (codeUnit? [a, b, c, d]).bind fun u =>
      if 0xD800 ≤ u && u < 0xE000 then none
      else (unescape? bs).map (Utf8.encodeChar (.ofNat u) ++ ·)
  | 0x5C :: b :: bs => (escaped? b).bind fun c => (unescape? bs).map (c :: ·)
  | b :: bs => if b == 0x5C then none else (unescape? bs).map (b :: ·)

/-- The text of a string, if it spells one. -/
def spelledText? (spelling : Bytes) : Option String :=
  ((unescape? spelling).bind Utf8.decode?).map String.ofList

/-- The byte of a digit to base 16, in lower case. -/
def hexByte (n : Nat) : UInt8 := .ofNat (if n < 10 then 0x30 + n else 0x57 + n)

/-- A byte of a string as it is written. -/
def escape (b : UInt8) : Bytes :=
  if b == 0x22 || b == 0x5C then [0x5C, b]
  else if b == 0x08 then [0x5C, 0x62]
  else if b == 0x0C then [0x5C, 0x66]
  else if b == 0x0A then [0x5C, 0x6E]
  else if b == 0x0D then [0x5C, 0x72]
  else if b == 0x09 then [0x5C, 0x74]
  else if b < 0x20 then
    [0x5C, 0x75, 0x30, 0x30, hexByte (b.toNat / 16), hexByte (b.toNat % 16)]
  else [b]

/-- The spelling of a text. -/
def spell (s : String) : Bytes := (Utf8.encode s.toList).flatMap escape

/-- The string of a text. -/
def ofText (s : String) : Json := string (spell s)

/-- The text of a string value. -/
def text? : Json → Option String
  | string spelling => spelledText? spelling
  | _ => none

/-! ### Numbers -/

/-- The number of a counter. -/
def ofCounter {bits : Nat} (c : Counter bits) : Json := number (Text.numeral c.val)

/-- The counter that a whole number without sign spells. -/
def counter? {bits : Nat} : Json → Option (Counter bits)
  | number digits => (Text.numeral? digits).bind Counter.ofNat?
  | _ => none

/-- As many digits after the significand `n` as keep it below `2 ^ 64`: the
longer significand, and the number of digits it took. -/
def extend (n : Nat) : List Char → Nat × Nat
  | [] => (n, 0)
  | d :: ds =>
    let next := n * 10 + Text.digitValue d
    if Nat.pow 2 64 ≤ next then (n, 0)
    else
      let (m, taken) := extend next ds
      (m, taken + 1)

/-- The double `x * 10 ^ e`, by one multiplication or division with a power
of ten; powers out of the range of doubles are divided by in steps.  `none`
if the product is too large. -/
def scale (steps : Nat) (x : Float) (e : Int) : Option Float :=
  let power := Decimal.nearestFloat 1 e.natAbs
  if e.natAbs ≤ 308 then
    if 0 ≤ e then
      let y := x * power
      if y.isInf then none else some y
    else some (x / power)
  else if x == 0.0 then some x
  else if 0 ≤ e then none
  else match steps with
    | 0 => some 0.0
    | steps + 1 => scale steps (x / Decimal.nearestFloat 1 308) (e + 308)

/-- The exponent that stands after a number's `e`: its sign, and its size
if that is below `2 ^ 31`. -/
def exponent (cs : List Char) : Bool × Option Nat :=
  let (negative, ds) := Decimal.splitSign cs
  let n := Text.numeralValue ds
  (negative, if n < Nat.pow 2 31 then some n else none)

/-- The largest and smallest exponents that are told apart. -/
def clampExponent (e : Int) : Int := max (-2147483648) (min 2147483647 e)

/-- The double of a number.  The first digits that fit in 64 bits are the
significand; digits past these count by their place only.  A number that
is too large for a double has none. -/
def magnitude? (cs : List Char) : Option Float :=
  let whole := cs.takeWhile Char.isDigit
  let rest := cs.dropWhile Char.isDigit
  let (significand, taken) := extend 0 whole
  let dropped : Int := whole.length - taken
  if rest.isEmpty && dropped == 0 then some (Float.ofNat significand)
  else
    let (fraction, rest) := match rest with
      | '.' :: rest => (rest.takeWhile Char.isDigit, rest.dropWhile Char.isDigit)
      | rest => ([], rest)
    let (significand, taken) := extend significand fraction
    let x := Float.ofNat significand
    match rest with
    | [] => scale 4 x (dropped - taken)
    | _ :: cs =>
      match exponent cs with
      | (negative, some e) =>
        scale 4 x (clampExponent (dropped - taken + (if negative then -(e : Int) else e)))
      | (negative, none) => if significand == 0 || negative then some 0.0 else none

/-- The double of a number value. -/
def float? : Json → Option Float
  | number ('-' :: cs) => (magnitude? cs).map (-·)
  | number cs => magnitude? cs
  | _ => none

end Json

end PageWalk
