/-
PageWalk/Text/Utf8.lean

Bytes and the text they spell.  Logs, tables, reports and file names are
byte sequences; whether one is text is decided where it is read.

A byte sequence splits into *pieces*: whole characters, and stretches that
begin like a character but are none.  Three readings rest on that split:

* `decode?` — the text, if every piece is a character;
* `decodeLossy` — the text with U+FFFD in place of each broken stretch;
* `pieces` itself, for output that shows the broken bytes.

`encode` goes the other way.
-/
namespace PageWalk

/-- File contents and file names: bytes that may or may not spell a text. -/
abbrev Bytes := List UInt8

namespace Utf8

/-! ### From text to bytes -/

/-- The bytes of one character: one to four, by the size of its code point. -/
def encodeChar (c : Char) : Bytes :=
  let n := c.toNat
  if n < 0x80 then [.ofNat n]
  else if n < 0x800 then [.ofNat (0xC0 + n / 64), .ofNat (0x80 + n % 64)]
  else if n < 0x10000 then
    [.ofNat (0xE0 + n / 4096), .ofNat (0x80 + n / 64 % 64), .ofNat (0x80 + n % 64)]
  else
    [.ofNat (0xF0 + n / 262144), .ofNat (0x80 + n / 4096 % 64),
      .ofNat (0x80 + n / 64 % 64), .ofNat (0x80 + n % 64)]

/-- The bytes of a text. -/
def encode (cs : List Char) : Bytes := cs.flatMap encodeChar

@[simp] theorem encode_nil : encode [] = [] := rfl

@[simp] theorem encode_cons (c : Char) (cs : List Char) :
    encode (c :: cs) = encodeChar c ++ encode cs := rfl

theorem encode_append (cs ds : List Char) : encode (cs ++ ds) = encode cs ++ encode ds := by
  simp [encode]

/-! ### From bytes to pieces -/

/-- A byte that continues a character. -/
def isContinuation (b : UInt8) : Bool := 0x80 ≤ b && b ≤ 0xBF

/-- How many bytes follow the lead byte `b`, and the range of the first of
them.  The narrowed ranges keep out surrogates, code points past U+10FFFF
and spellings longer than needed. -/
def following (b : UInt8) : Option (Nat × UInt8 × UInt8) :=
  if 0xC2 ≤ b && b ≤ 0xDF then some (1, 0x80, 0xBF)
  else if b == 0xE0 then some (2, 0xA0, 0xBF)
  else if b == 0xED then some (2, 0x80, 0x9F)
  else if 0xE1 ≤ b && b ≤ 0xEF then some (2, 0x80, 0xBF)
  else if b == 0xF0 then some (3, 0x90, 0xBF)
  else if 0xF1 ≤ b && b ≤ 0xF3 then some (3, 0x80, 0xBF)
  else if b == 0xF4 then some (3, 0x80, 0x8F)
  else none

/-- How many of the bytes after a lead byte belong to its piece: at most
`n`, the first between `lo` and `hi`, the others continuations. -/
def belonging (n : Nat) (lo hi : UInt8) (bs : Bytes) : Nat :=
  match n, bs with
  | n + 1, b :: bs =>
    if lo ≤ b && b ≤ hi then 1 + (bs.take n |>.takeWhile isContinuation).length else 0
  | _, _ => 0

/-- The code point of a lead byte with its `n` following bytes. -/
def codePoint (n : Nat) (b : UInt8) (bs : Bytes) : Nat :=
  (bs.take n).foldl (fun v c => v * 64 + c.toNat % 64) (b.toNat % Nat.pow 2 (6 - n))

/-- The first piece of `b :: bs`: its character, if it is whole, and how
many bytes of `bs` it takes. -/
def front (b : UInt8) (bs : Bytes) : Option Char × Nat :=
  if b < 0x80 then (some (Char.ofNat b.toNat), 0)
  else match following b with
    | none => (none, 0)
    | some (n, lo, hi) =>
      let k := belonging n lo hi bs
      (if k = n then some (Char.ofNat (codePoint n b bs)) else none, k)

/-- The pieces of a byte sequence: characters, and the bytes of each broken
stretch. -/
def pieces : Bytes → List (Except Bytes Char)
  | [] => []
  | b :: bs =>
    let (c?, k) := front b bs
    (match c? with
      | some c => .ok c
      | none => .error (b :: bs.take k)) :: pieces (bs.drop k)
termination_by bs => bs.length
decreasing_by
  rw [List.length_drop, List.length_cons]
  exact Nat.lt_succ_of_le (Nat.sub_le ..)

/-! ### Readings -/

/-- The text that a byte sequence spells; `none` if a stretch is broken. -/
def decode? (bs : Bytes) : Option (List Char) :=
  (pieces bs).mapM Except.toOption

/-- The text of a byte sequence, with U+FFFD for each broken stretch. -/
def decodeLossy (bs : Bytes) : List Char :=
  (pieces bs).map fun
    | .ok c => c
    | .error _ => '\uFFFD'

@[simp] theorem pieces_nil : pieces [] = [] := by rw [pieces]

@[simp] theorem decode?_nil : decode? [] = some [] := by simp [decode?]

end Utf8

end PageWalk
