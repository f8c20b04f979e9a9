/-
PageWalk/Text/Quoted.lean

Texts and paths as messages quote them: between double quotes, with a
backslash before quotes and backslashes, short names for the usual
controls, and every other hidden character by its number.
-/
import PageWalk.Text.Hidden
import PageWalk.Text.Utf8

namespace PageWalk.Text

/-- A number in base 16. -/
def hexDigits (n : Nat) : List Char := Nat.toDigits 16 n

/-- A character inside quotes. -/
def quotedChar (c : Char) : List Char :=
  if c = '"' then ['\\', '"']
  else if c = '\\' then ['\\', '\\']
  else if c = '\n' then ['\\', 'n']
  else if c = '\r' then ['\\', 'r']
  else if c = '\t' then ['\\', 't']
  else if c = '\x00' then ['\\', '0']
  else if isHidden c then ['\\', 'u', '\x7b'] ++ hexDigits c.toNat ++ ['\x7d']
  else [c]

/-- A text in quotes. -/
def quote (s : String) : String :=
  String.ofList ('"' :: s.toList.flatMap quotedChar ++ ['"'])

/-- A byte that is part of no character, inside quotes. -/
def quotedByte (b : UInt8) : List Char :=
  ['\\', 'x'] ++ (hexDigits (b.toNat / 16) ++ hexDigits (b.toNat % 16)).map Char.toUpper

/-- A byte sequence in quotes: as its text where it has one. -/
def quoteBytes (bs : Bytes) : String :=
  String.ofList ('"' :: (Utf8.pieces bs).flatMap (fun
    | .ok c => quotedChar c
    | .error broken => broken.flatMap quotedByte) ++ ['"'])

end PageWalk.Text
