/-
PageWalk/Text/Layout.lean

Columns and searches in texts.  A column is filled with spaces up to a
number of *characters*; the widths of a table are nevertheless chosen as
numbers of *bytes* (`byteLength`), which are never smaller.  No column that
is made for its contents has more than `maxWidth` characters.
-/
import PageWalk.Text.Utf8

namespace PageWalk.Text

/-! ### Columns -/

/-- `n` spaces. -/
def spaces (n : Nat) : String := String.ofList (List.replicate n ' ')

/-- A text at the left of a column of `width` characters. -/
def padRight (width : Nat) (s : String) : String := s ++ spaces (width - s.length)

/-- A text at the right of a column of `width` characters. -/
def padLeft (width : Nat) (s : String) : String := spaces (width - s.length) ++ s

/-- The most characters that a column can have, if its width is not fixed
beforehand. -/
def maxWidth : Nat := 65535

/-- A text at the left of a column, unless that is too wide. -/
def alignLeft? (width : Nat) (s : String) : Option String :=
  if width ≤ maxWidth then some (padRight width s) else none

/-- The number of bytes a text is written with. -/
def byteLength (s : String) : Nat := (Utf8.encode s.toList).length

@[simp] theorem length_spaces (n : Nat) : (spaces n).length = n := by
  simp [spaces]

/-! ### Searches -/

/-- What stands before the first occurrence of `needle`; `none` if it does
not occur. -/
def before? (needle : List Char) : List Char → Option (List Char)
  | [] => if needle.isEmpty then some [] else none
  | c :: cs =>
    if needle.isPrefixOf (c :: cs) then some []
    else (before? needle cs).map (c :: ·)

/-- The items of a list, with a comma and a space between them. -/
def commaList (items : List String) : String := ", ".intercalate items

/-- A text without its case differences among the letters A to Z. -/
def lowerAscii (s : String) : String := String.ofList (s.toList.map Char.toLower)

end PageWalk.Text
