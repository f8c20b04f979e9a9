/-
PageWalk/Log/Line.lean

The lines of a byte sequence.  A line ends with a newline, before which
one carriage return belongs to the end as well; the last line may lack its
end and is then kept as it is.
-/
import PageWalk.Text.Utf8

namespace PageWalk.Log

/-- The byte that ends a line. -/
def newline : UInt8 := 0x0A

/-- The bytes up to and including the first newline, and the bytes after
it. -/
def splitLine : Bytes → Bytes × Bytes
  | [] => ([], [])
  | b :: bs =>
    if b = newline then ([b], bs)
    else
      let (line, rest) := splitLine bs
      (b :: line, rest)

/-- A line without its end. -/
def stripEnd (line : List Char) : List Char :=
  match line.reverse with
  | '\n' :: '\r' :: cs => cs.reverse
  | '\n' :: cs => cs.reverse
  | _ => line

/-- The text of a line, if its bytes spell one. -/
def lineText? (line : Bytes) : Option (List Char) := (Utf8.decode? line).map stripEnd

/-! ### Lemmas on splitting -/

theorem splitLine_append (bs : Bytes) : (splitLine bs).1 ++ (splitLine bs).2 = bs := by
  induction bs with
  | nil => rfl
  | cons b bs ih =>
    simp only [splitLine]
    split
    · rfl
    · simpa using ih

theorem splitLine_ne_nil {bs : Bytes} (h : bs ≠ []) : (splitLine bs).1 ≠ [] := by
  cases bs with
  | nil => exact absurd rfl h
  | cons b bs =>
    simp only [splitLine]
    split <;> simp

theorem length_rest_lt {bs : Bytes} (h : bs ≠ []) : (splitLine bs).2.length < bs.length := by
  have hsum := congrArg List.length (splitLine_append bs)
  have hpos := List.length_pos_iff.2 (splitLine_ne_nil h)
  simp at hsum
  omega

/-! ### All lines -/

/-- The lines of a byte sequence, with their ends. -/
def rawLines (bs : Bytes) : List Bytes :=
  if _h : bs = [] then []
  else (splitLine bs).1 :: rawLines (splitLine bs).2
termination_by bs.length
decreasing_by exact length_rest_lt _h

@[simp] theorem rawLines_nil : rawLines [] = [] := by rw [rawLines]; simp

theorem rawLines_of_ne_nil {bs : Bytes} (h : bs ≠ []) :
    rawLines bs = (splitLine bs).1 :: rawLines (splitLine bs).2 := by
  rw [rawLines, dif_neg h]

/-- Nothing is lost: the lines make up the whole. -/
theorem flatten_rawLines (bs : Bytes) : (rawLines bs).flatten = bs := by
  fun_induction rawLines bs with
  | case1 => rfl
  | case2 bs h ih => rw [List.flatten_cons, ih, splitLine_append]

end PageWalk.Log
