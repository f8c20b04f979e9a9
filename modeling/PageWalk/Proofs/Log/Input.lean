/-
PageWalk/Proofs/Log/Input.lean

What is read of a byte sequence line by line.

Call after call takes one line off the input (`rawLines_after`), and what it
puts into the buffer is a matter of that line alone (`next_eq`).  So nothing
is lost, nothing is left over from the call before, and the end comes after
as many calls as there are lines (`next_reads_lines`).

The search for a marker and the reader of a section read their lines in just
this way (`lastMarker_of_input`, `skipLines_of_input`, `reader_next_of_input`).
-/
import PageWalk.Log.Input
import PageWalk.Log.Reader
import PageWalk.Proofs.Log.Lines
import Mathlib.Algebra.GroupWithZero.Nat

namespace PageWalk.Log

/-! ### The lines of bytes -/

/-- The lines of a byte sequence, with their ends: a newline ends a line, and
what follows the last newline is a line only if there is something. -/
def endedLines (bs : Bytes) : List Bytes :=
  let parts := bs.splitOn newline
  parts.dropLast.map (· ++ [newline]) ++ parts.getLast?.toList.filter (!·.isEmpty)

theorem rawLines_eq (bs : Bytes) : rawLines bs = endedLines bs := by
  fun_induction rawLines bs with
  | case1 => rfl
  | case2 bs hne ih =>
    unfold endedLines
    rcases splitLine_cases bs with ⟨h, hs⟩ | ⟨line, rest, h, rfl, hs⟩
    · -- a last line without an end
      simp [hs, List.splitOn_eq_singleton h, hne]
    · have hparts := List.splitOn_ne_nil newline rest
      rw [hs] at ih ⊢
      simp only [List.splitOn_append_cons_self_of_not_mem h]
      rw [List.dropLast_cons_of_ne_nil hparts, List.getLast?_cons_of_ne_nil hparts, List.map_cons,
        List.cons_append]
      exact congrArg _ ih

namespace Input

variable {i : Input} {k : Nat} {line : Bytes}

/-- A call of `next` reads one line, whatever is in the buffer. -/
theorem next_eq (i : Input) :
    i.next = match lineText? (splitLine i.rest).1 with
      | none => (.error .notText, ⟨[], (splitLine i.rest).2⟩)
      | some text => (.ok (splitLine i.rest).1.length, ⟨text, (splitLine i.rest).2⟩) := by
  unfold next append clear lineText?
  dsimp only
  cases Utf8.decode? (splitLine i.rest).1 <;> rfl

theorem rest_next (i : Input) : i.next.2.rest = (splitLine i.rest).2 := by
  rw [next_eq]
  split <;> rfl

theorem next_of_lineText? {text : List Char} (h : lineText? (splitLine i.rest).1 = some text) :
    i.next = (.ok (splitLine i.rest).1.length, ⟨text, (splitLine i.rest).2⟩) := by
  rw [next_eq, h]

/-- There is nothing to read at the end. -/
theorem next_of_nil (h : i.rest = []) : i.next = (.ok 0, ⟨[], []⟩) := by
  have htext : lineText? (splitLine i.rest).1 = some [] := by
    rw [h]
    exact congrArg (Option.map stripEnd) Utf8.decode?_nil
  rw [next_of_lineText? htext, h]
  rfl

theorem length_pos_of_ne_nil (h : i.rest ≠ []) : (splitLine i.rest).1.length ≠ 0 :=
  Nat.ne_of_gt (List.length_pos_iff.2 (splitLine_ne_nil h))

theorem next_eq_error_iff :
    (∃ e, i.next.1 = .error e) ↔ Utf8.decode? (splitLine i.rest).1 = none := by
  rw [next_eq]
  unfold lineText?
  cases Utf8.decode? (splitLine i.rest).1 <;> simp

/-! ### Call after call -/

/-- The input after `k` calls of `next`. -/
def after : Nat → Input → Input
  | 0, i => i
  | k + 1, i => after k i.next.2

theorem after_succ (i : Input) (k : Nat) : i.after (k + 1) = (i.after k).next.2 := by
  induction k generalizing i with
  | zero => rfl
  | succ k ih => exact ih i.next.2

/-- **Every call takes one line off the input**, be it text or not. -/
theorem rawLines_after (i : Input) (k : Nat) :
    rawLines (i.after k).rest = (rawLines i.rest).drop k := by
  induction k generalizing i with
  | zero => rfl
  | succ k ih =>
    rw [after, ih, rest_next]
    by_cases hne : i.rest = []
    · simp [hne, splitLine]
    · rw [rawLines_of_ne_nil hne, List.drop_succ_cons]

/-- The line that a call takes off. -/
theorem splitLine_after (h : (rawLines i.rest)[k]? = some line) :
    line ≠ [] ∧ (splitLine (i.after k).rest).1 = line ∧
      (splitLine (i.after k).rest).2 = (i.after (k + 1)).rest := by
  have hcons : rawLines (i.after k).rest = line :: (rawLines i.rest).drop (k + 1) := by
    obtain ⟨hk, rfl⟩ := List.getElem?_eq_some_iff.1 h
    rw [rawLines_after, List.drop_eq_getElem_cons hk]
  have hne : (i.after k).rest ≠ [] := by
    intro hnil
    rw [hnil, rawLines_nil] at hcons
    cases hcons
  rw [rawLines_of_ne_nil hne] at hcons
  obtain ⟨hline, -⟩ := List.cons.inj hcons
  refine ⟨hline ▸ splitLine_ne_nil hne, hline, ?_⟩
  rw [after_succ, rest_next]

/-- Nothing is left once all lines are read. -/
theorem rest_after (h : (rawLines i.rest).length ≤ k) : (i.after k).rest = [] := by
  have hnil : rawLines (i.after k).rest = [] := by
    rw [rawLines_after, List.drop_eq_nil_of_le h]
  rw [← flatten_rawLines (i.after k).rest, hnil]
  rfl

/-! ### Lines that are no text -/

/-- The part number `k` between the newlines is no text. -/
def Broken (bs : Bytes) (k : Nat) : Prop :=
  ∃ part, (bs.splitOn newline)[k]? = some part ∧ Utf8.decode? part = none

theorem broken_zero_iff (bs : Bytes) : Broken bs 0 ↔ Utf8.decode? (splitLine bs).1 = none := by
  unfold Broken
  rcases splitLine_cases bs with ⟨h, hs⟩ | ⟨line, rest, h, rfl, hs⟩
  · simp [hs, List.splitOn_eq_singleton h]
  · rw [hs, List.splitOn_append_cons_self_of_not_mem h, decode?_append_newline, Utf8.decode?_nil]
    cases hline : Utf8.decode? line <;> simp [hline]

theorem broken_succ_iff (bs : Bytes) (k : Nat) :
    Broken bs (k + 1) ↔ Broken (splitLine bs).2 k := by
  unfold Broken
  rcases splitLine_cases bs with ⟨h, hs⟩ | ⟨line, rest, h, rfl, hs⟩
  · -- there is one part only, and nothing after it
    cases k <;> simp [hs, List.splitOn_eq_singleton h]
  · rw [hs, List.splitOn_append_cons_self_of_not_mem h, List.getElem?_cons_succ]

/-- **A call fails exactly at a line that is no text.** -/
theorem next_after_eq_error_iff (i : Input) (k : Nat) :
    (∃ e, (i.after k).next.1 = .error e) ↔ Broken i.rest k := by
  induction k generalizing i with
  | zero => rw [after, next_eq_error_iff, broken_zero_iff]
  | succ k ih => rw [after, ih, rest_next, broken_succ_iff]

theorem not_broken {bs : Bytes} {text : List Char} (h : Utf8.decode? bs = some text) (k : Nat) :
    ¬ Broken bs k := by
  rintro ⟨part, hpart, hnone⟩
  have hbs := (decode?_eq_none_iff bs).2 ⟨part, List.mem_of_getElem? hpart, hnone⟩
  rw [h] at hbs
  cases hbs

/-- No line of a text is broken. -/
theorem exists_lineText? {bs : Bytes} {text : List Char} (h : Utf8.decode? bs = some text)
    (hline : line ∈ rawLines bs) : ∃ cs, lineText? line = some cs := by
  obtain ⟨k, hk⟩ := List.mem_iff_getElem?.1 hline
  let i : Input := ⟨[], bs⟩
  obtain ⟨-, hfirst, -⟩ := splitLine_after (i := i) hk
  rw [← Option.ne_none_iff_exists', ← hfirst]
  unfold lineText?
  rw [Ne, Option.map_eq_none_iff, ← next_eq_error_iff, next_after_eq_error_iff]
  exact not_broken h k

/-! ### The ends of lines -/

/-- The bytes of a line with its end.  A carriage return before the newline
belongs to the end, and only the last line may lack one. -/
inductive WithEnd (last : Prop) (line : List Char) : Bytes → Prop
  | ended : line.getLast? ≠ some '\r' → WithEnd last line (Utf8.encode (line ++ ['\n']))
  | returned : WithEnd last line (Utf8.encode (line ++ ['\r', '\n']))
  | unended : last → WithEnd last line (Utf8.encode line)

theorem withEnd_dropReturn (last : Prop) (line : List Char) :
    WithEnd last (dropReturn line) (Utf8.encode (line ++ ['\n'])) := by
  unfold dropReturn
  split
  · rename_i hlast
    obtain ⟨init, rfl⟩ := List.getLast?_eq_some_iff.1 hlast
    rw [List.dropLast_concat, List.append_assoc]
    exact .returned
  · exact .ended ‹_›

/-- The first line of a byte sequence is read without its end. -/
theorem withEnd_splitLine {bs : Bytes} {text : List Char} {last : Prop}
    (h : lineText? (splitLine bs).1 = some text) (hlast : (splitLine bs).2 = [] → last) :
    WithEnd last text (splitLine bs).1 ∧ '\n' ∉ text := by
  rcases splitLine_cases bs with ⟨hnot, hs⟩ | ⟨line, rest, hnot, rfl, hs⟩
  · -- a last line without an end
    rw [hs] at h hlast ⊢
    rw [lineText?_of_not_mem hnot] at h
    refine ⟨?_, newline_not_mem_of_decode? hnot h⟩
    have hbs : bs = Utf8.encode text := (Utf8.encode_of_decode? h).symm
    rw [hbs]
    exact .unended (hlast rfl)
  · rw [hs] at h ⊢
    rw [lineText?_append_newline] at h
    obtain ⟨cs, hcs, rfl⟩ := Option.map_eq_some_iff.1 h
    have hline : line ++ [newline] = Utf8.encode (cs ++ ['\n']) := by
      rw [Utf8.encode_append, Utf8.encode_of_decode? hcs]
      rfl
    refine ⟨hline ▸ withEnd_dropReturn last cs, ?_⟩
    intro hmem
    exact newline_not_mem_of_decode? hnot hcs ((dropReturn_isPrefix cs).subset hmem)

/-! ### All lines -/

/-- **Reading line by line loses nothing and ends.**  An input consists of its
lines.  If it is text, each call gives the next of them: it tells how many
bytes the line has with its end, and leaves the line without its end in the
buffer, whatever was there before.  After the last line every call tells that
nothing is left.  In any input, a call fails exactly at a line that is no
text. -/
theorem next_reads_lines (i : Input) :
    (endedLines i.rest).flatten = i.rest ∧
    ((endedLines i.rest).map List.length).sum = i.rest.length ∧
    (∀ text, Utf8.decode? i.rest = some text →
      (∀ k slice, (endedLines i.rest)[k]? = some slice →
        (i.after k).next.1 = .ok slice.length ∧ 0 < slice.length ∧
        (i.after k).rest = slice ++ (i.after (k + 1)).rest ∧
        WithEnd (k + 1 = (endedLines i.rest).length) (i.after (k + 1)).buffer slice ∧
        '\n' ∉ (i.after (k + 1)).buffer) ∧
      ∀ k, (endedLines i.rest).length ≤ k →
        (i.after k).next.1 = .ok 0 ∧ (i.after (k + 1)).buffer = []) ∧
    (∀ k, (∃ e, (i.after k).next.1 = .error e) ↔
      ∃ part, (i.rest.splitOn newline)[k]? = some part ∧ Utf8.decode? part = none) ∧
    ∀ buffer, { i with buffer }.next = i.next := by
  rw [← rawLines_eq]
  have hflatten := flatten_rawLines i.rest
  refine ⟨hflatten, ?_, fun text htext => ⟨?_, ?_⟩, next_after_eq_error_iff i, fun _ => rfl⟩
  · rw [← List.length_flatten, hflatten]
  · intro k slice hslice
    obtain ⟨hne, hline, hrest⟩ := splitLine_after hslice
    obtain ⟨cs, hcs⟩ := exists_lineText? htext (List.mem_of_getElem? hslice)
    rw [← hline] at hcs
    -- a line with nothing after it is the last
    have hlast : (splitLine (i.after k).rest).2 = [] → k + 1 = (rawLines i.rest).length := by
      intro hnil
      have hdrop := rawLines_after i (k + 1)
      rw [← hrest, hnil, rawLines_nil] at hdrop
      have hle := List.drop_eq_nil_iff.1 hdrop.symm
      have hlt := (List.getElem?_eq_some_iff.1 hslice).1
      omega
    obtain ⟨hend, hnewline⟩ := withEnd_splitLine hcs hlast
    have hnext := next_of_lineText? hcs
    have hbuffer : (i.after (k + 1)).buffer = cs := by rw [after_succ, hnext]
    have happend := splitLine_append (i.after k).rest
    rw [hline] at hnext hend happend
    rw [hrest] at happend
    rw [hbuffer, hnext]
    exact ⟨rfl, List.length_pos_iff.2 hne, happend.symm, hend, hnewline⟩
  · intro k hk
    rw [after_succ, next_of_nil (rest_after hk)]
    exact ⟨rfl, rfl⟩

/-- Both ends of lines, a doubled carriage return, and a last line that ends
with one. -/
theorem next_reads_lines_of_three :
    let i : Input := ⟨"old".toList, Utf8.encode "L1,10\r\nPWC\r\r\nL2,5\r".toList⟩
    Utf8.decode? i.rest = some "L1,10\r\nPWC\r\r\nL2,5\r".toList ∧
    (endedLines i.rest)[1]? = some (Utf8.encode "PWC\r\r\n".toList) ∧
    (i.after 1).next.1 = .ok 6 ∧
    WithEnd (2 = (endedLines i.rest).length) (i.after 2).buffer (Utf8.encode "PWC\r\r\n".toList) ∧
    (endedLines i.rest)[2]? = some (Utf8.encode "L2,5\r".toList) ∧
    (i.after 2).next.1 = .ok 5 ∧
    (endedLines i.rest).length ≤ 3 ∧ (i.after 3).next.1 = .ok 0 := by
  intro i
  have htext : Utf8.decode? i.rest = some "L1,10\r\nPWC\r\r\nL2,5\r".toList :=
    Utf8.decode?_encode _
  obtain ⟨hlines, hend⟩ := (next_reads_lines i).2.2.1 _ htext
  have hsecond : (endedLines i.rest)[1]? = some (Utf8.encode "PWC\r\r\n".toList) := by
    decide +kernel
  have hthird : (endedLines i.rest)[2]? = some (Utf8.encode "L2,5\r".toList) := by
    decide +kernel
  have hlength : (endedLines i.rest).length ≤ 3 := by decide +kernel
  obtain ⟨hcount, -, -, hbuffer, -⟩ := hlines 1 _ hsecond
  exact ⟨htext, hsecond, hcount, hbuffer, hthird, (hlines 2 _ hthird).1, hlength,
    (hend 3 hlength).1⟩

/-! ### Where lines are read -/

/-- The search for a marker reads the lines of its input one after the other. -/
theorem lastMarker_of_input (marker : List Char) (number : Nat) (found : Option Nat) (i : Input) :
    lastMarker marker number found (rawLines i.rest) = match i.next with
      | (.error e, _) => .error e
      | (.ok length, i') =>
        if length = 0 then .ok found
        else lastMarker marker (number + 1)
          (if marker.isPrefixOf i'.buffer then some number else found) (rawLines i'.rest) := by
  by_cases hne : i.rest = []
  · rw [next_of_nil hne, hne, rawLines_nil]
    rfl
  · rw [rawLines_of_ne_nil hne, lastMarker, next_eq]
    rcases lineText? (splitLine i.rest).1 with - | text
    · rfl
    · exact (if_neg (length_pos_of_ne_nil hne)).symm

/-- So does a reader that skips lines, and it adds up what is told of them. -/
theorem skipLines_of_input (marker n : Nat) (i : Input) :
    skipLines marker (n + 1) i.rest = match i.next with
      | (.error e, _) => .error { cause := .file e, attempts := [.skipPreamble] }
      | (.ok length, i') =>
        if length = 0 then fail (.endedBeforeMarker marker)
        else (skipLines marker n i'.rest).map fun (taken, rest) => (length + taken, rest) := by
  rw [skipLines, next_eq]
  dsimp only
  rcases lineText? (splitLine i.rest).1 with - | text
  · rfl
  · dsimp only
    rcases skipLines marker n (splitLine i.rest).2 with e | ⟨taken, rest⟩ <;> rfl

/-- And so does a reader of the lines of a section. -/
theorem reader_next_of_input (r : Reader) (buffer : List Char) :
    r.next = if r.finished then (.ok none, r) else match Input.next ⟨buffer, r.rest⟩ with
      | (.error e, i) =>
        (.error { cause := .file e, attempts := [.readLine (r.nextLine + 1)] },
          { r with rest := i.rest })
      | (.ok length, i) =>
        if length = 0 then (.ok none, { r with finished := true })
        else
          let r' := { r with
            nextLine := r.nextLine + 1, bytesRead := r.bytesRead + length, rest := i.rest }
          if Text.isBlankText i.buffer then r'.next
          else if r.endsSection i.buffer then (.ok none, { r' with finished := true })
          else (.ok (some ⟨r.nextLine, i.buffer⟩), r') := by
  rw [Reader.next]
  split
  · rfl
  · by_cases hne : r.rest = []
    · rw [dif_pos hne, next_of_nil hne]
      rfl
    · rw [dif_neg hne, next_eq]
      dsimp only
      rcases lineText? (splitLine r.rest).1 with - | text
      · rfl
      · exact (if_neg (length_pos_of_ne_nil (i := ⟨buffer, r.rest⟩) hne)).symm

end Input

end PageWalk.Log
