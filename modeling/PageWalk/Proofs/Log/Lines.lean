/-
PageWalk/Proofs/Log/Lines.lean

The lines of a text, said without bytes: a text is split at its newlines, a
carriage return right before a newline goes with it, and what follows the
last newline is a line only if there is something.

Reading the lines of a byte sequence one by one gives the lines of its text
(`mapM_rawLines`), and a byte sequence is a text exactly if every part
between its newlines is one (`decode?_eq_none_iff`).
-/
import PageWalk.Log.Line
import PageWalk.Proofs.Separated
import PageWalk.Proofs.Text.Utf8

namespace PageWalk.Log

/-! ### The lines of a text -/

/-- A line without the carriage return before its end. -/
def dropReturn (line : List Char) : List Char :=
  if line.getLast? = some '\r' then line.dropLast else line

/-- The lines of a text, without their ends. -/
def lines (text : List Char) : List (List Char) :=
  let parts := text.splitOn '\n'
  parts.dropLast.map dropReturn ++ parts.getLast?.toList.filter (!·.isEmpty)

@[simp] theorem lines_nil : lines [] = [] := rfl

/-- A text without newlines is one line. -/
theorem lines_of_not_mem {text : List Char} (h : '\n' ∉ text) (hne : text ≠ []) :
    lines text = [text] := by
  simp [lines, List.splitOn_eq_singleton h, hne]

/-- What stands before the first newline is the first line. -/
theorem lines_append {line : List Char} (h : '\n' ∉ line) (text : List Char) :
    lines (line ++ '\n' :: text) = dropReturn line :: lines text := by
  have hne := List.splitOn_ne_nil '\n' text
  simp only [lines, List.splitOn_append_cons_self_of_not_mem h]
  rw [List.dropLast_cons_of_ne_nil hne, List.getLast?_cons_of_ne_nil hne, List.map_cons,
    List.cons_append]

/-- What stands before a newline, whatever newlines it has itself, are the
first lines. -/
theorem lines_append_lines (front text : List Char) :
    lines (front ++ '\n' :: text) = (front.splitOn '\n').map dropReturn ++ lines text := by
  have hne := List.splitOn_ne_nil '\n' text
  simp only [lines, List.splitOn_append_cons_self]
  rw [List.dropLast_append_of_ne_nil hne, List.getLast?_append_of_ne_nil _ hne, List.map_append,
    List.append_assoc]

theorem dropReturn_isPrefix (line : List Char) : dropReturn line <+: line := by
  unfold dropReturn
  split
  · exact List.dropLast_prefix line
  · exact List.prefix_rfl

/-- A carriage return is not missed in front of the end. -/
theorem isPrefix_dropReturn {front line : List Char} (h : front <+: line) (hr : '\r' ∉ front) :
    front <+: dropReturn line := by
  unfold dropReturn
  split
  · rename_i hlast
    obtain ⟨init, rfl⟩ := List.getLast?_eq_some_iff.1 hlast
    rw [List.dropLast_concat]
    rcases List.prefix_concat_iff.1 h with rfl | h
    · exact absurd (List.mem_append_right _ List.mem_cons_self) hr
    · exact h
  · exact h

/-- Any line is the front of a part. -/
theorem exists_part_of_mem_lines {line text : List Char} (h : line ∈ lines text) :
    ∃ part ∈ text.splitOn '\n', line <+: part := by
  unfold lines at h
  dsimp only at h
  rcases List.mem_append.1 h with h | h
  · obtain ⟨part, hpart, rfl⟩ := List.mem_map.1 h
    exact ⟨part, List.dropLast_subset _ hpart, dropReturn_isPrefix part⟩
  · obtain ⟨hlast, -⟩ := List.mem_filter.1 h
    exact ⟨line, List.mem_of_getLast? (Option.mem_toList.1 hlast), List.prefix_rfl⟩

theorem stripEnd_append_newline (line : List Char) :
    stripEnd (line ++ ['\n']) = dropReturn line := by
  unfold stripEnd dropReturn
  rw [List.reverse_append, List.reverse_singleton, List.singleton_append]
  rcases List.eq_nil_or_concat line with rfl | ⟨init, c, rfl⟩
  · rfl
  · by_cases hc : c = '\r'
    · subst hc
      simp
    · simp [hc]

theorem stripEnd_of_not_mem {line : List Char} (h : '\n' ∉ line) : stripEnd line = line := by
  unfold stripEnd
  split
  · rename_i cs hrev
    exact absurd (List.mem_reverse.1 (hrev ▸ List.mem_cons_self)) h
  · rename_i cs _ hrev
    exact absurd (List.mem_reverse.1 (hrev ▸ List.mem_cons_self)) h
  · rfl

/-! ### Where the first line of a byte sequence ends -/

/-- The first line runs to the first newline, or to the end. -/
theorem splitLine_cases (bs : Bytes) :
    (newline ∉ bs ∧ splitLine bs = (bs, [])) ∨
    ∃ line rest, newline ∉ line ∧ bs = line ++ newline :: rest ∧
      splitLine bs = (line ++ [newline], rest) := by
  induction bs with
  | nil => exact Or.inl ⟨List.not_mem_nil, rfl⟩
  | cons b bs ih =>
    by_cases hb : b = newline
    · refine Or.inr ⟨[], bs, List.not_mem_nil, by rw [hb, List.nil_append], ?_⟩
      simp [splitLine, hb]
    · rcases ih with ⟨h, hs⟩ | ⟨line, rest, h, rfl, hs⟩
      · -- no newline at all
        refine Or.inl ⟨?_, ?_⟩
        · simp [h, Ne.symm hb]
        · simp [splitLine, hb, hs]
      · refine Or.inr ⟨b :: line, rest, ?_, rfl, ?_⟩
        · simp [h, Ne.symm hb]
        · simp [splitLine, hb, hs]

theorem newline_lt : newline < 0x80 := by decide

theorem newline_mem_encode {text : List Char} (h : '\n' ∈ text) :
    newline ∈ Utf8.encode text :=
  List.mem_flatMap.2 ⟨'\n', h, by decide⟩

/-- No newline byte, no newline. -/
theorem newline_not_mem_of_decode? {bs : Bytes} {text : List Char} (h : newline ∉ bs)
    (htext : Utf8.decode? bs = some text) : '\n' ∉ text := by
  intro hmem
  rw [← Utf8.encode_of_decode? htext] at h
  exact h (newline_mem_encode hmem)

/-- The parts between the newline bytes of a text are the bytes of its
parts. -/
theorem splitOn_encode (text : List Char) :
    (Utf8.encode text).splitOn newline = (text.splitOn '\n').map Utf8.encode := by
  have hmem : ∀ {cs : List Char}, '\n' ∉ cs → newline ∉ Utf8.encode cs := fun hcs h =>
    hcs (Utf8.mem_of_ascii_mem_encode newline_lt h)
  induction text using separated_induction '\n' with
  | single text h =>
    rw [List.splitOn_eq_singleton h, List.splitOn_eq_singleton (hmem h), List.map_singleton]
  | first line rest hline ih =>
    have hencode : Utf8.encode (line ++ '\n' :: rest)
        = Utf8.encode line ++ newline :: Utf8.encode rest := Utf8.encode_append _ _
    rw [hencode, List.splitOn_append_cons_self_of_not_mem (hmem hline),
      List.splitOn_append_cons_self_of_not_mem hline, ih, List.map_cons]

/-- A whole line is read up to its newline. -/
theorem decode?_append_newline (line rest : Bytes) :
    Utf8.decode? (line ++ newline :: rest) = (Utf8.decode? line).bind fun cs =>
      (Utf8.decode? rest).map fun ds => cs ++ '\n' :: ds :=
  Utf8.decode?_append_ascii_cons newline_lt line rest

theorem lineText?_append_newline (line : Bytes) :
    lineText? (line ++ [newline]) = (Utf8.decode? line).map dropReturn := by
  unfold lineText?
  rw [decode?_append_newline]
  cases Utf8.decode? line <;> simp [stripEnd_append_newline]

theorem lineText?_of_not_mem {line : Bytes} (h : newline ∉ line) :
    lineText? line = Utf8.decode? line := by
  unfold lineText?
  rcases hd : Utf8.decode? line with - | text
  · rfl
  · rw [Option.map_some, stripEnd_of_not_mem (newline_not_mem_of_decode? h hd)]

/-! ### Reading line by line -/

/-- **Reading line by line is reading the text and splitting it.** -/
theorem mapM_rawLines (bs : Bytes) :
    (rawLines bs).mapM lineText? = (Utf8.decode? bs).map lines := by
  fun_induction rawLines bs with
  | case1 => simp
  | case2 bs hne ih =>
    rw [List.mapM_cons, ih]
    rcases splitLine_cases bs with ⟨h, hs⟩ | ⟨line, rest, h, rfl, hs⟩
    · -- a last line without an end
      rw [hs, lineText?_of_not_mem h, Utf8.decode?_nil]
      rcases hd : Utf8.decode? bs with - | text
      · rfl
      · have htext : text ≠ [] := by
          rintro rfl
          rw [← Utf8.encode_of_decode? hd] at hne
          exact hne rfl
        simp [lines_of_not_mem (newline_not_mem_of_decode? h hd) htext]
    · -- a line with an end
      rw [hs, lineText?_append_newline, decode?_append_newline]
      rcases hd : Utf8.decode? line with - | cs
      · rfl
      · rcases Utf8.decode? rest with - | ds
        · rfl
        · simp [lines_append (newline_not_mem_of_decode? h hd)]

/-- **A byte sequence spells no text exactly if one of its lines does not.** -/
theorem decode?_eq_none_iff (bs : Bytes) :
    Utf8.decode? bs = none ↔ ∃ line ∈ bs.splitOn newline, Utf8.decode? line = none := by
  induction hn : bs.length using Nat.strongRecOn generalizing bs with
  | ind n ih =>
    rcases splitLine_cases bs with ⟨h, -⟩ | ⟨line, rest, h, rfl, -⟩
    · simp [List.splitOn_eq_singleton h]
    · -- the first line, and what follows its newline
      have hlt : rest.length < n := by
        rw [← hn, List.length_append, List.length_cons]; omega
      rw [List.splitOn_append_cons_self_of_not_mem h, decode?_append_newline,
        List.exists_mem_cons_iff, ← ih _ hlt rest rfl]
      cases Utf8.decode? line <;> cases Utf8.decode? rest <;> simp

end PageWalk.Log
