/-
PageWalk/Proofs/Log/Section.lean

The statistics section of a log, said of the text as a whole, and that a
reader gives exactly this section, line by line.

A reader makes two passes over the bytes: one looks for the marker, one
skips the preamble and streams the rest, both in terms of lines with their
ends.  What has passed the first cannot fail in the second
(`skipPreamble_eq_ok`).  `Upcoming` relates a reader to the lines that it has before it.
`Upcoming.next` says what one call of `next` does to this relation, so what
any number of calls give follows by induction (`Upcoming.next_after`).
-/
import PageWalk.Log.Reader
import PageWalk.Proofs.Log.Lines

namespace PageWalk.Log

/-! ### The section of a text -/

/-- The number of the last of `texts` that starts with `marker`; the first
of them has the number `number`. -/
def lastStarting (marker : List Char) (number : Nat) (texts : List (List Char)) : Option Nat :=
  ((texts.zipIdx number).filter fun numbered => marker.isPrefixOf numbered.1).getLast?.map (·.2)

/-- The lines of a section that begins with the line `number`: those that
are not blank, up to the first that starts with a tilde where such a line
ends the section. -/
def sectionFrom (format : RecordFormat) (number : Nat) (texts : List (List Char)) : List Line :=
  let shown := ((texts.zipIdx number).map fun (text, n) => Line.mk n text).filter
    fun line => !Text.isBlankText line.text
  if format.endsAtTilde then shown.takeWhile fun line => line.text.head? != some '~' else shown

/-- The number of the marker line of a text. -/
def markerOf (format : RecordFormat) (text : List Char) : Option Nat :=
  lastStarting format.marker.toList 0 (lines text)

/-- How many lines come before the section: all up to the marker. -/
def preamble (format : RecordFormat) (text : List Char) : Nat :=
  (markerOf format text).elim 0 (· + 1)

/-- The lines of the statistics section of a text, numbered over the whole
text. -/
def sectionLines (format : RecordFormat) (text : List Char) : List Line :=
  sectionFrom format (preamble format text) ((lines text).drop (preamble format text))

/-! ### One more line -/

theorem lastStarting_cons (marker : List Char) (number : Nat) (text : List Char)
    (texts : List (List Char)) :
    lastStarting marker number (text :: texts)
      = (lastStarting marker (number + 1) texts).or
          (if marker.isPrefixOf text then some number else none) := by
  unfold lastStarting
  rw [List.zipIdx_cons, List.filter_cons]
  show Option.map _ (if marker.isPrefixOf text = true then _ else _ : List _).getLast? = _
  split
  · rw [List.getLast?_cons]
    cases ((texts.zipIdx (number + 1)).filter fun p => marker.isPrefixOf p.1).getLast? <;> rfl
  · rw [Option.or_none]

section SectionFrom

variable {format : RecordFormat} {number : Nat} {text : List Char} {texts : List (List Char)}

theorem sectionFrom_nil : sectionFrom format number [] = [] := by
  simp [sectionFrom]

theorem sectionFrom_cons_blank (h : Text.isBlankText text = true) :
    sectionFrom format number (text :: texts) = sectionFrom format (number + 1) texts := by
  simp [sectionFrom, h]

theorem sectionFrom_cons_end (h : Text.isBlankText text = false)
    (hend : format.endsAtTilde && text.head? == some '~') :
    sectionFrom format number (text :: texts) = [] := by
  simp only [Bool.and_eq_true, beq_iff_eq] at hend
  simp [sectionFrom, h, hend]

theorem sectionFrom_cons_line (h : Text.isBlankText text = false)
    (hend : (format.endsAtTilde && text.head? == some '~') = false) :
    sectionFrom format number (text :: texts)
      = ⟨number, text⟩ :: sectionFrom format (number + 1) texts := by
  simp only [Bool.and_eq_false_iff, beq_eq_false_iff_ne] at hend
  rcases hend with hend | hend
  · simp [sectionFrom, h, hend]
  · cases hf : format.endsAtTilde <;> simp [sectionFrom, h, hf, hend]

end SectionFrom

/-! ### Looking for the marker, and skipping to it -/

theorem lastMarker_eq (marker : List Char) (number : Nat) (found : Option Nat)
    (raw : List Bytes) :
    lastMarker marker number found raw = match raw.mapM lineText? with
      | none => .error .notText
      | some texts => .ok ((lastStarting marker number texts).or found) := by
  induction raw generalizing number found with
  | nil => rfl
  | cons line raw ih =>
    rw [lastMarker, List.mapM_cons]
    rcases lineText? line with - | text
    · rfl
    · simp only [ih]
      rcases raw.mapM lineText? with - | texts
      · rfl
      · show Except.ok _ = Except.ok _
        -- a marker further on wins over this line, and this line over one before
        rw [lastStarting_cons, Option.or_assoc]
        split <;> rfl

/-- The first pass: it fails on what spells no text, and finds the marker
else. -/
theorem markerLine?_eq (format : RecordFormat) (log : Bytes) :
    markerLine? format.marker.toList log = match Utf8.decode? log with
      | none => .error .notText
      | some text => .ok (markerOf format text) := by
  unfold markerLine?
  rw [lastMarker_eq, mapM_rawLines]
  cases Utf8.decode? log with
  | none => rfl
  | some text => exact congrArg Except.ok (Option.or_none ..)

/-- A marker that was found is one of the lines. -/
theorem lastStarting_lt {marker : List Char} {number n : Nat} {texts : List (List Char)}
    (h : lastStarting marker number texts = some n) : n < number + texts.length := by
  unfold lastStarting at h
  obtain ⟨numbered, hlast, rfl⟩ := Option.map_eq_some_iff.1 h
  have hmem := List.mem_of_mem_filter (List.mem_of_getLast? hlast)
  exact (List.mem_zipIdx hmem).2.1

/-- The second pass: lines that are text and not too few can be skipped, and
leave the lines after them. -/
theorem skipLines_eq_ok {bs : Bytes} {texts : List (List Char)} {n : Nat} (marker : Nat)
    (htexts : (rawLines bs).mapM lineText? = some texts) (hn : n ≤ texts.length) :
    ∃ rest, skipLines marker n bs = .ok (((rawLines bs).take n).flatten.length, rest) ∧
      rawLines rest = (rawLines bs).drop n := by
  induction n generalizing bs texts with
  | zero => exact ⟨bs, rfl, rfl⟩
  | succ n ih =>
    have hne : bs ≠ [] := by
      rintro rfl
      rw [rawLines_nil] at htexts
      cases htexts
      cases hn
    rw [rawLines_of_ne_nil hne] at htexts ⊢
    rw [List.mapM_cons] at htexts
    obtain ⟨text, htext, htexts⟩ := Option.bind_eq_some_iff.1 htexts
    obtain ⟨texts', htexts', htexts⟩ := Option.bind_eq_some_iff.1 htexts
    obtain rfl : text :: texts' = texts := Option.some.inj htexts
    obtain ⟨rest, hskip, hrest⟩ := ih htexts' (Nat.le_of_succ_le_succ hn)
    refine ⟨rest, ?_, hrest⟩
    have hline : (splitLine bs).1.length ≠ 0 := mt List.length_eq_zero_iff.1 (splitLine_ne_nil hne)
    unfold skipLines
    simp only [htext, if_neg hline, hskip]
    rw [List.take_succ_cons, List.flatten_cons, List.length_append]
    rfl

/-- **The second pass cannot fail** after the first: it skips all up to the
marker that was found. -/
theorem skipPreamble_eq_ok {log : Bytes} {text : List Char} (h : Utf8.decode? log = some text)
    (format : RecordFormat) :
    ∃ rest, skipPreamble (markerOf format text) log
        = .ok (preamble format text,
            ((rawLines log).take (preamble format text)).flatten.length, rest) ∧
      rawLines rest = (rawLines log).drop (preamble format text) := by
  have hall : (rawLines log).mapM lineText? = some (lines text) := by
    rw [mapM_rawLines, h]
    rfl
  unfold preamble
  cases hmarker : markerOf format text with
  | none => exact ⟨log, rfl, rfl⟩
  | some line =>
    have hline := lastStarting_lt hmarker
    rw [Nat.zero_add] at hline
    obtain ⟨rest, hskip, hrest⟩ := skipLines_eq_ok line hall hline
    refine ⟨rest, ?_, hrest⟩
    unfold skipPreamble
    simp only [hskip]
    rfl

theorem mapM_drop {α β : Type} {f : α → Option β} {as : List α} {bs : List β}
    (h : as.mapM f = some bs) (n : Nat) : (as.drop n).mapM f = some (bs.drop n) := by
  induction n generalizing as bs with
  | zero => exact h
  | succ n ih =>
    rcases as with - | ⟨a, as⟩
    · obtain rfl : [] = bs := by simpa using h
      rfl
    · rw [List.mapM_cons] at h
      obtain ⟨b, -, h⟩ := Option.bind_eq_some_iff.1 h
      obtain ⟨bs', hbs, h⟩ := Option.bind_eq_some_iff.1 h
      obtain rfl : b :: bs' = bs := Option.some.inj h
      exact ih hbs

/-! ### Readers and what they have before them -/

namespace Reader

/-- The lines that a reader has before it. -/
def Upcoming (r : Reader) (ls : List Line) : Prop :=
  (r.finished = true ∧ ls = []) ∨
  (r.finished = false ∧ ∃ texts, (rawLines r.rest).mapM lineText? = some texts ∧
    ls = sectionFrom r.format r.nextLine texts)

/-- The reader after `k` calls of `next`. -/
def after : Nat → Reader → Reader
  | 0, r => r
  | k + 1, r => after k r.next.2

/-- The lines that a reader still has before it, if it is not finished and
has something left. -/
theorem Upcoming.cons {r : Reader} {ls : List Line} (h : r.Upcoming ls)
    (hfin : ¬ r.finished = true) (hne : r.rest ≠ []) :
    ∃ text texts, lineText? (splitLine r.rest).1 = some text ∧
      (rawLines (splitLine r.rest).2).mapM lineText? = some texts ∧
      ls = sectionFrom r.format r.nextLine (text :: texts) := by
  rcases h with ⟨hf, -⟩ | ⟨-, texts, hmap, hls⟩
  · exact absurd hf hfin
  · rw [rawLines_of_ne_nil hne, List.mapM_cons] at hmap
    obtain ⟨text, htext, hmap⟩ := Option.bind_eq_some_iff.1 hmap
    obtain ⟨texts', htexts, hmap⟩ := Option.bind_eq_some_iff.1 hmap
    obtain rfl : text :: texts' = texts := Option.some.inj hmap
    exact ⟨text, texts', htext, htexts, hls⟩

/-- **One call of `next`** gives the first line before the reader and leaves
the others before it. -/
theorem Upcoming.next {r : Reader} {ls : List Line} (h : r.Upcoming ls) :
    r.next.1 = .ok ls.head? ∧ r.next.2.Upcoming ls.tail ∧ r.next.2.format = r.format := by
  fun_induction Reader.next r generalizing ls with
  | case1 r hfin =>
    -- the section has ended
    rcases h with ⟨-, rfl⟩ | ⟨hf, -⟩
    · exact ⟨rfl, Or.inl ⟨hfin, rfl⟩, rfl⟩
    · rw [hfin] at hf; cases hf
  | case2 r hfin hnil =>
    -- so does the log
    rcases h with ⟨hf, -⟩ | ⟨-, texts, hmap, rfl⟩
    · exact absurd hf hfin
    · rw [hnil, rawLines_nil] at hmap
      obtain rfl : [] = texts := Option.some.inj hmap
      rw [sectionFrom_nil]
      exact ⟨rfl, Or.inl ⟨rfl, rfl⟩, rfl⟩
  | case3 r hfin hne line rest =>
    -- no line before the reader is broken
    rename_i hnone
    obtain ⟨text, -, htext, -⟩ := h.cons hfin hne
    cases hnone.symm.trans htext
  | case4 r hfin hne line rest text htext r' hblank =>
    -- a blank line is passed over
    rename_i ih
    obtain ⟨text', texts, htext', htexts, rfl⟩ := h.cons hfin hne
    obtain rfl : text' = text := Option.some.inj (htext'.symm.trans htext)
    rw [sectionFrom_cons_blank hblank]
    exact ih (Or.inr ⟨by simpa using hfin, texts, htexts, rfl⟩)
  | case5 r hfin hne line rest text htext r' hblank =>
    -- a line that ends the section
    rename_i hend
    obtain ⟨text', texts, htext', htexts, rfl⟩ := h.cons hfin hne
    obtain rfl : text' = text := Option.some.inj (htext'.symm.trans htext)
    rw [sectionFrom_cons_end (by simpa using hblank) hend]
    exact ⟨rfl, Or.inl ⟨rfl, rfl⟩, rfl⟩
  | case6 r hfin hne line rest text htext r' hblank =>
    -- a line of the section
    rename_i hend
    obtain ⟨text', texts, htext', htexts, rfl⟩ := h.cons hfin hne
    obtain rfl : text' = text := Option.some.inj (htext'.symm.trans htext)
    rw [sectionFrom_cons_line (by simpa using hblank) (by simpa [endsSection] using hend)]
    exact ⟨rfl, Or.inr ⟨by simpa using hfin, texts, htexts, rfl⟩, rfl⟩

/-- Any number of calls: the lines before the reader in their order, and
then nothing more. -/
theorem Upcoming.next_after {r : Reader} {ls : List Line} (h : r.Upcoming ls) (k : Nat) :
    (r.after k).next.1 = .ok ls[k]? := by
  induction k generalizing r ls with
  | zero => rw [after, h.next.1, List.head?_eq_getElem?]
  | succ k ih => rw [after, ih h.next.2.1, List.getElem?_tail]

/-! ### Opening a log -/

theorem ofLog_eq_error {log : Bytes} (h : Utf8.decode? log = none) (format : RecordFormat) :
    ofLog format log = .error { cause := .file .notText, attempts := [.searchMarker] } := by
  unfold ofLog
  rw [markerLine?_eq, h]

/-- Where a log that is text is opened: behind its preamble. -/
theorem exists_ofLog {log : Bytes} {text : List Char} (h : Utf8.decode? log = some text)
    (format : RecordFormat) :
    ∃ rest, rawLines rest = (rawLines log).drop (preamble format text) ∧
      ofLog format log = .ok {
        format
        markerLine := markerOf format text
        nextLine := preamble format text
        bytesRead := ((rawLines log).take (preamble format text)).flatten.length
        totalBytes := log.length
        finished := false
        rest } := by
  obtain ⟨rest, hskip, hrest⟩ := skipPreamble_eq_ok h format
  refine ⟨rest, hrest, ?_⟩
  unfold ofLog
  rw [markerLine?_eq, h]
  simp only [hskip]
  rfl

/-- A reader that was just opened has the whole section before it. -/
theorem ofLog_eq_ok {log : Bytes} {text : List Char} (h : Utf8.decode? log = some text)
    (format : RecordFormat) :
    ∃ r, ofLog format log = .ok r ∧ r.format = format ∧ r.markerLine = markerOf format text ∧
      r.Upcoming (sectionLines format text) := by
  have hall : (rawLines log).mapM lineText? = some (lines text) := by
    rw [mapM_rawLines, h]
    rfl
  obtain ⟨rest, hrest, hr⟩ := exists_ofLog h format
  refine ⟨_, hr, rfl, rfl, Or.inr ⟨rfl, (lines text).drop (preamble format text), ?_, rfl⟩⟩
  rw [hrest]
  exact mapM_drop hall (preamble format text)

/-- **A reader gives the statistics section.**  A log that is text opens,
with its marker; asking again and again gives the lines of its section in
their order, each with its number, and then nothing any more.  Opening fails
exactly if some line of the log is no text, and so no call fails on a log
that was opened. -/
theorem ofLog_streams_section (format : RecordFormat) (log : Bytes) :
    (∀ text, Utf8.decode? log = some text →
      ∃ r, ofLog format log = .ok r ∧ r.markerLine = markerOf format text ∧
        ∀ k, (r.after k).next.1 = .ok (sectionLines format text)[k]?) ∧
    ((∃ e, ofLog format log = .error e) ↔
      ∃ line ∈ log.splitOn newline, Utf8.decode? line = none) ∧
    (∀ r, ofLog format log = .ok r → ∀ k, ∃ line?, (r.after k).next.1 = .ok line?) := by
  rw [← decode?_eq_none_iff]
  rcases h : Utf8.decode? log with - | text
  · -- the log is no text
    have hfail := ofLog_eq_error h format
    refine ⟨?_, ⟨?_, ?_⟩, ?_⟩
    · intro text htext
      cases htext
    · intro _
      rfl
    · intro _
      exact ⟨_, hfail⟩
    · intro r hr
      rw [hfail] at hr
      cases hr
  · -- the log is text
    obtain ⟨r, hr, -, hmarker, hup⟩ := ofLog_eq_ok h format
    refine ⟨?_, ⟨?_, ?_⟩, ?_⟩
    · intro text' htext
      obtain rfl := Option.some.inj htext
      exact ⟨r, hr, hmarker, hup.next_after⟩
    · rintro ⟨e, he⟩
      rw [hr] at he
      cases he
    · intro hnone
      cases hnone
    · intro r' hr' k
      obtain rfl := Except.ok.inj (hr.symm.trans hr')
      exact ⟨_, hup.next_after k⟩

/-- Two markers, blank lines, both ends of lines and an early tilde. -/
theorem ofLog_streams_section_of_two_passes :
    let text := ("run\r\n~~~~~~~~~~~~~~~\nL9,1\n~~~~~~~~~~~~~~~ pass 2\r\n\nL1,5\r\n \t\r\n" ++
      "L2,6\n~ end\nL1,7").toList
    Utf8.decode? (Utf8.encode text) = some text ∧
    ∃ r, ofLog .simple (Utf8.encode text) = .ok r ∧ r.markerLine = some 3 ∧
      (r.after 0).next.1 = .ok (some ⟨5, "L1,5".toList⟩) ∧
      (r.after 1).next.1 = .ok (some ⟨7, "L2,6".toList⟩) ∧
      (r.after 2).next.1 = .ok none ∧ (r.after 3).next.1 = .ok none := by
  intro text
  refine ⟨Utf8.decode?_encode text, ?_⟩
  obtain ⟨r, hr, hmarker, hnext⟩ :=
    (ofLog_streams_section .simple (Utf8.encode text)).1 text (Utf8.decode?_encode text)
  refine ⟨r, hr, hmarker.trans (by decide +kernel), (hnext 0).trans (by decide +kernel),
    (hnext 1).trans (by decide +kernel), (hnext 2).trans (by decide +kernel),
    (hnext 3).trans (by decide +kernel)⟩

end Reader

end PageWalk.Log
