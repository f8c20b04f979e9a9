/-
PageWalk/Proofs/Log/Order.lean

Logs whose section can be reordered.

A log is a preamble that ends with the marker, and a body of further lines.
None of these ends the section or starts another (`Plain`), so the section is
the body, whatever its order (`trim_sectionLines`).  Of its lines only what
trimming leaves is read.  Where a line stands, how it ends and whether blank
lines come before it make no difference to that, which is why the parts of
the body may be said to be reordered and nothing about their ends.
-/
import PageWalk.Proofs.Log.Section
import PageWalk.Proofs.Text.Blank
import Mathlib.Data.List.Perm.Basic

namespace PageWalk

/-- What lines must not start with if their order is not to matter: for
records without ways what ends a section, for others what starts one. -/
def RecordFormat.border : RecordFormat → List Char
  | simple => ['~']
  | withWay => (marker withWay).toList

theorem RecordFormat.border_isPrefix_marker (format : RecordFormat) :
    format.border <+: format.marker.toList := by
  cases format <;> decide

namespace Log

open Text (trim isBlankText)

variable {format : RecordFormat} {marker : List Char}

/-! ### The marker before a body -/

theorem lastStarting_eq_none {texts : List (List Char)} (h : ∀ text ∈ texts, ¬ marker <+: text)
    (number : Nat) : lastStarting marker number texts = none := by
  induction texts generalizing number with
  | nil => rfl
  | cons text texts ih =>
    rw [List.forall_mem_cons] at h
    rw [lastStarting_cons, ih h.2, Option.none_or,
      if_neg (mt List.isPrefixOf_iff_prefix.1 h.1)]

/-- The last line that starts with the marker is found, whatever comes before
it. -/
theorem lastStarting_append {text : List Char} {texts : List (List Char)} (htext : marker <+: text)
    (h : ∀ text ∈ texts, ¬ marker <+: text) (before : List (List Char)) (number : Nat) :
    lastStarting marker number (before ++ text :: texts) = some (number + before.length) := by
  induction before generalizing number with
  | nil =>
    rw [List.nil_append, lastStarting_cons, lastStarting_eq_none h, Option.none_or,
      if_pos (List.isPrefixOf_iff_prefix.2 htext)]
    rfl
  | cons first before ih =>
    rw [List.cons_append, lastStarting_cons, ih, Option.some_or, List.length_cons]
    congr 1
    omega

/-! ### The lines of a body -/

/-- What trimming leaves of the parts of a text that are not blank. -/
def shown (text : List Char) : List (List Char) :=
  ((text.splitOn '\n').map trim).filter (!·.isEmpty)

/-- A section that nothing ends has all lines that are not blank. -/
theorem sectionFrom_text {texts : List (List Char)}
    (h : ∀ text ∈ texts, ¬ format.border <+: text) (number : Nat) :
    (sectionFrom format number texts).map (·.text) = texts.filter (!isBlankText ·) := by
  induction texts generalizing number with
  | nil => rw [sectionFrom_nil]; rfl
  | cons text texts ih =>
    rw [List.forall_mem_cons] at h
    cases hblank : isBlankText text with
    | true => rw [sectionFrom_cons_blank hblank, ih h.2, List.filter_cons_of_neg (by simp [hblank])]
    | false =>
      have hend : (format.endsAtTilde && text.head? == some '~') = false := by
        cases format with
        | withWay => rfl
        | simple =>
          rw [Bool.and_eq_false_iff, beq_eq_false_iff_ne]
          right
          intro htilde
          obtain ⟨rest, rfl⟩ := List.head?_eq_some_iff.1 htilde
          exact h.1 ⟨rest, rfl⟩
      rw [sectionFrom_cons_line hblank hend, List.map_cons, ih h.2,
        List.filter_cons_of_pos (by simp [hblank])]

theorem trim_dropReturn (line : List Char) : trim (dropReturn line) = trim line := by
  unfold dropReturn
  split
  · rename_i hlast
    obtain ⟨init, rfl⟩ := List.getLast?_eq_some_iff.1 hlast
    rw [List.dropLast_concat, Text.trim_append_blank (by decide)]
  · rfl

/-- Trimming leaves the same of the lines of a text as of its parts. -/
theorem trim_lines (text : List Char) :
    ((lines text).map trim).filter (!·.isEmpty) = shown text := by
  unfold lines shown
  dsimp only
  obtain ⟨init, last, hparts⟩ :=
    List.eq_nil_or_concat (text.splitOn '\n') |>.resolve_left (List.splitOn_ne_nil _ _)
  have hlast : (([last].filter (!·.isEmpty)).map trim).filter (!·.isEmpty)
      = ([last].map trim).filter (!·.isEmpty) := by
    cases last <;> simp
  rw [hparts, List.concat_eq_append, List.dropLast_concat, List.getLast?_concat,
    Option.toList_some, List.map_append, List.map_append, List.filter_append, List.filter_append,
    hlast, List.map_map]
  congr 3
  funext line
  exact trim_dropReturn line

/-! ### The section of a log -/

/-- **The section of a log is its body**, in so far as it is read. -/
theorem trim_sectionLines {front body : List Char}
    (hmarker : ∃ part, (front.splitOn '\n').getLast? = some part ∧ format.marker.toList <+: part)
    (hbody : ∀ part ∈ body.splitOn '\n', ¬ format.border <+: part) :
    (sectionLines format (front ++ '\n' :: body)).map (fun line => trim line.text)
      = shown body := by
  obtain ⟨part, hpart, hstarts⟩ := hmarker
  obtain ⟨before, hbefore⟩ := List.getLast?_eq_some_iff.1 hpart
  have hborder : ∀ line ∈ lines body, ¬ format.border <+: line := by
    intro line hline hstart
    obtain ⟨part', hpart', hfront⟩ := exists_part_of_mem_lines hline
    exact hbody part' hpart' (hstart.trans hfront)
  -- the marker is the last line before the body
  have hlines : lines (front ++ '\n' :: body)
      = (before.map dropReturn ++ [dropReturn part]) ++ lines body := by
    rw [lines_append_lines, hbefore, List.map_append, List.map_singleton]
  have hpreamble : preamble format (front ++ '\n' :: body)
      = (before.map dropReturn ++ [dropReturn part]).length := by
    unfold preamble markerOf
    rw [hlines, List.append_assoc, List.singleton_append, lastStarting_append]
    · simp
    · exact isPrefix_dropReturn hstarts (by cases format <;> decide)
    · intro line hline hstart
      exact hborder line hline (format.border_isPrefix_marker.trans hstart)
  unfold sectionLines
  rw [hpreamble, hlines, List.drop_left, ← trim_lines]
  have htext := sectionFrom_text hborder (before.map dropReturn ++ [dropReturn part]).length
  -- blank is what trimming leaves nothing of
  have hblank : ((fun text : List Char => !text.isEmpty) ∘ trim) = fun text => !isBlankText text := by
    funext text
    rw [Function.comp_apply, Bool.eq_iff_iff, Bool.not_eq_true', Bool.not_eq_true',
      ← Bool.not_eq_true, ← Bool.not_eq_true, List.isEmpty_iff, Text.trim_eq_nil_iff]
  rw [List.filter_map, hblank, ← htext, List.map_map]
  rfl

/-! ### Bytes -/

/-- The last line of a preamble is a marker line. -/
def EndsWithMarker (format : RecordFormat) (preamble : Bytes) : Prop :=
  ∃ line, (preamble.splitOn newline).getLast? = some line ∧
    Utf8.encode format.marker.toList <+: line

/-- No line of a body ends the section or starts another. -/
def Plain (format : RecordFormat) (body : Bytes) : Prop :=
  ∀ line ∈ body.splitOn newline, ¬ Utf8.encode format.border <+: line

instance (format : RecordFormat) (body : Bytes) : Decidable (Plain format body) :=
  inferInstanceAs (Decidable (∀ line ∈ body.splitOn newline, ¬ Utf8.encode format.border <+: line))

theorem Plain.perm {body body' : Bytes} (h : Plain format body)
    (hp : (body.splitOn newline).Perm (body'.splitOn newline)) : Plain format body' :=
  fun line hline => h line (hp.mem_iff.2 hline)

theorem EndsWithMarker.text {front : List Char} (h : EndsWithMarker format (Utf8.encode front)) :
    ∃ part, (front.splitOn '\n').getLast? = some part ∧ format.marker.toList <+: part := by
  obtain ⟨line, hline, hstarts⟩ := h
  rw [splitOn_encode, List.getLast?_map, Option.map_eq_some_iff] at hline
  obtain ⟨part, hpart, rfl⟩ := hline
  exact ⟨part, hpart, Utf8.encode_isPrefix_iff.1 hstarts⟩

theorem Plain.text {body : List Char} (h : Plain format (Utf8.encode body)) :
    ∀ part ∈ body.splitOn '\n', ¬ format.border <+: part := by
  intro part hpart hstarts
  refine h (Utf8.encode part) ?_ (Utf8.encode_isPrefix_iff.2 hstarts)
  rw [splitOn_encode]
  exact List.mem_map_of_mem hpart

/-- A log that is text stays so if its body is reordered, and then the body of
its text is. -/
theorem exists_reordered {preamble body body' : Bytes} {text : List Char}
    (hp : (body.splitOn newline).Perm (body'.splitOn newline))
    (htext : Utf8.decode? (preamble ++ newline :: body) = some text) :
    ∃ front cs cs', preamble = Utf8.encode front ∧ body = Utf8.encode cs ∧
      body' = Utf8.encode cs' ∧ text = front ++ '\n' :: cs ∧
      Utf8.decode? (preamble ++ newline :: body') = some (front ++ '\n' :: cs') ∧
      (cs.splitOn '\n').Perm (cs'.splitOn '\n') := by
  rw [decode?_append_newline] at htext
  obtain ⟨front, hfront, htext⟩ := Option.bind_eq_some_iff.1 htext
  obtain ⟨cs, hcs, rfl⟩ := Option.map_eq_some_iff.1 htext
  -- the same lines are text
  obtain ⟨cs', hcs'⟩ : ∃ cs', Utf8.decode? body' = some cs' := by
    rw [← Option.ne_none_iff_exists']
    intro hnone
    obtain ⟨line, hline, hbroken⟩ := (decode?_eq_none_iff body').1 hnone
    have hnone := (decode?_eq_none_iff body).2 ⟨line, hp.mem_iff.2 hline, hbroken⟩
    rw [hcs] at hnone
    cases hnone
  obtain rfl := Utf8.encode_of_decode? hfront
  obtain rfl := Utf8.encode_of_decode? hcs
  obtain rfl := Utf8.encode_of_decode? hcs'
  refine ⟨front, cs, cs', rfl, rfl, rfl, rfl, ?_, ?_⟩
  · rw [decode?_append_newline, hfront, hcs']
    rfl
  · rw [splitOn_encode, splitOn_encode] at hp
    exact (List.map_perm_map_iff Utf8.encode_injective).1 hp

theorem shown_perm {cs cs' : List Char} (hp : (cs.splitOn '\n').Perm (cs'.splitOn '\n')) :
    (shown cs).Perm (shown cs') :=
  (hp.map trim).filter _

end Log

end PageWalk
