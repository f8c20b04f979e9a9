/-
PageWalk/Proofs/Log/Layout.lean

Logs made of lines, and what of them is read.

Of a log only this is read: what trimming leaves of the lines that are not
blank, after the last marker and up to the end of the section
(`shownSection`).  How the lines end makes no difference to it
(`Renders.readOf_eq`), because the ends of lines are blank.  `Edit` lists
changes of the lines that make none either (`Edit.readOf_eq`): a blank line
more, another preamble, or something else after the section.
-/
import PageWalk.Proofs.Log.Order
import Mathlib.Logic.Relation

namespace PageWalk

/-! ### Lists -/

section

variable {α : Type} {p q : α → Bool}

theorem takeWhile_filter (h : ∀ x, q x = false → p x = true) (l : List α) :
    (l.filter q).takeWhile p = (l.takeWhile p).filter q := by
  induction l with
  | nil => rfl
  | cons x l ih =>
    cases hq : q x with
    | true => cases hp : p x <;> simp [hq, hp, ih]
    | false => simp [hq, h x hq, ih]

theorem rtakeWhile_filter (h : ∀ x, q x = false → p x = true) (l : List α) :
    (l.filter q).rtakeWhile p = (l.rtakeWhile p).filter q := by
  unfold List.rtakeWhile
  rw [← List.filter_reverse, takeWhile_filter h, List.filter_reverse]

theorem rtakeWhile_map {β : Type} (f : β → α) (l : List β) :
    (l.map f).rtakeWhile p = (l.rtakeWhile (p ∘ f)).map f := by
  unfold List.rtakeWhile
  rw [← List.map_reverse, List.takeWhile_map, List.map_reverse]

theorem rtakeWhile_append {after : List α} (h : ∀ x ∈ after, p x = true) (before : List α) :
    (before ++ after).rtakeWhile p = before.rtakeWhile p ++ after := by
  unfold List.rtakeWhile
  rw [List.reverse_append, List.takeWhile_append_of_pos fun x hx => h x (List.mem_reverse.1 hx),
    List.reverse_append, List.reverse_reverse]

theorem takeWhile_append_cons {x : α} (h : p x = false) (before after : List α) :
    (before ++ x :: after).takeWhile p = before.takeWhile p := by
  induction before with
  | nil => exact List.takeWhile_cons_of_neg (by rw [h]; exact Bool.false_ne_true)
  | cons y before ih => cases hy : p y <;> simp [hy, ih]

theorem rtakeWhile_append_cons {x : α} (h : p x = false) (before after : List α) :
    (before ++ x :: after).rtakeWhile p = after.rtakeWhile p := by
  unfold List.rtakeWhile
  rw [List.reverse_append, List.reverse_cons, List.append_assoc, List.singleton_append,
    takeWhile_append_cons h]

/-- A list ends with what follows its last element of a kind, if there is any. -/
theorem exists_last (p : α → Bool) (l : List α) :
    (∀ x ∈ l, p x = false) ∨ ∃ before x after, l = before ++ x :: after ∧ p x = true ∧
      ∀ y ∈ after, p y = false := by
  induction l with
  | nil => exact Or.inl nofun
  | cons x l ih =>
    rcases ih with hall | ⟨before, y, after, rfl, hy, hafter⟩
    · cases hx : p x with
      | true => exact Or.inr ⟨[], x, l, rfl, hx, hall⟩
      | false => exact Or.inl (List.forall_mem_cons.2 ⟨hx, hall⟩)
    · exact Or.inr ⟨x :: before, y, after, rfl, hy, hafter⟩

end

namespace Log

open Text (trim trimEnd isBlankText)

variable {format : RecordFormat}

/-! ### What is read of some lines -/

/-- Whether a line is a marker. -/
def isMarker (format : RecordFormat) (text : List Char) : Bool :=
  format.marker.toList.isPrefixOf text

theorem isMarker_iff {text : List Char} :
    isMarker format text = true ↔ format.marker.toList <+: text := List.isPrefixOf_iff_prefix

theorem isMarker_eq_false_iff {text : List Char} :
    isMarker format text = false ↔ ¬ format.marker.toList <+: text := by
  rw [← Bool.not_eq_true, isMarker_iff]

/-- The lines after the last marker; all of them if there is none. -/
def afterMarker (format : RecordFormat) (texts : List (List Char)) : List (List Char) :=
  texts.rtakeWhile fun text => !isMarker format text

/-- The lines that are not blank, up to the end of a section. -/
def upToEnd (format : RecordFormat) (texts : List (List Char)) : List (List Char) :=
  let shown := texts.filter fun text => !isBlankText text
  if format.endsAtTilde then shown.takeWhile fun text => text.head? != some '~' else shown

/-- What is read of a section. -/
def shownSection (format : RecordFormat) (texts : List (List Char)) : List (List Char) :=
  (upToEnd format (afterMarker format texts)).map trim

theorem text_sectionFrom (format : RecordFormat) (number : Nat) (texts : List (List Char)) :
    (sectionFrom format number texts).map (·.text) = upToEnd format texts := by
  induction texts generalizing number with
  | nil => cases format <;> rfl
  | cons text texts ih =>
    cases hblank : isBlankText text with
    | true =>
      rw [sectionFrom_cons_blank hblank, ih]
      simp [upToEnd, hblank]
    | false =>
      cases hend : format.endsAtTilde && text.head? == some '~' with
      | true =>
        rw [sectionFrom_cons_end hblank hend]
        simp only [Bool.and_eq_true, beq_iff_eq] at hend
        simp [upToEnd, hblank, hend]
      | false =>
        rw [sectionFrom_cons_line hblank hend, List.map_cons, ih]
        simp only [Bool.and_eq_false_iff, beq_eq_false_iff_ne] at hend
        rcases hend with hend | hend
        · simp [upToEnd, hblank, hend]
        · cases hformat : format.endsAtTilde <;> simp [upToEnd, hblank, hformat, hend]

theorem afterMarker_of_none {texts : List (List Char)}
    (h : ∀ text ∈ texts, isMarker format text = false) : afterMarker format texts = texts :=
  List.rtakeWhile_eq_self_iff.2 fun text htext => by rw [h text htext]; rfl

theorem afterMarker_append_marker {marker : List Char} (h : isMarker format marker = true)
    (before after : List (List Char)) :
    afterMarker format (before ++ marker :: after) = afterMarker format after :=
  rtakeWhile_append_cons (by rw [h]; rfl) before after

theorem drop_preamble (format : RecordFormat) (text : List Char) :
    (lines text).drop (preamble format text) = afterMarker format (lines text) := by
  unfold preamble markerOf
  rcases exists_last (isMarker format) (lines text) with
    hnone | ⟨before, marker, after, heq, hmarker, hafter⟩
  · rw [lastStarting_eq_none fun line hline => isMarker_eq_false_iff.1 (hnone line hline),
      afterMarker_of_none hnone]
    rfl
  · rw [heq, lastStarting_append (isMarker_iff.1 hmarker)
        fun line hline => isMarker_eq_false_iff.1 (hafter line hline),
      afterMarker_append_marker hmarker, afterMarker_of_none hafter, Nat.zero_add,
      List.append_cons]
    exact List.drop_left' (by simp)

/-- **The section of a text** is what is shown of its lines. -/
theorem trim_text_sectionLines (format : RecordFormat) (text : List Char) :
    (sectionLines format text).map (fun line => trim line.text)
      = shownSection format (lines text) := by
  unfold shownSection
  rw [← drop_preamble, ← text_sectionFrom format (preamble format text), List.map_map]
  rfl

/-! ### Blank lines and the ends of lines -/

/-- Lines without their trailing blanks, and without blank lines. -/
def core (texts : List (List Char)) : List (List Char) :=
  (texts.map trimEnd).filter fun text => !text.isEmpty

/-- The end of a line does not make it a marker. -/
theorem isMarker_trimEnd (format : RecordFormat) (text : List Char) :
    isMarker format (trimEnd text) = isMarker format text := by
  obtain ⟨init, hmarker⟩ : ∃ init, format.marker.toList = init ++ ['~'] := by
    cases format
    · exact ⟨"~~~~~~~~~~~~~~".toList, by decide⟩
    · exact ⟨"~~~~~~ full stats with way ~~~~~".toList, by decide⟩
  rw [Bool.eq_iff_iff, isMarker_iff, isMarker_iff, hmarker]
  exact Text.isPrefix_trimEnd_iff rfl

theorem head?_trimEnd_ne (text : List Char) :
    ((trimEnd text).head? != some '~') = (text.head? != some '~') := by
  have hstarts : ∀ cs : List Char, (cs.head? != some '~') = false ↔ [] ++ ['~'] <+: cs := by
    intro cs
    rcases cs with - | ⟨c, cs⟩
    · simp
    · rw [List.head?_cons, bne_eq_false_iff_eq, Option.some_inj]
      constructor
      · rintro rfl
        exact ⟨cs, rfl⟩
      · rintro ⟨rest, heq⟩
        exact (List.cons.inj heq).1.symm
  rw [Bool.eq_iff_iff, ← not_iff_not, Bool.not_eq_true, Bool.not_eq_true, hstarts, hstarts]
  exact Text.isPrefix_trimEnd_iff rfl

theorem isBlankText_trimEnd (text : List Char) : isBlankText (trimEnd text) = isBlankText text := by
  rw [← Text.isEmpty_trimEnd, ← Text.isEmpty_trimEnd]
  exact congrArg List.isEmpty (List.rdropWhile_idempotent _ _)

theorem shownSection_map_trimEnd (format : RecordFormat) (texts : List (List Char)) :
    shownSection format (texts.map trimEnd) = shownSection format texts := by
  have hafter : afterMarker format (texts.map trimEnd) = (afterMarker format texts).map trimEnd := by
    unfold afterMarker
    rw [rtakeWhile_map]
    congr 2
    funext text
    exact congrArg _ (isMarker_trimEnd format text)
  have hend : ∀ texts, upToEnd format (texts.map trimEnd) = (upToEnd format texts).map trimEnd := by
    intro texts
    unfold upToEnd
    simp only [List.filter_map, List.takeWhile_map, Function.comp_def, isBlankText_trimEnd,
      head?_trimEnd_ne]
    split <;> rfl
  unfold shownSection
  rw [hafter, hend, List.map_map]
  congr 1
  funext text
  exact Text.trim_trimEnd text

theorem shownSection_filter (format : RecordFormat) (texts : List (List Char)) :
    shownSection format (texts.filter fun text => !isBlankText text) = shownSection format texts := by
  -- no blank line is a marker
  have hmarker : ∀ text, (!isBlankText text) = false →
      (!isMarker format text) = true := by
    intro text hblank
    rw [← Text.isEmpty_trimEnd, Bool.not_eq_false', List.isEmpty_iff] at hblank
    rw [← isMarker_trimEnd, hblank]
    cases format <;> rfl
  unfold shownSection afterMarker upToEnd
  rw [rtakeWhile_filter hmarker]
  simp only [List.filter_filter, Bool.and_self]

/-- What is shown of some lines depends on their core only. -/
theorem shownSection_core (format : RecordFormat) (texts : List (List Char)) :
    shownSection format (core texts) = shownSection format texts := by
  have hcore : core texts = (texts.filter fun text => !isBlankText text).map trimEnd := by
    unfold core
    rw [List.filter_map]
    simp only [Function.comp_def, Text.isEmpty_trimEnd]
  rw [hcore, shownSection_map_trimEnd, shownSection_filter]

theorem core_cons (text : List Char) (texts : List (List Char)) :
    core (text :: texts) = core [text] ++ core texts := by
  unfold core
  rw [← List.filter_append, ← List.map_append, List.singleton_append]

/-! ### Logs made of lines -/

/-- The byte that may stand before the end of a line. -/
def carriageReturn : UInt8 := 0x0D

/-- A log consists of some lines, each with an end of either kind.  The last
line may lack its end. -/
inductive Renders : List Bytes → Bytes → Prop
  | nil : Renders [] []
  | unended {line : Bytes} : newline ∉ line → Renders [line] line
  | ended {line log : Bytes} {ls : List Bytes} : newline ∉ line → Renders ls log →
      Renders (line :: ls) (line ++ newline :: log)
  | returned {line log : Bytes} {ls : List Bytes} : newline ∉ line → Renders ls log →
      Renders (line :: ls) (line ++ carriageReturn :: newline :: log)

/-- What is read of a log that consists of some lines; `none` if one of them is
no text. -/
def readOf (format : RecordFormat) (ls : List Bytes) : Option (List (List Char)) :=
  (ls.mapM Utf8.decode?).map (shownSection format)

theorem trimEnd_dropReturn (line : List Char) : trimEnd (dropReturn line) = trimEnd line := by
  unfold dropReturn
  split
  · rename_i hlast
    obtain ⟨init, rfl⟩ := List.getLast?_eq_some_iff.1 hlast
    rw [List.dropLast_concat, Text.trimEnd_append_blank (by decide)]
  · rfl

theorem decode?_append_return (line : Bytes) :
    Utf8.decode? (line ++ [carriageReturn]) = (Utf8.decode? line).map (· ++ ['\r']) := by
  rw [Utf8.decode?_append_ascii_cons (by decide), Utf8.decode?_nil]
  cases Utf8.decode? line <;> rfl

/-- One more line adds its own core, in the log as among the lines. -/
theorem core_lines_append {line : Bytes} (h : newline ∉ line) (log : Bytes) :
    (Utf8.decode? (line ++ newline :: log)).map (fun text => core (lines text))
      = (Utf8.decode? line).bind fun cs =>
          ((Utf8.decode? log).map fun text => core (lines text)).map (core [cs] ++ ·) := by
  rw [decode?_append_newline]
  rcases hline : Utf8.decode? line with - | cs
  · rfl
  · cases Utf8.decode? log with
    | none => rfl
    | some ds =>
      simp only [Option.bind_some, Option.map_some]
      rw [lines_append (newline_not_mem_of_decode? h hline), core_cons]
      simp only [core, List.map_cons, trimEnd_dropReturn]

theorem core_mapM_cons (line : Bytes) (ls : List Bytes) :
    ((line :: ls).mapM Utf8.decode?).map core
      = (Utf8.decode? line).bind fun cs =>
          ((ls.mapM Utf8.decode?).map core).map (core [cs] ++ ·) := by
  rw [List.mapM_cons]
  rcases Utf8.decode? line with - | cs
  · rfl
  · cases ls.mapM Utf8.decode? with
    | none => rfl
    | some texts => exact congrArg some (core_cons cs texts)

theorem Renders.core {ls : List Bytes} {log : Bytes} (h : Renders ls log) :
    (Utf8.decode? log).map (fun text => core (lines text)) = (ls.mapM Utf8.decode?).map core := by
  induction h with
  | nil => simp
  | unended hline =>
    rename_i line
    rcases hd : Utf8.decode? line with - | text
    · simp [hd]
    · by_cases hne : text = []
      · -- without an end, an empty line is none
        subst hne
        simp [hd, Log.core, trimEnd]
      · simp [hd, lines_of_not_mem (newline_not_mem_of_decode? hline hd) hne]
  | ended hline _ ih => rw [core_lines_append hline, ih, core_mapM_cons]
  | returned hline _ ih =>
    rename_i line log ls _
    have hline' : newline ∉ line ++ [carriageReturn] := by
      rw [List.mem_append, List.mem_singleton]
      exact not_or.2 ⟨hline, by decide⟩
    rw [List.append_cons, core_lines_append hline', ih, core_mapM_cons, decode?_append_return]
    cases Utf8.decode? line with
    | none => rfl
    | some cs =>
      simp only [Option.map_some, Option.bind_some, Log.core, List.map_cons, List.map_nil,
        Text.trimEnd_append_blank (show Text.isBlank '\r' = true by decide)]

/-- **The ends of lines** make no difference to what is read. -/
theorem Renders.readOf_eq {ls : List Bytes} {log : Bytes} (h : Renders ls log)
    (format : RecordFormat) :
    readOf format ls = (Utf8.decode? log).map fun text =>
      (sectionLines format text).map fun line => trim line.text := by
  have hcore := congrArg (Option.map (shownSection format)) h.core
  simp only [Option.map_map, Function.comp_def, shownSection_core] at hcore
  simp only [trim_text_sectionLines]
  exact hcore.symm

/-! ### Changes that are not read -/

/-- Bytes that spell a text. -/
def IsText (line : Bytes) : Prop := ∃ text, Utf8.decode? line = some text

/-- Bytes that spell blanks only. -/
def IsBlank (line : Bytes) : Prop := ∃ text, Utf8.decode? line = some text ∧ isBlankText text = true

/-- Changes of the lines of a log that are not read. -/
inductive Edit : RecordFormat → List Bytes → List Bytes → Prop
  /-- A blank line more, wherever. -/
  | blank {format : RecordFormat} (before after : List Bytes) {line : Bytes} : IsBlank line →
      Edit format (before ++ after) (before ++ line :: after)
  /-- Other lines before a marker. -/
  | preamble {format : RecordFormat} (before before' after : List Bytes) {marker : Bytes} :
      (∀ line ∈ before, IsText line) → (∀ line ∈ before', IsText line) →
      Utf8.encode format.marker.toList <+: marker →
      Edit format (before ++ marker :: after) (before' ++ marker :: after)
  /-- Other lines after a tilde that ends a section of records without ways. -/
  | remainder (before after after' : List Bytes) {tilde : Bytes} :
      Utf8.encode ['~'] <+: tilde → (∀ line ∈ after, IsText line) → (∀ line ∈ after', IsText line) →
      (∀ line ∈ tilde :: (after ++ after'),
        ¬ Utf8.encode RecordFormat.simple.marker.toList <+: line) →
      Edit .simple (before ++ tilde :: after) (before ++ tilde :: after')

section

variable {before after : List (List Char)} {line : List Char}

theorem shownSection_blank (h : isBlankText line = true) (format : RecordFormat) :
    shownSection format (before ++ line :: after) = shownSection format (before ++ after) := by
  rw [← shownSection_filter, ← shownSection_filter format (before ++ after), List.filter_append,
    List.filter_append, List.filter_cons_of_neg (by simp [h])]

/-- Nothing is shown of what comes before a marker. -/
theorem shownSection_marker (h : isMarker format line = true) :
    shownSection format (before ++ line :: after) = shownSection format after := by
  unfold shownSection
  rw [afterMarker_append_marker h]

/-- Nothing is shown of what comes after a tilde, unless it is a marker. -/
theorem shownSection_tilde (h : ['~'] <+: line)
    (hmarker : ∀ text ∈ line :: after, isMarker .simple text = false)
    (before : List (List Char)) :
    shownSection .simple (before ++ line :: after)
      = (upToEnd .simple (afterMarker .simple before)).map trim := by
  obtain ⟨rest, rfl⟩ := h
  have hafter : afterMarker .simple (before ++ (['~'] ++ rest) :: after)
      = afterMarker .simple before ++ (['~'] ++ rest) :: after :=
    rtakeWhile_append (fun text htext => by rw [hmarker text htext]; rfl) before
  have hblank : isBlankText (['~'] ++ rest) = false := rfl
  unfold shownSection
  rw [hafter]
  unfold upToEnd
  dsimp only
  rw [List.filter_append, List.filter_cons_of_pos (by rw [hblank]; rfl)]
  exact congrArg _ (takeWhile_append_cons rfl _ _)

end

theorem exists_texts {ls : List Bytes} (h : ∀ line ∈ ls, IsText line) :
    ∃ texts, ls.mapM Utf8.decode? = some texts ∧ ls = texts.map Utf8.encode := by
  induction ls with
  | nil => exact ⟨[], rfl, rfl⟩
  | cons line ls ih =>
    rw [List.forall_mem_cons] at h
    obtain ⟨⟨text, htext⟩, hls⟩ := h
    obtain ⟨texts, htexts, rfl⟩ := ih hls
    refine ⟨text :: texts, ?_, ?_⟩
    · rw [List.mapM_cons, htext, htexts]
      rfl
    · rw [List.map_cons, Utf8.encode_of_decode? htext]

/-- What is read of lines among which one stands out. -/
theorem readOf_append_cons (format : RecordFormat) (before : List Bytes) (line : Bytes)
    (after : List Bytes) :
    readOf format (before ++ line :: after) = (before.mapM Utf8.decode?).bind fun texts =>
      (Utf8.decode? line).bind fun text =>
        (after.mapM Utf8.decode?).map fun texts' =>
          shownSection format (texts ++ text :: texts') := by
  unfold readOf
  rw [List.mapM_append, List.mapM_cons]
  cases before.mapM Utf8.decode? <;> cases Utf8.decode? line <;> cases after.mapM Utf8.decode? <;>
    rfl

/-- **An edit** makes no difference to what is read. -/
theorem Edit.readOf_eq {ls ls' : List Bytes} (h : Edit format ls ls') :
    readOf format ls = readOf format ls' := by
  cases h with
  | blank before after hblank =>
    obtain ⟨text, htext, hblank⟩ := hblank
    rw [readOf_append_cons, htext]
    unfold readOf
    rw [List.mapM_append]
    rcases before.mapM Utf8.decode? with - | texts
    · rfl
    · rcases after.mapM Utf8.decode? with - | texts'
      · rfl
      · exact congrArg some (shownSection_blank hblank format).symm
  | preamble before before' after hbefore hbefore' hmarker =>
    rename_i marker
    obtain ⟨texts, htexts, -⟩ := exists_texts hbefore
    obtain ⟨texts', htexts', -⟩ := exists_texts hbefore'
    rw [readOf_append_cons, readOf_append_cons, htexts, htexts']
    rcases htext : Utf8.decode? marker with - | text
    · rfl
    · obtain rfl := Utf8.encode_of_decode? htext
      have hstarts := isMarker_iff.2 (Utf8.encode_isPrefix_iff.1 hmarker)
      simp only [Option.bind_some, shownSection_marker hstarts]
  | remainder before after after' htilde hafter hafter' hmarker =>
    rename_i tilde
    obtain ⟨texts, htexts, rfl⟩ := exists_texts hafter
    obtain ⟨texts', htexts', rfl⟩ := exists_texts hafter'
    rw [readOf_append_cons, readOf_append_cons, htexts, htexts']
    rcases htext : Utf8.decode? tilde with - | text
    · rfl
    · obtain rfl := Utf8.encode_of_decode? htext
      have hstarts := Utf8.encode_isPrefix_iff.1 htilde
      rw [← List.map_append, ← List.map_cons, List.forall_mem_map] at hmarker
      have hnone : ∀ line ∈ text :: (texts ++ texts'), isMarker .simple line = false :=
        fun line hline => isMarker_eq_false_iff.2 fun h =>
          hmarker line hline (Utf8.encode_isPrefix_iff.2 h)
      have hleft := shownSection_tilde hstarts fun line hline =>
        hnone line (List.cons_subset_cons _ (List.subset_append_left _ _) hline)
      have hright := shownSection_tilde hstarts fun line hline =>
        hnone line (List.cons_subset_cons _ (List.subset_append_right _ _) hline)
      simp only [Option.bind_some, Option.map_some, hleft, hright]

/-- Nor do several, made or undone. -/
theorem readOf_eq_of_edits {ls ls' : List Bytes} (h : Relation.EqvGen (Edit format) ls ls') :
    readOf format ls = readOf format ls' := by
  induction h with
  | rel _ _ hedit => exact hedit.readOf_eq
  | refl _ => rfl
  | symm _ _ _ ih => exact ih.symm
  | trans _ _ _ _ _ ih ih' => exact ih.trans ih'

end Log

end PageWalk
