/-
PageWalk/Proofs/Log/Size.lean

The lines of a section as lines of the log: each is the line of its number
(`getElem?_of_mem_sectionLines`), none is blank, and together they are no
longer than the log (`sum_length_sectionLines_le`).
-/
import PageWalk.Proofs.Log.Section
import Mathlib.Algebra.GroupWithZero.Nat
import Mathlib.Algebra.Order.BigOperators.Group.List
import Mathlib.Algebra.Order.Group.Nat

namespace PageWalk.Log

variable {format : RecordFormat} {number : Nat} {text : List Char} {texts : List (List Char)}
  {line : Line}

/-! ### Each line of a section -/

theorem getElem?_of_mem_sectionFrom (h : line ∈ sectionFrom format number texts) :
    number ≤ line.number ∧ texts[line.number - number]? = some line.text ∧
      Text.isBlankText line.text = false := by
  have hshown : line ∈ ((texts.zipIdx number).map fun e => Line.mk e.2 e.1).filter
      fun line => !Text.isBlankText line.text := by
    unfold sectionFrom at h
    dsimp only at h
    split at h
    · exact (List.takeWhile_sublist _).subset h
    · exact h
  obtain ⟨hmem, hblank⟩ := List.mem_filter.1 hshown
  obtain ⟨⟨text, n⟩, hzip, rfl⟩ := List.mem_map.1 hmem
  obtain ⟨hle, htext⟩ := List.mem_zipIdx_iff_le_and_getElem?_sub.1 hzip
  exact ⟨hle, htext, by simpa using hblank⟩

/-- The number of a line of the section is that of a line of the text. -/
theorem getElem?_of_mem_sectionLines (h : line ∈ sectionLines format text) :
    (lines text)[line.number]? = some line.text := by
  obtain ⟨hle, htext, -⟩ := getElem?_of_mem_sectionFrom h
  rw [List.getElem?_drop] at htext
  rwa [Nat.add_sub_of_le hle] at htext

theorem not_blank_of_mem_sectionLines (h : line ∈ sectionLines format text) :
    Text.isBlankText line.text = false :=
  (getElem?_of_mem_sectionFrom h).2.2

/-! ### All of them -/

theorem sectionFrom_sublist (format : RecordFormat) (number : Nat) (texts : List (List Char)) :
    ((sectionFrom format number texts).map (·.text)).Sublist texts := by
  induction texts generalizing number with
  | nil =>
    rw [sectionFrom_nil]
    exact .slnil
  | cons text texts ih =>
    cases hblank : Text.isBlankText text with
    | true =>
      rw [sectionFrom_cons_blank hblank]
      exact (ih _).cons text
    | false =>
      cases hend : format.endsAtTilde && text.head? == some '~' with
      | true =>
        rw [sectionFrom_cons_end hblank hend]
        exact List.nil_sublist _
      | false =>
        rw [sectionFrom_cons_line hblank hend, List.map_cons]
        exact (ih _).cons_cons text

theorem sum_length_lines_le (text : List Char) :
    ((lines text).map List.length).sum ≤ text.length := by
  induction text using separated_induction '\n' with
  | single text h =>
    by_cases hne : text = []
    · subst hne
      exact le_rfl
    · rw [lines_of_not_mem h hne]
      simp
  | first line rest hline ih =>
    have hlength := (dropReturn_isPrefix line).length_le
    rw [lines_append hline, List.map_cons, List.sum_cons, List.length_append, List.length_cons]
    omega

/-- **The lines of a section** are together no longer than the log. -/
theorem sum_length_sectionLines_le {log : Bytes} (h : Utf8.decode? log = some text)
    (format : RecordFormat) :
    ((sectionLines format text).map (·.text.length)).sum ≤ log.length := by
  have hsub : ((sectionLines format text).map (·.text)).Sublist (lines text) :=
    (sectionFrom_sublist _ _ _).trans (List.drop_sublist _ _)
  calc ((sectionLines format text).map (·.text.length)).sum
      = (((sectionLines format text).map (·.text)).map List.length).sum := by
        rw [List.map_map]
        rfl
    _ ≤ ((lines text).map List.length).sum := (hsub.map _).sum_le_sum fun _ _ => Nat.zero_le _
    _ ≤ text.length := sum_length_lines_le text
    _ ≤ log.length := by
        rw [← Utf8.encode_of_decode? h]
        exact Utf8.length_le_length_encode text

end PageWalk.Log
