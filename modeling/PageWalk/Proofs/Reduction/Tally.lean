/-
PageWalk/Proofs/Reduction/Tally.lean

The issues of a log can be tallied.  A line has no more issues of a kind than
characters (`Record.countP_issues_le`), so all lines of a section together have
fewer than a counter holds (`exists_tally`), and a lenient reduction passes
over them (`tallyIssues_of`).
-/
import PageWalk.Proofs.Log.Size
import PageWalk.Proofs.Record.Told
import PageWalk.Proofs.Reduction.Lines
import PageWalk.Proofs.Text.Blank

namespace PageWalk

/-! ### The issues of one line -/

namespace Record

variable {format : RecordFormat} {line : List Char} {parsed : ParsedRecord}

/-- A line has no more issues of a kind than characters. -/
theorem countP_issues_le (hblank : Text.isBlankText line = false)
    (h : parse format line = .ok parsed) :
    parsed.issues.countP (·.isUnknownLabel) ≤ line.length ∧
      parsed.issues.countP (·.isMalformedField) ≤ line.length := by
  obtain ⟨labels, hfields, hdepth⟩ := exists_labels line
  obtain ⟨way, n, issues, hending, -, rfl⟩ := (parse_eq_ok_iff hfields format parsed).1 h
  have hlabels : (labelIssues labels).length ≤ line.length :=
    calc (labelIssues labels).length ≤ labels.zipIdx.length := List.length_filterMap_le _ _
      _ = depth line := by rw [List.length_zipIdx, hdepth]
      _ ≤ (Text.trim line).length := List.count_le_length
      _ ≤ line.length := Text.length_trim_le line
  have hlast : issues.countP (·.isUnknownLabel) = 0 ∧ issues.countP (·.isMalformedField) ≤ 1 := by
    rcases hending.isLastFieldIssue with rfl | ⟨field, value, rfl⟩
    · exact ⟨rfl, Nat.zero_le 1⟩
    · exact ⟨rfl, le_rfl⟩
  have hnone : (labelIssues labels).countP (·.isMalformedField) = 0 := by
    rw [List.countP_eq_zero]
    intro issue hissue
    obtain ⟨position, label, rfl⟩ := exists_of_mem_labelIssues hissue
    exact Bool.false_ne_true
  have hpos : 0 < line.length := by
    rw [List.length_pos_iff]
    rintro rfl
    cases hblank
  rw [List.countP_append, List.countP_append, hlast.1, hnone]
  exact ⟨List.countP_le_length.trans hlabels, by omega⟩

end Record

namespace Reduction

open Log (Line)

/-- The issues of a line, if it can be read. -/
def lineIssues (format : RecordFormat) (line : Line) : List Issue :=
  match Record.parse format line.text with
  | .ok parsed => parsed.issues
  | .error _ => []

theorem lineIssues_eq {format : RecordFormat} {line : Line} {parsed : ParsedRecord}
    (h : Record.parse format line.text = .ok parsed) : lineIssues format line = parsed.issues := by
  unfold lineIssues
  rw [h]

theorem countP_lineIssues_le {format : RecordFormat} {line : Line}
    (hblank : Text.isBlankText line.text = false) :
    (lineIssues format line).countP (·.isUnknownLabel) ≤ line.text.length ∧
      (lineIssues format line).countP (·.isMalformedField) ≤ line.text.length := by
  unfold lineIssues
  split
  · rename_i parsed hparse
    exact Record.countP_issues_le hblank hparse
  · exact ⟨Nat.zero_le _, Nat.zero_le _⟩

/-! ### The issues of all lines -/

/-- **The issues of a log can be tallied**, since it has fewer bytes than a
counter holds. -/
theorem exists_tally {log : Bytes} {text : List Char} (hlog : log.length < 2 ^ 64)
    (htext : Utf8.decode? log = some text) (format : RecordFormat) :
    ∃ t : IssueTally, t.Counts ((Log.sectionLines format text).flatMap (lineIssues format)) := by
  have hlength := Nat.lt_of_le_of_lt (Log.sum_length_sectionLines_le htext format) hlog
  have hcount : ∀ kind : Issue → Bool,
      (∀ line ∈ Log.sectionLines format text,
        (lineIssues format line).countP kind ≤ line.text.length) →
      ((Log.sectionLines format text).flatMap (lineIssues format)).countP kind < 2 ^ 64 := by
    intro kind hkind
    rw [List.countP_flatMap]
    exact Nat.lt_of_le_of_lt (List.sum_le_sum hkind) hlength
  refine ⟨⟨⟨_, hcount (·.isUnknownLabel) ?_⟩, ⟨_, hcount (·.isMalformedField) ?_⟩⟩, rfl, rfl⟩
  · intro line hline
    exact (countP_lineIssues_le (Log.not_blank_of_mem_sectionLines hline)).1
  · intro line hline
    exact (countP_lineIssues_le (Log.not_blank_of_mem_sectionLines hline)).2

/-- Issues that can be tallied are passed over by a lenient reduction. -/
theorem tallyIssues_of (verbose : Bool) (number : Nat) {issues seen all : List Issue}
    {t t' : IssueTally} (h : t.Counts seen) (hfits : t'.Counts all)
    (hfront : seen ++ issues <+: all) :
    ∃ tally, tallyIssues ⟨false, verbose⟩ number issues t = .ok tally ∧
      tally.Counts (seen ++ issues) := by
  induction issues generalizing seen t with
  | nil =>
    rw [List.append_nil]
    exact ⟨t, rfl, h⟩
  | cons issue issues ih =>
    rw [List.append_cons] at hfront ⊢
    obtain ⟨tally, hregister⟩ := h.register_of hfits ((List.prefix_append _ _).trans hfront)
    obtain ⟨tally', hrest, hcounts⟩ := ih (h.register hregister) hfront
    refine ⟨tally', ?_, hcounts⟩
    simp only [tallyIssues, Bool.false_eq_true, if_false, hregister]
    exact hrest

end Reduction

end PageWalk
