/-
PageWalk/Proofs/Record.lean

What reading a line as a record gives: an error only for a way outside the
walk, and the issues in the order in which `Issue.Precedes` puts them.
-/
import PageWalk.Record
import Mathlib.Data.List.Pairwise

namespace PageWalk

/-- The order of the issues of a record: unknown labels by their positions,
and the malformed field after them. -/
def Issue.Precedes : Issue → Issue → Prop
  | unknownLabel position _, unknownLabel position' _ => position < position'
  | unknownLabel .., malformedField .. => True
  | malformedField .., _ => False

namespace Record

/-- Only a way outside the walk makes a record unreadable. -/
theorem parse_error {format : RecordFormat} {text : List Char} {c : Cause}
    (h : parse format text = .error c) : ∃ way probes, c = .wayOutOfRange way probes := by
  unfold parse at h
  split at h
  · cases h
  · dsimp only at h
    split at h
    · cases h
      exact ⟨_, _, rfl⟩
    · cases h

/-! ### The order of issues -/

theorem exists_of_mem_labelIssues {fields : List (List Char)} {issue : Issue}
    (h : issue ∈ labelIssues fields) : ∃ position label, issue = .unknownLabel position label := by
  obtain ⟨⟨field, position⟩, -, hissue⟩ := List.mem_filterMap.1 h
  dsimp only at hissue
  split at hissue
  · cases hissue
  · exact ⟨_, _, (Option.some.inj hissue).symm⟩

theorem labelIssues_pairwise (fields : List (List Char)) :
    (labelIssues fields).Pairwise Issue.Precedes := by
  have hpositions : fields.zipIdx.Pairwise fun p q => p.2 < q.2 := by
    rw [← List.pairwise_map (f := Prod.snd) (R := (· < ·)), List.zipIdx_map_snd]
    exact List.pairwise_lt_range'
  refine List.Pairwise.filterMap _ ?_ hpositions
  rintro ⟨field, position⟩ ⟨field', position'⟩ hlt issue hissue issue' hissue'
  dsimp only at hissue hissue'
  split at hissue
  · cases hissue
  · split at hissue'
    · cases hissue'
    · obtain rfl := Option.some.inj hissue
      obtain rfl := Option.some.inj hissue'
      exact hlt

/-- The last field of a record has one issue at most. -/
def IsLastFieldIssue (issues : List Issue) : Prop :=
  issues = [] ∨ ∃ field value, issues = [.malformedField field value]

theorem frequencyField_issues (field : List Char) : IsLastFieldIssue (frequencyField field).2 := by
  unfold frequencyField
  split
  · exact Or.inl rfl
  · exact Or.inr ⟨_, _, rfl⟩

theorem wayField_issues (field : List Char) : IsLastFieldIssue (wayField field).2 := by
  unfold wayField
  dsimp only
  split
  · split
    · exact frequencyField_issues _
    · exact Or.inr ⟨_, _, rfl⟩
  · exact Or.inr ⟨_, _, rfl⟩

theorem pairwise_append_lastFieldIssue (fields : List (List Char)) {issues : List Issue}
    (h : IsLastFieldIssue issues) : (labelIssues fields ++ issues).Pairwise Issue.Precedes := by
  rcases h with rfl | ⟨field, value, rfl⟩
  · rw [List.append_nil]
    exact labelIssues_pairwise fields
  · refine List.pairwise_append.2 ⟨labelIssues_pairwise fields, List.pairwise_singleton _ _, ?_⟩
    intro issue hissue issue' hissue'
    obtain ⟨position, label, rfl⟩ := exists_of_mem_labelIssues hissue
    obtain rfl := List.mem_singleton.1 hissue'
    exact trivial

/-- **The issues of a record** come in their order. -/
theorem parse_issues_pairwise {format : RecordFormat} {text : List Char} {parsed : ParsedRecord}
    (h : parse format text = .ok parsed) : parsed.issues.Pairwise Issue.Precedes := by
  unfold parse at h
  dsimp only at h
  split at h
  · obtain rfl := Except.ok.inj h
    exact pairwise_append_lastFieldIssue _ (frequencyField_issues _)
  · split at h
    · cases h
    · obtain rfl := Except.ok.inj h
      exact pairwise_append_lastFieldIssue _ (wayField_issues _)

end Record

end PageWalk
