/-
PageWalk/Proofs/Record/Told.lean

What a line tells of, whether it can be read as a record or not: so many
probes, a way and a frequency.  If it can be read, the record has just these
(`parse_tells`), and only a way that is none of the probes keeps it from being
read (`parse_withWay_of_le`).
-/
import PageWalk.Proofs.Record.Grammar

namespace PageWalk.Record

/-- The number of probes that a line tells of: there is a comma after each. -/
def depth (line : List Char) : Nat := (Text.trim line).count ','

/-- The last field of a line. -/
def lastField (line : List Char) : List Char := (fields line).getLast?.getD []

/-- The way that a line tells of, which is zero if there is none. -/
def wayOf (line : List Char) : Nat := (wayField (lastField line)).1.1

/-- The frequency that a line tells of, which is zero if there is none. -/
def frequencyOf (format : RecordFormat) (line : List Char) : Count :=
  match format with
  | .simple => (frequencyField (lastField line)).1
  | .withWay => (wayField (lastField line)).1.2

theorem exists_labels (line : List Char) :
    ∃ labels, fields line = labels ++ [lastField line] ∧ labels.length = depth line := by
  obtain ⟨labels, last, hfields⟩ := exists_fields line
  have hlength := (separated_iff.2 hfields : Separated ',' (Text.trim line) _).length_eq
  rw [List.length_append, List.length_singleton] at hlength
  have hlast : lastField line = last := by simp [lastField, hfields]
  exact ⟨labels, hlast ▸ hfields, Nat.succ.inj hlength⟩

variable {format : RecordFormat} {line : List Char} {parsed : ParsedRecord}

/-- What is read of a line is what it tells of. -/
theorem parse_tells (h : parse format line = .ok parsed) :
    parsed.record.probes.length = depth line ∧ parsed.record.frequency = frequencyOf format line ∧
      parsed.record.way = match format with
        | .simple => none
        | .withWay => some (wayOf line) := by
  obtain ⟨labels, hfields, hdepth⟩ := exists_labels line
  cases format with
  | simple =>
    rw [parse_simple_eq hfields] at h
    obtain rfl := Except.ok.inj h
    exact ⟨(List.length_map probe).trans hdepth, rfl, rfl⟩
  | withWay =>
    rw [parse_withWay_eq hfields] at h
    split at h
    · cases h
    · obtain rfl := Except.ok.inj h
      exact ⟨(List.length_map probe).trans hdepth, rfl, rfl⟩

theorem exists_parse_simple (line : List Char) : ∃ parsed, parse .simple line = .ok parsed := by
  obtain ⟨labels, hfields, -⟩ := exists_labels line
  exact ⟨_, parse_simple_eq hfields⟩

theorem parse_withWay_of_le (h : depth line ≤ wayOf line) :
    parse .withWay line = .error (.wayOutOfRange (wayOf line) (depth line)) := by
  obtain ⟨labels, hfields, hdepth⟩ := exists_labels line
  rw [← hdepth] at h ⊢
  rw [parse_withWay_eq hfields]
  exact if_pos h

theorem exists_parse_withWay (h : wayOf line < depth line) :
    ∃ parsed, parse .withWay line = .ok parsed := by
  obtain ⟨labels, hfields, hdepth⟩ := exists_labels line
  rw [← hdepth] at h
  rw [parse_withWay_eq hfields]
  exact ⟨_, if_neg (Nat.not_le_of_lt h)⟩

end PageWalk.Record
