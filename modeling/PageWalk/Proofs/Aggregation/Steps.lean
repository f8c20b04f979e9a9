/-
PageWalk/Proofs/Aggregation/Steps.lean

What a run does with one log.

A log whose benchmark has a row is passed over, and one whose failure is
fatal ends the run.  Any other adds its row and its issues to the state
(`Added`), and what is saved of it changes entries of the results directory
only, so all paths outside are read as before (`step_added`).
-/
import PageWalk.Proofs.Aggregation.Outcome
import PageWalk.Proofs.LogFile

namespace PageWalk

/-! ### Tallies -/

namespace IssueTally

/-- The number of issues, whatever their kind. -/
def count (t : IssueTally) : Nat := t.unknownLabels.val + t.malformedFields.val

end IssueTally

namespace Aggregation

open FileTree (ChangesOnly)

/-! ### Saving results -/

/-- The name of the report of a benchmark. -/
def reportName (benchmark : String) : Bytes := Utf8.encode (benchmark ++ ".json").toList

theorem slash_not_mem_report {benchmark : String} (h : '/' ∉ benchmark.toList) :
    Path.slash ∉ reportName benchmark := by
  intro hmem
  have hchar := Utf8.mem_of_ascii_mem_encode (by decide) hmem
  rw [String.toList_append, List.mem_append] at hchar
  rcases hchar with hchar | hchar
  · exact h hchar
  · revert hchar
    decide

theorem reportName_ne (benchmark : String) {name : Bytes} (h : name.length < 5) :
    reportName benchmark ≠ name := by
  rintro rfl
  unfold reportName at h
  rw [String.toList_append, Utf8.encode_append, List.length_append] at h
  exact absurd h (Nat.not_lt.2 (Nat.le_add_left _ _))

/-- Where the report of a benchmark is saved. -/
theorem location_reportPath (d : Path) {benchmark : String} (h : '/' ∉ benchmark.toList) :
    (reportPath d benchmark).location = d.location ++ [reportName benchmark] :=
  Path.location_join d (reportName_ne _ (by decide)) (slash_not_mem_report h)
    (reportName_ne _ (by decide)) (reportName_ne _ (by decide))

/-- A report stands in its directory. -/
theorem isEntryOf_reportPath (d : Path) {benchmark : String} (h : '/' ∉ benchmark.toList) :
    (reportPath d benchmark).location.IsEntryOf d.location :=
  Path.isEntryOf_join d (reportName_ne _ (by decide)) (slash_not_mem_report h)
    (reportName_ne _ (by decide)) (reportName_ne _ (by decide))

variable {config : RunConfig} {results : Option Path} {s s' : State} {t t' : FileTree}
  {f : LogFile}

/-- A state has the row and the issues of one more log. -/
structure Added (benchmark : String) (o : Except Error Report) (s s' : State) : Prop where
  table : s'.table = s.table.insert benchmark (rowOf o)
  unknownLabels : s'.issues.unknownLabels.val
    = s.issues.unknownLabels.val + (tallyOf o).unknownLabels.val
  malformedFields : s'.issues.malformedFields.val
    = s.issues.malformedFields.val + (tallyOf o).malformedFields.val

theorem Added.tell {benchmark : String} {o : Except Error Report} (h : Added benchmark o s s')
    (events : List Event) : Added benchmark o s (s'.tell events) :=
  ⟨h.table, h.unknownLabels, h.malformedFields⟩

theorem Added.count {benchmark : String} {o : Except Error Report} (h : Added benchmark o s s') :
    s'.issues.count = s.issues.count + (tallyOf o).count := by
  unfold IssueTally.count
  rw [h.unknownLabels, h.malformedFields]
  omega

/-- What is outside the results directory, if there is one, is read alike. -/
def SameOutside (results : Option Path) (t t' : FileTree) : Prop :=
  ∀ p : Path, (∀ d, results = some d → ¬ p.LiesIn d) → t'.openFile p = t.openFile p

theorem SameOutside.refl (results : Option Path) (t : FileTree) : SameOutside results t t :=
  fun _ _ => rfl

theorem SameOutside.trans {t'' : FileTree} (h : SameOutside results t t')
    (h' : SameOutside results t' t'') : SameOutside results t t'' :=
  fun p hp => (h' p hp).trans (h p hp)

/-- A log whose benchmark has a row is passed over. -/
theorem step_duplicate (h : s.table.rows.contains f.benchmark = true) :
    step (m := StateM FileTree) config results f s t = ((.ok (), s.tell [.duplicateBenchmark]), t) := by
  unfold step
  rw [if_pos h]
  rfl

/-- What a step does with the first log of a benchmark: with its outcome, and
then with the results. -/
theorem step_new (config : RunConfig) (results : Option Path) (t : FileTree)
    (h : s.table.rows.contains f.benchmark = false) :
    ∃ events, step (m := StateM FileTree) config results f s t =
      match outcome config t f with
      | .error e =>
        if e.cause.isFatal then
          ((.error (e.during (.reduceFile f.path)), s.tell (.reducing :: events)), t)
        else
          ((.ok (), ((s.tell (.reducing :: events)).insert f.benchmark (.failed e.message)).tell
            [.reduceFailed e]), t)
      | .ok report =>
        match (s.tell (.reducing :: events)).take report, results with
        | .error c, _ => ((.error { cause := c }, s.tell (.reducing :: events)), t)
        | .ok s', none => ((.ok (), s'), t)
        | .ok s', some d =>
          match saveResults (m := StateM FileTree) d f report t with
          | (.error e, t') => ((.ok (), s'.tell [.saveFailed e]), t')
          | (.ok (), t') => ((.ok (), s'), t') := by
  obtain ⟨events, hreduce⟩ := reduceFile_eq config t f
  refine ⟨events, ?_⟩
  unfold step
  rw [h, if_neg Bool.false_ne_true]
  simp only [bind, StateT.bind, hreduce]
  rcases outcome config t f with e | report
  · dsimp only
    split <;> rfl
  · dsimp only
    rcases (s.tell (.reducing :: events)).take report with c | s'
    · rfl
    · cases results with
      | none => rfl
      | some d =>
        simp only [bind, StateT.bind]
        rcases saveResults (m := StateM FileTree) d f report t with ⟨e | u, t'⟩ <;> rfl

end Aggregation

end PageWalk
