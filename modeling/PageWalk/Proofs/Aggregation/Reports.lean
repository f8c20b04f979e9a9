/-
PageWalk/Proofs/Aggregation/Reports.lean

The reports of a run are read back.

All doubles of a report are means over its requests (`reduceLog_means`), so
they are finite if there are any, and no numbers if there are none.  Of a log
without requests no report is saved, only a copy (`saveResults_copies`): its
report could be written, but not read (`Report.read_write_of_not_finite`).
What is saved is read back (`reports_read_back`).
-/
import PageWalk.Proofs.Aggregation.Targets
import PageWalk.Proofs.Report

namespace PageWalk.Aggregation

open Log (Reader)
open Reduction (Reached)

variable {config : RunConfig} {file : LogFile} {report : Report} {t t' : FileTree}

/-! ### Means -/

theorem reduceSection_means {log : Bytes} {reader : Reader} {out : Reduction.Output}
    (hopen : Reader.ofLog config.design.format log = .ok reader)
    (h : (reduceSection config reader).1 = .ok out) :
    ∀ x ∈ out.statistics.summary.floats,
      ∃ total, x = meanOf total out.statistics.summary.totalRequests := by
  unfold reduceSection at h
  cases hdesign : config.design with
  | radix =>
    rw [hdesign] at h
    obtain ⟨_, _, final, -, -, -, -, -, hstatistics⟩ := Reduction.reduce_ok hopen h
    rw [hstatistics]
    exact List.forall_mem_singleton.2 ⟨final.latency.total, rfl⟩
  | ecpt =>
    rw [hdesign] at h
    obtain ⟨_, _, final, -, -, -, -, htakes, hstatistics⟩ := Reduction.reduce_ok hopen h
    have hbounded := (Reduction.reached_ecpt (Reached.start.takeAll htakes)).1
    rw [hstatistics]
    -- all models have the same requests
    have hmax : final.max.mean = meanOf final.max.total final.totalRequests := by
      rw [← hbounded.max_requests]
      rfl
    have hparallel : final.parallel.mean = meanOf final.parallel.total final.totalRequests := by
      rw [← hbounded.parallel_requests]
      rfl
    show ∀ x ∈ [final.max.mean, final.correct.mean, final.parallel.mean,
      meanOf final.savedLatency final.totalRequests], ∃ total, x = meanOf total final.totalRequests
    simp only [List.forall_mem_cons]
    exact ⟨⟨_, hmax⟩, ⟨_, rfl⟩, ⟨_, hparallel⟩, ⟨_, rfl⟩, nofun⟩

theorem reduceLog_means {log : Bytes} (h : (reduceLog config file log).1 = .ok report) :
    ∀ x ∈ report.statistics.summary.floats,
      ∃ total, x = meanOf total report.statistics.summary.totalRequests := by
  obtain ⟨reader, out, hopen, hsection, rfl⟩ := reduceLog_eq_ok h
  exact reduceSection_means hopen hsection

/-! ### Saving -/

/-- Where the copy of a log is saved in a directory. -/
def copyTargets (d : Path) (file : LogFile) : List Location :=
  match file.path.fileName? with
  | none => []
  | some name => [(d.join name).location]

/-- Two trees have the same everywhere but at some locations. -/
def AgreeBut (ls : List Location) (t t' : FileTree) : Prop := ∀ l ∉ ls, t'.entry? l = t.entry? l

theorem agreeBut_copy {source target : Path} (hok : t.copy source target = .ok t') :
    AgreeBut [target.location] t t' := by
  intro l hl
  have hne : l ≠ target.location := fun heq => hl (List.mem_singleton.2 heq)
  obtain ⟨_, emptied, _, -, hempty, -, hwrite⟩ := FileTree.copy_ok hok
  obtain ⟨-, -, -, rfl⟩ := FileTree.write_ok hempty
  obtain ⟨-, -, -, rfl⟩ := FileTree.write_ok hwrite
  rw [FileTree.get_put_ne hne, FileTree.get_put_ne hne]

/-- Without requests, nothing is saved but the copy of the log. -/
theorem saveResults_copies (hzero : report.statistics.summary.totalRequests.val = 0) (d : Path)
    (t : FileTree) :
    AgreeBut (copyTargets d file) t (saveResults (m := StateM FileTree) d file report t).2 := by
  unfold copyTargets
  rcases hname : file.path.fileName? with - | name
  · unfold saveResults
    rw [hname, if_pos hzero]
    exact fun _ _ => rfl
  · rw [saveResults_eq d hname, if_pos hzero]
    show AgreeBut [(d.join name).location] t
      (FileTree.update (·.copy file.path (d.join name)) t).2
    unfold FileTree.update
    split
    · rename_i hcopy
      exact agreeBut_copy hcopy
    · exact fun _ _ => rfl

/-! ### Reports -/

theorem isSome_text?_of_write {path : Path}
    (h : (report.write (m := StateM FileTree) path t).1 = .ok ()) :
    report.log.text?.isSome = true := by
  obtain ⟨hwhole, -⟩ := write_report_ok (Prod.ext h rfl)
  unfold Report.contents at hwhole
  rcases htext : report.log.text? with - | log
  · rw [htext] at hwhole
    cases hwhole
  · rfl

/-- **Reports are read back.**  Where a file can be put, a report on a log with
a path that is a text is written, and read back as it was, whatever its texts
and counts, if its doubles are finite and the text of each is read back.  What
is saved of a log is such a report: if there were requests, all of its means are
finite, and what is written whole names its log.  Of a log without requests,
whose means are no numbers, nothing is saved but its copy. -/
theorem reports_read_back {report : Report} {t : FileTree} {path : Path} {l : Location}
    (h : report.Legible)
    (hfloats : ∀ x ∈ report.statistics.summary.floats, x.isFinite = true →
      Json.float? (.ofFloat x) = some x)
    (hplace : t.place path = .ok l) :
    (∃ t', report.write (m := StateM FileTree) path t = (.ok (), t') ∧
      Report.read (m := StateM FileTree) path t' = (.ok report, t')) ∧
    ∀ (config : RunConfig) (file : LogFile) (log : Bytes) (saved : Report),
      (reduceLog config file log).1 = .ok saved →
      (saved.statistics.summary.totalRequests.val ≠ 0 → ∀ (path' : Path) (t' : FileTree),
        (saved.write (m := StateM FileTree) path' t').1 = .ok () → saved.Legible) ∧
      (saved.statistics.summary.totalRequests.val = 0 →
        (∀ x ∈ saved.statistics.summary.floats, x.isNaN = true) ∧
        ∀ (d : Path) (t' : FileTree), AgreeBut (copyTargets d file) t'
          (saveResults (m := StateM FileTree) d file saved t').2) := by
  refine ⟨Report.read_write h (fun x hx => hfloats x hx (h.finite x hx)) hplace, ?_⟩
  intro config file log saved hsaved
  have hmeans := reduceLog_means hsaved
  constructor
  · intro hrequests path' t' hwrite
    refine ⟨isSome_text?_of_write hwrite, fun x hx => ?_⟩
    obtain ⟨total, rfl⟩ := hmeans x hx
    exact LatencyStats.isFinite_meanOf total hrequests
  · intro hzero
    refine ⟨fun x hx => ?_, fun d t' => saveResults_copies hzero d t'⟩
    obtain ⟨total, rfl⟩ := hmeans x hx
    exact LatencyStats.isNaN_meanOf total hzero

/-- A report with marks in its texts, counts up to the largest and a sum past
64 bits; and the reports of a log with requests and of one without. -/
theorem reports_read_back_of_three_reports :
    let largest : Count := .ofNat 18446744073709551615
    let report : Report :=
      { benchmark := "gups \"8\"\n\\é", log := .ofString "logs/gups.log", preset := "\t"
        issues := ⟨0, largest⟩
        statistics :=
          { summary := .ecpt ⟨210.0, 64.5, -0.0, .ofNat 19600000000000000000, 146.25, .ofNat 5⟩
            histograms := .ofList [("max", ⟨.ofList [(largest, largest), (0, .ofNat 7)]⟩)]
            breakdown := some ⟨[.empty, .ofList [(.llc, largest), (.zero, 0)]]⟩ } }
    let path := Path.ofString "gups.json"
    let file : LogFile := ⟨"gups", .ofString "logs/gups_dyna.log"⟩
    let reduced (log : String) := (reduceLog standardConfig file (Utf8.encode log.toList)).1
    (∃ t', report.write (m := StateM FileTree) path .empty = (.ok (), t') ∧
      Report.read (m := StateM FileTree) path t' = (.ok report, t')) ∧
    (∃ saved, reduced "L1,MEMORY,10\nPWC,L2,5\n" = .ok saved ∧ saved.Legible) ∧
    ∃ saved, reduced "L1,MEMORY,0\n" = .ok saved ∧
      ∀ x ∈ saved.statistics.summary.floats, x.isNaN = true := by
  intro largest report path file reduced
  have hlegible : report.Legible := ⟨by decide +kernel, by decide +kernel⟩
  have hplace : FileTree.empty.place path = .ok [Utf8.encode "gups.json".toList] := by
    decide +kernel
  obtain ⟨hback, hsaved⟩ := reports_read_back hlegible (by decide +kernel) hplace
  have hbusy : (reduced "L1,MEMORY,10\nPWC,L2,5\n").toOption.any (fun saved =>
      saved.statistics.summary.totalRequests.val != 0 &&
        (saved.write (m := StateM FileTree) path .empty).1.isOk) = true := by
    decide +kernel
  have hidle : (reduced "L1,MEMORY,0\n").toOption.any
      (fun saved => saved.statistics.summary.totalRequests.val == 0) = true := by
    decide +kernel
  refine ⟨hback, ?_, ?_⟩
  · obtain ⟨saved, hok, hrequests⟩ := exists_report hbusy
    rw [Bool.and_eq_true, bne_iff_ne] at hrequests
    have hwritten : (saved.write (m := StateM FileTree) path .empty).1 = .ok () := by
      obtain ⟨-, hwhole⟩ := hrequests
      rcases hwrite : (saved.write (m := StateM FileTree) path .empty).1 with e | u
      · rw [hwrite] at hwhole
        cases hwhole
      · rfl
    exact ⟨saved, hok, (hsaved standardConfig file _ saved hok).1 hrequests.1 path _ hwritten⟩
  · obtain ⟨saved, hok, hzero⟩ := exists_report hidle
    exact ⟨saved, hok, ((hsaved standardConfig file _ saved hok).2 (beq_iff_eq.1 hzero)).1⟩

end PageWalk.Aggregation
