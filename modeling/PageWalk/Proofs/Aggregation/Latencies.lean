/-
PageWalk/Proofs/Aggregation/Latencies.lean

The latencies of a run.

A run meets the first log of each benchmark in the tree of files that the logs
before it have left (`Met`).  What one step does to the table (`step_rows`)
makes the rows of a run those of the logs that it meets (`steps_rows`).  A log
that is reduced has the mean latency of its records, which is no number if
there are no requests (`outcome_latency`); the row then says so, and the table
gives no latency for it.  Hence all latencies that a table gives are means
over requests, also after the table was written and read
(`latencies_of_run`).
-/
import PageWalk.Proofs.Aggregation.Isolation
import PageWalk.Proofs.Aggregation.Targets
import PageWalk.Proofs.Aggregation.Table
import PageWalk.Proofs.Comparison.Join
import PageWalk.Proofs.LatencyTable.RoundTrip

namespace PageWalk

/-- The latency of a record in a run: there is one for radix walks, and one
for each metric of cuckoo walks. -/
def RunConfig.latencyOf (config : RunConfig) (metric : Metric) : Record → Nat :=
  match config.design, metric with
  | .radix, _ => Record.walkLatency config.costs
  | .ecpt, .max => Record.maxLatency config.costs config.overheads
  | .ecpt, .correct => Record.correctLatency config.costs config.overheads
  | .ecpt, .parallel => Record.parallelLatency config.costs config.overheads

namespace Aggregation

open Log (Reader)

variable {config : RunConfig} {results : Option Path} {files : List LogFile} {t t₁ : FileTree}
  {f g : LogFile} {report : Report}

/-! ### The mean of a trace -/

/-- The records of the trace that can be read at the path of a log. -/
def Traced (config : RunConfig) (t : FileTree) (f : LogFile) (records : List Record) : Prop :=
  ∃ log text parsed, t.openFile f.path = .ok (.contents log) ∧ Utf8.decode? log = some text ∧
    (Log.sectionLines config.design.format text).mapM
      (fun line => Record.parse config.design.format line.text) = .ok parsed ∧
    records = parsed.map (·.record)

/-- A summary has the mean latency of some records: the quotient of the exact
sums, both rounded to doubles, which is no number exactly if there are no
requests. -/
structure Averages (config : RunConfig) (metric : Metric) (records : List Record)
    (summary : Summary) : Prop where
  requests : summary.totalRequests.val = Record.requests records
  mean : summary.pageWalkLatency metric
    = Float.ofNat (Record.weighted (config.latencyOf metric) records)
      / Float.ofNat (Record.requests records)
  isNaN_iff : (summary.pageWalkLatency metric).isNaN = true ↔ Record.requests records = 0

theorem Averages.of_counts {metric : Metric} {records : List Record} {summary : Summary}
    {f : Record → Nat} {s : LatencyStats} (hf : config.latencyOf metric = f)
    (h : s.Counts f records) (hrequests : summary.totalRequests.val = Record.requests records)
    (hmean : summary.pageWalkLatency metric = s.mean) :
    Averages config metric records summary := by
  refine ⟨hrequests, ?_, ?_⟩
  · rw [hmean, hf]
    exact h.mean_eq.1
  · rw [hmean]
    exact h.mean_eq.2

theorem reduceSection_latency (metric : Metric) {log : Bytes} {reader : Reader}
    {out : Reduction.Output} (hopen : Reader.ofLog config.design.format log = .ok reader)
    (h : (reduceSection config reader).1 = .ok out) :
    ∃ text parsed, Utf8.decode? log = some text ∧
      (Log.sectionLines config.design.format text).mapM
        (fun line => Record.parse config.design.format line.text) = .ok parsed ∧
      Averages config metric (parsed.map (·.record)) out.statistics.summary := by
  unfold reduceSection at h
  cases hdesign : config.design with
  | radix =>
    rw [hdesign] at h hopen
    obtain ⟨text, parsed, final, htext, hparses, -, -, htakes, hstatistics⟩ :=
      Reduction.reduce_ok hopen h
    have hcounts := (Reduction.reached_radix (Reduction.Reached.start.takeAll htakes)).2
    refine ⟨text, parsed, htext, hparses, ?_⟩
    rw [hstatistics]
    exact .of_counts (by simp only [RunConfig.latencyOf, hdesign]) hcounts.latency
      hcounts.latency.requests rfl
  | ecpt =>
    rw [hdesign] at h hopen
    obtain ⟨text, parsed, final, htext, hparses, -, -, htakes, hstatistics⟩ :=
      Reduction.reduce_ok hopen h
    have hcounts := (Reduction.reached_ecpt (Reduction.Reached.start.takeAll htakes)).2
    refine ⟨text, parsed, htext, hparses, ?_⟩
    rw [hstatistics]
    -- the requests are those of the walks that go straight to the correct probe
    have hrequests := hcounts.correct.requests
    cases metric with
    | max => exact .of_counts (by simp only [RunConfig.latencyOf, hdesign]) hcounts.max hrequests rfl
    | correct =>
      exact .of_counts (by simp only [RunConfig.latencyOf, hdesign]) hcounts.correct hrequests rfl
    | parallel =>
      exact .of_counts (by simp only [RunConfig.latencyOf, hdesign]) hcounts.parallel hrequests rfl

/-- **A log that is reduced** has the mean latency of its trace. -/
theorem outcome_latency (h : outcome config t f = .ok report) (metric : Metric) :
    ∃ records, Traced config t f records ∧
      Averages config metric records report.statistics.summary := by
  rcases outcome_cases config t f with ⟨log, hlog, houtcome⟩ | ⟨c, attempts, houtcome⟩
  · rw [houtcome] at h
    obtain ⟨reader, out, hopen, hsection, rfl⟩ := reduceLog_eq_ok h
    obtain ⟨text, parsed, htext, hparses, haverages⟩ :=
      reduceSection_latency metric hopen hsection
    exact ⟨_, ⟨log, text, parsed, hlog, htext, hparses, rfl⟩, haverages⟩
  · rw [houtcome] at h
    cases h

/-! ### The logs that a run meets -/

/-- A run meets a log if no log before it has its benchmark, and then in the
tree that these have left. -/
def Met (config : RunConfig) (results : Option Path) (files : List LogFile) (t : FileTree)
    (f : LogFile) (t₁ : FileTree) : Prop :=
  ∃ before after, files = before ++ f :: after ∧ f.benchmark ∉ before.map (·.benchmark) ∧
    t₁ = treeAfter config results before t

/-- One more log is met if it is the first of its benchmark. -/
theorem met_append_singleton_iff :
    Met config results (files ++ [g]) t f t₁ ↔ Met config results files t f t₁ ∨
      f = g ∧ g.benchmark ∉ files.map (·.benchmark) ∧ t₁ = treeAfter config results files t := by
  constructor
  · rintro ⟨before, after, heq, hnew, rfl⟩
    obtain ⟨rfl, rfl, -⟩ | ⟨rest, -, rfl⟩ := append_singleton_eq_append_cons_iff.1 heq
    · exact Or.inr ⟨rfl, hnew, rfl⟩
    · exact Or.inl ⟨before, rest, rfl, hnew, rfl⟩
  · rintro (⟨before, after, rfl, hnew, rfl⟩ | ⟨rfl, hnew, rfl⟩)
    · exact ⟨before, after ++ [g], List.append_assoc .., hnew, rfl⟩
    · exact ⟨files, [], rfl, hnew, rfl⟩

/-- Of each benchmark, one log is met. -/
theorem exists_met_iff (config : RunConfig) (results : Option Path) (t : FileTree)
    {benchmark : String} : (∃ f t₁, Met config results files t f t₁ ∧ f.benchmark = benchmark) ↔
      benchmark ∈ files.map (·.benchmark) := by
  constructor
  · rintro ⟨f, -, ⟨before, after, rfl, -⟩, rfl⟩
    exact List.mem_map_of_mem (List.mem_append_right _ List.mem_cons_self)
  · intro h
    induction files using List.reverseRecOn with
    | nil => cases h
    | append_singleton files g ih =>
      by_cases hold : benchmark ∈ files.map (·.benchmark)
      · obtain ⟨f, t₁, hmet, hname⟩ := ih hold
        exact ⟨f, t₁, met_append_singleton_iff.2 (Or.inl hmet), hname⟩
      · rw [List.map_append, List.mem_append] at h
        obtain rfl := List.mem_singleton.1 (h.resolve_left hold)
        exact ⟨g, _, met_append_singleton_iff.2 (Or.inr ⟨rfl, hold, rfl⟩), rfl⟩

/-! ### The rows of a run -/

/-- **What a step does to the table**: a log whose benchmark has a row leaves
it, and any other adds its row. -/
theorem step_rows {s s' : State} {t' : FileTree}
    (hok : step (m := StateM FileTree) config results f s t = ((.ok (), s'), t')) :
    s'.table.rows = if s.table.rows.contains f.benchmark = true then s.table.rows
      else s.table.rows.insert f.benchmark (rowOf (outcome config t f)) := by
  cases hnew : s.table.rows.contains f.benchmark with
  | true =>
    rw [step_duplicate hnew] at hok
    cases hok
    rfl
  | false =>
    obtain ⟨events, hstep⟩ := step_new config results t hnew
    rw [hstep] at hok
    rw [if_neg Bool.false_ne_true]
    rcases houtcome : outcome config t f with e | report
    · rw [houtcome] at hok
      dsimp only at hok
      split at hok
      · cases hok
      · cases hok
        rfl
    · rw [houtcome] at hok
      dsimp only at hok
      rcases htake : (s.tell (.reducing :: events)).take report with c | s₁
      · rw [htake] at hok
        cases hok
      · have hrows : s₁.table.rows
            = s.table.rows.insert f.benchmark (rowOf (.ok report)) := by
          obtain ⟨told, -, htaken⟩ := bind_eq_ok_iff.1 htake
          obtain ⟨issues, -, htaken⟩ := bind_eq_ok_iff.1 htaken
          obtain rfl := Except.ok.inj htaken
          rw [← (outcome_ok houtcome).1]
          rfl
        rw [htake] at hok
        -- what is saved changes no row
        cases results with
        | none =>
          cases hok
          exact hrows
        | some d =>
          dsimp only at hok
          split at hok <;> cases hok <;> exact hrows

/-- The rows are those of the logs that a run meets. -/
def RowsOf (config : RunConfig) (results : Option Path) (files : List LogFile) (t : FileTree)
    (rows : SortedMap String LatencyTable.Row) : Prop :=
  ∀ benchmark row, rows.get? benchmark = some row ↔ ∃ f t₁, Met config results files t f t₁ ∧
    f.benchmark = benchmark ∧ rowOf (outcome config t₁ f) = row

namespace RowsOf

variable {rows : SortedMap String LatencyTable.Row}

theorem nil (config : RunConfig) (results : Option Path) (t : FileTree) :
    RowsOf config results [] t .empty := by
  intro benchmark row
  refine iff_of_false nofun ?_
  rintro ⟨f, -, ⟨before, after, heq, -⟩, -⟩
  cases before <;> cases heq

theorem contains_iff (h : RowsOf config results files t rows) (benchmark : String) :
    rows.contains benchmark = true ↔ benchmark ∈ files.map (·.benchmark) := by
  unfold SortedMap.contains
  rw [Option.isSome_iff_exists, ← exists_met_iff config results t]
  simp only [h benchmark]
  constructor
  · rintro ⟨row, f, t₁, hmet, hname, -⟩
    exact ⟨f, t₁, hmet, hname⟩
  · rintro ⟨f, t₁, hmet, hname⟩
    exact ⟨_, f, t₁, hmet, hname, rfl⟩

/-- A log whose benchmark is not new adds no row. -/
theorem old (h : RowsOf config results files t rows)
    (hold : g.benchmark ∈ files.map (·.benchmark)) :
    RowsOf config results (files ++ [g]) t rows := by
  intro benchmark row
  rw [h benchmark row]
  simp only [met_append_singleton_iff, hold, not_true_eq_false, false_and, and_false, or_false]

/-- A log whose benchmark is new adds one. -/
theorem new (h : RowsOf config results files t rows)
    (hnew : g.benchmark ∉ files.map (·.benchmark)) :
    RowsOf config results (files ++ [g]) t (rows.insert g.benchmark
      (rowOf (outcome config (treeAfter config results files t) g))) := by
  intro benchmark row
  rw [SortedMap.get?_insert]
  split
  · -- no log before is of this benchmark
    rename_i hname
    subst hname
    constructor
    · intro hrow
      exact ⟨g, _, met_append_singleton_iff.2 (Or.inr ⟨rfl, hnew, rfl⟩), rfl, Option.some.inj hrow⟩
    · rintro ⟨f, t₁, hmet, hname, rfl⟩
      rcases met_append_singleton_iff.1 hmet with hmet | ⟨rfl, -, rfl⟩
      · exact absurd ((exists_met_iff config results t).1 ⟨f, t₁, hmet, hname⟩) hnew
      · rfl
  · rename_i hname
    rw [h benchmark row]
    constructor
    · rintro ⟨f, t₁, hmet, hrow⟩
      exact ⟨f, t₁, met_append_singleton_iff.2 (Or.inl hmet), hrow⟩
    · rintro ⟨f, t₁, hmet, rfl, hrow⟩
      rcases met_append_singleton_iff.1 hmet with hmet | ⟨rfl, -, -⟩
      · exact ⟨f, t₁, hmet, rfl, hrow⟩
      · exact absurd rfl hname

end RowsOf

/-- The last step of steps that succeed. -/
theorem steps_append_singleton_ok {s : State} {t' : FileTree}
    (hok : steps (m := StateM FileTree) config results (files ++ [g]) (.start config.design) t
      = ((.ok (), s), t')) :
    ∃ s₁, steps (m := StateM FileTree) config results files (.start config.design) t
        = ((.ok (), s₁), treeAfter config results files t) ∧
      step (m := StateM FileTree) config results g s₁ (treeAfter config results files t)
        = ((.ok (), s), t') := by
  rw [steps_append] at hok
  rw [treeAfter_eq]
  rcases hsteps : steps (m := StateM FileTree) config results files (.start config.design) t with
    ⟨⟨e | u, s₁⟩, t₁⟩
  · rw [hsteps] at hok
    cases hok
  · rw [hsteps] at hok
    dsimp only at hok ⊢
    rw [steps_cons] at hok
    refine ⟨s₁, rfl, ?_⟩
    rcases hstep : step (m := StateM FileTree) config results g s₁ t₁ with ⟨⟨e | u, s₂⟩, t₂⟩
    · rw [hstep] at hok
      cases hok
    · rw [hstep] at hok
      cases hok
      rfl

/-- **The rows of a run** are those of the logs that it meets. -/
theorem steps_rows {s : State} {t' : FileTree}
    (hok : steps (m := StateM FileTree) config results files (.start config.design) t
      = ((.ok (), s), t')) : RowsOf config results files t s.table.rows := by
  induction files using List.reverseRecOn generalizing s t' with
  | nil =>
    cases hok
    exact .nil config results t
  | append_singleton files g ih =>
    obtain ⟨s₁, hsteps, hstep⟩ := steps_append_singleton_ok hok
    have hrows := ih hsteps
    rw [step_rows hstep]
    by_cases hold : g.benchmark ∈ files.map (·.benchmark)
    · rw [if_pos ((hrows.contains_iff _).2 hold)]
      exact hrows.old hold
    · rw [if_neg (mt (hrows.contains_iff _).1 hold)]
      exact hrows.new hold

theorem result_rows {out : Output} (h : result config results files t = .ok out) :
    RowsOf config results files t out.table.rows := by
  unfold result run at h
  simp only [bind, StateT.bind] at h
  rcases hsteps : steps (m := StateM FileTree) config results files (.start config.design) t with
    ⟨⟨e | u, s⟩, t'⟩
  · rw [hsteps] at h
    cases h
  · rw [hsteps] at h
    dsimp only at h
    rcases hevents : ifIssues s.issues (.ignoredOverall s.issues files.length) with c | events
    · rw [hevents] at h
      cases h
    · rw [hevents] at h
      cases h
      exact steps_rows hsteps

/-! ### The latencies of a run -/

theorem rowOf_eq_succeeded_iff {o : Except Error Report} {s : Summary} :
    rowOf o = { summary := some s, error := none } ↔
      ∃ report, o = .ok report ∧ report.statistics.summary = s ∧ s.totalRequests.val ≠ 0 := by
  cases o with
  | error e => exact iff_of_false nofun nofun
  | ok report =>
    show LatencyTable.Row.mk (some report.statistics.summary)
      (if report.statistics.summary.totalRequests.val = 0 then _ else _) = _ ↔ _
    by_cases hzero : report.statistics.summary.totalRequests.val = 0
    · refine iff_of_false ?_ ?_
      · rw [if_pos hzero]
        nofun
      · rintro ⟨_, heq, rfl, hne⟩
        cases heq
        exact hne hzero
    · rw [if_neg hzero]
      constructor
      · intro heq
        obtain rfl := Option.some.inj (LatencyTable.Row.mk.inj heq).1
        exact ⟨report, rfl, rfl, hzero⟩
      · rintro ⟨_, heq, rfl, -⟩
        cases heq
        rfl

/-- **The latencies of a run are means over requests.**  Its table gives a
latency for a benchmark exactly if the log that was met of it was reduced and
has requests.  This is the mean over the records of its trace, and a number;
where there are no requests, the mean is none and no latency is given.  The
table can be written, and what is read of it gives the same latencies. -/
theorem latencies_of_run (config : RunConfig) (results : Option Path) (files : List LogFile)
    (t : FileTree) (metric : Metric) {out : Output} (h : result config results files t = .ok out) :
    (∀ benchmark x, (out.table.latencies metric).get? benchmark = some x ↔
      ∃ f t₁ report, Met config results files t f t₁ ∧ f.benchmark = benchmark ∧
        outcome config t₁ f = .ok report ∧ report.statistics.summary.totalRequests.val ≠ 0 ∧
        report.statistics.summary.pageWalkLatency metric = x) ∧
    (∀ f t₁ report, Met config results files t f t₁ → outcome config t₁ f = .ok report →
      ∃ records, Traced config t₁ f records ∧
        Averages config metric records report.statistics.summary) ∧
    (∀ benchmark x, (out.table.latencies metric).get? benchmark = some x → x.isNaN = false) ∧
    ∃ text table, out.table.toCsv = .ok text ∧
      LatencyTable.ofCsv config.design text = .ok table ∧
      table.latencies metric = out.table.latencies metric := by
  have hlatencies : ∀ benchmark x, (out.table.latencies metric).get? benchmark = some x ↔
      ∃ f t₁ report, Met config results files t f t₁ ∧ f.benchmark = benchmark ∧
        outcome config t₁ f = .ok report ∧ report.statistics.summary.totalRequests.val ≠ 0 ∧
        report.statistics.summary.pageWalkLatency metric = x := by
    intro benchmark x
    rw [LatencyTable.get?_latencies]
    simp only [result_rows h benchmark, rowOf_eq_succeeded_iff]
    constructor
    · rintro ⟨s, ⟨f, t₁, hmet, hname, report, houtcome, rfl, hne⟩, hx⟩
      exact ⟨f, t₁, report, hmet, hname, houtcome, hne, hx⟩
    · rintro ⟨f, t₁, report, hmet, hname, houtcome, hne, hx⟩
      exact ⟨_, ⟨f, t₁, hmet, hname, report, houtcome, rfl, hne⟩, hx⟩
  refine ⟨hlatencies, fun f t₁ report _ houtcome => outcome_latency houtcome metric, ?_, ?_⟩
  · intro benchmark x hx
    obtain ⟨f, t₁, report, -, -, houtcome, hne, rfl⟩ := (hlatencies benchmark x).1 hx
    obtain ⟨records, -, haverages⟩ := outcome_latency houtcome metric
    rw [Bool.eq_false_iff]
    intro hnan
    exact hne (haverages.requests.trans (haverages.isNaN_iff.1 hnan))
  · have hcan : MonadAttach.CanReturn (run (m := StateM FileTree) config results files)
        (.ok out, (run (m := StateM FileTree) config results files t).1.2) :=
      ⟨t, _, Prod.ext (Prod.ext h rfl) rfl⟩
    obtain ⟨hdesign, hsound⟩ := run_canReturn hcan
    obtain ⟨text, hwritten, hread⟩ := LatencyTable.ofCsv_toCsv hsound
    rw [hdesign] at hread
    exact ⟨text, out.table, hwritten, hread, rfl⟩

/-- Four logs, the results of which are saved: one that is reduced, another
one of its benchmark, one without requests and one that is missing. -/
theorem latencies_of_run_of_four_logs :
    let config : RunConfig := { standardConfig with design := .ecpt }
    let inside := fun name => [Utf8.encode "in".toList, Utf8.encode (String.toList name)]
    let t := (((FileTree.empty.put [Utf8.encode "in".toList] .directory).put
      (inside "a.log") (.file (Utf8.encode "L1,LLC,1\t3\nL2,0\t5\n".toList))).put
      (inside "a.log.old") (.file (Utf8.encode "L1,0\t1\n".toList))).put
      (inside "b.log") (.file (Utf8.encode "L1,0\t0\n".toList))
    let log := fun path => LogFile.ofPath ".log" (.ofString path)
    let files := ["in/a.log", "in/a.log.old", "in/b.log", "in/c.log"].map log
    ∃ out x text table, result config (some (.ofString "out")) files t = .ok out ∧
      out.table.rows.keys = ["a", "b", "c"] ∧ (out.table.latencies .parallel).keys = ["a"] ∧
      (out.table.latencies .parallel).get? "a" = some x ∧ x.isNaN = false ∧
      out.table.toCsv = .ok text ∧ LatencyTable.ofCsv .ecpt text = .ok table ∧
      (table.latencies .parallel).keys = ["a"] := by
  intro config inside t log files
  have hrun : (result config (some (.ofString "out")) files t).map
      (fun out => (out.table.rows.keys, (out.table.latencies .parallel).keys))
      = .ok (["a", "b", "c"], ["a"]) := by
    decide +kernel
  obtain ⟨out, hout, hkeys⟩ := map_eq_ok_iff.1 hrun
  obtain ⟨hrows, hkeys⟩ := Prod.mk.inj hkeys
  obtain ⟨hlatencies, -, hnumbers, text, table, hwritten, hread, hsame⟩ :=
    latencies_of_run config (some (.ofString "out")) files t .parallel hout
  have hmet : Met config (some (.ofString "out")) files t (log "in/a.log") _ :=
    ⟨[], _, rfl, List.not_mem_nil, rfl⟩
  obtain ⟨report, houtcome, hrequests⟩ := exists_report
    (p := fun report => report.statistics.summary.totalRequests.val == 8)
    (by decide +kernel : (outcome config t (log "in/a.log")).toOption.any _ = true)
  have hlatency := (hlatencies "a" _).2 ⟨_, _, report, hmet, by decide +kernel, houtcome,
    by rw [beq_iff_eq.1 hrequests]; decide, rfl⟩
  exact ⟨out, _, text, table, hout, hrows, hkeys, hlatency, hnumbers "a" _ hlatency, hwritten,
    hread, hsame ▸ hkeys⟩

end Aggregation

end PageWalk
