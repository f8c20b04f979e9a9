/-
PageWalk/Proofs/Aggregation/Results.lean

What is left of the saved results when a run is over.

Reports and copies of logs share a directory.  A report is named for its
benchmark and a copy like its log, and nothing keeps these names apart: a log
that is given by its path can be named like a report (`NamedAsReport`).  What
is saved last is what stays, so a copy survives unless a later report has its
name, and a report unless its own log or a later one has its name
(`saved_results_survive`).  Logs that are found where reports are excluded
have no such names (`not_namedAsReport_of_found`).
-/
import PageWalk.Proofs.Aggregation.Targets
import PageWalk.Proofs.Discovery

namespace PageWalk.Aggregation

open FileTree (Holds)

variable {config : RunConfig} {results : Option Path} {t t₁ t₂ : FileTree} {d : Path}
  {f g : LogFile} {before after files : List LogFile} {report : Report}

/-! ### Names of reports -/

theorem reportName_eq (benchmark : String) :
    reportName benchmark
      = Utf8.encode benchmark.toList ++ Path.dot :: Utf8.encode "json".toList := by
  unfold reportName
  rw [String.toList_append, Utf8.encode_append]
  rfl

theorem reportName_injective : Function.Injective reportName := by
  intro b b' h
  rw [reportName_eq, reportName_eq] at h
  exact String.toList_inj.1 (Utf8.encode_injective (List.append_cancel_right h))

/-- Files that are named like reports are no logs. -/
def ExcludesReports (extensions : List String) : Prop :=
  ∃ e ∈ extensions, Text.lowerAscii e = "json"

instance (extensions : List String) : Decidable (ExcludesReports extensions) :=
  inferInstanceAs (Decidable (∃ e ∈ extensions, _))

theorem isExcluded_reportName {extensions : List String} {benchmark : String}
    (h : ExcludesReports extensions) (hne : benchmark ≠ "")
    (hname : Path.IsName (reportName benchmark)) :
    LogFile.isExcluded extensions ⟨reportName benchmark⟩ = true := by
  obtain ⟨e, he, hjson⟩ := h
  have hstem : Utf8.encode benchmark.toList ≠ [] := by
    intro hnil
    rw [← Utf8.encode_nil] at hnil
    exact hne (String.toList_inj.1 (Utf8.encode_injective hnil))
  have hextension : (⟨reportName benchmark⟩ : Path).extension?
      = some (Utf8.encode "json".toList) := by
    unfold Path.extension?
    rw [hname, reportName_eq]
    exact congrArg Prod.snd (Path.splitExtension_append hstem (by decide) (by decide))
  unfold LogFile.isExcluded
  rw [hextension, Option.bind_some, Utf8.decode?_encode]
  refine List.any_eq_true.2 ⟨e, he, ?_⟩
  rw [hjson, beq_iff_eq]
  decide

/-- A log is named like the report of another, which has one only if it has a
name itself. -/
def NamedAsReport (f g : LogFile) : Prop :=
  g.path.fileName?.isSome ∧ f.path.fileName? = some (reportName g.benchmark)

instance (f g : LogFile) : Decidable (NamedAsReport f g) := inferInstanceAs (Decidable (_ ∧ _))

/-- **A log that is found** where reports are excluded is not named like
one. -/
theorem not_namedAsReport_of_found (hexcludes : ExcludesReports config.excludeExtensions)
    (hf : f.Found config.suffix config.excludeExtensions)
    (hg : g.Obtained config.suffix config.excludeExtensions) : ¬ NamedAsReport f g := by
  rintro ⟨hsome, hreport⟩
  obtain ⟨name, hname, hkept⟩ := hf.exists_name
  obtain rfl := Option.some.inj (hname.symm.trans hreport)
  have hisName := Path.isName_iff.2 (Path.fileName?_eq_some hname)
  rw [isExcluded_reportName hexcludes (hg.benchmark_ne hsome) hisName] at hkept
  cases hkept

/-! ### Names of targets -/

theorem location_copy {name : Bytes} (d : Path) (h : f.path.fileName? = some name) :
    (d.join name).location = d.location ++ [name] := by
  obtain ⟨hne, hslash, hdot, hup⟩ := Path.fileName?_eq_some h
  exact Path.location_join d hne hslash hdot hup

/-- A name is no target of a log, if neither its report nor its copy has that
name. -/
theorem not_mem_targets {name : Bytes} (hplain : g.Plain) (hcopy : g.path.fileName? ≠ some name)
    (hreport : g.path.fileName?.isSome → name ≠ reportName g.benchmark) :
    d.location ++ [name] ∉ targets d g := by
  rcases hname : g.path.fileName? with - | own
  · unfold targets
    rw [hname]
    exact List.not_mem_nil
  · have hsome : g.path.fileName?.isSome := Option.isSome_iff_exists.2 ⟨own, hname⟩
    rw [targets_of_name d hname, location_reportPath d (hplain hsome), location_copy d hname]
    intro h
    simp only [List.mem_cons, List.not_mem_nil, or_false, List.append_cancel_left_eq,
      List.cons.injEq, and_true] at h
    rcases h with rfl | rfl
    · exact hreport hsome rfl
    · exact hcopy hname

/-! ### Runs -/

/-- Logs of different benchmarks and with different names, none of them among
the results. -/
structure Separate (config : RunConfig) (d : Path) (files : List LogFile) : Prop where
  obtained : ∀ f ∈ files, f.Obtained config.suffix config.excludeExtensions
  benchmarks : (files.map (·.benchmark)).Nodup
  names : (files.filterMap (·.path.fileName?)).Nodup
  outside : ∀ f ∈ files, ¬ f.path.LiesIn d

theorem steps_ok_of_run (h : (run (m := StateM FileTree) config results files t).1.1.isOk = true) :
    ∃ s, steps (m := StateM FileTree) config results files (.start config.design) t
      = ((.ok (), s), treeAfter config results files t) := by
  rw [treeAfter_eq]
  unfold run at h
  simp only [bind, StateT.bind] at h
  rcases hsteps : steps (m := StateM FileTree) config results files (.start config.design) t with
    ⟨⟨e | u, s⟩, t'⟩
  · rw [hsteps] at h
    cases h
  · exact ⟨s, rfl⟩

/-- A run that succeeds comes to each of its logs. -/
theorem saves_of_run
    (hok : (run (m := StateM FileTree) config (some d) (before ++ f :: after) t).1.1.isOk = true)
    (hnew : f.benchmark ∉ before.map (·.benchmark))
    (hreduced : outcome config (treeAfter config (some d) before t) f = .ok report)
    (hsaved : (saveResults (m := StateM FileTree) d f report
      (treeAfter config (some d) before t)).1 = .ok ()) :
    ∃ t₂, Saves config d t before f report (treeAfter config (some d) before t) t₂ := by
  obtain ⟨s', hsteps⟩ := steps_ok_of_run hok
  have hrows := contains_steps config (some d) hnew (.start config.design) t
  rw [steps_append] at hsteps
  rw [treeAfter_eq] at *
  rcases hbefore : steps (m := StateM FileTree) config (some d) before (.start config.design) t with
    ⟨⟨e | u, s⟩, t₁⟩
  · rw [hbefore] at hsteps
    cases hsteps
  · rw [hbefore] at hsteps hrows hreduced hsaved
    dsimp only at hsteps
    rw [steps_cons] at hsteps
    refine ⟨_, ⟨s, hbefore, hrows, ?_⟩, hreduced, Prod.ext hsaved rfl⟩
    rcases hstep : step (m := StateM FileTree) config (some d) f s t₁ with ⟨⟨e | u, s₁⟩, t₂⟩
    · rw [hstep] at hsteps
      cases hsteps
    · rfl

/-- What saving the results of a log leaves, when it is done. -/
theorem Saves.leaves {log : Bytes} {name : Bytes} (h : Saves config d t before f report t₁ t₂)
    (hname : f.path.fileName? = some name) (hlog : t₁.Holds f.path log)
    (houtside : ¬ f.path.LiesIn d) (hplain : f.Plain) :
    t₂.Holds (d.join name) log ∧
      (report.statistics.summary.totalRequests.val ≠ 0 → name ≠ reportName f.benchmark →
        report.contents.2 = .ok () ∧ t₂.Holds (reportPath d f.benchmark) report.contents.1) := by
  obtain ⟨hbenchmark, hsome, -⟩ := outcome_ok h.reduced
  have hreport := location_reportPath d (hplain hsome)
  have hcopied := location_copy d hname
  have haway : ∀ q : Path, q.location.IsEntryOf d.location → f.path.location ≠ q.location := by
    intro q hq heq
    exact houtside (Path.liesIn_of_location (heq ▸ hq))
  obtain ⟨hne, hslash, hdot, hup⟩ := Path.fileName?_eq_some hname
  obtain ⟨written, hcopy, hwritten⟩ := saveResults_ok hname h.saved
  rw [hbenchmark] at hwritten
  -- the log is still there when it is copied
  have hkept : written.Holds f.path log := by
    rcases hwritten with ⟨-, rfl⟩ | ⟨-, -, hwrite⟩
    · exact hlog
    · exact hlog.write hwrite (haway _ (isEntryOf_reportPath d (hplain hsome)))
  obtain ⟨bytes, hbytes, hcopyHolds⟩ :=
    FileTree.holds_copy hcopy (haway _ (Path.isEntryOf_join d hne hslash hdot hup))
  obtain rfl := hkept.unique hbytes
  refine ⟨hcopyHolds, fun hrequests hother => ?_⟩
  rcases hwritten with ⟨hzero, -⟩ | ⟨-, hwhole, hwrite⟩
  · exact absurd hzero hrequests
  · refine ⟨hwhole, (FileTree.holds_write hwrite).copy hcopy ?_⟩
    rw [hreport, hcopied]
    intro heq
    exact hother (List.singleton_inj.1 (List.append_cancel_left heq)).symm

theorem holds_of_outcome (h : outcome config t f = .ok report) :
    ∃ log, t.Holds f.path log := by
  rcases outcome_cases config t f with ⟨log, hopen, -⟩ | ⟨c, attempts, houtcome⟩
  · exact ⟨log, hopen⟩
  · rw [houtcome] at h
    cases h

namespace Separate

/-- A log is the only one of its benchmark. -/
theorem only_benchmark (h : Separate config d (before ++ f :: after)) :
    f.benchmark ∉ before.map (·.benchmark) ∧ ∀ g ∈ after, g.benchmark ≠ f.benchmark := by
  have hbenchmarks := h.benchmarks
  rw [List.map_append, List.map_cons, List.nodup_append, List.nodup_cons] at hbenchmarks
  obtain ⟨-, ⟨hlast, -⟩, hfirst⟩ := hbenchmarks
  exact ⟨fun hmem => hfirst _ hmem _ List.mem_cons_self rfl,
    fun g hg heq => hlast (List.mem_map.2 ⟨g, hg, heq⟩)⟩

/-- A log is the only one of its name. -/
theorem only_name {name : Bytes} (h : Separate config d (before ++ f :: after))
    (hname : f.path.fileName? = some name) : ∀ g ∈ after, g.path.fileName? ≠ some name := by
  have hnames := h.names
  rw [List.filterMap_append, List.nodup_append] at hnames
  obtain ⟨-, hnames, -⟩ := hnames
  rw [show (f :: after).filterMap (·.path.fileName?) = name :: after.filterMap (·.path.fileName?) from
    List.filterMap_cons_some hname, List.nodup_cons] at hnames
  exact fun g hg heq => hnames.1 (List.mem_filterMap.2 ⟨g, hg, heq⟩)

/-- A run leaves its logs as they are, and what they come to. -/
theorem keeps_log {log : Bytes} (h : Separate config d files) (hbefore : before ⊆ files)
    (hf : f ∈ files) (hlog : t.Holds f.path log) :
    (treeAfter config (some d) before t).Holds f.path log ∧
      outcome config (treeAfter config (some d) before t) f = outcome config t f := by
  have hkept : (treeAfter config (some d) before t).Holds f.path log := by
    refine keeps_run hlog fun d' hd g hg htarget => ?_
    obtain rfl := Option.some.inj hd
    have hentry := isEntryOf_targets (h.obtained g (hbefore hg)).plain htarget
    exact h.outside f hf (Path.liesIn_of_location hentry)
  exact ⟨hkept, outcome_congr (hkept.trans hlog.symm)⟩

end Separate

/-- **Saved results survive**, but for names that are taken twice.  In a run
that succeeds a log whose results are saved keeps its copy, unless a later
report has its name, and keeps its report, unless its own log or a later one
has the name of that.  A log that is named like its own report takes its
place.  Where reports are excluded, logs that are found have no such names,
and all that is saved survives. -/
theorem saved_results_survive (config : RunConfig) (d : Path) (files : List LogFile) (t : FileTree)
    (hlogs : Separate config d files)
    (hok : (run (m := StateM FileTree) config (some d) files t).1.1.isOk = true) :
    (∀ before f after report, files = before ++ f :: after → outcome config t f = .ok report →
      (saveResults (m := StateM FileTree) d f report
        (treeAfter config (some d) before t)).1 = .ok () →
      ∃ name log, f.path.fileName? = some name ∧ t.Holds f.path log ∧
        ((∀ g ∈ after, ¬ NamedAsReport f g) →
          (treeAfter config (some d) files t).Holds (d.join name) log) ∧
        (report.statistics.summary.totalRequests.val ≠ 0 → (∀ g ∈ f :: after, ¬ NamedAsReport g f) →
          report.contents.2 = .ok () ∧
            (treeAfter config (some d) files t).Holds (reportPath d f.benchmark)
              report.contents.1) ∧
        (NamedAsReport f f →
          (treeAfter config (some d) files t).Holds (reportPath d f.benchmark) log)) ∧
    (ExcludesReports config.excludeExtensions →
      ∀ f ∈ files, f.Found config.suffix config.excludeExtensions →
        ∀ g ∈ files, ¬ NamedAsReport f g) := by
  refine ⟨?_, fun hexcludes f _ hfound g hg =>
    not_namedAsReport_of_found hexcludes hfound (hlogs.obtained g hg)⟩
  rintro before f after report rfl hreduced hsaved
  have hf : f ∈ before ++ f :: after := List.mem_append_right _ List.mem_cons_self
  have hafter : ∀ g ∈ after, g ∈ before ++ f :: after :=
    fun g hg => List.mem_append_right _ (List.mem_cons_of_mem _ hg)
  obtain ⟨hnew, hlast⟩ := hlogs.only_benchmark
  have hother : ∀ g ∈ after, reportName f.benchmark ≠ reportName g.benchmark :=
    fun g hg heq => hlast g hg (reportName_injective heq).symm
  obtain ⟨-, hsome, -⟩ := outcome_ok hreduced
  obtain ⟨name, hname⟩ := Option.isSome_iff_exists.1 hsome
  -- its results are saved from the tree before the run
  obtain ⟨log, hlog⟩ := holds_of_outcome hreduced
  obtain ⟨hkept, houtcome⟩ := hlogs.keeps_log (List.subset_append_left _ _) hf hlog
  obtain ⟨t₂, hsaves⟩ := saves_of_run hok hnew (houtcome.trans hreduced) hsaved
  obtain ⟨hcopy, hreport⟩ :=
    hsaves.leaves hname hkept (hlogs.outside f hf) (hlogs.obtained f hf).plain
  -- and stay, unless a later log has a target there
  have hcopied : (∀ g ∈ after, ¬ NamedAsReport f g) →
      (treeAfter config (some d) (before ++ f :: after) t).Holds (d.join name) log := by
    intro hnot
    refine hsaves.keeps hcopy fun g hg => ?_
    rw [location_copy d hname]
    refine not_mem_targets (hlogs.obtained g (hafter g hg)).plain (hlogs.only_name hname g hg) ?_
    rintro hnamed rfl
    exact hnot g hg ⟨hnamed, hname⟩
  refine ⟨name, log, hname, hlog, hcopied, fun hrequests hnot => ?_, fun hself => ?_⟩
  · obtain ⟨hwhole, hheld⟩ := hreport hrequests fun heq =>
      hnot f List.mem_cons_self ⟨hsome, heq ▸ hname⟩
    refine ⟨hwhole, hsaves.keeps hheld fun g hg => ?_⟩
    rw [location_reportPath d ((hlogs.obtained f hf).plain hsome)]
    refine not_mem_targets (hlogs.obtained g (hafter g hg)).plain ?_ fun _ => hother g hg
    exact fun heq => hnot g (List.mem_cons_of_mem _ hg) ⟨hsome, heq⟩
  · obtain rfl := Option.some.inj (hname.symm.trans hself.2)
    refine hcopied fun g hg hnamed => hother g hg ?_
    exact Option.some.inj (hname.symm.trans hnamed.2)

/-- The results of the first of two logs that are found in a directory. -/
theorem saved_results_survive_of_two_logs :
    let config := standardConfig
    let d := Path.ofString "out"
    let inside := fun (d name : String) => [Utf8.encode d.toList, Utf8.encode name.toList]
    let log := Utf8.encode "~~~~~~~~~~~~~~~\nL1,MEMORY,10\nPWC,L2,5\n".toList
    let t := (((FileTree.empty.put [Utf8.encode "logs".toList] .directory).put
      [Utf8.encode "out".toList] .directory).put
      (inside "logs" "gcc_dyna.log") (.file log)).put (inside "logs" "mcf_dyna.json") (.file log)
    let f : LogFile := ⟨"gcc", .ofString "logs/gcc_dyna.log"⟩
    let g := LogFile.ofPath config.suffix (.ofString "logs/mcf_dyna.json")
    ∃ report, outcome config t f = .ok report ∧
      (treeAfter config (some d) [f, g] t).Holds (d.join (Utf8.encode "gcc_dyna.log".toList)) log ∧
      (treeAfter config (some d) [f, g] t).Holds (reportPath d "gcc") report.contents.1 := by
  intro config d inside log t f g
  have hfound : f.Found config.suffix config.excludeExtensions :=
    ⟨t, .ofString "logs", [f], by decide +kernel, by decide +kernel, List.mem_cons_self⟩
  have hlogs : Separate config d [f, g] := by
    refine ⟨?_, by decide +kernel, by decide +kernel, by decide +kernel⟩
    rw [List.forall_mem_cons, List.forall_mem_singleton]
    exact ⟨.found hfound, .given _⟩
  obtain ⟨report, hreduced, hreport⟩ : ∃ report, outcome config t f = .ok report ∧
      decide (report.statistics.summary.totalRequests.val ≠ 0 ∧
        (saveResults (m := StateM FileTree) d f report t).1 = .ok ()) = true :=
    exists_report (by decide +kernel)
  obtain ⟨hrequests, hsaved⟩ := of_decide_eq_true hreport
  obtain ⟨hsurvive, -⟩ := saved_results_survive config d [f, g] t hlogs (by decide +kernel)
  obtain ⟨name, log', hname, hlog', hcopy, hkept, -⟩ :=
    hsurvive [] f [g] report rfl hreduced hsaved
  obtain rfl : Utf8.encode "gcc_dyna.log".toList = name :=
    Option.some.inj (Eq.trans (by decide +kernel) hname)
  obtain rfl : log = log' := FileTree.Holds.unique (by decide +kernel) hlog'
  exact ⟨report, hreduced, hcopy (by decide +kernel), (hkept hrequests (by decide +kernel)).2⟩

/-- A log that is given by its path and named like its report: its copy
replaces the report, and the run succeeds. -/
theorem run_replaces_report_with_log :
    let config := standardConfig
    let d := Path.ofString "out"
    let log := Utf8.encode "[pin] run\n~~~~~~~~~~~~~~~\nL1,MEMORY,10\nPWC,L2,5\n".toList
    let t := ((FileTree.empty.put [Utf8.encode "out".toList] .directory).put
      [Utf8.encode "logs".toList] .directory).put
      [Utf8.encode "logs".toList, Utf8.encode "mcf.json".toList] (.file log)
    let f := LogFile.ofPath config.suffix (.ofString "logs/mcf.json")
    f.benchmark = "mcf" ∧ ¬ f.path.LiesIn d ∧
    (run (m := StateM FileTree) config (some d) [f] t).1.1.isOk = true ∧
    ∃ report, outcome config t f = .ok report ∧
      report.statistics.summary.totalRequests.val ≠ 0 ∧
      (saveResults (m := StateM FileTree) d f report t).1 = .ok () ∧
      ¬ (treeAfter config (some d) [f] t).Holds (reportPath d f.benchmark) report.contents.1 := by
  intro config d log t f
  refine ⟨by decide +kernel, by decide +kernel, by decide +kernel, ?_⟩
  obtain ⟨report, hreduced, hreport⟩ : ∃ report, outcome config t f = .ok report ∧
      decide (report.statistics.summary.totalRequests.val ≠ 0 ∧
        (saveResults (m := StateM FileTree) d f report t).1 = .ok () ∧
        ¬ (treeAfter config (some d) [f] t).Holds (reportPath d f.benchmark)
          report.contents.1) = true :=
    exists_report (by decide +kernel)
  exact ⟨report, hreduced, of_decide_eq_true hreport⟩

end PageWalk.Aggregation
