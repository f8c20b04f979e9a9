/-
PageWalk/Proofs/Aggregation/Targets.lean

Where a run writes.

For each log that has a name a run writes at two locations of the results
directory at most, that of its report and that of its copy (`targets`).
`Stepped` lists what a step can do; from it follows that a step, and so a
run, keeps the contents of all files elsewhere (`keeps_run`).

These locations are not compared with those of the logs.  A log whose copy is
saved where it stands itself is emptied, since a copy empties its target
first (`Saves.holds_self`).
-/
import PageWalk.Proofs.Aggregation.Steps
import PageWalk.Proofs.Files.Contents

namespace PageWalk.Aggregation

open FileTree (Holds WritesOnly)

variable {config : RunConfig} {results : Option Path} {s s' : State} {t t' : FileTree}
  {d p : Path} {f : LogFile} {bytes : Bytes}

/-! ### Saving results -/

/-- Where the results of a log are saved in a directory. -/
def targets (d : Path) (f : LogFile) : List Location :=
  match f.path.fileName? with
  | none => []
  | some name => [(reportPath d f.benchmark).location, (d.join name).location]

theorem targets_of_name {name : Bytes} (d : Path) (h : f.path.fileName? = some name) :
    targets d f = [(reportPath d f.benchmark).location, (d.join name).location] := by
  unfold targets
  rw [h]

theorem writesOnly_report {ls : List Location} (h : p.location ∈ ls) (report : Report) :
    WritesOnly ls (report.write (m := StateM FileTree) p) := by
  unfold Report.write
  refine .bind (FileTree.writesOnly_write h _) fun written => ?_
  split <;> exact .pure _ _

/-- Saving the results of a log that has a name: its report, unless there
were no requests, and then its copy. -/
theorem saveResults_eq {name : Bytes} (d : Path) (hname : f.path.fileName? = some name)
    (report : Report) :
    saveResults (m := StateM FileTree) d f report
      = (if report.statistics.summary.totalRequests.val = 0 then pure (.ok ())
          else report.write (reportPath d report.benchmark)) >>= fun reported =>
        match reported with
        | .error e => pure (.error e)
        | .ok () => Files.copy f.path (d.join name) >>= fun copied =>
          pure (match copied with
            | .error e =>
              .error { cause := .file e, attempts := [.copyFile f.path (d.join name)] }
            | .ok () => .ok ()) := by
  unfold saveResults
  rw [hname]
  dsimp only
  split
  · rfl
  · congr 1
    funext reported
    cases reported <;> rfl

theorem writesOnly_saveResults (d : Path) {report : Report}
    (hbenchmark : report.benchmark = f.benchmark) (hname : f.path.fileName?.isSome) :
    WritesOnly (targets d f) (saveResults (m := StateM FileTree) d f report) := by
  obtain ⟨name, hname⟩ := Option.isSome_iff_exists.1 hname
  have hreport : (reportPath d report.benchmark).location ∈ targets d f := by
    rw [targets_of_name d hname, hbenchmark]
    exact List.mem_cons_self
  have hcopy : (d.join name).location ∈ targets d f := by
    rw [targets_of_name d hname]
    exact List.mem_cons_of_mem _ List.mem_cons_self
  rw [saveResults_eq d hname]
  refine .bind ?_ fun reported => ?_
  · split
    · exact .pure _ _
    · exact writesOnly_report hreport report
  · cases reported with
    | error e => exact .pure _ _
    | ok u => exact .bind (FileTree.writesOnly_copy hcopy f.path) fun copied => .pure _ _

theorem write_report_ok {report : Report}
    (hok : report.write (m := StateM FileTree) p t = (.ok (), t')) :
    report.contents.2 = .ok () ∧ t.write p report.contents.1 = .ok t' := by
  unfold Report.write at hok
  simp only [bind, StateT.bind] at hok
  rcases hwrite : Files.write (m := StateM FileTree) p report.contents.1 t with ⟨e | u, t₁⟩
  · rw [hwrite] at hok
    cases hok
  · rw [hwrite] at hok
    rcases hwhole : report.contents.2 with c | v
    · rw [hwhole] at hok
      cases hok
    · rw [hwhole] at hok
      obtain rfl : t₁ = t' := congrArg Prod.snd hok
      exact ⟨rfl, FileTree.update_ok hwrite⟩

/-- What saving results does, if it succeeds. -/
theorem saveResults_ok {report : Report} {name : Bytes} (hname : f.path.fileName? = some name)
    (hok : saveResults (m := StateM FileTree) d f report t = (.ok (), t')) :
    ∃ t₁, t₁.copy f.path (d.join name) = .ok t' ∧
      ((report.statistics.summary.totalRequests.val = 0 ∧ t₁ = t) ∨
        (report.statistics.summary.totalRequests.val ≠ 0 ∧ report.contents.2 = .ok () ∧
          t.write (reportPath d report.benchmark) report.contents.1 = .ok t₁)) := by
  rw [saveResults_eq d hname] at hok
  simp only [bind, StateT.bind] at hok
  -- the report first
  rcases hreported : (if report.statistics.summary.totalRequests.val = 0 then pure (.ok ())
      else report.write (m := StateM FileTree) (reportPath d report.benchmark)) t with ⟨e | u, t₁⟩
  · rw [hreported] at hok
    cases hok
  · rw [hreported] at hok
    simp only [bind, StateT.bind] at hok
    refine ⟨t₁, ?_, ?_⟩
    · rcases hcopy : Files.copy (m := StateM FileTree) f.path (d.join name) t₁ with ⟨e | v, t₂⟩
      · rw [hcopy] at hok
        cases hok
      · rw [hcopy] at hok
        obtain rfl : t₂ = t' := congrArg Prod.snd hok
        exact FileTree.update_ok hcopy
    · split at hreported
      · rename_i hzero
        exact Or.inl ⟨hzero, (congrArg Prod.snd hreported).symm⟩
      · rename_i hsome
        obtain ⟨hwhole, hwrite⟩ := write_report_ok hreported
        exact Or.inr ⟨hsome, hwhole, hwrite⟩

/-! ### Steps -/

/-- Only one benchmark can have a new row. -/
def Grows (benchmark : String) (s s' : State) : Prop :=
  ∀ b, b ≠ benchmark → s'.table.rows.contains b = s.table.rows.contains b

theorem grows_insert (s : State) (benchmark : String) (row : LatencyTable.Row) :
    Grows benchmark s (s.insert benchmark row) := by
  intro b hb
  show (SortedMap.insert s.table.rows benchmark row).contains b = _
  unfold SortedMap.contains
  rw [SortedMap.get?_insert, if_neg hb]

theorem grows_take {report : Report} (h : s.take report = .ok s') :
    Grows report.benchmark s s' := by
  obtain ⟨events, -, h⟩ := bind_eq_ok_iff.1 h
  obtain ⟨issues, -, h⟩ := bind_eq_ok_iff.1 h
  cases h
  exact grows_insert s report.benchmark _

/-- What a step can do: it passes over a log, or it saves results of it, or
it saves nothing because there is nothing to save or nowhere to, or because
the run ends. -/
inductive Stepped (config : RunConfig) (results : Option Path) (f : LogFile) (s : State)
    (t : FileTree) : (Except Error Unit × State) × FileTree → Prop
  | skipped : s.table.rows.contains f.benchmark = true →
      Stepped config results f s t ((.ok (), s.tell [.duplicateBenchmark]), t)
  | unsaved {result : Except Error Unit} {s' : State} :
      s.table.rows.contains f.benchmark = false → Grows f.benchmark s s' →
      (result = .ok () → ∀ report, outcome config t f = .ok report → results = none) →
      Stepped config results f s t ((result, s'), t)
  | saved {d : Path} {report : Report} {s' : State} : s.table.rows.contains f.benchmark = false →
      Grows f.benchmark s s' → results = some d → outcome config t f = .ok report →
      Stepped config results f s t
        ((.ok (), s'), (saveResults (m := StateM FileTree) d f report t).2)

theorem stepped (config : RunConfig) (results : Option Path) (f : LogFile) (s : State)
    (t : FileTree) :
    Stepped config results f s t (step (m := StateM FileTree) config results f s t) := by
  cases hnew : s.table.rows.contains f.benchmark with
  | true =>
    rw [step_duplicate hnew]
    exact .skipped hnew
  | false =>
    obtain ⟨events, hstep⟩ := step_new config results t hnew
    rw [hstep]
    rcases houtcome : outcome config t f with e | report
    · have hnothing : ∀ report, outcome config t f = .ok report → results = none := by
        intro report hok
        rw [houtcome] at hok
        cases hok
      dsimp only
      split
      · exact .unsaved hnew (fun _ _ => rfl) fun _ => hnothing
      · exact .unsaved hnew (grows_insert s f.benchmark _) fun _ => hnothing
    · dsimp only
      rcases htake : (s.tell (.reducing :: events)).take report with c | s₁
      · exact .unsaved hnew (fun _ _ => rfl) nofun
      · have hgrows := grows_take htake
        rw [(outcome_ok houtcome).1] at hgrows
        change Grows f.benchmark s s₁ at hgrows
        cases results with
        | none => exact .unsaved hnew hgrows fun _ _ _ => rfl
        | some d =>
          have hsaved : ∀ s', Grows f.benchmark s s' → Stepped config (some d) f s t
              ((.ok (), s'), (saveResults (m := StateM FileTree) d f report t).2) :=
            fun s' hgrows => .saved hnew hgrows rfl houtcome
          dsimp only
          rcases hsave : saveResults (m := StateM FileTree) d f report t with ⟨e | u, t₁⟩ <;>
            rw [hsave] at hsaved
          · -- a failure is told
            exact hsaved (s₁.tell [.saveFailed e]) hgrows
          · exact hsaved s₁ hgrows

theorem Stepped.grows {r : (Except Error Unit × State) × FileTree}
    (h : Stepped config results f s t r) : Grows f.benchmark s r.1.2 := by
  cases h with
  | skipped => exact fun _ _ => rfl
  | unsaved _ hgrows => exact hgrows
  | saved _ hgrows => exact hgrows

/-- **A step** keeps the contents of the files that are not at the targets of
its log. -/
theorem keeps_step (config : RunConfig) (s : State) (h : t.Holds p bytes)
    (hp : ∀ d, results = some d → p.location ∉ targets d f) :
    (step (m := StateM FileTree) config results f s t).2.Holds p bytes := by
  have hstepped := stepped config results f s t
  generalize step (m := StateM FileTree) config results f s t = after at hstepped
  cases hstepped with
  | skipped => exact h
  | unsaved => exact h
  | saved _ _ hresults houtcome =>
    obtain ⟨hbenchmark, hname, -⟩ := outcome_ok houtcome
    exact writesOnly_saveResults _ hbenchmark hname t p bytes h (hp _ hresults)

/-! ### Runs -/

/-- Logs that are taken lead to the next. -/
theorem steps_cons (config : RunConfig) (results : Option Path) (f : LogFile)
    (files : List LogFile) (s : State) (t : FileTree) :
    steps (m := StateM FileTree) config results (f :: files) s t
      = match step (m := StateM FileTree) config results f s t with
        | ((.error e, s'), t') => ((.error e, s'), t')
        | ((.ok (), s'), t') => steps (m := StateM FileTree) config results files s' t' := by
  conv_lhs => unfold steps
  simp only [bind, StateT.bind]
  rcases step (m := StateM FileTree) config results f s t with ⟨⟨e | u, s'⟩, t'⟩ <;> rfl

/-- A run through some logs and then others. -/
theorem steps_append (config : RunConfig) (results : Option Path) (before files : List LogFile)
    (s : State) (t : FileTree) :
    steps (m := StateM FileTree) config results (before ++ files) s t
      = match steps (m := StateM FileTree) config results before s t with
        | ((.error e, s'), t') => ((.error e, s'), t')
        | ((.ok (), s'), t') => steps (m := StateM FileTree) config results files s' t' := by
  induction before generalizing s t with
  | nil => rfl
  | cons f before ih =>
    rw [List.cons_append, steps_cons, steps_cons]
    rcases step (m := StateM FileTree) config results f s t with ⟨⟨e | u, s₁⟩, t₁⟩
    · rfl
    · exact ih s₁ t₁

/-- Only benchmarks of the logs have new rows. -/
theorem contains_steps (config : RunConfig) (results : Option Path) {files : List LogFile}
    {benchmark : String} (h : benchmark ∉ files.map (·.benchmark)) (s : State) (t : FileTree) :
    (steps (m := StateM FileTree) config results files s t).1.2.table.rows.contains benchmark
      = s.table.rows.contains benchmark := by
  induction files generalizing s t with
  | nil => rfl
  | cons f files ih =>
    rw [List.map_cons, List.mem_cons, not_or] at h
    obtain ⟨hne, h⟩ := h
    have hgrows := (stepped config results f s t).grows benchmark hne
    rw [steps_cons]
    rcases hstep : step (m := StateM FileTree) config results f s t with ⟨⟨e | u, s'⟩, t'⟩
    · rw [hstep] at hgrows
      exact hgrows
    · rw [hstep] at hgrows
      exact (ih h s' t').trans hgrows

theorem keeps_steps {files : List LogFile} (h : t.Holds p bytes)
    (hp : ∀ d, results = some d → ∀ f ∈ files, p.location ∉ targets d f) :
    (steps (m := StateM FileTree) config results files s t).2.Holds p bytes := by
  induction files generalizing s t with
  | nil => exact h
  | cons f files ih =>
    have hstep := keeps_step config s h fun d hd => hp d hd f List.mem_cons_self
    rw [steps_cons]
    rcases hafter : step (m := StateM FileTree) config results f s t with ⟨⟨e | u, s'⟩, t'⟩
    · rw [hafter] at hstep
      exact hstep
    · rw [hafter] at hstep
      exact ih hstep fun d hd g hg => hp d hd g (List.mem_cons_of_mem _ hg)

/-- The tree after a run. -/
def treeAfter (config : RunConfig) (results : Option Path) (files : List LogFile) (t : FileTree) :
    FileTree :=
  (run (m := StateM FileTree) config results files t).2

theorem treeAfter_eq (config : RunConfig) (results : Option Path) (files : List LogFile)
    (t : FileTree) : treeAfter config results files t
      = (steps (m := StateM FileTree) config results files (.start config.design) t).2 := rfl

/-- **A run** keeps the contents of the files that are not at the targets of
its logs. -/
theorem keeps_run {files : List LogFile} (h : t.Holds p bytes)
    (hp : ∀ d, results = some d → ∀ f ∈ files, p.location ∉ targets d f) :
    (treeAfter config results files t).Holds p bytes :=
  keeps_steps h hp

/-- All targets are among the results. -/
theorem isEntryOf_targets (hplain : f.Plain) {l : Location} (h : l ∈ targets d f) :
    l.IsEntryOf d.location := by
  unfold targets at h
  split at h
  · cases h
  · rename_i name hname
    obtain ⟨hne, hslash, hdot, hup⟩ := Path.fileName?_eq_some hname
    simp only [List.mem_cons, List.not_mem_nil, or_false] at h
    rcases h with rfl | rfl
    · exact isEntryOf_reportPath d (hplain (Option.isSome_iff_exists.2 ⟨name, hname⟩))
    · exact Path.isEntryOf_join d hne hslash hdot hup

/-! ### Saving in the course of a run -/

/-- In the course of a run the results of a log are saved: the run comes to
the log, which is the first of its benchmark, and goes on after it; there is
a report, and saving it fails nowhere. -/
structure Saves (config : RunConfig) (d : Path) (t : FileTree) (before : List LogFile)
    (f : LogFile) (report : Report) (t₁ t₂ : FileTree) : Prop where
  comes : ∃ s, steps (m := StateM FileTree) config (some d) before (.start config.design) t
      = ((.ok (), s), t₁) ∧
    s.table.rows.contains f.benchmark = false ∧
    (step (m := StateM FileTree) config (some d) f s t₁).1.1 = .ok ()
  reduced : outcome config t₁ f = .ok report
  saved : saveResults (m := StateM FileTree) d f report t₁ = (.ok (), t₂)

namespace Saves

variable {before after : List LogFile} {report : Report} {t₁ t₂ : FileTree}

/-- The step that saves the results leads to the tree that saving them leads
to. -/
theorem goes_on (h : Saves config d t before f report t₁ t₂) :
    ∃ s s', steps (m := StateM FileTree) config (some d) before (.start config.design) t
        = ((.ok (), s), t₁) ∧
      step (m := StateM FileTree) config (some d) f s t₁ = ((.ok (), s'), t₂) := by
  obtain ⟨⟨s, hbefore, hnew, hok⟩, hreduced, hsaved⟩ := h
  have hstepped := stepped config (some d) f s t₁
  rcases hstep : step (m := StateM FileTree) config (some d) f s t₁ with ⟨⟨result, s'⟩, t'⟩
  rw [hstep] at hstepped hok
  obtain rfl : result = .ok () := hok
  refine ⟨s, s', hbefore, ?_⟩
  cases hstepped with
  | skipped hold =>
    rw [hnew] at hold
    cases hold
  | unsaved _ _ hnone => cases hnone rfl report hreduced
  | saved _ _ hd hreduced' =>
    obtain rfl := Option.some.inj hd
    obtain rfl := Except.ok.inj (hreduced.symm.trans hreduced')
    rw [hstep, hsaved]

/-- **What is saved stays**, unless it is at a target of a log that follows. -/
theorem keeps (h : Saves config d t before f report t₁ t₂) (hholds : t₂.Holds p bytes)
    (hp : ∀ g ∈ after, p.location ∉ targets d g) :
    (treeAfter config (some d) (before ++ f :: after) t).Holds p bytes := by
  obtain ⟨s, s', hbefore, hstep⟩ := h.goes_on
  rw [treeAfter_eq, steps_append, hbefore]
  dsimp only
  rw [steps_cons, hstep]
  refine keeps_steps hholds fun d' hd => ?_
  obtain rfl := Option.some.inj hd
  exact hp

/-- **A log that is saved where it stands** is lost. -/
theorem holds_self (h : Saves config d t before f report t₁ t₂) {name : Bytes}
    (hname : f.path.fileName? = some name) (hself : f.path.location = (d.join name).location) :
    t₂.Holds f.path [] := by
  obtain ⟨t₁', hcopy, -⟩ := saveResults_ok hname h.saved
  exact FileTree.holds_copy_self hcopy hself

end Saves

/-- What saving the results of a log comes to, if it is reduced. -/
def saveOutcome (config : RunConfig) (d : Path) (t : FileTree) (f : LogFile) : Except Error Unit :=
  (outcome config t f).bind fun report => (saveResults (m := StateM FileTree) d f report t).1

/-- The results of the first log of a run are saved, if nothing fails. -/
theorem exists_saves (hsaved : saveOutcome config d t f = .ok ())
    (hgoes : (step (m := StateM FileTree) config (some d) f (.start config.design) t).1.1
      = .ok ()) : ∃ report t₂, Saves config d t [] f report t t₂ := by
  obtain ⟨report, hreduced, hsaved⟩ := bind_eq_ok_iff.1 hsaved
  exact ⟨report, _, ⟨_, rfl, rfl, hgoes⟩, hreduced, Prod.ext hsaved rfl⟩

/-- The configuration of a run that is asked for nothing else. -/
def standardConfig : RunConfig where
  design := .radix
  preset := Preset.standard.name
  costs := Preset.standard.costs
  overheads := Preset.standard.overheads
  suffix := Preset.logSuffix
  strict := false
  excludeExtensions := RunConfig.defaultExtensions
  debugOutputPeriod := ⟨1⟩

/-- **A run alters no other files.**  It keeps the contents of all files but
those at the targets of its logs, and so those of its logs if none of them is
among the results.  But a log that stands where its copy is saved is emptied,
and stays so unless a log that follows has a target there. -/
theorem run_keeps_other_files (config : RunConfig) (results : Option Path) (files : List LogFile)
    (t : FileTree) :
    (∀ p bytes, t.Holds p bytes → (∀ d, results = some d → ∀ f ∈ files, p.location ∉ targets d f) →
      (treeAfter config results files t).Holds p bytes) ∧
    ((∀ d, results = some d → ∀ f ∈ files, f.Plain ∧ ¬ f.path.LiesIn d) →
      ∀ f ∈ files, ∀ bytes, t.Holds f.path bytes →
        (treeAfter config results files t).Holds f.path bytes) ∧
    ∀ d before f after report t₁ t₂ name, results = some d → files = before ++ f :: after →
      Saves config d t before f report t₁ t₂ → f.path.fileName? = some name →
      f.path.location = (d.join name).location → (∀ g ∈ after, f.path.location ∉ targets d g) →
      (treeAfter config results files t).Holds f.path [] := by
  refine ⟨fun p bytes => keeps_run, fun houtside f hf bytes h => keeps_run h ?_, ?_⟩
  · intro d hd g hg htarget
    have hentry := isEntryOf_targets (houtside d hd g hg).1 htarget
    exact (houtside d hd f hf).2 (Path.liesIn_of_location hentry)
  · rintro d before f after report t₁ t₂ name rfl rfl hsaves hname hself hafter
    exact hsaves.keeps (hsaves.holds_self hname hself) hafter

/-- A log that is saved elsewhere, and then in its own directory. -/
theorem run_keeps_other_files_of_two_runs :
    let config := standardConfig
    let inside := fun (d name : String) => [Utf8.encode d.toList, Utf8.encode name.toList]
    let log := Utf8.encode "~~~~~~~~~~~~~~~\nL1,MEMORY,10\nPWC,L2,5\n".toList
    let t := (((FileTree.empty.put [Utf8.encode "logs".toList] .directory).put
      [Utf8.encode "out".toList] .directory).put
      (inside "logs" "mcf_dyna.log") (.file log)).put (inside "logs" "notes") (.file log)
    let f := LogFile.ofPath Preset.logSuffix (.ofString "logs/mcf_dyna.log")
    (treeAfter config (some (.ofString "out")) [f] t).Holds f.path log ∧
    (treeAfter config (some (.ofString "logs")) [f] t).Holds (.ofString "logs/notes") log ∧
    (treeAfter config (some (.ofString "logs")) [f] t).Holds f.path [] := by
  intro config inside log t f
  obtain ⟨-, houtside, -⟩ := run_keeps_other_files config (some (.ofString "out")) [f] t
  obtain ⟨hother, -, hself⟩ := run_keeps_other_files config (some (.ofString "logs")) [f] t
  refine ⟨houtside ?_ f List.mem_cons_self log (by decide +kernel),
    hother (.ofString "logs/notes") log (by decide +kernel) ?_, ?_⟩
  · intro d hd
    obtain rfl := Option.some.inj hd
    decide +kernel
  · intro d hd
    obtain rfl := Option.some.inj hd
    decide +kernel
  · obtain ⟨report, t₂, hsaves⟩ : ∃ report t₂,
        Saves config (.ofString "logs") t [] f report t t₂ :=
      exists_saves (by decide +kernel) (by decide +kernel)
    exact hself _ [] f [] report t t₂ (Utf8.encode "mcf_dyna.log".toList) rfl rfl hsaves
      (by decide +kernel) (by decide +kernel) nofun

/-- A log that is found in the directory where the results are saved is lost,
and the run succeeds. -/
theorem run_empties_log_among_results :
    let config := standardConfig
    let d := Path.ofString "logs"
    let log := Utf8.encode "[pin] run\n~~~~~~~~~~~~~~~\nL1,MEMORY,10\nPWC,L2,5\n".toList
    let t := (FileTree.empty.put [Utf8.encode "logs".toList] .directory).put
      [Utf8.encode "logs".toList, Utf8.encode "mcf_dyna.log".toList] (.file log)
    let f : LogFile := ⟨"mcf", .ofString "logs/mcf_dyna.log"⟩
    (LogFile.discover (m := StateM FileTree) d config.suffix config.excludeExtensions t).1.1
      = .ok [f] ∧
    t.Holds f.path log ∧
    (run (m := StateM FileTree) config (some d) [f] t).1.1.isOk = true ∧
    ¬ (treeAfter config (some d) [f] t).Holds f.path log := by
  decide +kernel

end PageWalk.Aggregation
