/-
PageWalk/Proofs/Comparison/Tables.lean

Which rows the tables keep that are read from csv texts.

Latency tables and access tables refuse a second row of a benchmark: they are
read exactly if all rows of a text give entries of different benchmarks
(`LatencyTable.ofCsv_eq_ok_iff`, `AccessTable.ofCsv_eq_ok_iff`), and then keep
every row.  The rows of a comparison are read without that check, so a later
row takes the place of an earlier one (`Comparison.rowsOfCsv_eq_ok_iff`), and
all are kept only if their benchmarks differ (`tables_keep_rows`).
-/
import PageWalk.Comparison.Csv
import PageWalk.LatencyTable.Csv
import PageWalk.Proofs.Csv.Rows

namespace PageWalk

/-! ### Latency tables -/

namespace LatencyTable

variable {design : Design} {text : Bytes} {t : LatencyTable}

/-- What a row of a text gives, read by itself. -/
def entryOf (design : Design) (text : Bytes) : List Bytes → Except Cause (String × Row) :=
  readRow design (Csv.headerOf (Csv.headerRow text)) (Csv.headerRow text).length

theorem addLine_eq_ok_iff {header : Csv.Header} {width : Nat} (rows : SortedMap String Row)
    (line : List Bytes) (t : LatencyTable) :
    addLine header width ⟨design, rows⟩ line = .ok t ↔ ∃ e rows',
      readRow design header width line = .ok e ∧ Csv.insertNew? rows e = some rows' ∧
        t = ⟨design, rows'⟩ := by
  unfold addLine
  simp only [Csv.insertNew?_eq_some_iff]
  cases readRow design header width line with
  | error c => simp
  | ok e =>
    show (if rows.contains e.1 then _ else _) = _ ↔ _
    constructor
    · intro h
      split at h
      · cases h
      · rename_i hnew
        exact ⟨e, _, rfl, ⟨Bool.eq_false_iff.2 hnew, rfl⟩, (Except.ok.inj h).symm⟩
    · rintro ⟨e', _, he, ⟨hnew, rfl⟩, rfl⟩
      obtain rfl := Except.ok.inj he
      rw [hnew]
      rfl

/-- **A latency table is read** from rows of different benchmarks. -/
theorem ofCsv_eq_ok_iff : ofCsv design text = .ok t ↔ ∃ entries,
    (Csv.dataRows text).mapM (entryOf design text) = .ok entries ∧
      (entries.Pairwise fun a b => a.1 ≠ b.1) ∧ t = ⟨design, .ofList entries⟩ := by
  have hfold : ofCsv design text = (Csv.dataRows text).foldlM
      (addLine (Csv.headerOf (Csv.headerRow text)) (Csv.headerRow text).length)
        ⟨design, .empty⟩ := by
    unfold ofCsv Csv.dataRows Csv.headerRow
    cases Csv.parse text <;> rfl
  rw [hfold, Csv.foldlM_read_iff _ addLine_eq_ok_iff]
  simp only [Csv.foldlM_insertNew?_empty_iff]
  constructor
  · rintro ⟨entries, rows, hentries, ⟨hne, rfl⟩, rfl⟩
    exact ⟨entries, hentries, hne, rfl⟩
  · rintro ⟨entries, hentries, hne, rfl⟩
    exact ⟨entries, _, hentries, ⟨hne, rfl⟩, rfl⟩

end LatencyTable

/-! ### Tables whose columns have names -/

namespace Csv

variable {ρ τ : Type} {columns : List Column} {ofFields? : List (Option String) → Option ρ}
  {text : Bytes}

/-- The columns of a text have names. -/
def HasNames (text : Bytes) : Prop := (rowText? (headerRow text)).isSome = true

/-- What a row of a text gives by the names of its columns. -/
def namedEntry (columns : List Column) (ofFields? : List (Option String) → Option ρ)
    (text : Bytes) : List Bytes → Except Error ρ :=
  readNamed columns ofFields? ((rowText? (headerRow text)).getD [])

/-- A text is read by names if it has them and its rows are taken in. -/
theorem foldNamed_iff {add : τ → ρ → Except Error τ} {next : τ → ρ → Option τ}
    (hadd : ∀ t row t', add t row = .ok t' ↔ next t row = some t') {start t : τ} :
    foldNamed columns ofFields? add start text = .ok t ↔ HasNames text ∧ ∃ entries,
      (dataRows text).mapM (namedEntry columns ofFields? text) = .ok entries ∧
        entries.foldlM next start = some t := by
  have hstep : ∀ names t line t', (do add t (← readNamed columns ofFields? names line)) = .ok t' ↔
      ∃ row t'', readNamed columns ofFields? names line = .ok row ∧ next t row = some t'' ∧
        t' = id t'' := by
    intro names t line t'
    rw [bind_eq_ok_iff]
    simp [hadd]
  rw [foldNamed_eq_ok_iff]
  unfold HasNames namedEntry
  rw [Option.isSome_iff_exists]
  constructor
  · rintro ⟨names, hnames, h⟩
    obtain ⟨entries, _, hentries, hnext, rfl⟩ := (foldlM_read_iff id (hstep names)).1 h
    refine ⟨⟨names, hnames⟩, entries, ?_, hnext⟩
    rw [hnames]
    exact hentries
  · rintro ⟨⟨names, hnames⟩, entries, hentries, hnext⟩
    rw [hnames] at hentries
    exact ⟨names, hnames, (foldlM_read_iff id (hstep names)).2 ⟨entries, _, hentries, hnext, rfl⟩⟩

end Csv

namespace AccessTable

variable {text : Bytes} {t : AccessTable}

/-- What a row of a text gives, read by itself. -/
def entryOf (text : Bytes) : List Bytes → Except Error (String × AccessRates) :=
  Csv.namedEntry columns ofFields? text

theorem add_eq_ok_iff (t : AccessTable) (row : String × AccessRates) (t' : AccessTable) :
    add t row = .ok t' ↔ Csv.insertNew? t row = some t' := by
  unfold add Csv.insertNew?
  cases t.contains row.1 with
  | true => simp [fail]
  | false => simp

/-- **An access table is read** from rows of different benchmarks. -/
theorem ofCsv_eq_ok_iff : ofCsv text = .ok t ↔ Csv.HasNames text ∧ ∃ entries,
    (Csv.dataRows text).mapM (entryOf text) = .ok entries ∧
      (entries.Pairwise fun a b => a.1 ≠ b.1) ∧ t = .ofList entries := by
  unfold ofCsv
  rw [Csv.foldNamed_iff add_eq_ok_iff]
  simp only [Csv.foldlM_insertNew?_empty_iff]
  rfl

end AccessTable

namespace Comparison

variable {text : Bytes} {rows : SortedMap String Row}

/-- What a row of a text gives, read by itself. -/
def entryOf (text : Bytes) : List Bytes → Except Error (String × Row) :=
  Csv.namedEntry columns ofFields? text

/-- **The rows of a comparison are read** from any rows; of those of one
benchmark the last stays. -/
theorem rowsOfCsv_eq_ok_iff : rowsOfCsv text = .ok rows ↔ Csv.HasNames text ∧ ∃ entries,
    (Csv.dataRows text).mapM (entryOf text) = .ok entries ∧ rows = .ofList entries := by
  have hadd : ∀ (rows : SortedMap String Row) (row : String × Row) rows',
      (Except.ok (rows.insert row.1 row.2) : Except Error _) = .ok rows' ↔
        (pure (rows.insert row.1 row.2) : Option _) = some rows' := by
    intro rows row rows'
    exact ⟨fun h => congrArg some (Except.ok.inj h), fun h => congrArg _ (Option.some.inj h)⟩
  unfold rowsOfCsv
  rw [Csv.foldNamed_iff hadd]
  refine and_congr_right fun _ => exists_congr fun entries => and_congr_right fun _ => ?_
  rw [List.foldlM_pure]
  exact ⟨fun h => (Option.some.inj h).symm, fun h => congrArg some h.symm⟩

/-- **No row of a table is lost.**  A latency table and an access table are
read exactly if all rows of a text give entries of different benchmarks, and
then have one entry for each row, which is what that row gives.  So have the
rows of a comparison if their benchmarks differ; these are read whether they do
or not, and then the last of a benchmark stays. -/
theorem tables_keep_rows (text : Bytes) :
    (∀ design : Design,
      ((∃ t, LatencyTable.ofCsv design text = .ok t) ↔
        Csv.RowsDiffer (LatencyTable.entryOf design text) text) ∧
      ∀ t, LatencyTable.ofCsv design text = .ok t →
        Csv.KeepsRows (LatencyTable.entryOf design text) text t.rows) ∧
    (((∃ t, AccessTable.ofCsv text = .ok t) ↔
        Csv.HasNames text ∧ Csv.RowsDiffer (AccessTable.entryOf text) text) ∧
      ∀ t, AccessTable.ofCsv text = .ok t →
        Csv.KeepsRows (AccessTable.entryOf text) text t) ∧
    ((∃ rows, rowsOfCsv text = .ok rows) ↔ Csv.HasNames text ∧
        ∃ entries, (Csv.dataRows text).mapM (entryOf text) = .ok entries) ∧
    ∀ rows, rowsOfCsv text = .ok rows →
      (∃ entries, (Csv.dataRows text).mapM (entryOf text) = .ok entries ∧
        rows = .ofList entries) ∧
      (Csv.RowsDiffer (entryOf text) text → Csv.KeepsRows (entryOf text) text rows) := by
  refine ⟨fun design => ⟨?_, ?_⟩, ⟨?_, ?_⟩, ?_, ?_⟩
  · simp only [LatencyTable.ofCsv_eq_ok_iff]
    constructor
    · rintro ⟨_, entries, hentries, hne, rfl⟩
      exact ⟨entries, hentries, hne⟩
    · rintro ⟨entries, hentries, hne⟩
      exact ⟨_, entries, hentries, hne, rfl⟩
  · intro t h
    obtain ⟨entries, hentries, hne, rfl⟩ := LatencyTable.ofCsv_eq_ok_iff.1 h
    exact .ofList hentries hne
  · simp only [AccessTable.ofCsv_eq_ok_iff]
    constructor
    · rintro ⟨_, hnames, entries, hentries, hne, rfl⟩
      exact ⟨hnames, entries, hentries, hne⟩
    · rintro ⟨hnames, entries, hentries, hne⟩
      exact ⟨_, hnames, entries, hentries, hne, rfl⟩
  · intro t h
    obtain ⟨-, entries, hentries, hne, rfl⟩ := AccessTable.ofCsv_eq_ok_iff.1 h
    exact .ofList hentries hne
  · simp only [rowsOfCsv_eq_ok_iff]
    constructor
    · rintro ⟨_, hnames, entries, hentries, rfl⟩
      exact ⟨hnames, entries, hentries⟩
    · rintro ⟨hnames, entries, hentries⟩
      exact ⟨_, hnames, entries, hentries, rfl⟩
  · intro rows h
    obtain ⟨-, entries, hentries, rfl⟩ := rowsOfCsv_eq_ok_iff.1 h
    refine ⟨⟨entries, hentries, rfl⟩, ?_⟩
    rintro ⟨entries', hentries', hne⟩
    obtain rfl := Except.ok.inj (hentries.symm.trans hentries')
    exact .ofList hentries hne

/-- Texts of two rows: a latency table, an access table, and the rows of a
comparison, with columns in other orders. -/
theorem tables_keep_rows_of_two_rows :
    let latencies := Utf8.encode
      "error,Benchmark,total requests,latency\n,mcf,10,1.5\nno log,gcc,,\n".toList
    let access := Utf8.encode
      "Page Walk,TLB Hit,Benchmark,TLB Hit Latency,Memory Request\n1,9,b,1,10\n2,8,a,1,10\n".toList
    let comparison := Utf8.encode
      "speedup,Benchmark,baseline_ipc,candidate_ipc\n2,b,1,2\n3,a,1,3\n".toList
    (∃ t, LatencyTable.ofCsv .radix latencies = .ok t ∧ t.rows.size = 2 ∧
      Csv.KeepsRows (LatencyTable.entryOf .radix latencies) latencies t.rows) ∧
    (∃ t, AccessTable.ofCsv access = .ok t ∧ t.size = 2 ∧
      Csv.KeepsRows (AccessTable.entryOf access) access t) ∧
    ∃ rows, rowsOfCsv comparison = .ok rows ∧ rows.size = 2 ∧
      Csv.KeepsRows (entryOf comparison) comparison rows := by
  intro latencies access comparison
  refine ⟨?_, ?_, ?_⟩
  · have hread : (LatencyTable.ofCsv .radix latencies).map (·.rows.size) = .ok 2 := by
      decide +kernel
    obtain ⟨t, ht, hsize⟩ := map_eq_ok_iff.1 hread
    exact ⟨t, ht, hsize, ((tables_keep_rows latencies).1 .radix).2 t ht⟩
  · have hread : (AccessTable.ofCsv access).map (·.size) = .ok 2 := by decide +kernel
    obtain ⟨t, ht, hsize⟩ := map_eq_ok_iff.1 hread
    exact ⟨t, ht, hsize, (tables_keep_rows access).2.1.2 t ht⟩
  · have hread : (rowsOfCsv comparison).map (·.size) = .ok 2 := by decide +kernel
    have hkeys : ((Csv.dataRows comparison).mapM (entryOf comparison)).map (·.map (·.1))
        = .ok ["b", "a"] := by decide +kernel
    obtain ⟨rows, hrows, hsize⟩ := map_eq_ok_iff.1 hread
    obtain ⟨entries, hentries, hkeys⟩ := map_eq_ok_iff.1 hkeys
    refine ⟨rows, hrows, hsize, ((tables_keep_rows comparison).2.2.2 rows hrows).2 ?_⟩
    refine ⟨entries, hentries, List.pairwise_map.1 ?_⟩
    rw [hkeys]
    decide

/-- The rows of a comparison that lists a benchmark twice are read, and one of
them is lost. -/
theorem rowsOfCsv_loses_row :
    let text := Utf8.encode
      "Benchmark,baseline_ipc,candidate_ipc,speedup\na,1.0,2.0,2.0\na,1.0,3.0,3.0\n".toList
    ∃ rows, rowsOfCsv text = .ok rows ∧ rows.size = 1 ∧ (Csv.dataRows text).length = 2 ∧
      ¬ Csv.KeepsRows (entryOf text) text rows := by
  intro text
  have hread : (rowsOfCsv text).map (·.size) = .ok 1 := by decide +kernel
  have hlines : (Csv.dataRows text).length = 2 := by decide +kernel
  obtain ⟨rows, hrows, hsize⟩ := map_eq_ok_iff.1 hread
  refine ⟨rows, hrows, hsize, hlines, ?_⟩
  intro hkeeps
  rw [← hkeeps.size, hsize] at hlines
  cases hlines

end Comparison

end PageWalk
