/-
PageWalk/Proofs/Comparison/RoundTrip.lean

The rows of a comparison are read back from what is written of them.

Each line has the texts of one row under the names of all columns, so it gives
that row (`readNamed_rowTexts`).  The lines of a comparison thus give its
rows in their order, and these make the map that they were taken from.  A
comparison without rows is an empty text, which has neither names nor rows.
-/
import PageWalk.Proofs.Comparison.Tables
import PageWalk.Proofs.Csv.Columns

namespace PageWalk.Comparison

theorem names_columns : columns.map (·.name) = header := rfl

/-- The texts of a row give the row. -/
theorem ofFields?_rowTexts (benchmark : String) (row : Row) :
    ofFields? ((rowTexts benchmark row).map some) = some (benchmark, row) := by
  have hfloat : ∀ x, Csv.required? Decimal.float? (some (Csv.ofFloat x)) = some x :=
    Csv.float?_ofFloat
  unfold rowTexts
  simp only [List.map_cons, List.map_nil, ofFields?, Csv.required?_text, hfloat]
  rfl

/-- **A line of a comparison** gives the row that it was written for. -/
theorem readNamed_rowTexts (benchmark : String) (row : Row) :
    Csv.readNamed columns ofFields? header
      ((rowTexts benchmark row).map fun text => Utf8.encode text.toList)
        = .ok (benchmark, row) := by
  have hfields : Csv.fields? columns (.named header) (rowTexts benchmark row)
      = some ((rowTexts benchmark row).map some) := by
    rw [← names_columns]
    exact Csv.fields?_named (by decide) rfl
  have htexts : (rowTexts benchmark row).length = header.length := rfl
  unfold Csv.readNamed
  rw [Csv.checkRow_encode htexts]
  dsimp only
  rw [hfields, Option.bind_some, ofFields?_rowTexts]

/-- The lines of rows give these rows. -/
theorem mapM_readNamed_rowTexts (entries : List (String × Row)) :
    (entries.map fun e => (rowTexts e.1 e.2).map fun text => Utf8.encode text.toList).mapM
        (Csv.readNamed columns ofFields? header) = .ok entries := by
  induction entries with
  | nil => rfl
  | cons e entries ih =>
    exact mapM_cons_eq_ok_iff.2 ⟨e, entries, readNamed_rowTexts e.1 e.2, ih, rfl⟩

/-- What is written of some rows: the names of the columns, and a line for
each row. -/
theorem parse_toCsv {c : Comparison} (h : c.rows.isEmpty = false) :
    Csv.parse c.toCsv = (header.map fun name => Utf8.encode name.toList) ::
      c.rows.entries.map fun e =>
        (rowTexts e.1 e.2).map fun text => Utf8.encode text.toList := by
  have hnonempty : ∀ texts ∈ header :: c.rows.entries.map (fun e => rowTexts e.1 e.2),
      texts ≠ [] := by
    intro texts htexts
    rcases List.mem_cons.1 htexts with rfl | htexts
    · exact List.cons_ne_nil _ _
    · obtain ⟨e, -, rfl⟩ := List.mem_map.1 htexts
      exact List.cons_ne_nil _ _
  unfold toCsv
  rw [h, if_neg Bool.false_ne_true]
  show Csv.parse (Csv.renderTexts (header :: c.rows.entries.map fun e => rowTexts e.1 e.2)) = _
  rw [Csv.parse_renderTexts hnonempty
    (Csv.dropMark_renderTexts (b := 0x42) rfl (by decide) _), List.map_cons, List.map_map]
  rfl

/-- **The rows of a comparison survive their file**: what is written of any
comparison is read as its rows, whatever their benchmarks are called and
whatever numbers they have, and also where there are none. -/
theorem rowsOfCsv_toCsv (c : Comparison) : rowsOfCsv c.toCsv = .ok c.rows := by
  rw [rowsOfCsv_eq_ok_iff]
  unfold Csv.HasNames entryOf Csv.namedEntry Csv.headerRow Csv.dataRows
  cases hrows : c.rows.isEmpty with
  | true =>
    have hentries : c.rows.entries = [] := List.isEmpty_iff.1 hrows
    have hempty : Csv.parse c.toCsv = [] := by
      unfold toCsv
      rw [hrows]
      rfl
    rw [hempty]
    exact ⟨rfl, [], rfl, (SortedMap.ofList_eq_of_perm (hentries ▸ .refl _)).symm⟩
  | false =>
    rw [parse_toCsv hrows, List.headD_cons, Csv.rowText?_encode]
    exact ⟨rfl, c.rows.entries, mapM_readNamed_rowTexts _,
      (SortedMap.ofList_eq_of_perm (.refl _)).symm⟩

end PageWalk.Comparison
