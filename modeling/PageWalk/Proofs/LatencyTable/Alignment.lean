/-
PageWalk/Proofs/LatencyTable/Alignment.lean

The columns of a displayed table.

Every cell has a place in its line: it begins behind the columns before it
and their gaps, and is filled up with blanks to the next column (`InColumn`).
It has room there because a column is as wide as the bytes of its longest
cell, and a text has no more characters than bytes (`length_le_columnWidth`).
Rows have a cell for every column, and their errors stand behind these
(`alignedRow_filled`).

All this is said of lines whose columns can have any width (`filled`).  A table
is displayed in such lines or, if one of its columns is too wide, not at all
(`display_eq`); so it is aligned wherever it can be displayed
(`display_stays_aligned`).
-/
import PageWalk.LatencyTable.Display
import PageWalk.Proofs.SortedMap
import PageWalk.Proofs.Text.Utf8

namespace PageWalk.LatencyTable

/-! ### Places in a line -/

/-- Where a column begins: behind the columns before it, with their gaps. -/
def offset (widths : List Nat) (i : Nat) : Nat := ((widths.take i).map (· + 2)).sum

/-- A line has a text after a number of characters. -/
def StandsAt (offset : Nat) (text line : String) : Prop :=
  ∃ before after, line = before ++ text ++ after ∧ before.length = offset

/-- A line has the whole of a cell where its column begins, and then blanks, at
least as many as a gap has, up to where the next column does. -/
def InColumn (widths : List Nat) (i : Nat) (cell line : String) : Prop :=
  ∃ before blanks after, line = before ++ cell ++ Text.spaces blanks ++ after ∧
    before.length = offset widths i ∧ 2 ≤ blanks ∧
    before.length + cell.length + blanks = offset widths (i + 1)

/-- No cell has more characters than its column. -/
def Fit (widths : List Nat) (texts : List String) : Prop :=
  ∀ (i width : Nat) (cell : String), widths[i]? = some width → texts[i]? = some cell →
    cell.length ≤ width

variable {widths : List Nat} {texts : List String} {cell : String} {i width : Nat}

theorem offset_succ (h : widths[i]? = some width) :
    offset widths (i + 1) = offset widths i + (width + 2) := by
  unfold offset
  rw [List.take_add_one, h]
  simp

/-! ### Lines -/

/-- A line as it would be if columns could have any width: each cell of a column
with blanks up to the next one, and a gap behind each cell beyond the columns. -/
def filled : List Nat → List String → String
  | _, [] => ""
  | [], cell :: texts => cell ++ gap ++ filled [] texts
  | width :: widths, cell :: texts =>
    cell ++ Text.spaces (width - cell.length + 2) ++ filled widths texts

/-- What is shown of a line, unless one of its columns is too wide. -/
theorem line?_eq (widths : List Nat) (texts : List String) :
    line? widths texts = if ∀ width ∈ widths.take texts.length, width ≤ Text.maxWidth
      then some (filled widths texts) else none := by
  fun_induction line? widths texts with
  | case1 widths => simp [filled]
  | case2 cell texts ih =>
    rw [ih]
    simp [filled]
  | case3 width widths cell texts ih =>
    have hgap : Text.spaces (width - cell.length) ++ gap
        = Text.spaces (width - cell.length + 2) := by
      unfold Text.spaces gap
      rw [List.replicate_add, String.ofList_append]
      rfl
    simp only [ih, List.length_cons, List.take_succ_cons, List.forall_mem_cons]
    unfold Text.alignLeft?
    by_cases hwidth : width ≤ Text.maxWidth
    · rw [if_pos hwidth, filled, ← hgap]
      simp only [hwidth, true_and]
      split <;> simp [Text.padRight, String.append_assoc]
    · -- the first column is too wide already
      simp [hwidth]

/-- The columns before one of them take as many characters as they should. -/
theorem filled_split (h : Fit widths texts) (hwidths : i ≤ widths.length)
    (htexts : i ≤ texts.length) :
    ∃ before, filled widths texts = before ++ filled (widths.drop i) (texts.drop i) ∧
      before.length = offset widths i := by
  induction i with
  | zero => exact ⟨"", String.empty_append.symm, rfl⟩
  | succ i ih =>
    -- the next column goes over to the front, filled up since its cell fits
    obtain ⟨before, hline, hlength⟩ :=
      ih (Nat.le_of_succ_le hwidths) (Nat.le_of_succ_le htexts)
    have hwidth := List.getElem?_eq_getElem hwidths
    have hfit := h i _ _ hwidth (List.getElem?_eq_getElem htexts)
    rw [List.drop_eq_getElem_cons hwidths, List.drop_eq_getElem_cons htexts, filled,
      ← String.append_assoc, ← String.append_assoc] at hline
    refine ⟨_, hline, ?_⟩
    rw [String.length_append, String.length_append, Text.length_spaces, hlength,
      offset_succ hwidth]
    omega

/-- A cell of a column stands in it. -/
theorem inColumn_filled (h : Fit widths texts) (hwidth : widths[i]? = some width)
    (hcell : texts[i]? = some cell) : InColumn widths i cell (filled widths texts) := by
  obtain ⟨hi, rfl⟩ := List.getElem?_eq_some_iff.1 hwidth
  obtain ⟨hi', rfl⟩ := List.getElem?_eq_some_iff.1 hcell
  obtain ⟨before, hline, hlength⟩ := filled_split h (Nat.le_of_lt hi) (Nat.le_of_lt hi')
  have hfit := h i _ _ hwidth hcell
  rw [List.drop_eq_getElem_cons hi, List.drop_eq_getElem_cons hi', filled,
    ← String.append_assoc, ← String.append_assoc] at hline
  refine ⟨before, _, _, hline, hlength, Nat.le_add_left _ _, ?_⟩
  rw [offset_succ hwidth, hlength]
  omega

/-- A cell beyond the columns stands right behind them. -/
theorem standsAt_filled (h : Fit widths texts) (hcell : texts[widths.length]? = some cell) :
    StandsAt (offset widths widths.length) cell (filled widths texts) := by
  obtain ⟨hi, rfl⟩ := List.getElem?_eq_some_iff.1 hcell
  obtain ⟨before, hline, hlength⟩ := filled_split h (Nat.le_refl _) (Nat.le_of_lt hi)
  rw [List.drop_length, List.drop_eq_getElem_cons hi, filled, ← String.append_assoc,
    ← String.append_assoc, String.append_assoc] at hline
  exact ⟨before, _, hline, hlength⟩

/-! ### Widths -/

theorem le_foldl_max {α : Type} (f : α → Nat) {as : List α} {n k : Nat}
    (h : n ≤ k ∨ ∃ a ∈ as, n ≤ f a) : n ≤ as.foldl (fun m a => max m (f a)) k := by
  induction as generalizing k with
  | nil => simpa using h
  | cons a as ih =>
    apply ih
    rcases h with h | ⟨b, hb, h⟩
    · exact Or.inl (Nat.le_trans h (Nat.le_max_left _ _))
    · rcases List.mem_cons.1 hb with rfl | hb
      · exact Or.inl (Nat.le_trans h (Nat.le_max_right _ _))
      · exact Or.inr ⟨b, hb, h⟩

variable {lines : List (List String)} {t : LatencyTable}

/-- A column is as wide as the bytes of each of its cells. -/
theorem byteLength_le_columnWidth (htexts : texts ∈ lines) (hcell : texts[i]? = some cell) :
    Text.byteLength cell ≤ columnWidth lines i :=
  le_foldl_max _ (Or.inr ⟨cell, List.mem_filterMap.2 ⟨texts, htexts, hcell⟩, Nat.le_refl _⟩)

theorem length_le_columnWidth (htexts : texts ∈ lines) (hcell : texts[i]? = some cell) :
    cell.length ≤ columnWidth lines i := by
  refine Nat.le_trans ?_ (byteLength_le_columnWidth htexts hcell)
  rw [← String.length_toList]
  exact Utf8.length_le_length_encode cell.toList

theorem length_widths (t : LatencyTable) : t.widths.length = (shownHeader t.design).length := by
  simp [widths, columnWidths]

theorem getElem?_widths (h : i < (shownHeader t.design).length) :
    t.widths[i]? = some (columnWidth t.cellRows i) := by
  simp [widths, columnWidths, h]

theorem fit_cellRows (h : texts ∈ t.cellRows) : Fit t.widths texts := by
  intro i width cell hwidth hcell
  have hi := (List.getElem?_eq_some_iff.1 hwidth).1
  rw [length_widths] at hi
  rw [getElem?_widths hi] at hwidth
  obtain rfl := Option.some.inj hwidth
  exact length_le_columnWidth h hcell

/-! ### Rows -/

/-- A row shows a cell in every column and, behind all of them, its error. -/
structure AlignedRow (t : LatencyTable) (e : String × Row) (line : String) : Prop where
  column : ∀ i < (shownHeader t.design).length, ∃ cell,
    (cells t.design e.1 e.2)[i]? = some cell ∧ InColumn t.widths i cell line
  error : ∀ error, e.2.error = some error →
    StandsAt (offset t.widths (shownHeader t.design).length) ("(" ++ error ++ ")") line

/-- A summary of the design of a table has a cell for each of its columns. -/
theorem length_summaryCells (s : Summary) :
    (summaryCells s).length + 1 = (shownHeader s.design).length := by
  cases s <;> rfl

theorem exists_cells (design : Design) (benchmark : String) {row : Row}
    (h : ∀ s, row.summary = some s → s.design = design) :
    ∃ shown, shown.length = (shownHeader design).length ∧
      cells design benchmark row
        = shown ++ (row.error.map fun error => "(" ++ error ++ ")").toList := by
  obtain ⟨summary, error⟩ := row
  cases summary with
  | none =>
    refine ⟨_, ?_, rfl⟩
    cases design <;> rfl
  | some s =>
    refine ⟨_, ?_, rfl⟩
    rw [← h s rfl, ← length_summaryCells]
    rfl

theorem alignedRow_filled {e : String × Row} (he : e ∈ t.rows.entries)
    (h : ∀ s, e.2.summary = some s → s.design = t.design) :
    AlignedRow t e (filled t.widths (cells t.design e.1 e.2)) := by
  have hfit : Fit t.widths (cells t.design e.1 e.2) :=
    fit_cellRows (List.mem_cons_of_mem _ (List.mem_map_of_mem he))
  obtain ⟨shown, hlength, hcells⟩ := exists_cells t.design e.1 h
  refine ⟨?_, ?_⟩
  · intro i hi
    have hshown : i < shown.length := by rwa [hlength]
    have hcell : (cells t.design e.1 e.2)[i]? = some shown[i] := by
      rw [hcells, List.getElem?_append_left hshown, List.getElem?_eq_getElem]
    exact ⟨_, hcell, inColumn_filled hfit (getElem?_widths hi) hcell⟩
  · intro error herror
    rw [← length_widths]
    apply standsAt_filled hfit
    -- the error is the one cell after those that are shown
    rw [hcells, length_widths, ← hlength, List.getElem?_append_right (Nat.le_refl _), herror]
    simp

/-! ### Tables -/

/-- **A table can be displayed exactly if no column is too wide**: its first line
has a cell for each of them. -/
theorem display_eq (t : LatencyTable) :
    t.display = if ∀ width ∈ t.widths, width ≤ Text.maxWidth
      then .ok (String.join ((t.cellRows.map (filled t.widths)).map (· ++ "\n")))
      else .error .columnTooWide := by
  unfold display
  by_cases h : ∀ width ∈ t.widths, width ≤ Text.maxWidth
  · have hlines : t.cellRows.mapM (line? t.widths) = some (t.cellRows.map (filled t.widths)) := by
      have hline : ∀ texts, line? t.widths texts = some (filled t.widths texts) := by
        intro texts
        rw [line?_eq, if_pos fun width hwidth => h width (List.mem_of_mem_take hwidth)]
      rw [funext hline]
      exact List.mapM_pure
    rw [hlines, if_pos h]
  · have hhead : line? t.widths (shownHeader t.design) = none := by
      rw [line?_eq, if_neg]
      rwa [← length_widths, List.take_length]
    rw [cellRows, List.mapM_cons, hhead, if_neg h]
    rfl

/-- **A displayed table is aligned.**  In its first line and in the line of
each row, every column has its whole cell where it begins and blanks up to the
next one, and errors stand behind all columns.  It is displayed exactly if no
column is wider than columns can be. -/
theorem display_stays_aligned (t : LatencyTable)
    (h : ∀ e ∈ t.rows.entries, ∀ s, e.2.summary = some s → s.design = t.design) :
    ∃ head rows,
      (∀ i name, (shownHeader t.design)[i]? = some name → InColumn t.widths i name head) ∧
      List.Forall₂ (AlignedRow t) t.rows.entries rows ∧
      t.display = if ∀ width ∈ t.widths, width ≤ Text.maxWidth
        then .ok (String.join ((head :: rows).map (· ++ "\n"))) else .error .columnTooWide := by
  refine ⟨filled t.widths (shownHeader t.design),
    t.rows.entries.map fun e => filled t.widths (cells t.design e.1 e.2), ?_, ?_, ?_⟩
  · intro i name hname
    have hfit : Fit t.widths (shownHeader t.design) := fit_cellRows List.mem_cons_self
    exact inColumn_filled hfit (getElem?_widths (List.getElem?_eq_some_iff.1 hname).1) hname
  · rw [List.forall₂_map_right_iff, List.forall₂_same]
    intro e he
    exact alignedRow_filled he (h e he)
  · rw [display_eq]
    unfold cellRows
    rw [List.map_cons, List.map_map]
    rfl

/-- A name that takes more bytes than characters, a row without requests, and
one that failed. -/
theorem display_stays_aligned_of_three_rows :
    let t : LatencyTable :=
      (((empty .radix).insert "日本" (.ofSummary (.radix ⟨204.0, .ofNat 15⟩))).insert "é"
        (.ofSummary (.radix ⟨0.0, 0⟩))).insert "mcf" (.failed "not\nthere")
    (∀ e ∈ t.rows.entries, ∀ s, e.2.summary = some s → s.design = t.design) ∧
      (∀ width ∈ t.widths, width ≤ Text.maxWidth) ∧
      ∃ head rows, List.Forall₂ (AlignedRow t) t.rows.entries rows ∧
        t.display = .ok (String.join ((head :: rows).map (· ++ "\n"))) := by
  intro t
  have hdesign : ∀ e ∈ t.rows.entries, ∀ s, e.2.summary = some s → s.design = t.design := by
    decide +kernel
  have hwidths : ∀ width ∈ t.widths, width ≤ Text.maxWidth := by decide +kernel
  obtain ⟨head, rows, -, hrows, hdisplay⟩ := display_stays_aligned t hdesign
  rw [if_pos hwidths] at hdisplay
  exact ⟨hdesign, hwidths, head, rows, hrows, hdisplay⟩

theorem display_eq_error {e : String × Row} (he : e ∈ t.rows.entries)
    (h : Text.maxWidth < Text.byteLength e.1) : t.display = .error .columnTooWide := by
  have hcell : (cells t.design e.1 e.2)[0]? = some e.1 := rfl
  have hle : Text.byteLength e.1 ≤ columnWidth t.cellRows 0 :=
    byteLength_le_columnWidth (List.mem_cons_of_mem _ (List.mem_map_of_mem he)) hcell
  have hmem : columnWidth t.cellRows 0 ∈ t.widths :=
    List.mem_of_getElem? (getElem?_widths (by cases t.design <;> decide))
  rw [display_eq, if_neg]
  intro hall
  exact Nat.not_le.2 (Nat.lt_of_lt_of_le h hle) (hall _ hmem)

/-- **A table with a long name cannot be displayed**, whatever its rows are. -/
theorem display_fails_of_long_name :
    let t := (empty .radix).insert (String.ofList (List.replicate 65536 'a')) (.failed "none")
    (∀ e ∈ t.rows.entries, ∀ s, e.2.summary = some s → s.design = t.design) ∧
      ¬ ∃ text, t.display = .ok text := by
  intro t
  refine ⟨?_, ?_⟩
  · rintro e he s hs
    obtain rfl := List.mem_singleton.1 he
    cases hs
  · rintro ⟨text, htext⟩
    have hlength := Utf8.length_le_length_encode (List.replicate 65536 'a')
    rw [List.length_replicate] at hlength
    have herror : t.display = .error .columnTooWide := by
      apply display_eq_error List.mem_cons_self
      show 65535 < (Utf8.encode (String.ofList (List.replicate 65536 'a')).toList).length
      rw [String.toList_ofList]
      exact hlength
    rw [herror] at htext
    cases htext

end PageWalk.LatencyTable
