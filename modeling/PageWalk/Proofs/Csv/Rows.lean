/-
PageWalk/Proofs/Csv/Rows.lean

The data rows of a csv text, read one by one into a map.

Each row gives an entry by itself, so a text is read by reading all its rows
and then taking in what they give (`foldlM_read_iff`).  Where an entry is
refused if the map has its key already, all are taken in exactly if no two have
the same key (`foldlM_insertNew?_empty_iff`), and the map then keeps every row
(`KeepsRows`).
-/
import PageWalk.Csv.Named
import PageWalk.Proofs.Error
import PageWalk.Proofs.SortedMap

namespace PageWalk.Csv

/-! ### Rows of a text -/

/-- The row that names the columns; an empty text has none. -/
def headerRow (text : Bytes) : List Bytes := (parse text).headD []

/-- The rows after the one that names the columns. -/
def dataRows (text : Bytes) : List (List Bytes) := (parse text).tail

variable {ε ε' ρ σ : Type}

/-- All data rows of a text give entries, and no two have the same key. -/
def RowsDiffer (read : List Bytes → Except ε (String × ρ)) (text : Bytes) : Prop :=
  ∃ entries, (dataRows text).mapM read = .ok entries ∧ entries.Pairwise fun a b => a.1 ≠ b.1

/-- The map has one entry for each data row of a text, and that is what the
row gives. -/
structure KeepsRows (read : List Bytes → Except ε (String × ρ)) (text : Bytes)
    (rows : SortedMap String ρ) : Prop where
  size : rows.size = (dataRows text).length
  entries : ∃ entries, (dataRows text).mapM read = .ok entries ∧ rows.entries.Perm entries

theorem KeepsRows.ofList {read : List Bytes → Except ε (String × ρ)} {text : Bytes}
    {entries : List (String × ρ)} (h : (dataRows text).mapM read = .ok entries)
    (hne : entries.Pairwise fun a b => a.1 ≠ b.1) :
    KeepsRows read text (SortedMap.ofList entries) where
  size := (SortedMap.perm_ofList hne).length_eq.trans (length_of_mapM_eq_ok h)
  entries := ⟨entries, h, SortedMap.perm_ofList hne⟩

/-! ### Row by row -/

/-- **Reading and taking in row by row** is reading all rows and then taking in
all that they give. -/
theorem foldlM_read_iff {α β : Type} {read : List Bytes → Except ε β} {next : α → β → Option α}
    (table : α → σ) {step : σ → List Bytes → Except ε' σ}
    (hstep : ∀ a line t, step (table a) line = .ok t ↔
      ∃ b a', read line = .ok b ∧ next a b = some a' ∧ t = table a')
    {lines : List (List Bytes)} {a : α} {t : σ} :
    lines.foldlM step (table a) = .ok t ↔ ∃ bs a',
      lines.mapM read = .ok bs ∧ bs.foldlM next a = some a' ∧ t = table a' := by
  induction lines generalizing a with
  | nil =>
    constructor
    · intro h
      exact ⟨[], a, rfl, rfl, (Except.ok.inj h).symm⟩
    · rintro ⟨bs, a', hbs, hnext, rfl⟩
      obtain rfl := Except.ok.inj hbs
      obtain rfl := Option.some.inj hnext
      rfl
  | cons line lines ih =>
    rw [List.foldlM_cons, bind_eq_ok_iff]
    simp only [hstep]
    constructor
    · rintro ⟨_, ⟨b, a', hb, hnext, rfl⟩, h⟩
      obtain ⟨bs, a'', hbs, hrest, rfl⟩ := ih.1 h
      refine ⟨b :: bs, a'', mapM_cons_eq_ok_iff.2 ⟨b, bs, hb, hbs, rfl⟩, ?_, rfl⟩
      rw [List.foldlM_cons]
      exact Option.bind_eq_some_iff.2 ⟨a', hnext, hrest⟩
    · rintro ⟨_, a'', hall, hrest, rfl⟩
      obtain ⟨b, bs, hb, hbs, rfl⟩ := mapM_cons_eq_ok_iff.1 hall
      rw [List.foldlM_cons] at hrest
      obtain ⟨a', hnext, hrest⟩ := Option.bind_eq_some_iff.1 hrest
      exact ⟨_, ⟨b, a', hb, hnext, rfl⟩, ih.2 ⟨bs, a'', hbs, hrest, rfl⟩⟩

/-- The map with one more entry, unless it has the key already. -/
def insertNew? (rows : SortedMap String ρ) (e : String × ρ) : Option (SortedMap String ρ) :=
  if rows.contains e.1 then none else some (rows.insert e.1 e.2)

theorem insertNew?_eq_some_iff {rows rows' : SortedMap String ρ} {e : String × ρ} :
    insertNew? rows e = some rows' ↔ rows.contains e.1 = false ∧ rows' = rows.insert e.1 e.2 := by
  unfold insertNew?
  cases rows.contains e.1 <;> simp [eq_comm]

theorem contains_insert_eq_false {rows : SortedMap String ρ} {k k' : String} {a : ρ} :
    (rows.insert k a).contains k' = false ↔ k' ≠ k ∧ rows.contains k' = false := by
  unfold SortedMap.contains
  rw [SortedMap.get?_insert]
  by_cases hk : k' = k <;> simp [hk]

/-- Entries are all new if their keys differ and the map has none of them. -/
theorem foldlM_insertNew?_iff {entries : List (String × ρ)} {rows rows' : SortedMap String ρ} :
    entries.foldlM insertNew? rows = some rows' ↔
      (entries.Pairwise fun a b => a.1 ≠ b.1) ∧ (∀ e ∈ entries, rows.contains e.1 = false) ∧
        rows' = entries.foldl (fun m e => m.insert e.1 e.2) rows := by
  induction entries generalizing rows with
  | nil =>
    constructor
    · intro h
      exact ⟨.nil, nofun, (Option.some.inj h).symm⟩
    · rintro ⟨-, -, rfl⟩
      rfl
  | cons e entries ih =>
    rw [List.foldlM_cons, List.pairwise_cons, List.foldl_cons]
    show (insertNew? rows e).bind _ = _ ↔ _
    rw [Option.bind_eq_some_iff]
    simp only [insertNew?_eq_some_iff, ih]
    constructor
    · rintro ⟨_, ⟨hnew, rfl⟩, hne, hfresh, rfl⟩
      simp only [contains_insert_eq_false] at hfresh
      refine ⟨⟨fun e' he' => (hfresh e' he').1.symm, hne⟩, ?_, rfl⟩
      intro e' he'
      rcases List.mem_cons.1 he' with rfl | he'
      · exact hnew
      · exact (hfresh e' he').2
    · rintro ⟨⟨hfirst, hne⟩, hfresh, rfl⟩
      refine ⟨_, ⟨hfresh e List.mem_cons_self, rfl⟩, hne, ?_, rfl⟩
      intro e' he'
      exact contains_insert_eq_false.2
        ⟨(hfirst e' he').symm, hfresh e' (List.mem_cons_of_mem _ he')⟩

/-- From the empty map on, entries are all new if their keys differ. -/
theorem foldlM_insertNew?_empty_iff {entries : List (String × ρ)} {rows : SortedMap String ρ} :
    entries.foldlM insertNew? .empty = some rows ↔
      (entries.Pairwise fun a b => a.1 ≠ b.1) ∧ rows = .ofList entries := by
  rw [foldlM_insertNew?_iff]
  exact and_congr_right fun _ => ⟨fun h => h.2, fun h => ⟨fun _ _ => rfl, h⟩⟩

/-! ### Texts with named columns -/

/-- A text is read row by row if its columns have names. -/
theorem foldNamed_eq_ok_iff {columns : List Column} {ofFields? : List (Option String) → Option ρ}
    {add : σ → ρ → Except Error σ} {start t : σ} {text : Bytes} :
    foldNamed columns ofFields? add start text = .ok t ↔
      ∃ names, rowText? (headerRow text) = some names ∧
        (dataRows text).foldlM (fun t line => do add t (← readNamed columns ofFields? names line))
          start = .ok t := by
  unfold foldNamed headerRow dataRows
  cases parse text with
  | nil => exact ⟨fun h => ⟨[], rfl, h⟩, fun ⟨_, _, h⟩ => h⟩
  | cons first lines =>
    cases hnames : rowText? first with
    | none => simp [hnames]
    | some names => simp [hnames]

end PageWalk.Csv
