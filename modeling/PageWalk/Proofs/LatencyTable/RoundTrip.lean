/-
PageWalk/Proofs/LatencyTable/RoundTrip.lean

Latency tables are read back from what is written of them.

A summary is written as texts of its numbers and a missing one as empty
texts, which is the same as writing each number or nothing
(`radixTexts_eq`, `ecptTexts_eq`); so one statement for what may be missing
reads every field back.  Rows follow (`rowTexts_ok`), and then whole tables,
whose rows are inserted one after the other (`foldlM_addLine_ok`).

A file has the text of a table if there is one, and otherwise as much as was
written before the row that cannot be (`toCsv_eq`, `write_eq`).
-/
import PageWalk.Proofs.Aggregation.Table
import PageWalk.Proofs.Csv.Columns
import PageWalk.Proofs.Files.Contents
import PageWalk.Proofs.SortedMap

namespace PageWalk.LatencyTable

/-! ### Columns -/

theorem names_columns (design : Design) : (columns design).map (·.name) = header design := by
  cases design <;> rfl

theorem nodup_header (design : Design) : (header design).Nodup := by
  cases design <;> decide

theorem fields?_header {design : Design} {texts : List String}
    (h : texts.length = (header design).length) :
    Csv.fields? (columns design) (.named (header design)) texts = some (texts.map some) := by
  rw [← names_columns] at h ⊢
  apply Csv.fields?_named
  · rw [names_columns]
    exact nodup_header design
  · rw [h, List.length_map]

/-! ### Fields -/

section Fields

open Csv (ofOption ofFloat optional?_ofOption required?_text)

theorem radixTexts_eq (s? : Option RadixSummary) :
    radixTexts s? = [ofOption ofFloat (s?.map (·.meanLatency)),
      ofOption toString (s?.map (·.totalRequests))] := by
  cases s? <;> rfl

theorem ecptTexts_eq (s? : Option EcptSummary) :
    ecptTexts s? = [ofOption ofFloat (s?.map (·.meanMaxLatency)),
      ofOption ofFloat (s?.map (·.meanCorrectLatency)),
      ofOption ofFloat (s?.map (·.meanParallelLatency)),
      ofOption ofFloat (s?.map (·.averageReduction)),
      ofOption toString (s?.map (·.totalSavedLatency)),
      ofOption toString (s?.map (·.totalRequests))] := by
  cases s? <;> rfl

theorem optional?_number (x? : Option Float) :
    Csv.optional? Decimal.float? (some (ofOption ofFloat x?)) = some x? :=
  optional?_ofOption Csv.float?_ofFloat (by decide +kernel) x?

theorem optional?_counter {bits : Nat} (c? : Option (Counter bits)) :
    Csv.optional? Csv.counter? (some (ofOption toString c?)) = some c? :=
  optional?_ofOption Csv.counter?_toString rfl c?

variable {error : Option String}

theorem ofFields?_radix (benchmark : String) (s? : Option RadixSummary) (h : error ≠ some "") :
    ofFields? .radix ((benchmark :: radixTexts s? ++ [error.getD ""]).map some)
      = some (benchmark, { summary := s?.map .radix, error }) := by
  rw [radixTexts_eq]
  simp only [List.cons_append, List.nil_append, List.map_cons, List.map_nil, ofFields?,
    required?_text, optional?_number, optional?_counter, Csv.optional?_text h]
  cases s? <;> rfl

theorem ofFields?_ecpt (benchmark : String) (s? : Option EcptSummary) (h : error ≠ some "") :
    ofFields? .ecpt ((benchmark :: ecptTexts s? ++ [error.getD ""]).map some)
      = some (benchmark, { summary := s?.map .ecpt, error }) := by
  rw [ecptTexts_eq]
  simp only [List.cons_append, List.nil_append, List.map_cons, List.map_nil, ofFields?,
    required?_text, optional?_number, optional?_counter, Csv.optional?_text h]
  cases s? <;> rfl

end Fields

/-! ### Rows -/

variable {design : Design}

/-- The texts of a line, one for each column, give an entry of the table. -/
structure Spells (design : Design) (e : String × Row) (texts : List String) : Prop where
  length : texts.length = (header design).length
  ofFields? : ofFields? design (texts.map some) = some e

/-- **A row that fits** is written, and its texts give it back. -/
theorem rowTexts_ok {row : Row} (h : row.Fits design) (benchmark : String) :
    ∃ texts, rowTexts design benchmark row = .ok texts ∧
      Spells design (benchmark, row) texts := by
  obtain ⟨summary, error⟩ := row
  obtain ⟨hdesign, herror⟩ := h
  cases design with
  | radix =>
    cases summary with
    | none => exact ⟨_, rfl, rfl, ofFields?_radix benchmark none herror⟩
    | some s =>
      cases s with
      | radix s => exact ⟨_, rfl, rfl, ofFields?_radix benchmark (some s) herror⟩
      | ecpt s => cases hdesign _ rfl
  | ecpt =>
    cases summary with
    | none => exact ⟨_, rfl, rfl, ofFields?_ecpt benchmark none herror⟩
    | some s =>
      cases s with
      | radix s => cases hdesign _ rfl
      | ecpt s => exact ⟨_, rfl, rfl, ofFields?_ecpt benchmark (some s) herror⟩

theorem Spells.ne_nil {e : String × Row} {texts : List String} (h : Spells design e texts) :
    texts ≠ [] := by
  rintro rfl
  have hlength := h.length
  cases design <;> cases hlength

theorem mapM_rowTexts_ok {entries : List (String × Row)} (h : ∀ e ∈ entries, e.2.Fits design) :
    ∃ lines, entries.mapM (fun (benchmark, row) => rowTexts design benchmark row) = .ok lines ∧
      List.Forall₂ (Spells design) entries lines ∧ ∀ texts ∈ lines, texts ≠ [] := by
  induction entries with
  | nil => exact ⟨[], rfl, .nil, nofun⟩
  | cons e entries ih =>
    obtain ⟨texts, htexts, hspells⟩ := rowTexts_ok (h e List.mem_cons_self) e.1
    obtain ⟨lines, hlines, hall, hne⟩ := ih fun e' he' => h e' (List.mem_cons_of_mem _ he')
    refine ⟨texts :: lines, ?_, .cons hspells hall, ?_⟩
    · rw [List.mapM_cons]
      show (rowTexts design e.1 e.2 >>= _) = _
      rw [htexts, hlines]
      rfl
    · intro texts' htexts'
      rcases List.mem_cons.1 htexts' with rfl | htexts'
      · exact hspells.ne_nil
      · exact hne texts' htexts'

theorem Spells.readRow {e : String × Row} {texts : List String} (h : Spells design e texts) :
    readRow design (.named (header design)) (header design).length
      (texts.map fun text => Utf8.encode text.toList) = .ok e := by
  have hfields : (Csv.fields? (columns design) (.named (header design)) texts).bind
      (LatencyTable.ofFields? design) = some e := by
    rw [fields?_header h.length, Option.bind_some, h.ofFields?]
  refine bind_eq_ok_iff.2 ⟨texts, Csv.checkRow_encode h.length, ?_⟩
  rw [hfields]

/-! ### Tables -/

/-- **Lines that spell entries of different benchmarks** insert all of them,
unless the table lists some of these already. -/
theorem foldlM_addLine_ok {entries : List (String × Row)} {lines : List (List String)}
    (hspells : List.Forall₂ (Spells design) entries lines)
    (hne : entries.Pairwise fun a b => a.1 ≠ b.1) {rows : SortedMap String Row}
    (hfresh : ∀ e ∈ entries, rows.get? e.1 = none) :
    (lines.map fun texts => texts.map fun text => Utf8.encode text.toList).foldlM
        (addLine (.named (header design)) (header design).length) ⟨design, rows⟩
      = .ok ⟨design, entries.foldl (fun m e => m.insert e.1 e.2) rows⟩ := by
  induction hspells generalizing rows with
  | nil => rfl
  | @cons e texts entries lines htexts hspells ih =>
    rw [List.pairwise_cons] at hne
    have hadd : addLine (.named (header design)) (header design).length ⟨design, rows⟩
        (texts.map fun text => Utf8.encode text.toList)
          = .ok ⟨design, rows.insert e.1 e.2⟩ := by
      unfold addLine
      rw [htexts.readRow]
      show (if rows.contains e.1 then _ else _) = _
      unfold SortedMap.contains
      rw [hfresh e List.mem_cons_self]
      rfl
    rw [List.map_cons, List.foldlM_cons, hadd]
    -- the other benchmarks are not listed yet either
    apply ih hne.2
    intro e' he'
    rw [SortedMap.get?_insert, if_neg fun heq => hne.1 e' he' heq.symm]
    exact hfresh e' (List.mem_cons_of_mem _ he')

theorem dropMark_header (design : Design) (lines : List (List String)) :
    Csv.dropMark (Csv.renderTexts (header design :: lines))
      = Csv.renderTexts (header design :: lines) := by
  cases design <;> exact Csv.dropMark_renderTexts (b := 0x42) rfl (by decide) lines

/-- **A sound table** is written, and what is written of it is read as the
table. -/
theorem ofCsv_toCsv {t : LatencyTable} (h : t.Sound) :
    ∃ text, t.toCsv = .ok text ∧ ofCsv t.design text = .ok t := by
  obtain ⟨lines, hlines, hspells, hne⟩ := mapM_rowTexts_ok h
  refine ⟨Csv.renderTexts (header t.design :: lines), ?_, ?_⟩
  · unfold toCsv
    rw [hlines]
    rfl
  · have hnonempty : ∀ texts ∈ header t.design :: lines, texts ≠ [] := by
      intro texts htexts
      rcases List.mem_cons.1 htexts with rfl | htexts
      · cases t.design <;> exact List.cons_ne_nil _ _
      · exact hne texts htexts
    unfold ofCsv
    rw [Csv.parse_renderTexts hnonempty (dropMark_header t.design lines), List.map_cons]
    show List.foldlM (addLine (Csv.headerOf _) _) _ _ = _
    rw [Csv.headerOf_encode, List.length_map]
    refine (foldlM_addLine_ok hspells t.rows.keys_ne fun _ _ => rfl).trans ?_
    rw [SortedMap.foldl_insert_entries]

/-! ### Files -/

theorem mapM_rowTexts_eq (design : Design) (entries : List (String × Row)) :
    (entries.mapM fun (benchmark, row) => rowTexts design benchmark row)
      = (writtenRows design entries).2.map fun _ => (writtenRows design entries).1 := by
  induction entries with
  | nil => rfl
  | cons e entries ih =>
    obtain ⟨benchmark, row⟩ := e
    rw [List.mapM_cons, ih, writtenRows]
    dsimp only
    rcases rowTexts design benchmark row with c | texts
    · rfl
    · rcases writtenRows design entries with ⟨rows, c | _⟩ <;> rfl

/-- **A table has a text exactly if it is written whole**, and it is that
text. -/
theorem toCsv_eq (t : LatencyTable) : t.toCsv = t.contents.2.map fun _ => t.contents.1 := by
  unfold toCsv contents
  rw [mapM_rowTexts_eq]
  rcases writtenRows t.design t.rows.entries with ⟨_ | ⟨texts, rows⟩, c | _⟩ <;> rfl

/-- A table is written where its path leads, as far as it can be. -/
theorem write_eq {tree : FileTree} {path : Path} {l : Location} (hplace : tree.place path = .ok l)
    (t : LatencyTable) :
    ∃ tree', tree'.Holds path t.contents.1 ∧ t.write (m := StateM FileTree) path tree
      = (t.contents.2.mapError fun c => { cause := c, attempts := [.writeTable path] }, tree') := by
  obtain ⟨tree', hwrite, hholds⟩ := FileTree.exists_write hplace t.contents.1
  refine ⟨tree', hholds, ?_⟩
  unfold write
  simp only [bind, StateT.bind, hwrite]
  cases t.contents.2 <;> rfl

/-- A sound table is read back where it is written. -/
theorem read_write {t : LatencyTable} {tree : FileTree} {path : Path} {l : Location} (h : t.Sound)
    (hplace : tree.place path = .ok l) :
    ∃ tree', t.write (m := StateM FileTree) path tree = (.ok (), tree') ∧
      read (m := StateM FileTree) path t.design tree' = (.ok t, tree') := by
  obtain ⟨text, htext, hread⟩ := ofCsv_toCsv h
  rw [toCsv_eq, map_eq_ok_iff] at htext
  obtain ⟨whole, hwhole, rfl⟩ := htext
  obtain ⟨tree', hholds, hwrite⟩ := write_eq hplace t
  rw [hwhole] at hwrite
  have hopen : tree'.openFile path = .ok (.contents t.contents.1) := hholds
  refine ⟨tree', hwrite, ?_⟩
  unfold read
  simp only [bind, StateT.bind, Files.openFile, hopen, hread]
  rfl

/-! ### Tables of files and of runs -/

/-- **Latency tables survive their files.**  A sound table is written, and
what is written of it is read as the same table.  Whatever a csv text gives
is a sound table, and so is whatever a run can come to, so both can be
written and are read as they were. -/
theorem csv_round_trip :
    (∀ t : LatencyTable, t.Sound → ∃ text, t.toCsv = .ok text ∧ ofCsv t.design text = .ok t) ∧
    (∀ (design : Design) (text : Bytes) (t : LatencyTable), ofCsv design text = .ok t →
      t.Sound ∧ ∃ text', t.toCsv = .ok text' ∧ ofCsv design text' = .ok t) ∧
    ∀ (m : Type → Type) [Monad m] [LawfulMonad m] [MonadAttach m] [LawfulMonadAttach m] [Files m]
      (config : RunConfig) (results : Option Path) (files : List LogFile)
      (out : Aggregation.Output) (events : List Event),
      MonadAttach.CanReturn (Aggregation.run (m := m) config results files) (.ok out, events) →
      out.table.Sound ∧
        ∃ text, out.table.toCsv = .ok text ∧ ofCsv config.design text = .ok out.table := by
  refine ⟨?_, ?_, ?_⟩
  · intro t h
    exact ofCsv_toCsv h
  · intro design text t hok
    obtain ⟨rfl, hsound⟩ := ofCsv_sound hok
    exact ⟨hsound, ofCsv_toCsv hsound⟩
  · intro m _ _ _ _ _ config results files out events hr
    obtain ⟨hdesign, hsound⟩ := Aggregation.run_canReturn hr
    rw [← hdesign]
    exact ⟨hsound, ofCsv_toCsv hsound⟩

/-- A table with a mean that is no number, a failed row, and a name that
has to be quoted; and the run over a log that is not there. -/
theorem csv_round_trip_of_tables :
    let t : LatencyTable :=
      ((empty .radix).insert "a,\"b\"\r\n" (.ofSummary (.radix ⟨0.0 / 0.0, 0⟩))).insert "é"
        (.failed "no, \"none\"")
    let config : RunConfig :=
      ⟨.ecpt, "default", ⟨0, 0, 0, 0, 0, 0⟩, ⟨0, 0, 0⟩, ".log", false, [], ⟨0⟩⟩
    let run : StateM FileTree (Except Error Aggregation.Output × List Event) :=
      Aggregation.run config none [⟨"mcf", ⟨[0x78]⟩⟩]
    (∃ text, t.toCsv = .ok text ∧ ofCsv .radix text = .ok t ∧ t.Sound) ∧
      ∃ out events text, MonadAttach.CanReturn run (.ok out, events) ∧ out.table.rows.size = 1 ∧
        out.table.toCsv = .ok text ∧ ofCsv .ecpt text = .ok out.table := by
  intro t config run
  have hsound : t.Sound :=
    ((sound_empty .radix).insert (Row.fits_ofSummary rfl) _).insert
      (Row.fits_failed (by decide) _) _
  obtain ⟨text, hwritten, hread⟩ := csv_round_trip.1 t hsound
  obtain ⟨hsound', -⟩ := csv_round_trip.2.1 .radix text t hread
  refine ⟨⟨text, hwritten, hread, hsound'⟩, ?_⟩
  have hrun : (run.run .empty).1.1.map (fun out => out.table.rows.size) = .ok 1 := by
    decide +kernel
  obtain ⟨out, hout, hsize⟩ := map_eq_ok_iff.1 hrun
  have hcan : MonadAttach.CanReturn run (.ok out, (run.run .empty).1.2) :=
    ⟨.empty, (run.run .empty).2, Prod.ext (Prod.ext hout rfl) rfl⟩
  obtain ⟨-, text', hwritten', hread'⟩ :=
    csv_round_trip.2.2 (StateM FileTree) config none _ out _ hcan
  exact ⟨out, _, text', hcan, hsize, hwritten', hread'⟩

end PageWalk.LatencyTable
