/-
PageWalk/Proofs/LatencyTable/Sound.lean

What rows a table holds.

A row fits a design if its summary, where it has one, is of that design, and
its error, where it has one, is not empty: in a file an empty error is none.
A table is sound if all its rows fit its design.  Tables are sound however
they come about; here it is said of the ways to build one and of reading
one from a file (`ofCsv_sound`).
-/
import PageWalk.LatencyTable.Csv
import PageWalk.Proofs.Error

namespace PageWalk.LatencyTable

/-! ### Rows that fit -/

/-- The summary of the row is of the design, and its error is not empty. -/
structure Row.Fits (design : Design) (row : Row) : Prop where
  design : ∀ s, row.summary = some s → s.design = design
  error : row.error ≠ some ""

theorem Row.fits_ofSummary {design : Design} {s : Summary} (h : s.design = design) :
    (Row.ofSummary s).Fits design := by
  refine ⟨?_, ?_⟩
  · intro s' hs'
    obtain rfl := Option.some.inj hs'
    exact h
  · unfold Row.ofSummary
    dsimp only
    split <;> decide

theorem Row.fits_failed {error : String} (h : error ≠ "") (design : Design) :
    (Row.failed error).Fits design := by
  refine ⟨nofun, ?_⟩
  intro heq
  exact h (Option.some.inj heq)

/-! ### Sound tables -/

/-- Every row fits the design of the table. -/
def Sound (t : LatencyTable) : Prop := ∀ e ∈ t.rows.entries, e.2.Fits t.design

theorem sound_empty (design : Design) : (empty design).Sound := by
  intro e he
  cases he

theorem Sound.insert {t : LatencyTable} (h : t.Sound) {row : Row} (hrow : row.Fits t.design)
    (benchmark : String) : (t.insert benchmark row).Sound := by
  intro e he
  rcases SortedMap.mem_put he with rfl | he
  · exact hrow
  · exact h e he

/-! ### Reading -/

/-- A text that is read as there is not empty. -/
theorem ne_empty_of_optional? {field : Option String} {text? : Option String}
    (h : Csv.optional? Csv.text? field = some text?) : text? ≠ some "" := by
  unfold Csv.optional? at h
  split at h
  · cases h
    exact nofun
  · rename_i text
    split at h
    · cases h
      exact nofun
    · rename_i hempty
      cases h
      intro heq
      have htext := Option.some.inj heq
      rw [String.ofList_toList] at htext
      exact hempty (String.isEmpty_iff.2 htext)

/-- The fields of a line give a row that fits. -/
theorem ofFields?_fits {design : Design} {fields : List (Option String)} {benchmark : String}
    {row : Row} (h : ofFields? design fields = some (benchmark, row)) : row.Fits design := by
  unfold ofFields? at h
  split at h
  · -- a radix row
    obtain ⟨_, -, h⟩ := Option.bind_eq_some_iff.1 h
    obtain ⟨latency, -, h⟩ := Option.bind_eq_some_iff.1 h
    obtain ⟨requests, -, h⟩ := Option.bind_eq_some_iff.1 h
    obtain ⟨error, herror, h⟩ := Option.bind_eq_some_iff.1 h
    cases h
    refine ⟨?_, ne_empty_of_optional? herror⟩
    intro s hs
    obtain ⟨_, -, hs⟩ := Option.bind_eq_some_iff.1 hs
    obtain ⟨_, -, hs⟩ := Option.bind_eq_some_iff.1 hs
    cases hs
    rfl
  · -- a cuckoo row
    obtain ⟨_, -, h⟩ := Option.bind_eq_some_iff.1 h
    obtain ⟨max, -, h⟩ := Option.bind_eq_some_iff.1 h
    obtain ⟨correct, -, h⟩ := Option.bind_eq_some_iff.1 h
    obtain ⟨parallel, -, h⟩ := Option.bind_eq_some_iff.1 h
    obtain ⟨reduction, -, h⟩ := Option.bind_eq_some_iff.1 h
    obtain ⟨saved, -, h⟩ := Option.bind_eq_some_iff.1 h
    obtain ⟨requests, -, h⟩ := Option.bind_eq_some_iff.1 h
    obtain ⟨error, herror, h⟩ := Option.bind_eq_some_iff.1 h
    cases h
    refine ⟨?_, ne_empty_of_optional? herror⟩
    intro s hs
    obtain ⟨_, -, hs⟩ := Option.bind_eq_some_iff.1 hs
    obtain ⟨_, -, hs⟩ := Option.bind_eq_some_iff.1 hs
    obtain ⟨_, -, hs⟩ := Option.bind_eq_some_iff.1 hs
    obtain ⟨_, -, hs⟩ := Option.bind_eq_some_iff.1 hs
    obtain ⟨_, -, hs⟩ := Option.bind_eq_some_iff.1 hs
    obtain ⟨_, -, hs⟩ := Option.bind_eq_some_iff.1 hs
    cases hs
    rfl
  · cases h

variable {design : Design} {header : Csv.Header} {width : Nat} {t t' : LatencyTable}

/-- One more line adds a row that fits under a benchmark that the table did
not list. -/
theorem addLine_ok {line : List Bytes} (hok : addLine header width t line = .ok t') :
    ∃ benchmark row, t.rows.contains benchmark = false ∧ row.Fits t.design ∧
      t' = t.insert benchmark row := by
  unfold addLine at hok
  split at hok
  · cases hok
  · rename_i benchmark row hrow
    split at hok
    · cases hok
    · rename_i hcontains
      refine ⟨benchmark, row, Bool.eq_false_iff.2 hcontains, ?_, (Except.ok.inj hok).symm⟩
      obtain ⟨texts, -, hrow⟩ := bind_eq_ok_iff.1 hrow
      split at hrow
      · rename_i hfields
        cases hrow
        obtain ⟨fields, -, hfields⟩ := Option.bind_eq_some_iff.1 hfields
        exact ofFields?_fits hfields
      · cases hrow

theorem foldlM_addLine_sound {lines : List (List Bytes)} (h : t.Sound)
    (hok : lines.foldlM (addLine header width) t = .ok t') :
    t'.design = t.design ∧ t'.Sound := by
  induction lines generalizing t with
  | nil =>
    obtain rfl : t = t' := Except.ok.inj hok
    exact ⟨rfl, h⟩
  | cons line lines ih =>
    rw [List.foldlM_cons] at hok
    obtain ⟨t₁, ht₁, hok⟩ := bind_eq_ok_iff.1 hok
    obtain ⟨benchmark, row, -, hfits, rfl⟩ := addLine_ok ht₁
    obtain ⟨hdesign, hsound⟩ := ih (h.insert hfits benchmark) hok
    exact ⟨hdesign, hsound⟩

/-- **Tables that are read are sound**, and of the design they are read
for. -/
theorem ofCsv_sound {text : Bytes} (hok : ofCsv design text = .ok t) :
    t.design = design ∧ t.Sound := by
  unfold ofCsv at hok
  split at hok
  · cases hok
    exact ⟨rfl, sound_empty design⟩
  · exact foldlM_addLine_sound (sound_empty design) hok

end PageWalk.LatencyTable
