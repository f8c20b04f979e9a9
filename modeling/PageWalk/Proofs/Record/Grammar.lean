/-
PageWalk/Proofs/Record/Grammar.lean

The grammar of records.  A line, the blanks at its ends aside, is divided
by its commas into labels and a last field.  A label names a level
(`Names`), a number is written in decimal digits (`Denotes`), and the last
field is a frequency, or a way and a frequency with a tab between them
(`Pair`).

`ReadLabels` and `Ending` say what labels and a last field amount to, also
where they do not keep to the grammar: unknown labels and unreadable numbers
are issues.  `parse_grammar` says that this is what is read of any line.
-/
import PageWalk.Proofs.Record
import PageWalk.Proofs.Separated
import PageWalk.Proofs.Text.Numeral
import Mathlib.Data.List.Forall2

namespace PageWalk.Record

/-! ### Fields -/

/-- A field names a level: between its blanks stands the label. -/
def Names (field : List Char) (level : Level) : Prop := Text.trim field = level.label.toList

/-- A field denotes a number: between its blanks stand its digits. -/
def Denotes (field : List Char) (n : Count) : Prop := Text.Spells (Text.trim field) n.val

/-- The first two of the parts that tabs divide a field into. -/
def Pair (field way frequency : List Char) : Prop :=
  ∃ more, Separated '\t' field (way :: frequency :: more)

theorem probe_eq_some_iff {field : List Char} {level : Level} :
    probe field = some level ↔ Names field level := by
  unfold probe Names
  rw [Level.ofLabel?_eq_some_iff]
  constructor
  · intro h
    rw [h, String.toList_ofList]
  · intro h
    rw [h, String.ofList_toList]

theorem probe_eq_none_iff {field : List Char} :
    probe field = none ↔ ∀ level, ¬ Names field level := by
  simp only [Option.eq_none_iff_forall_ne_some, ne_eq, probe_eq_some_iff]

theorem number?_eq_some_iff {field : List Char} {n : Count} :
    number? field = some n ↔ Denotes field n :=
  Counter.parse?_eq_some_iff

theorem number?_eq_none_iff {field : List Char} :
    number? field = none ↔ ∀ n, ¬ Denotes field n := by
  simp only [Option.eq_none_iff_forall_ne_some, ne_eq, number?_eq_some_iff]

/-! ### The last field -/

/-- What a last field amounts to: a way, a frequency and an issue at most. -/
inductive Ending : RecordFormat → List Char → Option Nat → Count → List Issue → Prop
  | frequency {last n} : Denotes last n → Ending .simple last none n []
  | noFrequency {last} : (∀ n, ¬ Denotes last n) →
      Ending .simple last none 0 [.malformedField .frequency (String.ofList last)]
  | pair {last way frequency w n} : Pair last way frequency → Denotes way w →
      Denotes frequency n → Ending .withWay last (some w.val) n []
  | wayAlone {last way frequency w} : Pair last way frequency → Denotes way w →
      (∀ n, ¬ Denotes frequency n) →
      Ending .withWay last (some w.val) 0 [.malformedField .frequency (String.ofList frequency)]
  | noWay {last} : (¬ ∃ way frequency w, Pair last way frequency ∧ Denotes way w) →
      Ending .withWay last (some 0) 0 [.malformedField .way (String.ofList last)]

/-- The way of a last field, which is zero if none can be read. -/
inductive TellsWay (last : List Char) : Nat → Prop
  | read {way frequency w} : Pair last way frequency → Denotes way w → TellsWay last w.val
  | unread : (¬ ∃ way frequency w, Pair last way frequency ∧ Denotes way w) → TellsWay last 0

theorem Ending.isLastFieldIssue {format : RecordFormat} {last : List Char} {way : Option Nat}
    {n : Count} {issues : List Issue} (h : Ending format last way n issues) :
    IsLastFieldIssue issues := by
  cases h with
  | frequency _ | pair _ _ _ => exact Or.inl rfl
  | noFrequency _ | wayAlone _ _ _ | noWay _ => exact Or.inr ⟨_, _, rfl⟩

theorem Ending.tellsWay {format : RecordFormat} {last : List Char} {way : Nat} {n : Count}
    {issues : List Issue} (h : Ending format last (some way) n issues) : TellsWay last way := by
  cases h with
  | pair hpair hway _ => exact .read hpair hway
  | wayAlone hpair hway _ => exact .read hpair hway
  | noWay hnone => exact .unread hnone

theorem Pair.unique {field way frequency way' frequency' : List Char}
    (h : Pair field way frequency) (h' : Pair field way' frequency') :
    way = way' ∧ frequency = frequency' := by
  obtain ⟨more, h⟩ := h
  obtain ⟨more', h'⟩ := h'
  have heq := (separated_iff.1 h).symm.trans (separated_iff.1 h')
  injection heq with hway hrest
  injection hrest with hfrequency _
  exact ⟨hway, hfrequency⟩

theorem Denotes.unique {field : List Char} {n m : Count} (h : Denotes field n)
    (h' : Denotes field m) : n = m :=
  Option.some.inj ((number?_eq_some_iff.2 h).symm.trans (number?_eq_some_iff.2 h'))

theorem TellsWay.unique {last : List Char} {way way' : Nat} (h : TellsWay last way)
    (h' : TellsWay last way') : way = way' := by
  cases h with
  | read hpair hway =>
    cases h' with
    | read hpair' hway' =>
      obtain ⟨rfl, -⟩ := hpair.unique hpair'
      rw [hway.unique hway']
    | unread hnone => exact absurd ⟨_, _, _, hpair, hway⟩ hnone
  | unread hnone =>
    cases h' with
    | read hpair' hway' => exact absurd ⟨_, _, _, hpair', hway'⟩ hnone
    | unread _ => rfl

theorem frequencyField_ending (last : List Char) :
    Ending .simple last none (frequencyField last).1 (frequencyField last).2 := by
  unfold frequencyField
  split
  · rename_i n hn
    exact .frequency (number?_eq_some_iff.1 hn)
  · rename_i hnone
    exact .noFrequency (number?_eq_none_iff.1 hnone)

theorem wayField_ending (last : List Char) :
    Ending .withWay last (some (wayField last).1.1) (wayField last).1.2 (wayField last).2 := by
  unfold wayField
  dsimp only
  split
  · rename_i way frequency more hparts
    have hpair : Pair last way frequency := ⟨more, separated_iff.2 hparts⟩
    split
    · rename_i w hw
      have hway := number?_eq_some_iff.1 hw
      unfold frequencyField
      split
      · rename_i n hn
        exact .pair hpair hway (number?_eq_some_iff.1 hn)
      · rename_i hnone
        exact .wayAlone hpair hway (number?_eq_none_iff.1 hnone)
    · rename_i hnone
      refine .noWay ?_
      rintro ⟨way', frequency', w, hpair', hway⟩
      obtain ⟨rfl, -⟩ := hpair.unique hpair'
      exact number?_eq_none_iff.1 hnone w hway
  · rename_i hparts
    refine .noWay ?_
    rintro ⟨way, frequency, w, ⟨more, hpair⟩, -⟩
    exact hparts way frequency more (separated_iff.1 hpair)

/-- A last field amounts to one thing. -/
theorem Ending.unique {format : RecordFormat} {last : List Char} {way way' : Option Nat}
    {n n' : Count} {issues issues' : List Issue} (h : Ending format last way n issues)
    (h' : Ending format last way' n' issues') : way = way' ∧ n = n' ∧ issues = issues' := by
  cases h with
  | frequency hn =>
    cases h' with
    | frequency hn' => exact ⟨rfl, hn.unique hn', rfl⟩
    | noFrequency hnone => exact absurd hn (hnone _)
  | noFrequency hnone =>
    cases h' with
    | frequency hn => exact absurd hn (hnone _)
    | noFrequency _ => exact ⟨rfl, rfl, rfl⟩
  | pair hpair hway hn =>
    cases h' with
    | pair hpair' hway' hn' =>
      obtain ⟨rfl, rfl⟩ := hpair.unique hpair'
      exact ⟨by rw [hway.unique hway'], hn.unique hn', rfl⟩
    | wayAlone hpair' _ hnone =>
      obtain ⟨rfl, rfl⟩ := hpair.unique hpair'
      exact absurd hn (hnone _)
    | noWay hnone => exact absurd ⟨_, _, _, hpair, hway⟩ hnone
  | wayAlone hpair hway hnone =>
    cases h' with
    | pair hpair' _ hn =>
      obtain ⟨rfl, rfl⟩ := hpair.unique hpair'
      exact absurd hn (hnone _)
    | wayAlone hpair' hway' _ =>
      obtain ⟨rfl, rfl⟩ := hpair.unique hpair'
      exact ⟨by rw [hway.unique hway'], rfl, rfl⟩
    | noWay hnone' => exact absurd ⟨_, _, _, hpair, hway⟩ hnone'
  | noWay hnone =>
    cases h' with
    | pair hpair' hway' _ => exact absurd ⟨_, _, _, hpair', hway'⟩ hnone
    | wayAlone hpair' hway' _ => exact absurd ⟨_, _, _, hpair', hway'⟩ hnone
    | noWay _ => exact ⟨rfl, rfl, rfl⟩

/-! ### Labels -/

theorem mem_labelIssues_iff {fields : List (List Char)} {issue : Issue} :
    issue ∈ labelIssues fields ↔ ∃ position field, fields[position]? = some field ∧
      (∀ level, ¬ Names field level) ∧ issue = .unknownLabel position (String.ofList field) := by
  unfold labelIssues
  rw [List.mem_filterMap]
  constructor
  · rintro ⟨⟨field, position⟩, hmem, hissue⟩
    dsimp only at hissue
    split at hissue
    · cases hissue
    · rename_i hnone
      exact ⟨position, field, List.mem_zipIdx_iff_getElem?.1 hmem, probe_eq_none_iff.1 hnone,
        (Option.some.inj hissue).symm⟩
  · rintro ⟨position, field, hfield, hnone, rfl⟩
    refine ⟨(field, position), List.mem_zipIdx_iff_getElem?.2 hfield, ?_⟩
    simp only [probe_eq_none_iff.2 hnone]

/-- Labels of levels, read one by one. -/
theorem map_probe_eq_iff {labels : List (List Char)} {levels : List Level} :
    labels.map probe = levels.map some ↔ List.Forall₂ Names labels levels := by
  rw [← List.forall₂_eq_eq_eq, List.forall₂_map_left_iff, List.forall₂_map_right_iff]
  simp only [probe_eq_some_iff]

theorem labelIssues_eq_nil_iff {labels : List (List Char)} :
    labelIssues labels = [] ↔ ∃ levels, List.Forall₂ Names labels levels := by
  constructor
  · intro h
    -- each label names a level, since the one that does not has an issue
    have hnames : ∀ label ∈ labels, ∃ level, Names label level := by
      intro label hlabel
      by_contra hnone
      obtain ⟨position, hposition⟩ := List.mem_iff_getElem?.1 hlabel
      have hissue := mem_labelIssues_iff.2
        ⟨position, label, hposition, fun level hlevel => hnone ⟨level, hlevel⟩, rfl⟩
      rw [h] at hissue
      exact absurd hissue List.not_mem_nil
    clear h
    induction labels with
    | nil => exact ⟨[], .nil⟩
    | cons label labels ih =>
      obtain ⟨level, hlevel⟩ := hnames label List.mem_cons_self
      obtain ⟨levels, hlevels⟩ := ih fun label hlabel => hnames label (.tail _ hlabel)
      exact ⟨level :: levels, .cons hlevel hlevels⟩
  · rintro ⟨levels, hlevels⟩
    rw [List.eq_nil_iff_forall_not_mem]
    intro issue hissue
    obtain ⟨position, field, hfield, hnone, -⟩ := mem_labelIssues_iff.1 hissue
    have hsome : (labels.map probe)[position]? = (levels.map some)[position]? := by
      rw [map_probe_eq_iff.2 hlevels]
    rw [List.getElem?_map, List.getElem?_map, hfield, Option.map_some,
      probe_eq_none_iff.2 hnone] at hsome
    cases hlevel : levels[position]? <;> rw [hlevel] at hsome <;> cases hsome

/-- What labels amount to: a probe for each, which has a level exactly if the
label names it, and an issue for each that names none, by their positions. -/
structure ReadLabels (labels : List (List Char)) (probes : List (Option Level))
    (issues : List Issue) : Prop where
  length : probes.length = labels.length
  known : ∀ (position : Nat) level, probes[position]? = some (some level) ↔
    ∃ label, labels[position]? = some label ∧ Names label level
  unknown : ∀ position : Nat, probes[position]? = some none ↔
    ∃ label, labels[position]? = some label ∧ ∀ level, ¬ Names label level
  issue : ∀ issue, issue ∈ issues ↔ ∃ position label, labels[position]? = some label ∧
    (∀ level, ¬ Names label level) ∧ issue = .unknownLabel position (String.ofList label)
  ascending : issues.Pairwise Issue.Precedes

theorem readLabels (labels : List (List Char)) :
    ReadLabels labels (labels.map probe) (labelIssues labels) where
  length := List.length_map probe
  known position level := by
    simp only [List.getElem?_map, Option.map_eq_some_iff, probe_eq_some_iff]
  unknown position := by
    simp only [List.getElem?_map, Option.map_eq_some_iff, probe_eq_none_iff]
  issue _ := mem_labelIssues_iff
  ascending := labelIssues_pairwise labels

/-! ### Lines -/

/-- A line has labels, as many as it has commas, and a last field. -/
theorem exists_fields (line : List Char) : ∃ labels last, fields line = labels ++ [last] := by
  obtain hnil | ⟨labels, last, h⟩ := List.eq_nil_or_concat (fields line)
  · exact absurd hnil (List.splitOn_ne_nil ',' (Text.trim line))
  · exact ⟨labels, last, by rw [h, List.concat_eq_append]⟩

section

variable {line : List Char} {labels : List (List Char)} {last : List Char}

theorem parse_simple_eq (h : fields line = labels ++ [last]) :
    parse .simple line = .ok ⟨⟨labels.map probe, (frequencyField last).1, none⟩,
      labelIssues labels ++ (frequencyField last).2⟩ := by
  simp [parse, h]

theorem parse_withWay_eq (h : fields line = labels ++ [last]) :
    parse .withWay line =
      if labels.length ≤ (wayField last).1.1 then
        .error (.wayOutOfRange (wayField last).1.1 labels.length)
      else .ok ⟨⟨labels.map probe, (wayField last).1.2, some (wayField last).1.1⟩,
        labelIssues labels ++ (wayField last).2⟩ := by
  simp [parse, h]

/-- A line is refused for its way alone. -/
theorem parse_eq_error_iff (h : fields line = labels ++ [last]) (format : RecordFormat)
    (c : Cause) :
    parse format line = .error c ↔ format = .withWay ∧ ∃ way, TellsWay last way ∧
      labels.length ≤ way ∧ c = .wayOutOfRange way labels.length := by
  cases format with
  | simple =>
    rw [parse_simple_eq h]
    exact ⟨nofun, fun h => nomatch h.1⟩
  | withWay =>
    rw [parse_withWay_eq h]
    have htells := (wayField_ending last).tellsWay
    split
    · rename_i hle
      constructor
      · intro hc
        exact ⟨rfl, _, htells, hle, (Except.error.inj hc).symm⟩
      · rintro ⟨-, way, hway, -, rfl⟩
        rw [hway.unique htells]
    · rename_i hlt
      constructor
      · exact nofun
      · rintro ⟨-, way, hway, hle, -⟩
        rw [hway.unique htells] at hle
        exact absurd hle hlt

/-- Otherwise a line is read as what its labels and its last field amount to. -/
theorem parse_eq_ok_iff (h : fields line = labels ++ [last]) (format : RecordFormat)
    (parsed : ParsedRecord) :
    parse format line = .ok parsed ↔ ∃ way n issues, Ending format last way n issues ∧
      (∀ w ∈ way, w < labels.length) ∧
      parsed = ⟨⟨labels.map probe, n, way⟩, labelIssues labels ++ issues⟩ := by
  cases format with
  | simple =>
    rw [parse_simple_eq h]
    constructor
    · intro hparsed
      exact ⟨_, _, _, frequencyField_ending last, nofun, (Except.ok.inj hparsed).symm⟩
    · rintro ⟨way, n, issues, hending, -, rfl⟩
      obtain ⟨rfl, rfl, rfl⟩ := hending.unique (frequencyField_ending last)
      rfl
  | withWay =>
    rw [parse_withWay_eq h]
    split
    · rename_i hle
      constructor
      · exact nofun
      · rintro ⟨way, n, issues, hending, hlt, -⟩
        obtain ⟨rfl, -, -⟩ := hending.unique (wayField_ending last)
        exact absurd hle (Nat.not_le_of_lt (hlt _ rfl))
    · rename_i hlt
      constructor
      · intro hparsed
        refine ⟨_, _, _, wayField_ending last, ?_, (Except.ok.inj hparsed).symm⟩
        rintro w ⟨⟩
        exact Nat.lt_of_not_le hlt
      · rintro ⟨way, n, issues, hending, -, rfl⟩
        obtain ⟨rfl, rfl, rfl⟩ := hending.unique (wayField_ending last)
        rfl

/-- A line without issues is labels of levels and a frequency. -/
theorem parse_simple_clean_iff (h : fields line = labels ++ [last]) (record : Record) :
    parse .simple line = .ok ⟨record, []⟩ ↔ ∃ levels n, List.Forall₂ Names labels levels ∧
      Denotes last n ∧ record = ⟨levels.map some, n, none⟩ := by
  rw [parse_eq_ok_iff h]
  constructor
  · rintro ⟨way, n, issues, hending, -, hparsed⟩
    injection hparsed with hrecord hissues
    obtain ⟨hlabels, rfl⟩ := List.append_eq_nil_iff.1 hissues.symm
    obtain ⟨levels, hlevels⟩ := labelIssues_eq_nil_iff.1 hlabels
    rw [map_probe_eq_iff.2 hlevels] at hrecord
    cases hending with
    | frequency hn => exact ⟨levels, n, hlevels, hn, hrecord⟩
  · rintro ⟨levels, n, hlevels, hn, rfl⟩
    refine ⟨none, n, [], .frequency hn, nofun, ?_⟩
    rw [map_probe_eq_iff.2 hlevels, labelIssues_eq_nil_iff.2 ⟨levels, hlevels⟩]
    rfl

/-- A line without issues is labels of levels and a way below their number
with a frequency. -/
theorem parse_withWay_clean_iff (h : fields line = labels ++ [last]) (record : Record) :
    parse .withWay line = .ok ⟨record, []⟩ ↔ ∃ levels way frequency w n,
      List.Forall₂ Names labels levels ∧ Pair last way frequency ∧ Denotes way w ∧
        Denotes frequency n ∧ w.val < labels.length ∧
        record = ⟨levels.map some, n, some w.val⟩ := by
  rw [parse_eq_ok_iff h]
  constructor
  · rintro ⟨way, n, issues, hending, hlt, hparsed⟩
    injection hparsed with hrecord hissues
    obtain ⟨hlabels, rfl⟩ := List.append_eq_nil_iff.1 hissues.symm
    obtain ⟨levels, hlevels⟩ := labelIssues_eq_nil_iff.1 hlabels
    rw [map_probe_eq_iff.2 hlevels] at hrecord
    cases hending with
    | pair hpair hw hn =>
      exact ⟨levels, _, _, _, n, hlevels, hpair, hw, hn, hlt _ rfl, hrecord⟩
  · rintro ⟨levels, way, frequency, w, n, hlevels, hpair, hw, hn, hlt, rfl⟩
    refine ⟨some w.val, n, [], .pair hpair hw hn, ?_, ?_⟩
    · rintro _ ⟨⟩
      exact hlt
    · rw [map_probe_eq_iff.2 hlevels, labelIssues_eq_nil_iff.2 ⟨levels, hlevels⟩]
      rfl

end

/-- **The grammar of records**: the commas of a line, the blanks at its ends
aside, divide it into labels and a last field.  The line is read without an
issue exactly if its labels name levels and its last field is a frequency,
or a way below the number of labels and a frequency, whatever follows them.
It is refused exactly if it has a way that is not, be it for want of a
readable one.  Any other line is read with an issue for each label that
names no level and one at most for its last field. -/
theorem parse_grammar (line : List Char) :
    ∃ labels last, Separated ',' (Text.trim line) (labels ++ [last]) ∧
      labels.length = (Text.trim line).count ',' ∧
      (∀ record, parse .simple line = .ok ⟨record, []⟩ ↔
        ∃ levels n, List.Forall₂ Names labels levels ∧ Denotes last n ∧
          record = ⟨levels.map some, n, none⟩) ∧
      (∀ record, parse .withWay line = .ok ⟨record, []⟩ ↔
        ∃ levels way frequency w n, List.Forall₂ Names labels levels ∧
          Pair last way frequency ∧ Denotes way w ∧ Denotes frequency n ∧
          w.val < labels.length ∧ record = ⟨levels.map some, n, some w.val⟩) ∧
      (∀ format c, parse format line = .error c ↔ format = .withWay ∧
        ∃ way, TellsWay last way ∧ labels.length ≤ way ∧ c = .wayOutOfRange way labels.length) ∧
      (∀ format parsed, parse format line = .ok parsed → ∃ unknown malformed,
        parsed.issues = unknown ++ malformed ∧
          ReadLabels labels parsed.record.probes unknown ∧
          Ending format last parsed.record.way parsed.record.frequency malformed ∧
          IsLastFieldIssue malformed) := by
  obtain ⟨labels, last, hfields⟩ := exists_fields line
  have hseparated : Separated ',' (Text.trim line) (labels ++ [last]) := separated_iff.2 hfields
  refine ⟨labels, last, hseparated, ?_, parse_simple_clean_iff hfields,
    parse_withWay_clean_iff hfields, parse_eq_error_iff hfields, ?_⟩
  · -- one comma less than there are fields
    have hlength := hseparated.length_eq
    rw [List.length_append, List.length_singleton] at hlength
    exact Nat.succ.inj hlength
  · intro format parsed hparsed
    obtain ⟨way, n, issues, hending, -, rfl⟩ := (parse_eq_ok_iff hfields format parsed).1 hparsed
    exact ⟨labelIssues labels, issues, rfl, readLabels labels, hending, hending.isLastFieldIssue⟩

end PageWalk.Record
