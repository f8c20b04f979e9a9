/-
PageWalk/Proofs/Csv/Columns.lean

Rows of texts are read back by their columns (`fields?_named`), and a field
by what wrote it: counters (`counter?_toString`), numbers (`float?_ofFloat`)
and what may be missing (`optional?_ofOption`).
-/
import PageWalk.Csv.Columns
import PageWalk.Proofs.Csv.Format
import PageWalk.Proofs.Decimal.Style
import PageWalk.Proofs.Text.Utf8

namespace PageWalk.Csv

/-! ### Rows -/

theorem rowText?_encode (texts : List String) :
    rowText? (texts.map fun text => Utf8.encode text.toList) = some texts := by
  unfold rowText?
  induction texts with
  | nil => rfl
  | cons text texts ih =>
    rw [List.map_cons, List.mapM_cons, ih, Utf8.decode?_encode, Option.map_some,
      String.ofList_toList]
    rfl

theorem checkRow_encode {width : Nat} {texts : List String} (h : texts.length = width) :
    checkRow width (texts.map fun text => Utf8.encode text.toList) = .ok texts := by
  unfold checkRow
  rw [rowText?_encode, List.length_map, if_neg (not_not_intro h)]

theorem headerOf_encode (names : List String) :
    headerOf (names.map fun name => Utf8.encode name.toList) = .named names := by
  unfold headerOf
  rw [rowText?_encode]

/-- **Rows of texts are read back.** -/
theorem parse_renderTexts {rows : List (List String)} (h : ∀ texts ∈ rows, texts ≠ [])
    (hmark : dropMark (renderTexts rows) = renderTexts rows) :
    parse (renderTexts rows)
      = rows.map fun texts => texts.map fun text => Utf8.encode text.toList := by
  apply parse_render _ hmark
  intro fs hfs
  obtain ⟨texts, htexts, rfl⟩ := List.mem_map.1 hfs
  rw [ne_eq, List.map_eq_nil_iff]
  exact h texts htexts

/-- A text whose first byte starts no byte order mark has none. -/
theorem dropMark_renderTexts {names : List String} {b : UInt8} {bs : Bytes}
    (hfirst : renderTexts [names] = b :: bs) (hb : b ≠ 0xEF) (lines : List (List String)) :
    dropMark (renderTexts (names :: lines)) = renderTexts (names :: lines) := by
  have happend : renderTexts (names :: lines) = renderTexts [names] ++ renderTexts lines := by
    unfold renderTexts render
    rw [List.map_cons, List.flatMap_cons, List.map_singleton, List.flatMap_singleton]
  rw [happend, hfirst, List.cons_append]
  unfold dropMark
  split
  · rename_i heq
    exact absurd (List.cons.inj heq).1 hb
  · rfl

/-! ### Columns -/

/-- Among fields with different names there is one field of a name. -/
theorem field?_of_mem {fields : List (String × String)} {column : Column} {text : String}
    (hnodup : (fields.map (·.1)).Nodup) (hmem : (column.name, text) ∈ fields) :
    field? fields column = some (some text) := by
  have hfilter : fields.filter (·.1 == column.name) = [(column.name, text)] := by
    induction fields with
    | nil => cases hmem
    | cons field fields ih =>
      rw [List.map_cons, List.nodup_cons] at hnodup
      rcases List.mem_cons.1 hmem with rfl | hmem
      · -- the others have other names
        have hself : ((column.name, text).1 == column.name) = true := beq_self_eq_true _
        rw [List.filter_cons, if_pos hself, List.filter_eq_nil_iff.2]
        intro other hother heq
        apply hnodup.1
        rw [← beq_iff_eq.1 heq]
        exact List.mem_map_of_mem (f := (·.1)) hother
      · rw [List.filter_cons_of_neg, ih hnodup.2 hmem]
        rw [beq_iff_eq]
        intro heq
        apply hnodup.1
        rw [heq]
        exact List.mem_map_of_mem (f := (·.1)) hmem
  unfold field?
  rw [hfilter]

/-- **Columns find their fields** where all names differ. -/
theorem fields?_named {columns : List Column} {row : List String}
    (hnodup : (columns.map (·.name)).Nodup) (hlength : row.length = columns.length) :
    fields? columns (.named (columns.map (·.name))) row = some (row.map some) := by
  have hnames : ((columns.map (·.name)).zip row).map (·.1) = columns.map (·.name) := by
    apply List.map_fst_zip
    rw [List.length_map, hlength]
  have hfound : ∀ p ∈ columns.zip row,
      field? ((columns.map (·.name)).zip row) p.1 = some (some p.2) := by
    intro p hp
    apply field?_of_mem
    · rw [hnames]
      exact hnodup
    · rw [List.zip_map_left]
      exact List.mem_map_of_mem (f := Prod.map Column.name id) hp
  -- the columns and the fields, taken as one list of pairs
  have hall : ∀ pairs : List (Column × String),
      (∀ p ∈ pairs, field? ((columns.map (·.name)).zip row) p.1 = some (some p.2)) →
      (pairs.map (·.1)).mapM (field? ((columns.map (·.name)).zip row))
        = some ((pairs.map (·.2)).map some) := by
    intro pairs hpairs
    induction pairs with
    | nil => rfl
    | cons p pairs ih =>
      rw [List.map_cons, List.mapM_cons, hpairs p List.mem_cons_self,
        ih fun q hq => hpairs q (List.mem_cons_of_mem _ hq)]
      rfl
  have hzip := hall _ hfound
  rw [List.map_fst_zip hlength.ge, List.map_snd_zip hlength.le] at hzip
  exact hzip

/-! ### Fields -/

variable {α : Type} {read : List Char → Option α} {write : α → String}

/-- What is written of something that may be missing is read back, if the
empty text is no spelling. -/
theorem optional?_ofOption (hread : ∀ a, read (write a).toList = some a) (hempty : read [] = none)
    (a? : Option α) : optional? read (some (ofOption write a?)) = some a? := by
  cases a? with
  | none => rfl
  | some a =>
    have hne : (write a).isEmpty = false := by
      rw [← Bool.not_eq_true, String.isEmpty_iff]
      intro h
      have ha := hread a
      rw [h] at ha
      exact Option.some_ne_none a (ha.symm.trans hempty)
    show (if (write a).isEmpty then _ else (read (write a).toList).map some) = _
    rw [hne, hread]
    rfl

theorem required?_text (text : String) : required? text? (some text) = some text :=
  congrArg some String.ofList_toList

/-- A text that may be missing is read back, unless it is empty, which
counts as missing. -/
theorem optional?_text {text? : Option String} (h : text? ≠ some "") :
    optional? Csv.text? (some (text?.getD "")) = some text? := by
  cases text? with
  | none => rfl
  | some text =>
    have hne : text.isEmpty = false := by
      rw [← Bool.not_eq_true, String.isEmpty_iff]
      intro heq
      exact h (congrArg some heq)
    show (if text.isEmpty then _ else some (some (String.ofList text.toList))) = _
    rw [hne, String.ofList_toList]
    rfl

/-- **Counters are read back**; their digits are not taken for base 16. -/
theorem counter?_toString {bits : Nat} (c : Counter bits) :
    counter? (toString c).toList = some c := by
  unfold counter?
  split
  · -- no digit is an `x`
    rename_i cs heq
    obtain ⟨d, ds, hdigits, -, hall⟩ := Text.toDigits_cons c.val
    have hcons : d :: ds = '0' :: 'x' :: cs := by
      rw [← hdigits, ← Text.toList_toString]
      exact heq
    have hx := List.all_eq_true.1 hall 'x' (by
      rw [(List.cons.inj hcons).2]
      exact List.mem_cons_self)
    cases hx
  · exact Counter.parse?_toString c

theorem numberStyle_readable : numberStyle.Readable :=
  ⟨Or.inl rfl, by decide +kernel, by decide +kernel, by decide +kernel⟩

/-- **Numbers are read back.** -/
theorem float?_ofFloat (x : Float) : Decimal.float? (ofFloat x).toList = some x :=
  Decimal.float?_render numberStyle_readable x

end PageWalk.Csv
