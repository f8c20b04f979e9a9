/-
PageWalk/Proofs/Csv/Format.lean

Csv texts are read back: reading what was written of some rows gives these
rows, whatever bytes their fields have (`parse_render`).

Reading goes from place to place.  A written field leads from the place
before it to the place after it and has put all its bytes in front
(`rowsFrom_field`), whether it was quoted or not; the fields of a row and
the rows of a text follow by induction.
-/
import PageWalk.Csv.Format

namespace PageWalk.Csv

/-! ### Fields -/

/-- What may stand after a field. -/
def EndsField (rest : Bytes) : Prop := ∃ b bs, rest = b :: bs ∧ (b = comma ∨ endsRow b = true)

theorem ne_quote_of_ends {b : UInt8} (h : b = comma ∨ endsRow b = true) : (b == quote) = false := by
  rcases h with rfl | h
  · rfl
  · rw [beq_eq_false_iff_ne]
    rintro rfl
    cases h

theorem foldr_consByte (f g : Bytes) (fs : List Bytes) (rows : List (List Bytes)) :
    f.foldr consByte ((g :: fs) :: rows) = ((f ++ g) :: fs) :: rows := by
  induction f with
  | nil => rfl
  | cons b f ih =>
    rw [List.foldr_cons, ih]
    rfl

theorem needsQuotes_cons {b : UInt8} {f : Bytes} (h : needsQuotes (b :: f) = false) :
    (b == comma) = false ∧ (b == quote) = false ∧ endsRow b = false ∧ needsQuotes f = false := by
  unfold needsQuotes at h ⊢
  rw [List.any_cons, Bool.or_eq_false_iff, Bool.or_eq_false_iff, Bool.or_eq_false_iff] at h
  exact ⟨h.1.1.1, h.1.1.2, h.1.2, h.2⟩

/-- The bytes of a field without quotes. -/
theorem rowsFrom_plain {f : Bytes} (h : needsQuotes f = false) (rest : Bytes) :
    rowsFrom .plain (f ++ rest) = f.foldr consByte (rowsFrom .plain rest) := by
  induction f with
  | nil => rfl
  | cons b f ih =>
    obtain ⟨hcomma, -, hends, hf⟩ := needsQuotes_cons h
    rw [List.cons_append, rowsFrom, hcomma, hends, ih hf]
    rfl

/-- The bytes of a field between quotes. -/
theorem rowsFrom_quoted (f rest : Bytes) :
    rowsFrom .quoted (f.flatMap (fun b => if b == quote then [quote, quote] else [b]) ++
      quote :: rest) = f.foldr consByte (rowsFrom .afterQuote rest) := by
  induction f with
  | nil => rfl
  | cons b f ih =>
    rw [List.flatMap_cons, List.append_assoc]
    by_cases hb : b = quote
    · -- a quote is doubled, so that it is read from the place after a quote
      subst hb
      exact congrArg (consByte quote) ih
    · have hne : ¬ (b == quote) = true := by rwa [beq_iff_eq]
      rw [if_neg hne]
      show rowsFrom .quoted (b :: _) = _
      rw [rowsFrom, if_neg hne]
      exact congrArg (consByte b) ih

variable {rest : Bytes}

theorem rowsFrom_afterQuote (h : EndsField rest) :
    rowsFrom .afterQuote rest = rowsFrom .plain rest := by
  obtain ⟨b, bs, rfl, hb⟩ := h
  rw [rowsFrom, rowsFrom, ne_quote_of_ends hb]
  rfl

theorem rowsFrom_field_nil (h : EndsField rest) : rowsFrom .field rest = rowsFrom .plain rest := by
  obtain ⟨b, bs, rfl, hb⟩ := h
  rw [rowsFrom, rowsFrom, ne_quote_of_ends hb]
  rfl

/-- **A field as it is written** is read as it was. -/
theorem rowsFrom_field (f : Bytes) (h : EndsField rest) :
    rowsFrom .field (renderField f ++ rest) = f.foldr consByte (rowsFrom .plain rest) := by
  unfold renderField
  cases hquotes : needsQuotes f with
  | true =>
    show rowsFrom .field (quote :: (_ ++ [quote]) ++ rest) = _
    rw [List.cons_append, List.append_assoc, rowsFrom]
    show rowsFrom .quoted _ = _
    rw [List.singleton_append, rowsFrom_quoted, rowsFrom_afterQuote h]
  | false =>
    cases f with
    | nil => exact rowsFrom_field_nil h
    | cons b f =>
      obtain ⟨hcomma, hquote, hends, hf⟩ := needsQuotes_cons hquotes
      show rowsFrom .field (b :: (f ++ rest)) = _
      rw [rowsFrom, hcomma, hquote, hends, rowsFrom_plain hf]
      rfl

/-- Before a row a field is read as before any field, unless there is
nothing of it and nothing after it. -/
theorem rowsFrom_row {b : UInt8} {bs : Bytes} (hends : endsRow b = false) :
    rowsFrom .row (b :: bs) = rowsFrom .field (b :: bs) := by
  rw [rowsFrom, rowsFrom, hends]
  rfl

/-! ### Rows -/

/-- The fields of a row after its first, as they are written. -/
def renderRest (fs : List Bytes) : Bytes := fs.flatMap (fun f => comma :: renderField f) ++ [0x0A]

theorem endsField_renderRest (fs : List Bytes) (rest : Bytes) :
    EndsField (renderRest fs ++ rest) := by
  cases fs with
  | nil => exact ⟨_, _, rfl, Or.inr rfl⟩
  | cons f fs => exact ⟨_, _, rfl, Or.inl rfl⟩

theorem renderRow_cons {f : Bytes} {fs : List Bytes} (h : f :: fs ≠ [[]]) :
    renderRow (f :: fs) = renderField f ++ renderRest fs := by
  have hrest : ∀ f, [comma].intercalate ((f :: fs).map renderField)
      = renderField f ++ fs.flatMap (fun f => comma :: renderField f) := by
    clear h
    induction fs with
    | nil =>
      intro f
      simp [List.intercalate]
    | cons g fs ih =>
      intro f
      rw [List.map_cons, List.map_cons, List.intercalate_cons_cons, ← List.map_cons, ih g,
        List.flatMap_cons, List.append_assoc]
      rfl
  unfold renderRow renderRest
  rw [if_neg (by rwa [beq_iff_eq]), hrest f, List.append_assoc]

theorem rowsFrom_renderRest (fs : List Bytes) (rest : Bytes) :
    rowsFrom .plain (renderRest fs ++ rest) = ([] :: fs) :: rowsFrom .row rest := by
  induction fs with
  | nil => rfl
  | cons f fs ih =>
    show rowsFrom .plain (comma :: (renderField f ++ _ ++ [0x0A]) ++ rest) = _
    rw [List.cons_append, List.append_assoc (renderField f), List.append_assoc (renderField f)]
    show consField (rowsFrom .field (renderField f ++ (renderRest fs ++ rest))) = _
    rw [rowsFrom_field f (endsField_renderRest fs rest), ih, foldr_consByte, List.append_nil]
    rfl

/-- **A row as it is written** is read as it was. -/
theorem rowsFrom_renderRow {fs : List Bytes} (h : fs ≠ []) (rest : Bytes) :
    rowsFrom .row (renderRow fs ++ rest) = fs :: rowsFrom .row rest := by
  by_cases hsingle : fs = [[]]
  · -- a single empty field, which is quoted
    subst hsingle
    rfl
  · obtain ⟨f, fs, rfl⟩ := List.exists_cons_of_ne_nil h
    rw [renderRow_cons hsingle, List.append_assoc]
    -- the row starts with no end of a row, so its first field is read as any other
    have hfield : rowsFrom .row (renderField f ++ (renderRest fs ++ rest))
        = rowsFrom .field (renderField f ++ (renderRest fs ++ rest)) := by
      unfold renderField
      cases hquotes : needsQuotes f with
      | true => exact rowsFrom_row rfl
      | false =>
        cases f with
        | cons b f =>
          obtain ⟨-, -, hends, -⟩ := needsQuotes_cons hquotes
          exact rowsFrom_row hends
        | nil =>
          -- an empty field, which a comma follows
          cases fs with
          | nil => exact absurd rfl hsingle
          | cons g fs => exact rowsFrom_row rfl
    rw [hfield, rowsFrom_field f (endsField_renderRest fs rest), rowsFrom_renderRest,
      foldr_consByte, List.append_nil]

theorem rowsFrom_render {rows : List (List Bytes)} (h : ∀ fs ∈ rows, fs ≠ []) :
    rowsFrom .row (render rows) = rows := by
  induction rows with
  | nil => rfl
  | cons fs rows ih =>
    unfold render
    rw [List.flatMap_cons, rowsFrom_renderRow (h fs List.mem_cons_self)]
    congr 1
    apply ih
    intro fs' hfs'
    exact h fs' (List.mem_cons_of_mem _ hfs')

/-- **Rows are read back**, unless they have no fields or their first bytes
are taken for a byte order mark. -/
theorem parse_render {rows : List (List Bytes)} (h : ∀ fs ∈ rows, fs ≠ [])
    (hmark : dropMark (render rows) = render rows) : parse (render rows) = rows := by
  unfold parse
  rw [hmark, rowsFrom_render h]

end PageWalk.Csv
