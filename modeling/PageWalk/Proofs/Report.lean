/-
PageWalk/Proofs/Report.lean

Reports are read back.

A report is written as one text of json, from which all of it is read back but
what json cannot hold: the path of its log, if that is no text, and the doubles
of its summary, if they are not finite.  A report without these is `Legible`.
Writing puts the text where the path leads, and reading finds it there
(`read_write`).
-/
import PageWalk.Proofs.Files.Contents
import PageWalk.Proofs.Statistics.Json
import PageWalk.Report

namespace PageWalk

theorem Path.ofString_of_text? {p : Path} {s : String} (h : p.text? = some s) :
    Path.ofString s = p := by
  obtain ⟨cs, hdecode, rfl⟩ := Option.map_eq_some_iff.1 h
  unfold ofString
  rw [String.toList_ofList, Utf8.encode_of_decode? hdecode]

namespace Report

variable {r : Report} {log : String} {t t' : FileTree} {path : Path}

/-! ### Json -/

theorem printable_toJson (r : Report) (log : String) : Json.Printable (r.toJson log) := by
  refine .ofMembers ?_
  simp only [List.forall_mem_cons]
  exact ⟨.text _, .text _, .text _, r.issues.printable_toJson, r.statistics.printable_toJson, nofun⟩

/-- What is read back of a report is decided by its summary. -/
theorem ofJson?_toJson (hlog : r.log.text? = some log) :
    ofJson? (r.toJson log) = (Summary.ofJson? r.statistics.summary.toJson).map fun summary =>
      { r with statistics := { r.statistics with summary } } := by
  unfold ofJson? toJson
  rw [Json.fields?_ofMembers false rfl (by decide)]
  simp only [List.map_cons, List.map_nil, Json.field?, Json.text?_ofText,
    IssueTally.ofJson?_toJson, Statistics.ofJson?_toJson, Path.ofString_of_text? hlog,
    Option.bind_eq_bind, Option.bind_some]
  cases Summary.ofJson? r.statistics.summary.toJson <;> rfl

/-! ### Files -/

/-- Where a file can be put, a report whose path is a text is written whole. -/
theorem write_eq {l : Location} (hlog : r.log.text? = some log) (hplace : t.place path = .ok l) :
    ∃ t', r.write (m := StateM FileTree) path t = (.ok (), t') ∧
      t'.Holds path (r.toJson log).pretty := by
  have hcontents : r.contents = ((r.toJson log).pretty, .ok ()) := by
    unfold contents
    rw [hlog]
  obtain ⟨t', hwrite, hholds⟩ := FileTree.exists_write hplace (r.toJson log).pretty
  refine ⟨t', ?_, hholds⟩
  unfold Report.write
  rw [hcontents]
  simp only [bind, StateT.bind, hwrite]
  rfl

/-- What is read where a report is written: all of it, if its summary is read
back, and else nothing. -/
theorem read_eq (hlog : r.log.text? = some log) (h : t.Holds path (r.toJson log).pretty) :
    read (m := StateM FileTree) path t
      = (match Summary.ofJson? r.statistics.summary.toJson with
        | some summary => .ok { r with statistics := { r.statistics with summary } }
        | none => .error { cause := .json, attempts := [.parseReport path] }, t) := by
  have hopen : t.openFile path = .ok (.contents (r.toJson log).pretty) := h
  unfold read
  simp only [bind, StateT.bind, Files.openFile, hopen, Opened.read,
    Json.parse?_pretty (r.printable_toJson log), Option.bind_some, ofJson?_toJson hlog]
  cases Summary.ofJson? r.statistics.summary.toJson <;> rfl

/-- A report with a path that is a text, and with finite doubles. -/
structure Legible (r : Report) : Prop where
  log : r.log.text?.isSome = true
  finite : ∀ x ∈ r.statistics.summary.floats, x.isFinite = true

/-- A report whose doubles are read back is read back. -/
theorem read_write {l : Location} (h : r.Legible)
    (hfloats : ∀ x ∈ r.statistics.summary.floats, Json.float? (.ofFloat x) = some x)
    (hplace : t.place path = .ok l) :
    ∃ t', r.write (m := StateM FileTree) path t = (.ok (), t') ∧
      read (m := StateM FileTree) path t' = (.ok r, t') := by
  obtain ⟨log, hlog⟩ := Option.isSome_iff_exists.1 h.log
  obtain ⟨t', hwrite, hholds⟩ := write_eq hlog hplace
  refine ⟨t', hwrite, ?_⟩
  rw [read_eq hlog hholds, (Summary.ofJson?_toJson_iff _).2 hfloats]

/-- **A report with a double that is not finite** is written, but cannot be read. -/
theorem read_write_of_not_finite {l : Location} (hlog : r.log.text? = some log) {x : Float}
    (hx : x ∈ r.statistics.summary.floats) (hnot : x.isFinite = false)
    (hplace : t.place path = .ok l) :
    ∃ t', r.write (m := StateM FileTree) path t = (.ok (), t') ∧
      read (m := StateM FileTree) path t'
        = (.error { cause := .json, attempts := [.parseReport path] }, t') := by
  obtain ⟨t', hwrite, hholds⟩ := write_eq hlog hplace
  refine ⟨t', hwrite, ?_⟩
  rw [read_eq hlog hholds]
  rcases hread : Summary.ofJson? r.statistics.summary.toJson with - | summary
  · rfl
  · have hfinite := Summary.isFinite_of_ofJson? hread x hx
    rw [hnot] at hfinite
    cases hfinite

end Report

end PageWalk
