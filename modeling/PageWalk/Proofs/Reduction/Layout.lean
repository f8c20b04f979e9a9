/-
PageWalk/Proofs/Reduction/Layout.lean

Only the authoritative section of a log matters, in any layout.

A reduction reads of each line what trimming leaves of it, and uses its number
for messages alone (`takeLines_congr`).  So logs of which the same is read are
reduced to the same but for these numbers (`reduceBytes_congr`), and what is
read of a log is what is read of its lines, however they end and whatever edits
are made to them that are not read.
-/
import PageWalk.Proofs.Log.Layout
import PageWalk.Proofs.Reduction.Lines
import PageWalk.Proofs.Reduction.Order

namespace PageWalk

/-! ### Errors without line numbers -/

/-- An attempt without the number of its line. -/
def Attempt.unnumbered : Attempt → Attempt
  | readLine _ => readLine 0
  | parseRecord _ => parseRecord 0
  | acceptRecord _ => acceptRecord 0
  | reduceRecord _ => reduceRecord 0
  | attempt => attempt

/-- An error with the same cause and the same attempts but for the numbers of
lines. -/
def Error.unnumbered (e : Error) : Error := { e with attempts := e.attempts.map .unnumbered }

/-- A result in which the numbers of lines do not matter. -/
def unnumbered {α : Type} (x : Except Error α) : Except Error α := x.mapError Error.unnumbered

section

variable {α β : Type}

theorem unnumbered_ok_iff {x : Except Error α} {a : α} : unnumbered x = .ok a ↔ x = .ok a := by
  cases x with
  | error e => exact iff_of_false nofun nofun
  | ok a' => rfl

/-- Results are the same but for numbers if they come about in the same way. -/
theorem unnumbered_bind {x x' : Except Error α} {f f' : α → Except Error β}
    (hx : unnumbered x = unnumbered x') (hf : ∀ a, unnumbered (f a) = unnumbered (f' a)) :
    unnumbered (x >>= f) = unnumbered (x' >>= f') := by
  rcases hx' : x' with e' | a
  · rw [hx'] at hx
    rcases x with e | a
    · exact congrArg Except.error (Except.error.inj hx)
    · cases hx
  · rw [hx'] at hx
    rw [unnumbered_ok_iff.1 hx]
    exact hf a

theorem unnumbered_map {x x' : Except Error α} (h : unnumbered x = unnumbered x') (f : α → β) :
    unnumbered (x.map f) = unnumbered (x'.map f) :=
  unnumbered_bind h fun _ => rfl

end

namespace Reduction

open Log (Line Renders Edit readOf newline carriageReturn)
open Text (trim)

variable {σ : Type} [Reducer σ]

/-! ### What a reduction reads -/

omit [Reducer σ] in
theorem tallyIssues_number (mode : Mode) (number number' : Nat) (issues : List Issue)
    (t : IssueTally) :
    unnumbered (tallyIssues mode number issues t)
      = unnumbered (tallyIssues mode number' issues t) := by
  induction issues generalizing t with
  | nil => rfl
  | cons issue issues ih =>
    unfold tallyIssues
    split
    · rfl
    · rcases t.register issue with c | t'
      · rfl
      · exact ih t'

/-- Lines that are trimmed to the same do the same to an account. -/
theorem takeLine_congr_trim (mode : Mode) (format : RecordFormat) (a : Account σ)
    {line line' : Line} (h : trim line.text = trim line'.text) :
    unnumbered (takeLine mode format a line) = unnumbered (takeLine mode format a line') := by
  have hparse : Record.parse format line.text = Record.parse format line'.text := by
    rw [← Record.parse_trim format line.text, h, Record.parse_trim]
  unfold takeLine
  rw [hparse]
  rcases Record.parse format line'.text with c | parsed
  · rfl
  · have htally := tallyIssues_number mode (line.number + 1) (line'.number + 1) parsed.issues
      a.issues
    dsimp only
    generalize tallyIssues mode (line.number + 1) parsed.issues a.issues = x at htally ⊢
    generalize tallyIssues mode (line'.number + 1) parsed.issues a.issues = x' at htally ⊢
    rcases x with e | issues
    · rcases x' with e' | issues'
      · exact congrArg Except.error (Except.error.inj htally)
      · cases htally
    · obtain rfl := unnumbered_ok_iff.1 htally.symm
      rcases take a.reducer parsed.record <;> rfl

theorem takeLines_congr (mode : Mode) (format : RecordFormat) (a : Account σ) {ls ls' : List Line}
    (h : ls.map (fun line => trim line.text) = ls'.map (fun line => trim line.text)) :
    unnumbered (takeLines mode format a ls) = unnumbered (takeLines mode format a ls') := by
  induction ls generalizing a ls' with
  | nil =>
    obtain rfl := List.map_eq_nil_iff.1 h.symm
    rfl
  | cons line ls ih =>
    obtain ⟨line', ls', rfl, hline, hls⟩ := List.map_eq_cons_iff.1 h.symm
    rw [takeLines_cons, takeLines_cons]
    exact unnumbered_bind (takeLine_congr_trim mode format a hline.symm) fun a' => ih a' hls.symm

/-- **Logs of which the same is read** are reduced to the same. -/
theorem reduceBytes_congr (mode : Mode) (format : RecordFormat) (start : σ) {log log' : Bytes}
    (h : (Utf8.decode? log).map (fun text =>
        (Log.sectionLines format text).map fun line => trim line.text)
      = (Utf8.decode? log').map fun text =>
        (Log.sectionLines format text).map fun line => trim line.text) :
    unnumbered (reduceBytes mode format start log)
      = unnumbered (reduceBytes mode format start log') := by
  rcases htext : Utf8.decode? log with - | text
  · rcases htext' : Utf8.decode? log' with - | text'
    · rw [reduceBytes_eq_error htext, reduceBytes_eq_error htext']
    · rw [htext, htext'] at h
      cases h
  · rcases htext' : Utf8.decode? log' with - | text'
    · rw [htext, htext'] at h
      cases h
    · rw [htext, htext'] at h
      rw [reduceBytes_eq_takeLines htext, reduceBytes_eq_takeLines htext']
      exact unnumbered_map (takeLines_congr mode format _ (Option.some.inj h)) _

/-! ### Logs made of lines -/

/-- Logs of whose lines the same is read are reduced to the same. -/
theorem reduceAs_congr {design : Design} {mode : Mode} {costs : Costs} {o : Overheads}
    {ls ls' : List Bytes} {log log' : Bytes} (hlog : Renders ls log) (hlog' : Renders ls' log')
    (h : readOf design.format ls = readOf design.format ls') :
    unnumbered (reduceAs design mode costs o log)
      = unnumbered (reduceAs design mode costs o log') := by
  rw [hlog.readOf_eq, hlog'.readOf_eq] at h
  cases design with
  | radix => exact reduceBytes_congr mode .simple _ h
  | ecpt => exact reduceBytes_congr mode .withWay _ h

/-- **Only the authoritative section matters**, in any layout.  Take a log made
of lines, and another one made of the same lines or of what any number of edits,
made or undone, turn them into.  Both are reduced to the same output, or fail for
the same cause in the same attempts; only the numbers of lines may differ.

Lines are replaced by lines of text only, and only such are replaced: a log with
any other line cannot be opened, and so every line of it matters. -/
theorem reduction_ignores_layout (design : Design) (mode : Mode) (costs : Costs) (o : Overheads)
    {ls ls' : List Bytes} {log log' : Bytes} (hlog : Renders ls log) (hlog' : Renders ls' log')
    (hedits : Relation.EqvGen (Edit design.format) ls ls') :
    unnumbered (reduceAs design mode costs o log)
      = unnumbered (reduceAs design mode costs o log') := by
  exact reduceAs_congr hlog hlog' (Log.readOf_eq_of_edits hedits)

/-- A section between other lines, and the same with a blank line, other lines
around it and other ends. -/
theorem reduction_ignores_layout_of_three_edits :
    let costs : Costs := ⟨.ofNat 0, .ofNat 4, .ofNat 14, .ofNat 54, .ofNat 1, .ofNat 200⟩
    let o : Overheads := ⟨.ofNat 2, .ofNat 1, .ofNat 3⟩
    let line := fun s : String => Utf8.encode s.toList
    let marker := line "~~~~~~~~~~~~~~~"
    let log := line "run" ++ newline :: (marker ++ newline :: (line "L1,LLC,3" ++ newline ::
      (line "~ end" ++ newline :: line "x")))
    let log' := marker ++ newline :: (line "L9,7" ++ newline :: (marker ++ newline ::
      (line " " ++ newline :: (line "L1,LLC,3" ++ carriageReturn :: newline ::
        (line "~ end" ++ newline :: [])))))
    ∃ out, reduceAs .radix {} costs o log = .ok out ∧ reduceAs .radix {} costs o log' = .ok out ∧
      out.records = 1 := by
  intro costs o line marker log log'
  have hlog : Renders [line "run", marker, line "L1,LLC,3", line "~ end", line "x"] log :=
    .ended (by decide) (.ended (by decide) (.ended (by decide) (.ended (by decide)
      (.unended (by decide)))))
  have hlog' : Renders [marker, line "L9,7", marker, line " ", line "L1,LLC,3", line "~ end"] log' :=
    .ended (by decide) (.ended (by decide) (.ended (by decide) (.ended (by decide)
      (.returned (by decide) (.ended (by decide) .nil)))))
  have htext : ∀ s : String, Log.IsText (line s) := fun s => ⟨s.toList, Utf8.decode?_encode _⟩
  have hpreamble : Edit .simple
      [line "run", marker, line "L1,LLC,3", line "~ end", line "x"]
      [marker, line "L9,7", marker, line "L1,LLC,3", line "~ end", line "x"] :=
    .preamble [line "run"] [marker, line "L9,7"] _ (by simp [htext]) (by simp [htext, marker])
      List.prefix_rfl
  have hblank : Edit .simple
      [marker, line "L9,7", marker, line "L1,LLC,3", line "~ end", line "x"]
      [marker, line "L9,7", marker, line " ", line "L1,LLC,3", line "~ end", line "x"] :=
    .blank [marker, line "L9,7", marker] _ ⟨" ".toList, Utf8.decode?_encode _, by decide⟩
  have hremainder : Edit .simple
      [marker, line "L9,7", marker, line " ", line "L1,LLC,3", line "~ end", line "x"]
      [marker, line "L9,7", marker, line " ", line "L1,LLC,3", line "~ end"] :=
    .remainder [marker, line "L9,7", marker, line " ", line "L1,LLC,3"] [line "x"] []
      (by decide) (by simp [htext]) nofun (by decide)
  have hedits := ((Relation.EqvGen.rel _ _ hpreamble).trans _ _ _ (.rel _ _ hblank)).trans _ _ _
    (.rel _ _ hremainder)
  have hrun : (reduceAs .radix {} costs o log).map (·.records) = .ok 1 := by decide +kernel
  obtain ⟨out, hout, hrecords⟩ := map_eq_ok_iff.1 hrun
  have hsame := reduction_ignores_layout .radix {} costs o hlog hlog' hedits
  rw [hout] at hsame
  exact ⟨out, hout, unnumbered_ok_iff.1 hsame.symm, hrecords⟩

end Reduction

end PageWalk
