/-
PageWalk/Proofs/Reduction/Reached.lean

Reducers that may have refused records, and reductions that fail.

`Reached` relates the state that a reducer started in to the one that it is
in after any records were handed to it, and keeps those that were taken.
`FailsAt` lists the ways in which a reduction can fail at a line.  A run that
fails does so at one line, and has taken the records of all lines before it
and nothing else (`run_error`).
-/
import PageWalk.Proofs.Costs
import PageWalk.Proofs.Reduction.Run

namespace PageWalk

theorem IssueTally.register_error {t : IssueTally} {issue : Issue} {c : Cause}
    (h : t.register issue = .error c) : c = .sumOverflow := by
  unfold register at h
  split at h
  · rcases hsum : t.unknownLabels.plus .one with e | sum
    · rw [hsum] at h
      cases h
      exact Counter.plus_error hsum
    · rw [hsum] at h; cases h
  · rcases hsum : t.malformedFields.plus .one with e | sum
    · rw [hsum] at h
      cases h
      exact Counter.plus_error hsum
    · rw [hsum] at h; cases h

namespace Reduction

open Log (Reader Line)

variable {σ : Type} [Reducer σ]

/-! ### States that are reached -/

/-- Handing records to `start`, one after the other, leads to a state.  The
list holds those that were taken; any others were refused. -/
inductive Reached (start : σ) : List Record → σ → Prop
  | start : Reached start [] start
  | taken {records : List Record} {s s' : σ} {record : Record} :
      Reached start records s → Reducer.handle record s = (.ok (), s') →
      Reached start (records ++ [record]) s'
  | refused {records : List Record} {s s' : σ} {record : Record} {c : Cause} :
      Reached start records s → Reducer.handle record s = (.error c, s') →
      Reached start records s'

/-- A record that is taken leads on. -/
theorem Reached.of_ok {start s : σ} {records : List Record} (h : Reached start records s)
    (record : Record) (hok : (Reducer.handle record s).1 = .ok ()) :
    Reached start (records ++ [record]) (Reducer.handle record s).2 :=
  h.taken (Prod.ext hok rfl)

/-- A record that is refused may lead on as well. -/
theorem Reached.of_error {start s : σ} {records : List Record} {c : Cause}
    (h : Reached start records s) (record : Record) (herr : (Reducer.handle record s).1 = .error c) :
    Reached start records (Reducer.handle record s).2 :=
  h.refused (Prod.ext herr rfl)

theorem Reached.takeAll {start s s' : σ} {past records : List Record}
    (h : Reached start past s) (hok : takeAll s records = .ok s') :
    Reached start (past ++ records) s' :=
  takeAll_induction (P := Reached start) h (fun _ _ _ _ h htake => h.taken (take_ok htake)) hok

/-! ### Failures -/

/-- The ways in which a reduction fails at a line, with the error and what is
left of the reducer. -/
inductive FailsAt (mode : Mode) (format : RecordFormat) (line : Line) (s : σ) :
    Error → σ → Prop
  /-- The line is no record. -/
  | unreadable {c : Cause} : Record.parse format line.text = .error c →
      FailsAt mode format line s { cause := c, attempts := [.parseRecord (line.number + 1)] } s
  /-- The run is strict, and there is an issue: it fails at the first. -/
  | issue {parsed : ParsedRecord} {issue : Issue} {issues : List Issue} :
      Record.parse format line.text = .ok parsed → mode.strict = true →
      parsed.issues = issue :: issues →
      FailsAt mode format line s
        { cause := .issue issue, attempts := [.acceptRecord (line.number + 1)] } s
  /-- The issues are more than can be tallied. -/
  | tally {parsed : ParsedRecord} : Record.parse format line.text = .ok parsed →
      mode.strict = false → FailsAt mode format line s { cause := .sumOverflow } s
  /-- The reducer refuses the record. -/
  | refused {parsed : ParsedRecord} {c : Cause} {s' : σ} :
      Record.parse format line.text = .ok parsed →
      Reducer.handle parsed.record s = (.error c, s') →
      FailsAt mode format line s
        { cause := c, attempts := [.reduceRecord (line.number + 1)] } s'

omit [Reducer σ] in
/-- Issues are no concern of the reducer. -/
theorem acceptIssues_reducer (mode : Mode) (number : Nat) (issues : List Issue) (s : State σ) :
    (acceptIssues mode number issues s).2.reducer = s.reducer := by
  induction issues generalizing s with
  | nil => rfl
  | cons i is ih =>
    unfold acceptIssues
    split
    · rfl
    · dsimp only
      split
      · rfl
      · rw [ih]
        rfl

omit [Reducer σ] in
theorem acceptIssues_error {mode : Mode} {number : Nat} {issues : List Issue} {s s' : State σ}
    {e : Error} (herr : acceptIssues mode number issues s = (.error e, s')) :
    (mode.strict = true ∧ ∃ i is, issues = i :: is ∧
        e = { cause := .issue i, attempts := [.acceptRecord number] }) ∨
      (mode.strict = false ∧ e = { cause := .sumOverflow }) := by
  induction issues generalizing s with
  | nil => cases herr
  | cons i is ih =>
    unfold acceptIssues at herr
    split at herr
    · rename_i hstrict
      cases herr
      exact Or.inl ⟨hstrict, i, is, rfl, rfl⟩
    · rename_i hlenient
      dsimp only at herr
      split at herr
      · rename_i hregister
        cases herr
        obtain rfl := IssueTally.register_error hregister
        exact Or.inr ⟨Bool.eq_false_iff.2 hlenient, rfl⟩
      · rcases ih herr with ⟨hstrict, -⟩ | hlenient'
        · exact absurd hstrict hlenient
        · exact Or.inr hlenient'

theorem step_error {mode : Mode} {reader : Reader} {line : Line} {s s' : State σ} {e : Error}
    (herr : step mode reader line s = (.error e, s')) :
    FailsAt mode reader.format line s.reducer e s'.reducer := by
  unfold step at herr
  rcases hparse : Record.parse reader.format line.text with c | parsed
  · simp only [hparse] at herr
    cases herr
    exact .unreadable hparse
  · simp only [hparse] at herr
    have hreducer := acceptIssues_reducer mode (line.number + 1) parsed.issues s
    rcases hissues : acceptIssues mode (line.number + 1) parsed.issues s with ⟨e' | u, s₁⟩
    · simp only [hissues] at herr hreducer
      cases herr
      rw [hreducer]
      rcases acceptIssues_error hissues with ⟨hstrict, i, is, hfirst, rfl⟩ | ⟨hlenient, rfl⟩
      · exact .issue hparse hstrict hfirst
      · exact .tally hparse hlenient
    · simp only [hissues] at herr hreducer
      rcases hhandle : Reducer.handle parsed.record s₁.reducer with ⟨c | v, reducer⟩
      · simp only [hhandle] at herr
        cases herr
        rw [hreducer] at hhandle
        exact .refused hparse hhandle
      · simp only [hhandle] at herr
        cases herr

/-- **A run that fails** does so at one line, and has taken the records of
the lines before. -/
theorem run_error {mode : Mode} {ls : List Line} {reader reader' : Reader} {s s' : State σ}
    {seen : List Issue} {e : Error} (hup : reader.Upcoming ls) (htally : s.issues.Counts seen)
    (herr : run mode reader s = (.error e, reader', s')) :
    ∃ before line after parsed reducer, ls = before ++ line :: after ∧
      before.mapM (fun line => Record.parse reader.format line.text) = .ok parsed ∧
      takeAll s.reducer (parsed.map (·.record)) = .ok reducer ∧
      FailsAt mode reader.format line reducer e s'.reducer := by
  induction ls generalizing reader s seen with
  | nil =>
    rw [run_nil hup] at herr
    cases herr
  | cons line ls ih =>
    obtain ⟨-, hup', hformat⟩ := hup.next
    rw [run_cons hup] at herr
    rcases hstep : step mode reader.next.2 line s with ⟨e' | u, s₁⟩
    · simp only [hstep] at herr
      cases herr
      have hfails := step_error hstep
      rw [hformat] at hfails
      exact ⟨[], line, ls, [], s.reducer, rfl, rfl, rfl, hfails⟩
    · simp only [hstep] at herr
      obtain ⟨first, hparse, htally₁, htake, -⟩ := step_ok htally hstep
      obtain ⟨before, line', after, parsed, reducer, rfl, hparses, htakes, hfails⟩ :=
        ih hup' htally₁ herr
      rw [hformat] at hparse hparses hfails
      refine ⟨line :: before, line', after, first :: parsed, reducer, rfl, ?_,
        takeAll_cons_ok htake htakes, hfails⟩
      rw [List.mapM_cons, hparse, hparses]
      rfl

end Reduction

end PageWalk
