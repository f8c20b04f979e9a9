/-
PageWalk/Proofs/Reduction/Run.lean

What a reduction does that succeeds: it takes the records of all lines of
the section, in their order, and tallies their issues.

A run is a recursion on its reader.  Its two equations (`run_nil`,
`run_cons`) speak of the lines before the reader instead, so that what a
run does follows from what a step does (`step_ok`) by induction on them
(`run_ok`).
-/
import PageWalk.Proofs.Log.Section
import PageWalk.Reduction.Run

namespace PageWalk

/-! ### Tallies of issues -/

/-- Whether an issue is an unknown label. -/
def Issue.isUnknownLabel : Issue → Bool
  | unknownLabel .. => true
  | malformedField .. => false

/-- Whether an issue is a malformed field. -/
def Issue.isMalformedField : Issue → Bool
  | unknownLabel .. => false
  | malformedField .. => true

namespace IssueTally

/-- The tally holds as many issues of each kind as there are in `issues`. -/
structure Counts (issues : List Issue) (t : IssueTally) : Prop where
  unknownLabels : t.unknownLabels.val = issues.countP (·.isUnknownLabel)
  malformedFields : t.malformedFields.val = issues.countP (·.isMalformedField)

theorem Counts.empty : Counts [] IssueTally.empty := ⟨rfl, rfl⟩

theorem Counts.register {issues : List Issue} {issue : Issue} {t t' : IssueTally}
    (h : Counts issues t) (hok : t.register issue = .ok t') : Counts (issues ++ [issue]) t' := by
  obtain ⟨hlabels, hfields⟩ := h
  cases issue with
  | unknownLabel position label =>
    unfold IssueTally.register at hok
    rcases hsum : t.unknownLabels.plus .one with e | sum
    · simp only [hsum] at hok; cases hok
    · simp only [hsum] at hok
      cases hok
      have hval := Counter.plus_eq_ok_iff.1 hsum
      refine ⟨?_, ?_⟩
      · rw [List.countP_append, ← hlabels]
        exact hval
      · rw [List.countP_append, ← hfields]
        rfl
  | malformedField field value =>
    unfold IssueTally.register at hok
    rcases hsum : t.malformedFields.plus .one with e | sum
    · simp only [hsum] at hok; cases hok
    · simp only [hsum] at hok
      cases hok
      have hval := Counter.plus_eq_ok_iff.1 hsum
      refine ⟨?_, ?_⟩
      · rw [List.countP_append, ← hlabels]
        rfl
      · rw [List.countP_append, ← hfields]
        exact hval

end IssueTally

namespace Reduction

open Log (Reader Line)

/-! ### What is taken -/

variable {σ : Type}

section Taking

variable [Reducer σ]

/-- Take a record, and forget the state if it is refused. -/
def take (s : σ) (record : Record) : Except Cause σ :=
  match Reducer.handle record s with
  | (.ok (), s') => .ok s'
  | (.error c, _) => .error c

/-- Take records one after the other. -/
def takeAll (s : σ) (records : List Record) : Except Cause σ := records.foldlM take s

theorem take_ok {s s' : σ} {record : Record} (h : take s record = .ok s') :
    Reducer.handle record s = (.ok (), s') := by
  unfold take at h
  split at h
  · rename_i heq
    cases h
    exact heq
  · cases h

theorem takeAll_cons_ok {s s' s'' : σ} {record : Record} {records : List Record}
    (h : take s record = .ok s') (h' : takeAll s' records = .ok s'') :
    takeAll s (record :: records) = .ok s'' := by
  unfold takeAll
  rw [List.foldlM_cons, h]
  exact h'

/-- What one record preserves, all of them preserve. -/
theorem takeAll_induction {P : List Record → σ → Prop} {s s' : σ} {done records : List Record}
    (hP : P done s)
    (hstep : ∀ done s record s', P done s → take s record = .ok s' → P (done ++ [record]) s')
    (hok : takeAll s records = .ok s') : P (done ++ records) s' := by
  induction records generalizing done s with
  | nil =>
    obtain rfl : s = s' := Except.ok.inj hok
    rw [List.append_nil]
    exact hP
  | cons record records ih =>
    unfold takeAll at hok
    rw [List.foldlM_cons] at hok
    rcases htake : take s record with c | s₁
    · rw [htake] at hok; cases hok
    · rw [htake] at hok
      rw [List.append_cons]
      exact ih (hstep _ _ _ _ hP htake) hok

end Taking

/-! ### Steps -/

/-- Passing over issues tallies them and does nothing else to the numbers. -/
theorem acceptIssues_ok {mode : Mode} {number : Nat} {issues seen : List Issue} {s s' : State σ}
    (htally : s.issues.Counts seen) (hok : acceptIssues mode number issues s = (.ok (), s')) :
    s'.issues.Counts (seen ++ issues) ∧ s'.reducer = s.reducer ∧ s'.records = s.records := by
  induction issues generalizing seen s with
  | nil =>
    obtain rfl : s = s' := congrArg Prod.snd hok
    rw [List.append_nil]
    exact ⟨htally, rfl, rfl⟩
  | cons issue issues ih =>
    unfold acceptIssues at hok
    split at hok
    · -- a strict run fails here
      cases hok
    · dsimp only at hok
      rcases hreg : s.issues.register issue with c | tally
      · simp only [State.tell, hreg] at hok; cases hok
      · simp only [State.tell, hreg] at hok
        obtain ⟨h1, h2, h3⟩ := ih (htally.register hreg) hok
        rw [List.append_cons]
        exact ⟨h1, h2, h3⟩

variable [Reducer σ]

/-- **A step** that succeeds has read its line, passed over its issues and
taken its record. -/
theorem step_ok {mode : Mode} {reader : Reader} {line : Line} {s s' : State σ}
    {seen : List Issue} (htally : s.issues.Counts seen)
    (hok : step mode reader line s = (.ok (), s')) :
    ∃ parsed, Record.parse reader.format line.text = .ok parsed ∧
      s'.issues.Counts (seen ++ parsed.issues) ∧
      take s.reducer parsed.record = .ok s'.reducer ∧ s'.records = s.records + 1 := by
  unfold step at hok
  rcases hparse : Record.parse reader.format line.text with c | parsed
  · simp only [hparse] at hok; cases hok
  · simp only [hparse] at hok
    rcases hissues : acceptIssues mode (line.number + 1) parsed.issues s with ⟨e | u, s₁⟩
    · simp only [hissues] at hok; cases hok
    · simp only [hissues] at hok
      obtain ⟨h1, h2, h3⟩ := acceptIssues_ok htally hissues
      rcases hhandle : Reducer.handle parsed.record s₁.reducer with ⟨c | v, reducer⟩
      · simp only [hhandle] at hok; cases hok
      · simp only [hhandle] at hok
        have htake : take s.reducer parsed.record = .ok reducer := by
          unfold take
          rw [← h2, hhandle]
        refine ⟨parsed, rfl, ?_⟩
        cases hverbose : mode.verbose with
        | true =>
          rw [hverbose] at hok
          cases hok
          exact ⟨h1, htake, congrArg (· + 1) h3⟩
        | false =>
          rw [hverbose] at hok
          cases hok
          exact ⟨h1, htake, congrArg (· + 1) h3⟩

/-! ### Runs -/

/-- A run over no lines. -/
theorem run_nil {mode : Mode} {reader : Reader} {s : State σ} (h : reader.Upcoming []) :
    run mode reader s = (.ok (), reader.next.2, s) := by
  obtain ⟨hnext, -⟩ := h.next
  rw [run]
  -- of the three answers of `next` only one agrees with what is upcoming
  split
  · rename_i heq
    rw [heq] at hnext; cases hnext
  · rename_i heq
    rw [heq]
  · rename_i heq
    rw [heq] at hnext; cases hnext

/-- A run over one line and more. -/
theorem run_cons {mode : Mode} {reader : Reader} {s : State σ} {line : Line} {ls : List Line}
    (h : reader.Upcoming (line :: ls)) :
    run mode reader s = match step mode reader.next.2 line s with
      | (.error e, s) => (.error e, reader.next.2, s)
      | (.ok (), s) => run mode reader.next.2 s := by
  obtain ⟨hnext, -⟩ := h.next
  rw [run]
  split
  · rename_i heq
    rw [heq] at hnext; cases hnext
  · rename_i heq
    rw [heq] at hnext; cases hnext
  · rename_i line' reader' heq
    rw [heq] at hnext
    obtain rfl : line' = line := by simpa using hnext
    exact heq ▸ rfl

/-- **A run** that succeeds has taken the records of all lines. -/
theorem run_ok {mode : Mode} {ls : List Line} {reader reader' : Reader} {s s' : State σ}
    {seen : List Issue} (hup : reader.Upcoming ls) (htally : s.issues.Counts seen)
    (hok : run mode reader s = (.ok (), reader', s')) :
    ∃ parsed, ls.mapM (fun line => Record.parse reader.format line.text) = .ok parsed ∧
      s'.issues.Counts (seen ++ parsed.flatMap (·.issues)) ∧
      takeAll s.reducer (parsed.map (·.record)) = .ok s'.reducer ∧
      s'.records = s.records + ls.length := by
  induction ls generalizing reader s seen with
  | nil =>
    rw [run_nil hup] at hok
    obtain rfl : s = s' := congrArg (·.2.2) hok
    refine ⟨[], rfl, ?_, rfl, rfl⟩
    rw [List.flatMap_nil, List.append_nil]
    exact htally
  | cons line ls ih =>
    obtain ⟨-, hup', hformat⟩ := hup.next
    rw [run_cons hup] at hok
    rcases hstep : step mode reader.next.2 line s with ⟨e | u, s₁⟩
    · simp only [hstep] at hok; cases hok
    · simp only [hstep] at hok
      obtain ⟨first, hparse, htally₁, htake, hrecords⟩ := step_ok htally hstep
      obtain ⟨parsed, hparses, htally₂, htakes, hrecords'⟩ := ih hup' htally₁ hok
      rw [hformat] at hparse hparses
      refine ⟨first :: parsed, ?_, ?_, takeAll_cons_ok htake htakes, ?_⟩
      · rw [List.mapM_cons, hparse, hparses]
        rfl
      · rw [List.flatMap_cons, ← List.append_assoc]
        exact htally₂
      · rw [hrecords', hrecords, List.length_cons]
        omega

/-- **Reducing a log** that succeeds: the log is text, each line of its
section is read as a record, and these are taken in their order. -/
theorem reduce_ok {format : RecordFormat} {log : Bytes} {mode : Mode} {reader : Reader}
    {reducer : σ} {out : Output} (hopen : Reader.ofLog format log = .ok reader)
    (hok : (reduce mode reader reducer).1 = .ok out) :
    ∃ text parsed final, Utf8.decode? log = some text ∧
      (Log.sectionLines format text).mapM (fun line => Record.parse format line.text)
        = .ok parsed ∧
      out.records = (Log.sectionLines format text).length ∧
      out.issues.Counts (parsed.flatMap (·.issues)) ∧
      takeAll reducer (parsed.map (·.record)) = .ok final ∧
      out.statistics = Reducer.statistics final := by
  rcases htext : Utf8.decode? log with - | text
  · rw [Reader.ofLog_eq_error htext] at hopen; cases hopen
  · obtain ⟨r, hr, hformat, -, hup⟩ := Reader.ofLog_eq_ok htext format
    obtain rfl := Except.ok.inj (hr.symm.trans hopen)
    unfold reduce at hok
    rcases hrun : run mode r { reducer } with ⟨e | u, reader', s⟩
    · simp only [hrun] at hok; cases hok
    · simp only [hrun] at hok
      obtain rfl := Except.ok.inj hok
      obtain ⟨parsed, hparses, htally, htakes, hrecords⟩ :=
        run_ok hup IssueTally.Counts.empty hrun
      rw [hformat] at hparses
      refine ⟨text, parsed, s.reducer, rfl, hparses, ?_, htally, htakes, rfl⟩
      rw [hrecords]
      exact Nat.zero_add _

end Reduction

end PageWalk
