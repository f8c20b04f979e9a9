/-
PageWalk/Proofs/Reduction/Refusal.lean

Failures leave no trace in the statistics.

A reducer updates several sums for one record, and each of them may be
refused.  In the states that are reached the first refusal comes before the
first update (`Bounded.refused`), so a run that fails at a line is left with
what the lines before it came to (`refusals_leave_no_trace`).
-/
import PageWalk.Proofs.Reduction.Handling

namespace PageWalk.Reduction

open Log (Reader)

variable {σ : Type} [Reducer σ]

/-- A run over a log has stopped at one line of its section with an error.
The records of the lines before it are `taken`, and led the reducer from `r`
to `r'`; the line at which the run failed changed nothing more. -/
def StopsAt (mode : Mode) (format : RecordFormat) (log : Bytes) (r : σ) (taken : List Record)
    (e : Error) (r' : σ) : Prop :=
  ∃ text before line after parsed, Utf8.decode? log = some text ∧
    Log.sectionLines format text = before ++ line :: after ∧
    before.mapM (fun line => Record.parse format line.text) = .ok parsed ∧
    taken = parsed.map (·.record) ∧ takeAll r taken = .ok r' ∧
    FailsAt mode format line r' e r'

/-- Where refusals leave no trace, a run that fails stops at a line. -/
theorem run_stopsAt {start r : σ} {past : List Record} {mode : Mode} {format : RecordFormat}
    {log : Bytes} {reader reader' : Reader} {e : Error} {s : State σ}
    (hrefused : ∀ records r, Reached start records r → ∀ record c r',
      Reducer.handle record r = (.error c, r') → r' = r)
    (hreached : Reached start past r) (hopen : Reader.ofLog format log = .ok reader)
    (herr : run mode reader { reducer := r } = (.error e, reader', s)) :
    ∃ taken, StopsAt mode format log r taken e s.reducer ∧
      Reached start (past ++ taken) s.reducer := by
  rcases htext : Utf8.decode? log with - | text
  · rw [Reader.ofLog_eq_error htext] at hopen; cases hopen
  · obtain ⟨_, hr, hformat, -, hup⟩ := Reader.ofLog_eq_ok htext format
    obtain rfl := Except.ok.inj (hr.symm.trans hopen)
    obtain ⟨before, line, after, parsed, reducer, hlines, hparses, htakes, hfails⟩ :=
      run_error hup IssueTally.Counts.empty herr
    rw [hformat] at hparses hfails
    have hreached' := hreached.takeAll htakes
    have heq : s.reducer = reducer := by
      generalize s.reducer = reducer' at hfails
      cases hfails with
      | refused _ hhandle => exact hrefused _ _ hreached' _ _ _ hhandle
      | _ => rfl
    rw [heq]
    rw [heq] at hfails
    exact ⟨_, ⟨text, before, line, after, parsed, htext, hlines, hparses, rfl, htakes,
      hfails⟩, hreached'⟩

section

variable {costs : Costs} {past : List Record} {mode : Mode} {format : RecordFormat} {log : Bytes}
  {reader reader' : Reader} {e : Error}

theorem radix_stopsAt {r : RadixReducer} {s : State RadixReducer}
    (h : Reached (RadixReducer.new costs) past r) (hopen : Reader.ofLog format log = .ok reader)
    (herr : run mode reader { reducer := r } = (.error e, reader', s)) :
    ∃ taken, StopsAt mode format log r taken e s.reducer ∧
      Reached (RadixReducer.new costs) (past ++ taken) s.reducer :=
  run_stopsAt (fun _ _ hr _ _ _ => (reached_radix hr).1.refused) h hopen herr

theorem ecpt_stopsAt {o : Overheads} {r : EcptReducer} {s : State EcptReducer}
    (h : Reached (EcptReducer.new costs o) past r) (hopen : Reader.ofLog format log = .ok reader)
    (herr : run mode reader { reducer := r } = (.error e, reader', s)) :
    ∃ taken, StopsAt mode format log r taken e s.reducer ∧
      Reached (EcptReducer.new costs o) (past ++ taken) s.reducer :=
  run_stopsAt (fun _ _ hr _ _ _ => (reached_ecpt hr).1.refused) h hopen herr

end

/-- **Failures leave no trace.**  A reducer that has taken some records, and
refused any others, is after one more refusal what it was before.  If a run
over a log fails with it, then at a line, and the reducer holds exactly the
records that it held before and those of the lines of the section before the
one that failed. -/
theorem refusals_leave_no_trace :
    (∀ (costs : Costs) (past : List Record) (r : RadixReducer),
      Reached (RadixReducer.new costs) past r →
      (∀ record c r', RadixReducer.handle record r = (.error c, r') → r' = r) ∧
      ∀ (mode : Mode) (format : RecordFormat) (log : Bytes) (reader reader' : Reader) (e : Error)
        (s : State RadixReducer), Reader.ofLog format log = .ok reader →
        run mode reader { reducer := r } = (.error e, reader', s) →
        ∃ taken, StopsAt mode format log r taken e s.reducer ∧
          s.reducer.Counts costs (past ++ taken)) ∧
    (∀ (costs : Costs) (o : Overheads) (past : List Record) (r : EcptReducer),
      Reached (EcptReducer.new costs o) past r →
      (∀ record c r', EcptReducer.handle record r = (.error c, r') → r' = r) ∧
      ∀ (mode : Mode) (format : RecordFormat) (log : Bytes) (reader reader' : Reader) (e : Error)
        (s : State EcptReducer), Reader.ofLog format log = .ok reader →
        run mode reader { reducer := r } = (.error e, reader', s) →
        ∃ taken, StopsAt mode format log r taken e s.reducer ∧
          s.reducer.Counts costs o (past ++ taken)) := by
  refine ⟨fun costs past r hr => ⟨?_, ?_⟩, fun costs o past r hr => ⟨?_, ?_⟩⟩
  · intro record c r' herr
    exact (reached_radix hr).1.refused herr
  · intro mode format log reader reader' e s hopen herr
    obtain ⟨taken, hstops, hreached⟩ := radix_stopsAt hr hopen herr
    exact ⟨taken, hstops, (reached_radix hreached).2⟩
  · intro record c r' herr
    exact (reached_ecpt hr).1.refused herr
  · intro mode format log reader reader' e s hopen herr
    obtain ⟨taken, hstops, hreached⟩ := ecpt_stopsAt hr hopen herr
    exact ⟨taken, hstops, (reached_ecpt hreached).2⟩

/-- A walk that is too deep, and requests that are too many, both on the
second line of a section and met by reducers that have refused a record
before. -/
theorem refusals_leave_no_trace_of_second_lines :
    let costs : Costs := ⟨.ofNat 0, .ofNat 4, .ofNat 14, .ofNat 54, .ofNat 1, .ofNat 200⟩
    let o : Overheads := ⟨.ofNat 2, .ofNat 1, .ofNat 3⟩
    let bad : Record := ⟨List.replicate 5 none, .ofNat 1, none⟩
    let deep := Utf8.encode "~~~~~~~~~~~~~~~\nL1,LLC,3\nL1,L1,L1,L1,L1,2\nL1,5\n".toList
    let many := Utf8.encode ("~~~~~~ full stats with way ~~~~~~\nL1,LLC,1\t3\n\n" ++
      "L2,0\t18446744073709551615\n").toList
    (∃ r e s taken, RadixReducer.handle bad (RadixReducer.new costs)
        = (.error (.probeOverflow 5 4), r) ∧
      StopsAt {} .simple deep r taken e s ∧ RadixReducer.Counts costs taken s ∧
      e = { cause := .probeOverflow 5 4, attempts := [.reduceRecord 3] } ∧
      s.latency.requests.val = 3) ∧
    ∃ r e s taken, EcptReducer.handle bad (EcptReducer.new costs o) = (.error .missingWay, r) ∧
      StopsAt {} .withWay many r taken e s ∧ EcptReducer.Counts costs o taken s ∧
      e = { cause := .requestOverflow (.ofNat 3) (.ofNat (2 ^ 64 - 1)),
            attempts := [.reduceRecord 4] } ∧
      s.totalRequests.val = 3 := by
  intro costs o bad deep many
  constructor
  · have hreached : Reached (RadixReducer.new costs) [] _ :=
      Reached.start.of_error bad (c := .probeOverflow 5 4) (by decide +kernel)
    have hrun : (Reader.ofLog .simple deep).map (fun reader =>
        let (result, _, s) := run {} reader
          { reducer := (RadixReducer.handle bad (RadixReducer.new costs)).2 }
        (result, s.reducer.latency.requests.val))
        = .ok (.error { cause := .probeOverflow 5 4, attempts := [.reduceRecord 3] }, 3) := by
      decide +kernel
    obtain ⟨reader, hopen, hout⟩ := map_eq_ok_iff.1 hrun
    obtain ⟨hresult, hrequests⟩ := Prod.mk.inj hout
    obtain ⟨taken, hstops, hcounts⟩ := (refusals_leave_no_trace.1 _ _ _ hreached).2 {} .simple deep
      reader _ _ _ hopen (Prod.ext hresult rfl)
    exact ⟨_, _, _, taken, Prod.ext (by decide +kernel) rfl, hstops, hcounts, rfl, hrequests⟩
  · have hreached : Reached (EcptReducer.new costs o) [] _ :=
      Reached.start.of_error bad (c := .missingWay) (by decide +kernel)
    have hrun : (Reader.ofLog .withWay many).map (fun reader =>
        let (result, _, s) := run {} reader
          { reducer := (EcptReducer.handle bad (EcptReducer.new costs o)).2 }
        (result, s.reducer.totalRequests.val))
        = .ok (.error { cause := .requestOverflow (.ofNat 3) (.ofNat (2 ^ 64 - 1)),
                        attempts := [.reduceRecord 4] }, 3) := by
      decide +kernel
    obtain ⟨reader, hopen, hout⟩ := map_eq_ok_iff.1 hrun
    obtain ⟨hresult, hrequests⟩ := Prod.mk.inj hout
    obtain ⟨taken, hstops, hcounts⟩ := (refusals_leave_no_trace.2 _ _ _ _ hreached).2 {} .withWay
      many reader _ _ _ hopen (Prod.ext hresult rfl)
    exact ⟨_, _, _, taken, Prod.ext (by decide +kernel) rfl, hstops, hcounts, rfl, hrequests⟩

end PageWalk.Reduction
