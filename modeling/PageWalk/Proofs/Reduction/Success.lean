/-
PageWalk/Proofs/Reduction/Success.lean

When a reduction succeeds, and with what.

`Reduced` says that records, with the issues of their lines, come to an
output: a strict run has no issues, their tally fits, and all records are
taken.  Reducing a log gives an output exactly if its lines are read and come
to it (`reduceBytes_eq_ok_iff`); what a step needs (`step_of`) is what a run
needs of each line (`run_of`).
-/
import PageWalk.Proofs.Costs
import PageWalk.Proofs.Reduction.Run

namespace PageWalk

/-- An issue can be tallied if more than are tallied so far have a tally. -/
theorem IssueTally.Counts.register_of {seen issues : List Issue} {issue : Issue} {t t' : IssueTally}
    (h : t.Counts seen) (h' : t'.Counts issues) (hfront : seen ++ [issue] <+: issues) :
    ∃ tally, t.register issue = .ok tally := by
  cases issue with
  | unknownLabel position label =>
    have hle := hfront.sublist.countP_le (p := (·.isUnknownLabel))
    rw [List.countP_append, ← h.unknownLabels, ← h'.unknownLabels] at hle
    obtain ⟨sum, hplus, -⟩ := Counter.plus_of_lt (a := t.unknownLabels) (b := .one)
      (Nat.lt_of_le_of_lt hle t'.unknownLabels.val_lt)
    exact ⟨_, bind_eq_ok_iff.2 ⟨sum, hplus, rfl⟩⟩
  | malformedField field value =>
    have hle := hfront.sublist.countP_le (p := (·.isMalformedField))
    rw [List.countP_append, ← h.malformedFields, ← h'.malformedFields] at hle
    obtain ⟨sum, hplus, -⟩ := Counter.plus_of_lt (a := t.malformedFields) (b := .one)
      (Nat.lt_of_le_of_lt hle t'.malformedFields.val_lt)
    exact ⟨_, bind_eq_ok_iff.2 ⟨sum, hplus, rfl⟩⟩

/-- A tally is determined by the issues, in whatever order. -/
theorem IssueTally.Counts.unique {issues issues' : List Issue} {t t' : IssueTally}
    (hp : issues.Perm issues') (h : t.Counts issues) (h' : t'.Counts issues') : t = t' := by
  have hlabels : t.unknownLabels = t'.unknownLabels :=
    Counter.ext (h.unknownLabels.trans ((hp.countP_eq _).trans h'.unknownLabels.symm))
  have hfields : t.malformedFields = t'.malformedFields :=
    Counter.ext (h.malformedFields.trans ((hp.countP_eq _).trans h'.malformedFields.symm))
  cases t
  cases t'
  simp only at hlabels hfields
  rw [hlabels, hfields]

namespace Reduction

open Log (Reader Line)

variable {σ : Type} {mode : Mode}

/-! ### Issues -/

theorem acceptIssues_of (number : Nat) {issues seen all : List Issue} {s : State σ}
    {t : IssueTally} (htally : s.issues.Counts seen) (hstrict : mode.strict = true → issues = [])
    (hfits : t.Counts all) (hfront : seen ++ issues <+: all) :
    ∃ s', acceptIssues mode number issues s = (.ok (), s') := by
  induction issues generalizing seen s with
  | nil => exact ⟨s, rfl⟩
  | cons issue issues ih =>
    have hlenient : ¬ mode.strict = true := fun h => List.cons_ne_nil _ _ (hstrict h)
    rw [List.append_cons] at hfront
    obtain ⟨tally, hregister⟩ :=
      htally.register_of hfits ((List.prefix_append _ _).trans hfront)
    unfold acceptIssues
    rw [if_neg hlenient]
    simp only [State.tell, hregister]
    exact ih (htally.register hregister) (fun h => absurd h hlenient) hfront

theorem acceptIssues_strict {number : Nat} {issues : List Issue} {s s' : State σ}
    (hstrict : mode.strict = true) (hok : acceptIssues mode number issues s = (.ok (), s')) :
    issues = [] := by
  cases issues with
  | nil => rfl
  | cons issue issues =>
    unfold acceptIssues at hok
    rw [if_pos hstrict] at hok
    cases hok

/-! ### Steps and runs -/

variable [Reducer σ]

theorem step_of {reader : Reader} {line : Line} {s : State σ} {seen all : List Issue}
    {t : IssueTally} {parsed : ParsedRecord} {reducer : σ} (htally : s.issues.Counts seen)
    (hparse : Record.parse reader.format line.text = .ok parsed)
    (hstrict : mode.strict = true → parsed.issues = []) (hfits : t.Counts all)
    (hfront : seen ++ parsed.issues <+: all) (htake : take s.reducer parsed.record = .ok reducer) :
    ∃ s', step mode reader line s = (.ok (), s') := by
  obtain ⟨s₁, haccept⟩ := acceptIssues_of (line.number + 1) htally hstrict hfits hfront
  obtain ⟨-, hreducer, -⟩ := acceptIssues_ok htally haccept
  unfold step
  simp only [hparse, haccept, hreducer, take_ok htake]
  exact ⟨_, rfl⟩

theorem step_strict {reader : Reader} {line : Line} {s s' : State σ} {parsed : ParsedRecord}
    (hstrict : mode.strict = true) (hparse : Record.parse reader.format line.text = .ok parsed)
    (hok : step mode reader line s = (.ok (), s')) : parsed.issues = [] := by
  unfold step at hok
  simp only [hparse] at hok
  rcases haccept : acceptIssues mode (line.number + 1) parsed.issues s with ⟨e | u, s₁⟩
  · simp only [haccept] at hok; cases hok
  · exact acceptIssues_strict hstrict haccept

/-- **A run succeeds** if its lines are read, their issues can be passed over
and their records are taken. -/
theorem run_of {ls : List Line} {reader : Reader} {s : State σ} {seen all : List Issue}
    {t : IssueTally} {parsed : List ParsedRecord} {final : σ} (hup : reader.Upcoming ls)
    (htally : s.issues.Counts seen)
    (hparses : ls.mapM (fun line => Record.parse reader.format line.text) = .ok parsed)
    (hstrict : mode.strict = true → ∀ p ∈ parsed, p.issues = []) (hfits : t.Counts all)
    (hfront : seen ++ parsed.flatMap (·.issues) <+: all)
    (htakes : takeAll s.reducer (parsed.map (·.record)) = .ok final) :
    ∃ reader' s', run mode reader s = (.ok (), reader', s') := by
  induction ls generalizing reader s seen parsed with
  | nil => exact ⟨_, s, run_nil hup⟩
  | cons line ls ih =>
    obtain ⟨-, hup', hformat⟩ := hup.next
    rw [← hformat] at hparses
    obtain ⟨first, rest, hparse, hrest, rfl⟩ := mapM_cons_eq_ok_iff.1 hparses
    obtain ⟨reducer, htake, htakes⟩ := bind_eq_ok_iff.1 htakes
    rw [List.flatMap_cons, ← List.append_assoc] at hfront
    obtain ⟨s₁, hstep⟩ := step_of htally hparse (fun h => hstrict h _ List.mem_cons_self) hfits
      ((List.prefix_append _ _).trans hfront) htake
    -- the step has read the same record, and taken it to the same state
    obtain ⟨parsed', hparse', htally', htake', -⟩ := step_ok htally hstep
    obtain rfl := Except.ok.inj (hparse.symm.trans hparse')
    obtain rfl := Except.ok.inj (htake.symm.trans htake')
    obtain ⟨reader', s', hrun⟩ := ih hup' htally' hrest
      (fun h p hp => hstrict h p (List.mem_cons_of_mem _ hp)) hfront htakes
    refine ⟨reader', s', ?_⟩
    rw [run_cons hup]
    simp only [hstep]
    exact hrun

theorem run_strict {ls : List Line} {reader reader' : Reader} {s s' : State σ}
    {parsed : List ParsedRecord} (hstrict : mode.strict = true) (hup : reader.Upcoming ls)
    (hparses : ls.mapM (fun line => Record.parse reader.format line.text) = .ok parsed)
    (hok : run mode reader s = (.ok (), reader', s')) : ∀ p ∈ parsed, p.issues = [] := by
  induction ls generalizing reader s parsed with
  | nil =>
    obtain rfl := Except.ok.inj hparses
    nofun
  | cons line ls ih =>
    obtain ⟨-, hup', hformat⟩ := hup.next
    rw [← hformat] at hparses
    obtain ⟨first, rest, hparse, hrest, rfl⟩ := mapM_cons_eq_ok_iff.1 hparses
    rw [run_cons hup] at hok
    rcases hstep : step mode reader.next.2 line s with ⟨e | u, s₁⟩
    · simp only [hstep] at hok; cases hok
    · simp only [hstep] at hok
      rw [List.forall_mem_cons]
      exact ⟨step_strict hstrict hparse hstep, ih hup' hrest hok⟩

/-! ### Whole logs -/

/-- Records, with the issues of their lines, come to an output. -/
structure Reduced (mode : Mode) (start : σ) (parsed : List ParsedRecord) (out : Output) :
    Prop where
  strict : mode.strict = true → ∀ p ∈ parsed, p.issues = []
  records : out.records = parsed.length
  issues : out.issues.Counts (parsed.flatMap (·.issues))
  statistics : ∃ final, takeAll start (parsed.map (·.record)) = .ok final ∧
    out.statistics = Reducer.statistics final

/-- What a log is reduced to: it is opened, and its section is reduced. -/
def reduceBytes (mode : Mode) (format : RecordFormat) (start : σ) (log : Bytes) :
    Except Error Output := do
  let reader ← Reader.ofLog format log
  (reduce mode reader start).1

theorem reduceBytes_eq_error {log : Bytes} (h : Utf8.decode? log = none) (format : RecordFormat)
    (start : σ) :
    reduceBytes mode format start log
      = .error { cause := .file .notText, attempts := [.searchMarker] } := by
  unfold reduceBytes
  rw [Reader.ofLog_eq_error h]
  rfl

theorem Reduced.unique {start : σ} {parsed : List ParsedRecord} {out out' : Output}
    (h : Reduced mode start parsed out) (h' : Reduced mode start parsed out') : out = out' := by
  obtain ⟨final, htakes, hstatistics⟩ := h.statistics
  obtain ⟨final', htakes', hstatistics'⟩ := h'.statistics
  obtain rfl := Except.ok.inj (htakes.symm.trans htakes')
  have hrecords := h.records.trans h'.records.symm
  have hissues := IssueTally.Counts.unique (.refl _) h.issues h'.issues
  cases out
  cases out'
  simp only at hrecords hissues hstatistics hstatistics'
  rw [hrecords, hissues, hstatistics, hstatistics']

variable {format : RecordFormat} {start : σ} {log : Bytes} {text : List Char} {out : Output}

theorem reduced_of_reduceBytes (htext : Utf8.decode? log = some text)
    (hok : reduceBytes mode format start log = .ok out) :
    ∃ parsed, (Log.sectionLines format text).mapM (fun line => Record.parse format line.text)
        = .ok parsed ∧ Reduced mode start parsed out := by
  obtain ⟨reader, hopen, hreduce⟩ := bind_eq_ok_iff.1 hok
  obtain ⟨text', parsed, final, htext', hparses, hrecords, hissues, htakes, hstatistics⟩ :=
    reduce_ok hopen hreduce
  obtain rfl := Option.some.inj (htext.symm.trans htext')
  refine ⟨parsed, hparses, ?_, hrecords.trans (length_of_mapM_eq_ok hparses).symm, hissues, final,
    htakes, hstatistics⟩
  intro hstrict
  obtain ⟨reader', hopen', hformat, -, hup⟩ := Reader.ofLog_eq_ok htext format
  obtain rfl := Except.ok.inj (hopen.symm.trans hopen')
  unfold reduce at hreduce
  rcases hrun : run mode reader { reducer := start } with ⟨e | u, reader', s⟩
  · simp only [hrun] at hreduce; cases hreduce
  · exact run_strict hstrict hup (hformat ▸ hparses) hrun

/-- **When a log is reduced to an output.** -/
theorem reduceBytes_eq_ok_iff (htext : Utf8.decode? log = some text) :
    reduceBytes mode format start log = .ok out ↔
      ∃ parsed, (Log.sectionLines format text).mapM (fun line => Record.parse format line.text)
          = .ok parsed ∧ Reduced mode start parsed out := by
  constructor
  · exact reduced_of_reduceBytes htext
  · rintro ⟨parsed, hparses, hreduced⟩
    obtain ⟨reader, hopen, hformat, -, hup⟩ := Reader.ofLog_eq_ok htext format
    obtain ⟨final, htakes, -⟩ := hreduced.statistics
    obtain ⟨reader', s, hrun⟩ := run_of (s := { reducer := start }) hup .empty (hformat ▸ hparses)
      hreduced.strict hreduced.issues (List.prefix_rfl) htakes
    obtain ⟨out', hok⟩ : ∃ out', reduceBytes mode format start log = .ok out' := by
      unfold reduceBytes reduce
      rw [hopen]
      show ∃ out', Except.map _ (run mode reader { reducer := start }).1 = _
      rw [hrun]
      exact ⟨_, rfl⟩
    -- what it gives is what the lines come to
    obtain ⟨parsed', hparses', hreduced'⟩ := reduced_of_reduceBytes htext hok
    obtain rfl := Except.ok.inj (hparses.symm.trans hparses')
    rw [hok, hreduced'.unique hreduced]

end Reduction

end PageWalk
