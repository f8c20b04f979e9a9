/-
PageWalk/Proofs/Reduction/Strictness.lean

Strict and lenient reductions of the same log.

A strict reduction fails at the first issue, a lenient one tallies it.  On a
line without issues they do the same (`takeLine_congr`), and on any other the
strict one fails before the record is taken (`takeLine_strict_error`).  So a
strict reduction is a lenient one that may stop early: the lines that it takes
have no issues and are taken by both (`takeLines_strict_ok`).  `ModesAgree`
says what this means for whole logs.
-/
import PageWalk.Proofs.Record
import PageWalk.Proofs.Reduction.Handling
import PageWalk.Proofs.Reduction.Lines

namespace PageWalk

/-- A tally counts nothing only if there is nothing to count. -/
theorem IssueTally.Counts.eq_nil {issues : List Issue} (h : IssueTally.empty.Counts issues) :
    issues = [] := by
  cases issues with
  | nil => rfl
  | cons issue issues =>
    obtain ⟨hlabels, hfields⟩ := h
    cases issue with
    | unknownLabel => simp [IssueTally.empty, Issue.isUnknownLabel] at hlabels
    | malformedField => simp [IssueTally.empty, Issue.isMalformedField] at hfields

namespace Reduction

open Log (Line)

/-- Whatever can be read of a line has no issues. -/
def Clean (format : RecordFormat) (line : Line) : Prop :=
  ∀ parsed, Record.parse format line.text = .ok parsed → parsed.issues = []

variable {σ : Type} [Reducer σ] {mode strict lenient : Mode} {format : RecordFormat}
  {a a' : Account σ} {line : Line} {ls : List Line} {e : Error}

/-! ### One line -/

/-- On a clean line the mode makes no difference. -/
theorem takeLine_congr (h : Clean format line) (mode mode' : Mode) (a : Account σ) :
    takeLine mode format a line = takeLine mode' format a line := by
  unfold takeLine
  rcases hparse : Record.parse format line.text with c | parsed
  · rfl
  · dsimp only
    rw [h parsed hparse]
    rfl

/-- A strict reduction does not get past an issue. -/
theorem takeLine_strict_error (hstrict : strict.strict = true) {parsed : ParsedRecord}
    {issue : Issue} {rest : List Issue} (hparse : Record.parse format line.text = .ok parsed)
    (hissues : parsed.issues = issue :: rest) (a : Account σ) :
    takeLine strict format a line
      = .error { cause := .issue issue, attempts := [.acceptRecord (line.number + 1)] } := by
  unfold takeLine
  simp only [hparse, hissues, tallyIssues, if_pos hstrict]

/-- A line is clean, or it is read with a first issue. -/
theorem clean_or_issue (format : RecordFormat) (line : Line) :
    Clean format line ∨ ∃ parsed issue rest, Record.parse format line.text = .ok parsed ∧
      parsed.issues = issue :: rest := by
  rcases hparse : Record.parse format line.text with c | parsed
  · exact Or.inl fun parsed h => by rw [hparse] at h; cases h
  · rcases hissues : parsed.issues with - | ⟨issue, rest⟩
    · refine Or.inl fun parsed' h => ?_
      obtain rfl := Except.ok.inj (hparse.symm.trans h)
      exact hissues
    · exact Or.inr ⟨parsed, issue, rest, rfl, hissues⟩

/-- An error on a clean line is no issue, unless the reducer makes it one. -/
theorem Clean.cause_ne_issue (h : Clean format line) {issue : Issue}
    (hrefused : ∀ record s', Reducer.handle record a.reducer ≠ (.error (.issue issue), s'))
    (herr : takeLine mode format a line = .error e) : e.cause ≠ .issue issue := by
  unfold takeLine at herr
  rcases hparse : Record.parse format line.text with c | parsed
  · rw [hparse] at herr
    obtain rfl := Except.error.inj herr
    obtain ⟨way, probes, rfl⟩ := Record.parse_error hparse
    nofun
  · simp only [hparse, h parsed hparse, tallyIssues] at herr
    unfold take at herr
    rcases hhandle : Reducer.handle parsed.record a.reducer with ⟨c | u, s'⟩
    · rw [hhandle] at herr
      obtain rfl := Except.error.inj herr
      rintro rfl
      exact hrefused _ _ hhandle
    · rw [hhandle] at herr
      cases herr

/-! ### Many lines -/

/-- **Lines that a strict reduction takes** are clean, and taken by a lenient
one as well. -/
theorem takeLines_strict_ok (hstrict : strict.strict = true) (lenient : Mode)
    (hok : takeLines strict format a ls = .ok a') :
    takeLines lenient format a ls = .ok a' ∧ ∀ line ∈ ls,
      ∃ parsed, Record.parse format line.text = .ok parsed ∧ parsed.issues = [] := by
  induction ls generalizing a with
  | nil => exact ⟨hok, nofun⟩
  | cons line ls ih =>
    rw [takeLines_cons] at hok ⊢
    obtain ⟨a₁, htake, hok⟩ := bind_eq_ok_iff.1 hok
    obtain ⟨hrest, hall⟩ := ih hok
    rcases clean_or_issue format line with hclean | ⟨parsed, issue, rest, hparse, hissues⟩
    · obtain ⟨parsed, hparse, -⟩ := takeLine_ok htake
      rw [takeLine_congr hclean strict lenient] at htake
      refine ⟨bind_eq_ok_iff.2 ⟨a₁, htake, hrest⟩, ?_⟩
      rw [List.forall_mem_cons]
      exact ⟨⟨parsed, hparse, hclean parsed hparse⟩, hall⟩
    · rw [takeLine_strict_error hstrict hparse hissues] at htake
      cases htake

/-- The lines that are taken lead the reducer on. -/
theorem reached_of_takeLines {start : σ} {records : List Record}
    (h : Reached start records a.reducer) (hok : takeLines mode format a ls = .ok a') :
    ∃ records', Reached start records' a'.reducer := by
  induction ls generalizing a records with
  | nil =>
    obtain rfl := Except.ok.inj hok
    exact ⟨records, h⟩
  | cons line ls ih =>
    rw [takeLines_cons] at hok
    obtain ⟨a₁, htake, hok⟩ := bind_eq_ok_iff.1 hok
    obtain ⟨parsed, -, -, htaken, -⟩ := takeLine_ok htake
    exact ih (h.taken (take_ok htaken)) hok

/-! ### Whole logs -/

variable {start : σ} {log : Bytes}

/-- How a strict and a lenient reduction of one log agree. -/
structure ModesAgree (strict lenient : Mode) (format : RecordFormat) (start : σ) (log : Bytes) :
    Prop where
  /-- The strict one succeeds exactly if the lenient one does and has no
  issues, and then with the same output. -/
  ok_iff : ∀ out, reduceBytes strict format start log = .ok out ↔
    reduceBytes lenient format start log = .ok out ∧ out.issues = .empty
  /-- Where the strict one fails for anything but an issue, so does the lenient
  one: both before any line, or both on the same line. -/
  error : ∀ e, reduceBytes strict format start log = .error e → (∀ i, e.cause ≠ .issue i) →
    reduceBytes lenient format start log = .error e ∧
      (Utf8.decode? log = none ∨ ∃ text before line after, Utf8.decode? log = some text ∧
        Log.sectionLines format text = before ++ line :: after ∧
        FailsOn strict format start before line e ∧ FailsOn lenient format start before line e)
  /-- Where it fails for an issue, this is the first one of a line, both have
  taken the lines before, which have none, and the lenient one does not fail on
  any of them. -/
  issue : ∀ e i, reduceBytes strict format start log = .error e → e.cause = .issue i →
    ∃ text before line after parsed rest a, Utf8.decode? log = some text ∧
      Log.sectionLines format text = before ++ line :: after ∧
      (∀ earlier ∈ before, ∃ parsed, Record.parse format earlier.text = .ok parsed ∧
        parsed.issues = []) ∧
      takeLines strict format { reducer := start } before = .ok a ∧
      takeLines lenient format { reducer := start } before = .ok a ∧
      Record.parse format line.text = .ok parsed ∧ parsed.issues = i :: rest ∧
      (i :: rest).Pairwise Issue.Precedes ∧
      e = { cause := .issue i, attempts := [.acceptRecord (line.number + 1)] } ∧
      ∀ e', reduceBytes lenient format start log = .error e' →
        ∃ before' line' after', Log.sectionLines format text = before' ++ line' :: after' ∧
          before.length ≤ before'.length ∧ FailsOn lenient format start before' line' e'

theorem reduceBytes_strict_ok_iff (hstrict : strict.strict = true)
    (hlenient : lenient.strict = false) (out : Output) :
    reduceBytes strict format start log = .ok out ↔
      reduceBytes lenient format start log = .ok out ∧ out.issues = .empty := by
  rcases htext : Utf8.decode? log with - | text
  · rw [reduceBytes_eq_error htext, reduceBytes_eq_error htext]
    exact iff_of_false nofun nofun
  · rw [reduceBytes_eq_ok_iff htext, reduceBytes_eq_ok_iff htext]
    constructor
    · rintro ⟨parsed, hparses, hnone, hrecords, hissues, hstatistics⟩
      have hnil : parsed.flatMap (·.issues) = [] := List.flatMap_eq_nil_iff.2 (hnone hstrict)
      refine ⟨⟨parsed, hparses, ?_, hrecords, hissues, hstatistics⟩, ?_⟩
      · intro h
        rw [hlenient] at h
        cases h
      · rw [hnil] at hissues
        exact IssueTally.Counts.unique (.refl _) hissues .empty
    · rintro ⟨⟨parsed, hparses, -, hrecords, hissues, hstatistics⟩, hempty⟩
      refine ⟨parsed, hparses, fun _ => ?_, hrecords, hissues, hstatistics⟩
      rw [hempty] at hissues
      exact List.flatMap_eq_nil_iff.1 hissues.eq_nil

/-- Where a strict reduction fails on a line: both have taken the lines before,
and the line is clean or read with a first issue. -/
theorem reduceBytes_strict_error (hstrict : strict.strict = true) (lenient : Mode)
    {text : List Char} (htext : Utf8.decode? log = some text)
    (herr : reduceBytes strict format start log = .error e) :
    ∃ before line after a, Log.sectionLines format text = before ++ line :: after ∧
      (∀ earlier ∈ before, ∃ parsed, Record.parse format earlier.text = .ok parsed ∧
        parsed.issues = []) ∧
      takeLines strict format { reducer := start } before = .ok a ∧
      takeLines lenient format { reducer := start } before = .ok a ∧
      takeLine strict format a line = .error e := by
  obtain ⟨before, line, after, hlines, a, htakes, hfails⟩ := (reduceBytes_eq_error_iff htext).1 herr
  obtain ⟨htakes', hbefore⟩ := takeLines_strict_ok hstrict lenient htakes
  exact ⟨before, line, after, a, hlines, hbefore, htakes, htakes', hfails⟩

/-- **Modes agree** for every reducer that refuses no record with an issue of
its own. -/
theorem modesAgree (hstrict : strict.strict = true) (hlenient : lenient.strict = false)
    (hrefused : ∀ records s, Reached start records s → ∀ record issue s',
      Reducer.handle record s ≠ (.error (.issue issue), s')) :
    ModesAgree strict lenient format start log where
  ok_iff := reduceBytes_strict_ok_iff hstrict hlenient
  error := by
    intro e herr hcause
    rcases htext : Utf8.decode? log with - | text
    · rw [reduceBytes_eq_error htext] at herr ⊢
      exact ⟨herr, Or.inl rfl⟩
    · obtain ⟨before, line, after, a, hlines, -, htakes, htakes', hfails⟩ :=
        reduceBytes_strict_error hstrict lenient htext herr
      have hfails' : takeLine lenient format a line = .error e := by
        rcases clean_or_issue format line with hclean | ⟨parsed, issue, rest, hparse, hissues⟩
        · rw [takeLine_congr hclean lenient strict, hfails]
        · rw [takeLine_strict_error hstrict hparse hissues] at hfails
          obtain rfl := Except.error.inj hfails
          exact absurd rfl (hcause issue)
      refine ⟨(reduceBytes_eq_error_iff htext).2 ⟨before, line, after, hlines, a, htakes', hfails'⟩,
        Or.inr ⟨text, before, line, after, rfl, hlines, ⟨a, htakes, hfails⟩, a, htakes', hfails'⟩⟩
  issue := by
    intro e i herr hcause
    rcases htext : Utf8.decode? log with - | text
    · rw [reduceBytes_eq_error htext] at herr
      obtain rfl := Except.error.inj herr
      cases hcause
    · obtain ⟨before, line, after, a, hlines, hbefore, htakes, htakes', hfails⟩ :=
        reduceBytes_strict_error hstrict lenient htext herr
      rcases clean_or_issue format line with hclean | ⟨parsed, issue, rest, hparse, hissues⟩
      · -- the reducer would have made the issue
        obtain ⟨records, hreached⟩ := reached_of_takeLines .start htakes
        exact absurd hcause (hclean.cause_ne_issue (fun record => hrefused _ _ hreached record i)
          hfails)
      · rw [takeLine_strict_error hstrict hparse hissues] at hfails
        obtain rfl := Except.error.inj hfails
        obtain rfl := Cause.issue.inj hcause
        refine ⟨text, before, line, after, parsed, rest, a, rfl, hlines, hbefore, htakes, htakes',
          hparse, hissues, hissues ▸ Record.parse_issues_pairwise hparse, rfl, ?_⟩
        intro e' herr'
        obtain ⟨before', line', after', hlines', hfails'⟩ :=
          (reduceBytes_eq_error_iff htext).1 herr'
        exact ⟨before', line', after', hlines',
          hfails'.length_le (hlines'.symm.trans hlines) htakes', hfails'⟩

/-! ### The reducers -/

section

variable {records : List Record}

theorem radix_refuses_without_issue {costs : Costs} {r r' : RadixReducer}
    (h : Reached (RadixReducer.new costs) records r) (record : Record) (issue : Issue) :
    RadixReducer.handle record r ≠ (.error (.issue issue), r') := by
  intro herr
  have hhandled := (reached_radix h).1.handled record
  rw [herr] at hhandled
  cases hhandled

theorem ecpt_refuses_without_issue {costs : Costs} {o : Overheads} {r r' : EcptReducer}
    (h : Reached (EcptReducer.new costs o) records r) (record : Record) (issue : Issue) :
    EcptReducer.handle record r ≠ (.error (.issue issue), r') := by
  intro herr
  have hhandled := (reached_ecpt h).1.handled record
  rw [herr] at hhandled
  cases hhandled

end

/-- **Strict and lenient reductions agree** wherever both apply.  A strict one
gives an output exactly if a lenient one gives the same without any issue.  If
it fails for another reason than an issue, the lenient one fails with the same
error on the same line.  If it fails for an issue, this is the first of the
first line that has any; the lines before it were taken, and the lenient one
fails on none of them. -/
theorem strict_and_lenient_agree (verbose verbose' : Bool) (format : RecordFormat) (costs : Costs)
    (o : Overheads) (log : Bytes) :
    ModesAgree ⟨true, verbose⟩ ⟨false, verbose'⟩ format (RadixReducer.new costs) log ∧
    ModesAgree ⟨true, verbose⟩ ⟨false, verbose'⟩ format (EcptReducer.new costs o) log := by
  constructor
  · exact modesAgree rfl rfl fun _ _ h record issue _ => radix_refuses_without_issue h record issue
  · exact modesAgree rfl rfl fun _ _ h record issue _ => ecpt_refuses_without_issue h record issue

/-- On the second line of the first section there are two issues, at the first
of which a strict reduction fails.  On its third there is an issue as well, and
a walk that is too deep, at which a lenient one fails.  The second section has
no issues. -/
theorem strict_and_lenient_agree_of_two_sections :
    let costs : Costs := ⟨.ofNat 0, .ofNat 4, .ofNat 14, .ofNat 54, .ofNat 1, .ofNat 200⟩
    let o : Overheads := ⟨.ofNat 2, .ofNat 1, .ofNat 3⟩
    let log := Utf8.encode "~~~~~~~~~~~~~~~\nL1,LLC,3\nL1,L9,x\nL1,L1,L1,L1,L8,2\nL1,5\n".toList
    let log' := Utf8.encode "~~~~~~ full stats with way ~~~~~~\nL1,LLC,1\t3\n\n".toList
    (∃ text before line after before' line' after',
      reduceBytes ⟨true, false⟩ .simple (RadixReducer.new costs) log
        = .error { cause := .issue (.unknownLabel 1 "L9"), attempts := [.acceptRecord 3] } ∧
      Log.sectionLines .simple text = before ++ line :: after ∧ line.number = 2 ∧
      Log.sectionLines .simple text = before' ++ line' :: after' ∧
      before.length ≤ before'.length ∧
      FailsOn ⟨false, false⟩ .simple (RadixReducer.new costs) before' line'
        { cause := .probeOverflow 5 4, attempts := [.reduceRecord 4] }) ∧
    ∃ out, reduceBytes ⟨true, false⟩ .withWay (EcptReducer.new costs o) log' = .ok out ∧
      reduceBytes ⟨false, true⟩ .withWay (EcptReducer.new costs o) log' = .ok out ∧
      out.issues = .empty ∧ out.records = 1 := by
  intro costs o log log'
  constructor
  · have hstrict : reduceBytes ⟨true, false⟩ .simple (RadixReducer.new costs) log
        = .error { cause := .issue (.unknownLabel 1 "L9"), attempts := [.acceptRecord 3] } :=
      (map_eq_error_iff (f := (·.records))).1 (by decide +kernel)
    have hlenient : reduceBytes ⟨false, false⟩ .simple (RadixReducer.new costs) log
        = .error { cause := .probeOverflow 5 4, attempts := [.reduceRecord 4] } :=
      (map_eq_error_iff (f := (·.records))).1 (by decide +kernel)
    obtain ⟨text, before, line, after, -, -, -, -, hlines, -, -, -, -, -, -, herror, hfails⟩ :=
      (strict_and_lenient_agree false false .simple costs o log).1.issue _ _ hstrict rfl
    obtain ⟨before', line', after', hlines', hle, hfailsOn⟩ := hfails _ hlenient
    have hnumber : line.number + 1 = 3 := by
      simpa using (congrArg Error.attempts herror).symm
    exact ⟨text, before, line, after, before', line', after', hstrict, hlines,
      Nat.succ.inj hnumber, hlines', hle, hfailsOn⟩
  · have hrun : (reduceBytes ⟨true, false⟩ .withWay (EcptReducer.new costs o) log').map
        (·.records) = .ok 1 := by
      decide +kernel
    obtain ⟨out, hout, hrecords⟩ := map_eq_ok_iff.1 hrun
    obtain ⟨hlenient, hempty⟩ :=
      ((strict_and_lenient_agree false true .withWay costs o log').2.ok_iff out).1 hout
    exact ⟨out, hout, hlenient, hempty, hrecords⟩

end Reduction

end PageWalk
