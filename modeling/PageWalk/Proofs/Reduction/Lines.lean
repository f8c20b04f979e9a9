/-
PageWalk/Proofs/Reduction/Lines.lean

Reductions as folds over the lines of a section.

A run threads a state through a reader, and some of this state is for events
only.  `Account` is the rest of it.  What one line does to an account
(`takeLine`) is what a step does to the state (`told_step`), so what a run
comes to is a fold over the lines before its reader (`told_run`), and the
account to which reducing a log comes is the fold over its section
(`settle_eq_takeLines`).  A fold that fails does so on one line
(`takeLines_eq_error_iff`).
-/
import PageWalk.Proofs.Reduction.Success

namespace PageWalk.Reduction

open Log (Reader Line)

variable {σ : Type}

/-! ### Accounts -/

/-- How far a reduction has come, what it tells aside. -/
structure Account (σ : Type) where
  reducer : σ
  records : Nat := 0
  issues : IssueTally := .empty

/-- The account of a state. -/
def State.account (s : State σ) : Account σ := ⟨s.reducer, s.records, s.issues⟩

/-- What an answer leaves for the lines that follow, if there are to be any. -/
def told (answer : Except Error Unit × State σ) : Except Error (Account σ) :=
  answer.1.map fun () => answer.2.account

@[simp] theorem told_ok (s : State σ) : told (.ok (), s) = .ok s.account := rfl

@[simp] theorem told_error (e : Error) (s : State σ) : told (.error e, s) = .error e := rfl

/-- Tally issues, or fail at the first. -/
def tallyIssues (mode : Mode) (number : Nat) : List Issue → IssueTally → Except Error IssueTally
  | [], t => .ok t
  | issue :: issues, t =>
    if mode.strict then .error { cause := .issue issue, attempts := [.acceptRecord number] }
    else match t.register issue with
      | .error c => .error { cause := c }
      | .ok t => tallyIssues mode number issues t

theorem told_acceptIssues (mode : Mode) (number : Nat) (issues : List Issue) (s : State σ) :
    told (acceptIssues mode number issues s)
      = (tallyIssues mode number issues s.issues).map fun t => { s.account with issues := t } := by
  induction issues generalizing s with
  | nil => rfl
  | cons issue issues ih =>
    unfold acceptIssues tallyIssues
    split
    · rfl
    · simp only [State.tell]
      rcases s.issues.register issue with c | tally
      · rfl
      · exact ih _

variable [Reducer σ]

/-- Read a line as a record, tally its issues and take it. -/
def takeLine (mode : Mode) (format : RecordFormat) (a : Account σ) (line : Line) :
    Except Error (Account σ) :=
  let number := line.number + 1
  match Record.parse format line.text with
  | .error c => .error { cause := c, attempts := [.parseRecord number] }
  | .ok parsed =>
    match tallyIssues mode number parsed.issues a.issues with
    | .error e => .error e
    | .ok issues =>
      match take a.reducer parsed.record with
      | .error c => .error { cause := c, attempts := [.reduceRecord number] }
      | .ok reducer => .ok ⟨reducer, a.records + 1, issues⟩

/-- Take lines one after the other. -/
def takeLines (mode : Mode) (format : RecordFormat) (a : Account σ) (ls : List Line) :
    Except Error (Account σ) :=
  ls.foldlM (takeLine mode format) a

/-- What an account comes to. -/
def Account.output (a : Account σ) : Output :=
  ⟨a.records, a.issues, Reducer.statistics a.reducer⟩

/-! ### Runs as folds -/

variable {mode : Mode} {format : RecordFormat} {a a' : Account σ} {line : Line} {ls : List Line}
  {e : Error}

/-- **A step** does to an account what its line does. -/
theorem told_step (mode : Mode) (reader : Reader) (line : Line) (s : State σ) :
    told (step mode reader line s) = takeLine mode reader.format s.account line := by
  unfold step takeLine
  rcases Record.parse reader.format line.text with c | parsed
  · rfl
  · have haccept := told_acceptIssues mode (line.number + 1) parsed.issues s
    dsimp only [State.account] at haccept ⊢
    generalize acceptIssues mode (line.number + 1) parsed.issues s = answer at haccept ⊢
    generalize tallyIssues mode (line.number + 1) parsed.issues s.issues = tally at haccept ⊢
    rcases answer with ⟨e | u, s₁⟩ <;> rcases tally with e' | t
    · obtain rfl := Except.error.inj haccept
      rfl
    · cases haccept
    · cases haccept
    · obtain ⟨hreducer, hrecords, hissues⟩ := Account.mk.inj (Except.ok.inj haccept)
      dsimp only at hreducer hrecords hissues
      simp only [hreducer, take]
      rcases Reducer.handle parsed.record s.reducer with ⟨c | u', reducer⟩
      · rfl
      · -- what is told of the progress changes no account
        dsimp only
        cases mode.verbose <;> simp [State.tell, State.account, hrecords, hissues]

/-- A line that is taken is read, its issues are tallied and its record is
taken. -/
theorem takeLine_ok (h : takeLine mode format a line = .ok a') :
    ∃ parsed, Record.parse format line.text = .ok parsed ∧
      tallyIssues mode (line.number + 1) parsed.issues a.issues = .ok a'.issues ∧
      take a.reducer parsed.record = .ok a'.reducer ∧ a'.records = a.records + 1 := by
  unfold takeLine at h
  rcases hparse : Record.parse format line.text with c | parsed
  · simp only [hparse] at h
    cases h
  · simp only [hparse] at h
    rcases htally : tallyIssues mode (line.number + 1) parsed.issues a.issues with e | issues
    · simp only [htally] at h
      cases h
    · simp only [htally] at h
      rcases htake : take a.reducer parsed.record with c | reducer
      · simp only [htake] at h
        cases h
      · simp only [htake] at h
        obtain rfl := Except.ok.inj h
        exact ⟨parsed, rfl, htally, htake, rfl⟩

theorem takeLines_cons (mode : Mode) (format : RecordFormat) (a : Account σ) (line : Line)
    (ls : List Line) :
    takeLines mode format a (line :: ls)
      = takeLine mode format a line >>= fun a' => takeLines mode format a' ls := by
  unfold takeLines
  rw [List.foldlM_cons]

theorem takeLines_append (mode : Mode) (format : RecordFormat) (a : Account σ)
    (ls ls' : List Line) :
    takeLines mode format a (ls ++ ls')
      = takeLines mode format a ls >>= fun a' => takeLines mode format a' ls' := by
  unfold takeLines
  rw [List.foldlM_append]

/-- **A run** takes the lines before its reader. -/
theorem told_run {reader : Reader} (hup : reader.Upcoming ls) (mode : Mode) (s : State σ) :
    told ((run mode reader s).1, (run mode reader s).2.2)
      = takeLines mode reader.format s.account ls := by
  induction ls generalizing reader s with
  | nil =>
    rw [run_nil hup]
    rfl
  | cons line ls ih =>
    obtain ⟨-, hup', hformat⟩ := hup.next
    have hstep := told_step mode reader.next.2 line s
    rw [hformat] at hstep
    rw [run_cons hup, takeLines_cons, ← hstep]
    rcases step mode reader.next.2 line s with ⟨e | u, s₁⟩
    · rfl
    · rw [told_ok, ← hformat]
      exact ih hup' s₁

/-- The account to which reducing a log comes. -/
def settle (mode : Mode) (format : RecordFormat) (start : σ) (log : Bytes) :
    Except Error (Account σ) := do
  let reader ← Reader.ofLog format log
  let (answer, _, s) := run mode reader { reducer := start }
  told (answer, s)

/-- What a log is reduced to is told by the account. -/
theorem reduceBytes_eq_settle (mode : Mode) (format : RecordFormat) (start : σ) (log : Bytes) :
    reduceBytes mode format start log = (settle mode format start log).map Account.output := by
  unfold reduceBytes settle reduce
  rcases Reader.ofLog format log with e | reader
  · rfl
  · show Except.map _ (run mode reader { reducer := start }).1 = Except.map _ (told _)
    rcases run mode reader { reducer := start } with ⟨e | u, reader', s⟩ <;> rfl

theorem settle_eq_takeLines {log : Bytes} {text : List Char} (htext : Utf8.decode? log = some text)
    (mode : Mode) (format : RecordFormat) (start : σ) :
    settle mode format start log
      = takeLines mode format { reducer := start } (Log.sectionLines format text) := by
  obtain ⟨reader, hopen, hformat, -, hup⟩ := Reader.ofLog_eq_ok htext format
  have hrun := told_run hup mode { reducer := start }
  rw [hformat] at hrun
  unfold settle
  rw [hopen]
  exact hrun

/-- **Reducing a log** takes the lines of its section. -/
theorem reduceBytes_eq_takeLines {log : Bytes} {text : List Char}
    (htext : Utf8.decode? log = some text) (mode : Mode) (format : RecordFormat) (start : σ) :
    reduceBytes mode format start log
      = (takeLines mode format { reducer := start } (Log.sectionLines format text)).map
          Account.output := by
  rw [reduceBytes_eq_settle, settle_eq_takeLines htext]

/-! ### Where a fold fails -/

/-- A reduction that starts with `start` takes the lines `before`, and fails
on the next. -/
def FailsOn (mode : Mode) (format : RecordFormat) (start : σ) (before : List Line) (line : Line)
    (e : Error) : Prop :=
  ∃ a, takeLines mode format { reducer := start } before = .ok a ∧
    takeLine mode format a line = .error e

/-- **A fold that fails** does so on one line, and has taken those before. -/
theorem takeLines_eq_error_iff :
    takeLines mode format a ls = .error e ↔
      ∃ before line after a', ls = before ++ line :: after ∧
        takeLines mode format a before = .ok a' ∧ takeLine mode format a' line = .error e := by
  constructor
  · intro herr
    induction ls generalizing a with
    | nil => cases herr
    | cons line ls ih =>
      rw [takeLines_cons] at herr
      rcases htake : takeLine mode format a line with e' | a₁
      · rw [htake] at herr
        obtain rfl := Except.error.inj herr
        exact ⟨[], line, ls, a, rfl, rfl, htake⟩
      · rw [htake] at herr
        obtain ⟨before, line', after, a', rfl, htakes, hfails⟩ := ih herr
        refine ⟨line :: before, line', after, a', rfl, ?_, hfails⟩
        rw [takeLines_cons, htake]
        exact htakes
  · rintro ⟨before, line, after, a', rfl, htakes, hfails⟩
    rw [takeLines_append, htakes]
    show takeLines mode format a' (line :: after) = _
    rw [takeLines_cons, hfails]
    rfl

/-- No reduction fails on a line that it takes. -/
theorem FailsOn.length_le {start : σ} {before before' after after' : List Line}
    (hfails : FailsOn mode format start before' line e)
    (hlines : before' ++ line :: after' = before ++ after)
    (htakes : takeLines mode format { reducer := start } before = .ok a) :
    before.length ≤ before'.length := by
  by_contra hlt
  rw [Nat.not_le] at hlt
  -- the line at which it fails would be one of those it takes
  have hfront : before' ++ [line] <+: before ++ after := by
    rw [← hlines, List.append_cons before' line after']
    exact List.prefix_append _ _
  obtain ⟨middle, hbefore⟩ : before' ++ [line] <+: before := by
    refine List.prefix_of_prefix_length_le hfront (List.prefix_append _ _) ?_
    rw [List.length_append, List.length_singleton]
    omega
  obtain ⟨a', htakes', hfails⟩ := hfails
  rw [List.append_assoc, List.singleton_append] at hbefore
  rw [takeLines_eq_error_iff.2 ⟨before', line, middle, a', hbefore.symm, htakes', hfails⟩] at htakes
  cases htakes

theorem reduceBytes_eq_error_iff {log : Bytes} {text : List Char} {start : σ}
    (htext : Utf8.decode? log = some text) :
    reduceBytes mode format start log = .error e ↔
      ∃ before line after, Log.sectionLines format text = before ++ line :: after ∧
        FailsOn mode format start before line e := by
  rw [reduceBytes_eq_takeLines htext, map_eq_error_iff, takeLines_eq_error_iff]
  constructor
  · rintro ⟨before, line, after, a, hlines, hfails⟩
    exact ⟨before, line, after, hlines, a, hfails⟩
  · rintro ⟨before, line, after, hlines, a, hfails⟩
    exact ⟨before, line, after, a, hlines, hfails⟩

end PageWalk.Reduction
