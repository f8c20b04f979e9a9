/-
PageWalk/Proofs/Reduction/Failure.lean

For what reasons a lenient reduction fails.

A line is bad if it is misshapen for its design, or if its requests and those
of the lines before it are more than a counter holds (`Bad`).  `Answers` says
how a reducer answers to a line, given how many requests it holds.  Where it
answers so to all lines, a reduction takes the lines before the first bad one
(`takeLines_of_answers`) and fails on that one (`failsOnlyFor`).

Nothing else can make it fail (`lenient_failures`): all issues can be tallied,
and the checks that reducers and breakdowns make of what is handed to them are
never met.
-/
import PageWalk.Proofs.Reduction.Strictness
import PageWalk.Proofs.Reduction.Tally

namespace PageWalk

/-! ### The calls that break down a walk -/

namespace RadixReducer

/-- Every call that breaks down a probe of a record succeeds. -/
def Registers (record : Record) (r : RadixReducer) : Prop :=
  ∀ cost latency front level back r', record.probes.length ≤ maxProbes →
    walkCost r.costs record.probes = .ok cost →
    r.latency.register cost record.frequency = .ok latency →
    record.probes = front ++ some level :: back →
    registerProbes record.frequency 0 front { r with latency } = (.ok (), r') →
    ∃ b, r'.breakdown.register front.length level record.frequency = .ok b

theorem registerProbes_append {n : Count} {position : Nat} {front back : List (Option Level)}
    {r r' : RadixReducer} (h : registerProbes n position front r = (.ok (), r')) :
    registerProbes n position (front ++ back) r
      = registerProbes n (position + front.length) back r' := by
  induction front generalizing position r with
  | nil =>
    obtain rfl : r = r' := congrArg Prod.snd h
    rfl
  | cons probe front ih =>
    rw [List.length_cons, Nat.add_comm front.length, ← Nat.add_assoc]
    cases probe with
    | none => exact ih h
    | some level =>
      unfold registerProbes at h
      rw [List.cons_append, registerProbes]
      rcases hregister : r.breakdown.register position level n with c | b
      · simp only [hregister] at h
        cases h
      · simp only [hregister] at h ⊢
        exact ih h

/-- No position is beyond a walk that is not too deep. -/
theorem Bounded.registers {r : RadixReducer} (h : r.Bounded) (record : Record) :
    r.Registers record := by
  intro cost latency front level back r' hle _ hlatency hprobes hfront
  have hlt : r.latency.requests.val + record.frequency.val < 2 ^ 64 :=
    (LatencyStats.register_ok hlatency).1 ▸ latency.requests.val_lt
  obtain ⟨r'', hall, -, -⟩ := registerProbes_of_lt 0 record.probes (n := record.frequency)
    (r := { r with latency }) h.tidy (by omega)
    fun p _ => Nat.lt_of_le_of_lt (Nat.add_le_add_right (h.requestsAt_le p) _) hlt
  -- what follows the probes at the front starts with the call for this one
  rw [hprobes, registerProbes_append hfront, Nat.zero_add, registerProbes] at hall
  rcases hregister : r'.breakdown.register front.length level record.frequency with c | b
  · simp only [hregister] at hall
    cases hall
  · exact ⟨b, rfl⟩

end RadixReducer

namespace Reduction

open Log (Line Reader)

/-! ### Bad lines -/

/-- The requests that lines tell of. -/
def requestsIn (format : RecordFormat) (lines : List Line) : Nat :=
  (lines.map fun line => (Record.frequencyOf format line.text).val).sum

/-- A line is bad after some requests: it is misshapen, or a counter cannot
hold its requests as well. -/
def Bad (format : RecordFormat) (misshapen : Line → Option Error) (requests : Nat) (line : Line) :
    Prop :=
  (misshapen line).isSome = true ∨
    2 ^ 64 ≤ requests + (Record.frequencyOf format line.text).val

instance (format : RecordFormat) (misshapen : Line → Option Error) (requests : Nat) (line : Line) :
    Decidable (Bad format misshapen requests line) :=
  inferInstanceAs (Decidable (_ ∨ _))

/-- The error of a bad line.  It is for the shape of the line, if that is to
blame. -/
inductive Blames (format : RecordFormat) (misshapen : Line → Option Error) (requests : Nat)
    (line : Line) : Error → Prop
  | shape {e : Error} : misshapen line = some e → Blames format misshapen requests line e
  | requests {total : Count} : misshapen line = none → total.val = requests →
      2 ^ 64 ≤ requests + (Record.frequencyOf format line.text).val →
      Blames format misshapen requests line
        { cause := .requestOverflow total (Record.frequencyOf format line.text),
          attempts := [.reduceRecord (line.number + 1)] }

/-- None of the lines is bad after those before it. -/
def NoneBad (format : RecordFormat) (misshapen : Line → Option Error) (lines : List Line) : Prop :=
  ∀ before line after, lines = before ++ line :: after →
    ¬ Bad format misshapen (requestsIn format before) line

section

variable {format : RecordFormat} {misshapen : Line → Option Error} {lines : List Line}

theorem requestsIn_append_singleton (format : RecordFormat) (lines : List Line) (line : Line) :
    requestsIn format (lines ++ [line])
      = requestsIn format lines + (Record.frequencyOf format line.text).val := by
  unfold requestsIn
  rw [List.map_append, List.sum_append, List.map_singleton, List.sum_singleton]

theorem noneBad_nil : NoneBad format misshapen [] := by
  intro before line after heq
  cases before <;> cases heq

theorem noneBad_append_singleton_iff {line : Line} :
    NoneBad format misshapen (lines ++ [line]) ↔
      NoneBad format misshapen lines ∧ ¬ Bad format misshapen (requestsIn format lines) line := by
  constructor
  · intro h
    refine ⟨?_, h lines line [] rfl⟩
    rintro before line' after rfl
    exact h before line' (after ++ [line]) (List.append_assoc ..)
  · rintro ⟨hlines, hline⟩ before line' after heq
    obtain ⟨rfl, rfl, -⟩ | ⟨rest, -, rfl⟩ := append_singleton_eq_append_cons_iff.1 heq
    · exact hline
    · exact hlines before line' rest rfl

theorem noneBad_singleton_iff {line : Line} :
    NoneBad format misshapen [line] ↔ ¬ Bad format misshapen 0 line := by
  have h := @noneBad_append_singleton_iff format misshapen [] line
  rwa [List.nil_append, and_iff_right noneBad_nil] at h

/-- If any line is bad, one is the first. -/
theorem noneBad_or_first (format : RecordFormat) (misshapen : Line → Option Error)
    (lines : List Line) :
    NoneBad format misshapen lines ∨ ∃ before line after, lines = before ++ line :: after ∧
      NoneBad format misshapen before ∧ Bad format misshapen (requestsIn format before) line := by
  induction lines using List.reverseRecOn with
  | nil => exact Or.inl noneBad_nil
  | append_singleton lines line ih =>
    rcases ih with hnone | ⟨before, first, after, rfl, hnone, hbad⟩
    · by_cases hbad : Bad format misshapen (requestsIn format lines) line
      · exact Or.inr ⟨lines, line, [], rfl, hnone, hbad⟩
      · exact Or.inl (noneBad_append_singleton_iff.2 ⟨hnone, hbad⟩)
    · exact Or.inr ⟨before, first, after ++ [line], List.append_assoc .., hnone, hbad⟩

end

/-! ### Answers to lines -/

section

variable {σ : Type} [Reducer σ] {format : RecordFormat} {misshapen : Line → Option Error}
  {start : σ}

/-- How a reducer that was new at `start` answers to a line: it cannot be read
or taken if it is misshapen, and otherwise its requests are refused exactly if
they are too many. -/
structure Answers (format : RecordFormat) (misshapen : Line → Option Error) (start : σ)
    (line : Line) : Prop where
  shape : ∀ e, misshapen line = some e →
    (∃ c, Record.parse format line.text = .error c ∧
      e = { cause := c, attempts := [.parseRecord (line.number + 1)] }) ∨
    ∃ parsed c, Record.parse format line.text = .ok parsed ∧
      e = { cause := c, attempts := [.reduceRecord (line.number + 1)] } ∧
      ∀ records s, Reached start records s → take s parsed.record = .error c
  requests : misshapen line = none → ∃ parsed, Record.parse format line.text = .ok parsed ∧
    ∀ records s, Reached start records s →
      (2 ^ 64 ≤ Record.requests records + parsed.record.frequency.val →
        ∃ total : Count, total.val = Record.requests records ∧
          take s parsed.record = .error (.requestOverflow total parsed.record.frequency)) ∧
      (Record.requests records + parsed.record.frequency.val < 2 ^ 64 →
        ∃ s', take s parsed.record = .ok s')

variable {line : Line} {a : Account σ} {records : List Record} {seen all : List Issue}
  {t : IssueTally}

/-- A line that is read is taken if its record is. -/
theorem takeLine_of_parse (verbose : Bool) {parsed : ParsedRecord}
    (hparse : Record.parse format line.text = .ok parsed) (hseen : a.issues.Counts seen)
    (hfits : t.Counts all) (hfront : seen ++ lineIssues format line <+: all) :
    ∃ tally, tally.Counts (seen ++ lineIssues format line) ∧
      takeLine ⟨false, verbose⟩ format a line = match take a.reducer parsed.record with
        | .error c => .error { cause := c, attempts := [.reduceRecord (line.number + 1)] }
        | .ok reducer => .ok ⟨reducer, a.records + 1, tally⟩ := by
  rw [lineIssues_eq hparse] at hfront ⊢
  obtain ⟨tally, htally, hcounts⟩ :=
    tallyIssues_of verbose (line.number + 1) hseen hfits hfront
  refine ⟨tally, hcounts, ?_⟩
  unfold takeLine
  rcases htake : take a.reducer parsed.record with c | reducer
  · simp only [hparse, htally, htake]
  · simp only [hparse, htally, htake]

/-- **A bad line** makes a reduction fail, and its error says why. -/
theorem takeLine_of_bad (verbose : Bool) (h : Answers format misshapen start line)
    (hreached : Reached start records a.reducer) (hseen : a.issues.Counts seen)
    (hfits : t.Counts all) (hfront : seen ++ lineIssues format line <+: all)
    (hbad : Bad format misshapen (Record.requests records) line) :
    ∃ e, takeLine ⟨false, verbose⟩ format a line = .error e ∧
      Blames format misshapen (Record.requests records) line e := by
  rcases hshape : misshapen line with - | e
  · obtain ⟨parsed, hparse, hanswers⟩ := h.requests hshape
    have hmany : 2 ^ 64 ≤ Record.requests records
        + (Record.frequencyOf format line.text).val := by
      rcases hbad with hsome | hmany
      · rw [hshape] at hsome
        cases hsome
      · exact hmany
    have hfrequency := (Record.parse_tells hparse).2.1
    rw [hfrequency] at hanswers
    obtain ⟨total, htotal, hrefused⟩ := (hanswers records a.reducer hreached).1 hmany
    obtain ⟨tally, -, htake⟩ := takeLine_of_parse verbose hparse hseen hfits hfront
    rw [hrefused] at htake
    exact ⟨_, htake, .requests hshape htotal hmany⟩
  · refine ⟨e, ?_, .shape hshape⟩
    rcases h.shape e hshape with ⟨c, hparse, rfl⟩ | ⟨parsed, c, hparse, rfl, hanswers⟩
    · unfold takeLine
      rw [hparse]
    · obtain ⟨tally, -, htake⟩ := takeLine_of_parse verbose hparse hseen hfits hfront
      rwa [hanswers records a.reducer hreached] at htake

/-- Any other line is taken. -/
theorem takeLine_of_not_bad (verbose : Bool) (h : Answers format misshapen start line)
    (hreached : Reached start records a.reducer) (hseen : a.issues.Counts seen)
    (hfits : t.Counts all) (hfront : seen ++ lineIssues format line <+: all)
    (hgood : ¬ Bad format misshapen (Record.requests records) line) :
    ∃ a' records', takeLine ⟨false, verbose⟩ format a line = .ok a' ∧
      Reached start records' a'.reducer ∧
      Record.requests records'
        = Record.requests records + (Record.frequencyOf format line.text).val ∧
      a'.issues.Counts (seen ++ lineIssues format line) := by
  obtain ⟨hshape, hroom⟩ := not_or.1 hgood
  rw [Bool.not_eq_true, Option.isSome_eq_false_iff, Option.isNone_iff_eq_none] at hshape
  obtain ⟨parsed, hparse, hanswers⟩ := h.requests hshape
  have hfrequency := (Record.parse_tells hparse).2.1
  rw [← hfrequency] at hroom ⊢
  obtain ⟨s', htaken⟩ := (hanswers records a.reducer hreached).2 (Nat.lt_of_not_le hroom)
  obtain ⟨tally, hcounts, htake⟩ := takeLine_of_parse verbose hparse hseen hfits hfront
  rw [htaken] at htake
  exact ⟨_, records ++ [parsed.record], htake, hreached.taken (take_ok htaken),
    Record.requests_append, hcounts⟩

/-- **Lines of which none is bad** are taken. -/
theorem takeLines_of_answers (verbose : Bool) {lines : List Line}
    (hanswers : ∀ line ∈ lines, Answers format misshapen start line) (hfits : t.Counts all)
    (hfront : lines.flatMap (lineIssues format) <+: all)
    (hnone : NoneBad format misshapen lines) :
    ∃ a records, takeLines ⟨false, verbose⟩ format { reducer := start } lines = .ok a ∧
      Reached start records a.reducer ∧ Record.requests records = requestsIn format lines ∧
      a.issues.Counts (lines.flatMap (lineIssues format)) := by
  induction lines using List.reverseRecOn with
  | nil => exact ⟨_, [], rfl, .start, rfl, .empty⟩
  | append_singleton lines line ih =>
    obtain ⟨hlines, hline⟩ := noneBad_append_singleton_iff.1 hnone
    rw [List.flatMap_append, List.flatMap_singleton] at hfront ⊢
    obtain ⟨a, records, htakes, hreached, hrequests, hseen⟩ :=
      ih (fun line' hmem => hanswers line' (List.mem_append_left _ hmem))
        ((List.prefix_append _ _).trans hfront) hlines
    rw [← hrequests] at hline
    obtain ⟨a', records', htake, hreached', hrequests', hcounts⟩ := takeLine_of_not_bad verbose
      (hanswers line (List.mem_append_right _ List.mem_cons_self)) hreached hseen hfits hfront hline
    refine ⟨a', records', ?_, hreached', ?_, hcounts⟩
    · rw [takeLines_append, htakes]
      show takeLines _ _ a [line] = _
      rw [takeLines_cons, htake]
      rfl
    · rw [requestsIn_append_singleton, hrequests', hrequests]

/-! ### Whole logs -/

/-- What comes of the lines of a section is an error exactly if one of them is
bad, and then it is that of the first. -/
structure FailsOnlyFor (format : RecordFormat) (misshapen : Line → Option Error)
    (lines : List Line) (result : Except Error Output) : Prop where
  iff : (∃ e, result = .error e) ↔ ∃ before line after, lines = before ++ line :: after ∧
    Bad format misshapen (requestsIn format before) line
  first : ∀ before line after, lines = before ++ line :: after →
    NoneBad format misshapen before → Bad format misshapen (requestsIn format before) line →
    ∃ e, result = .error e ∧ Blames format misshapen (requestsIn format before) line e

/-- **A lenient reduction fails for its bad lines only**, if its reducer
answers to them. -/
theorem failsOnlyFor (verbose : Bool) {log : Bytes} {text : List Char}
    (hlog : log.length < 2 ^ 64) (htext : Utf8.decode? log = some text)
    (hanswers : ∀ line ∈ Log.sectionLines format text, Answers format misshapen start line) :
    FailsOnlyFor format misshapen (Log.sectionLines format text)
      (reduceBytes ⟨false, verbose⟩ format start log) := by
  obtain ⟨t, hfits⟩ := exists_tally hlog htext format
  have hfirst : ∀ before line after, Log.sectionLines format text = before ++ line :: after →
      NoneBad format misshapen before → Bad format misshapen (requestsIn format before) line →
      ∃ e, reduceBytes ⟨false, verbose⟩ format start log = .error e ∧
        Blames format misshapen (requestsIn format before) line e := by
    intro before line after hlines hnone hbad
    rw [hlines] at hfits hanswers
    rw [List.flatMap_append, List.flatMap_cons, ← List.append_assoc] at hfits
    have hfront : before.flatMap (lineIssues format) ++ lineIssues format line <+: _ :=
      List.prefix_append _ (after.flatMap (lineIssues format))
    obtain ⟨a, records, htakes, hreached, hrequests, hseen⟩ := takeLines_of_answers verbose
      (fun line' hmem => hanswers line' (List.mem_append_left _ hmem)) hfits
      ((List.prefix_append _ _).trans hfront) hnone
    rw [← hrequests] at hbad ⊢
    obtain ⟨e, hfails, hblames⟩ := takeLine_of_bad verbose
      (hanswers line (List.mem_append_right _ List.mem_cons_self)) hreached hseen hfits hfront hbad
    exact ⟨e, (reduceBytes_eq_error_iff htext).2 ⟨before, line, after, hlines, a, htakes, hfails⟩,
      hblames⟩
  refine ⟨⟨?_, ?_⟩, hfirst⟩
  · rintro ⟨e, herr⟩
    rcases noneBad_or_first format misshapen (Log.sectionLines format text) with
      hnone | ⟨before, line, after, hlines, -, hbad⟩
    · -- a reduction that takes all lines does not fail
      obtain ⟨a, -, htakes, -⟩ := takeLines_of_answers verbose hanswers hfits
        List.prefix_rfl hnone
      rw [reduceBytes_eq_takeLines htext, htakes] at herr
      cases herr
    · exact ⟨before, line, after, hlines, hbad⟩
  · rintro ⟨before, line, after, hlines, hbad⟩
    rcases noneBad_or_first format misshapen (Log.sectionLines format text) with
      hnone | ⟨before', line', after', hlines', hnone, hbad'⟩
    · exact absurd hbad (hnone before line after hlines)
    · obtain ⟨e, herr, -⟩ := hfirst before' line' after' hlines' hnone hbad'
      exact ⟨e, herr⟩

end

/-! ### The two designs -/

/-- The error of a walk with more probes than there are positions. -/
def tooDeep (line : Line) : Option Error :=
  if maxProbes < Record.depth line.text then
    some { cause := .probeOverflow (Record.depth line.text) maxProbes,
           attempts := [.reduceRecord (line.number + 1)] }
  else none

/-- The error of a walk whose way is none of its probes. -/
def outOfRange (line : Line) : Option Error :=
  if Record.depth line.text ≤ Record.wayOf line.text then
    some { cause := .wayOutOfRange (Record.wayOf line.text) (Record.depth line.text),
           attempts := [.parseRecord (line.number + 1)] }
  else none

section

variable {costs : Costs} {o : Overheads} {line : Line} {e : Error}

theorem tooDeep_eq_some_iff : tooDeep line = some e ↔ maxProbes < Record.depth line.text ∧
    e = { cause := .probeOverflow (Record.depth line.text) maxProbes,
          attempts := [.reduceRecord (line.number + 1)] } := by
  unfold tooDeep
  rw [Option.ite_none_right_eq_some, Option.some.injEq, eq_comm (b := e)]

theorem tooDeep_eq_none_iff : tooDeep line = none ↔ Record.depth line.text ≤ maxProbes := by
  simp [tooDeep]

theorem outOfRange_eq_some_iff :
    outOfRange line = some e ↔ Record.depth line.text ≤ Record.wayOf line.text ∧
      e = { cause := .wayOutOfRange (Record.wayOf line.text) (Record.depth line.text),
            attempts := [.parseRecord (line.number + 1)] } := by
  unfold outOfRange
  rw [Option.ite_none_right_eq_some, Option.some.injEq, eq_comm (b := e)]

theorem outOfRange_eq_none_iff :
    outOfRange line = none ↔ Record.wayOf line.text < Record.depth line.text := by
  simp [outOfRange]

/-- **The answers to radix walks** whose costs can be counted. -/
theorem radix_answers (hfits : ∀ parsed, Record.parse .simple line.text = .ok parsed →
      parsed.record.probes.length ≤ maxProbes → parsed.record.walkLatency costs < 2 ^ 64) :
    Answers .simple tooDeep (RadixReducer.new costs) line := by
  obtain ⟨parsed, hparse⟩ := Record.exists_parse_simple line.text
  have hdepth := (Record.parse_tells hparse).1
  have htake : ∀ (records : List Record) (s : RadixReducer), Reached (.new costs) records s →
      take s parsed.record = Except.map _ _ := fun _ s hs =>
    (take_eq s _).trans (congrArg _ ((reached_radix hs).1.answer parsed.record))
  constructor
  · intro e hshape
    obtain ⟨hdeep, rfl⟩ := tooDeep_eq_some_iff.1 hshape
    rw [← hdepth] at hdeep ⊢
    refine Or.inr ⟨parsed, _, hparse, rfl, fun records s hs => ?_⟩
    rw [htake records s hs, if_pos hdeep]
    rfl
  · intro hshape
    have hle := tooDeep_eq_none_iff.1 hshape
    rw [← hdepth] at hle
    refine ⟨parsed, hparse, fun records s hs => ?_⟩
    have hcounts := (reached_radix hs).2
    have hcost := hfits parsed hparse hle
    rw [htake records s hs, if_neg hle.not_gt, hcounts.costs_eq, if_neg hcost.not_ge,
      ← hcounts.latency.requests]
    constructor
    · intro hmany
      rw [if_pos hmany]
      exact ⟨_, rfl, rfl⟩
    · intro hroom
      rw [if_neg hroom.not_ge]
      exact ⟨_, rfl⟩

/-- **The answers to cuckoo walks** whose latencies can be counted. -/
theorem ecpt_answers (hfits : ∀ parsed, Record.parse .withWay line.text = .ok parsed →
      parsed.record.maxLatency costs o < 2 ^ 64) :
    Answers .withWay outOfRange (EcptReducer.new costs o) line := by
  constructor
  · intro e hshape
    obtain ⟨hle, rfl⟩ := outOfRange_eq_some_iff.1 hshape
    exact Or.inl ⟨_, Record.parse_withWay_of_le hle, rfl⟩
  · intro hshape
    have hlt := outOfRange_eq_none_iff.1 hshape
    obtain ⟨parsed, hparse⟩ := Record.exists_parse_withWay hlt
    obtain ⟨hdepth, -, hway⟩ := Record.parse_tells hparse
    refine ⟨parsed, hparse, fun records s hs => ?_⟩
    obtain ⟨hbounded, hcounts⟩ := reached_ecpt hs
    have hrequests : s.totalRequests.val = Record.requests records := hcounts.correct.requests
    have htake : take s parsed.record = Except.map _ _ :=
      (take_eq s _).trans (congrArg _ (hbounded.answer parsed.record))
    rw [← hdepth] at hlt
    simp only [htake, hway, if_neg hlt.not_ge, hcounts.costs_eq, hcounts.overheads_eq,
      if_neg (hfits parsed hparse).not_ge, ← hrequests]
    constructor
    · intro hmany
      rw [if_pos hmany]
      exact ⟨_, rfl, rfl⟩
    · intro hroom
      rw [if_neg hroom.not_ge]
      exact ⟨_, rfl⟩

theorem tooDeep_fatal_iff {n : Nat} (h : Blames .simple tooDeep n line e) :
    e.cause.isFatal = true ↔ maxProbes < Record.depth line.text := by
  cases h with
  | shape hshape =>
    obtain ⟨hdeep, rfl⟩ := tooDeep_eq_some_iff.1 hshape
    exact iff_of_true rfl hdeep
  | requests hshape =>
    exact iff_of_false Bool.false_ne_true (tooDeep_eq_none_iff.1 hshape).not_gt

theorem outOfRange_not_fatal {n : Nat} (h : Blames .withWay outOfRange n line e) :
    e.cause.isFatal = false := by
  cases h with
  | shape hshape =>
    obtain ⟨-, rfl⟩ := outOfRange_eq_some_iff.1 hshape
    rfl
  | requests => rfl

end

/-! ### Checks that are never met -/

/-- A reduction of a log hands a record to its reducer: it has taken the lines
before, and read this one. -/
def Hands {σ : Type} [Reducer σ] (mode : Mode) (format : RecordFormat) (start : σ) (log : Bytes)
    (record : Record) (s : σ) : Prop :=
  ∃ text before line after a parsed, Utf8.decode? log = some text ∧
    Log.sectionLines format text = before ++ line :: after ∧
    takeLines mode format { reducer := start } before = .ok a ∧
    Record.parse format line.text = .ok parsed ∧ parsed.record = record ∧ a.reducer = s

section

variable {σ : Type} [Reducer σ] {mode : Mode} {format : RecordFormat} {start s : σ} {log : Bytes}
  {record : Record} {costs : Costs} {o : Overheads}

theorem Hands.reached (h : Hands mode format start log record s) :
    ∃ records, Reached start records s := by
  obtain ⟨_, before, _, _, a, _, -, -, htakes, -, -, rfl⟩ := h
  exact reached_of_takeLines .start htakes

/-- A record that is handed over has a way, which is one of its probes. -/
theorem Hands.way (h : Hands mode .withWay start log record s) :
    ∃ way, record.way = some way ∧ way < record.probes.length := by
  obtain ⟨_, _, line, _, _, parsed, -, -, -, hparse, rfl, -⟩ := h
  obtain ⟨hdepth, -, hway⟩ := Record.parse_tells hparse
  refine ⟨_, hway, ?_⟩
  by_contra hge
  rw [hdepth, Nat.not_lt] at hge
  rw [Record.parse_withWay_of_le hge] at hparse
  cases hparse

theorem Hands.ecpt {r : EcptReducer}
    (h : Hands mode .withWay (EcptReducer.new costs o) log record r) :
    (EcptReducer.handle record r).1 ≠ .error .missingWay ∧
      ∀ way probes, (EcptReducer.handle record r).1 ≠ .error (.wayOutOfRange way probes) := by
  obtain ⟨records, hreached⟩ := h.reached
  obtain ⟨way, hway, hlt⟩ := h.way
  rw [(reached_ecpt hreached).1.answer record]
  simp only [hway, if_neg hlt.not_ge]
  constructor
  · split_ifs <;> nofun
  · intro way probes
    split_ifs <;> nofun

theorem Hands.radix {r : RadixReducer}
    (h : Hands mode format (RadixReducer.new costs) log record r) : r.Registers record := by
  obtain ⟨records, hreached⟩ := h.reached
  exact (reached_radix hreached).1.registers record

end

/-- **A lenient reduction fails for two reasons only.**  A log that is text is
opened, and no line fails to be read any more; like any file, it has no more
bytes than a counter of 64 bits can tell.  If all costs can be counted,
the reduction of radix walks fails exactly if some line of the section has
more than four probes, or requests that are, with those of the lines before
it, more than a counter holds; that of cuckoo walks if some line has a way
that is none of its probes, or too many requests.  The error is that of the
first such line and has its number in the whole log.  It is for the shape of
the line if that is to blame, and else for its requests, with the sum of those
before; only the error for too many probes is fatal.

Whatever the mode, no reducer is handed a record without a way among its
probes, and no position to break down is beyond the walk. -/
theorem lenient_failures (verbose : Bool) (costs : Costs) (o : Overheads) (log : Bytes)
    {text : List Char} (hlog : log.length < 2 ^ 64) (htext : Utf8.decode? log = some text) :
    ((∀ line ∈ Log.sectionLines .simple text, ∀ parsed,
        Record.parse .simple line.text = .ok parsed → parsed.record.probes.length ≤ maxProbes →
        parsed.record.walkLatency costs < 2 ^ 64) →
      FailsOnlyFor .simple tooDeep (Log.sectionLines .simple text)
        (reduceBytes ⟨false, verbose⟩ .simple (RadixReducer.new costs) log)) ∧
    ((∀ line ∈ Log.sectionLines .withWay text, ∀ parsed,
        Record.parse .withWay line.text = .ok parsed →
        parsed.record.maxLatency costs o < 2 ^ 64) →
      FailsOnlyFor .withWay outOfRange (Log.sectionLines .withWay text)
        (reduceBytes ⟨false, verbose⟩ .withWay (EcptReducer.new costs o) log)) ∧
    (∀ n line e, Blames .simple tooDeep n line e →
      (e.cause.isFatal = true ↔ maxProbes < Record.depth line.text)) ∧
    (∀ n line e, Blames .withWay outOfRange n line e → e.cause.isFatal = false) ∧
    (∀ format, ∀ line ∈ Log.sectionLines format text,
      (Log.lines text)[line.number]? = some line.text) ∧
    (∀ format, ∃ reader, Reader.ofLog format log = .ok reader ∧
      ∀ k, ∃ line?, (reader.after k).next.1 = .ok line?) ∧
    (∀ mode record r, Hands mode .withWay (EcptReducer.new costs o) log record r →
      (EcptReducer.handle record r).1 ≠ .error .missingWay ∧
        ∀ way probes, (EcptReducer.handle record r).1 ≠ .error (.wayOutOfRange way probes)) ∧
    (∀ mode format record r, Hands mode format (RadixReducer.new costs) log record r →
      r.Registers record) := by
  refine ⟨fun hfits => ?_, fun hfits => ?_, fun _ _ _ => tooDeep_fatal_iff,
    fun _ _ _ => outOfRange_not_fatal, fun _ _ => Log.getElem?_of_mem_sectionLines, ?_,
    fun _ _ _ => Hands.ecpt, fun _ _ _ _ => Hands.radix⟩
  · exact failsOnlyFor verbose hlog htext fun line hline => radix_answers (hfits line hline)
  · exact failsOnlyFor verbose hlog htext fun line hline => ecpt_answers (hfits line hline)
  · intro format
    obtain ⟨reader, hopen, -, -, hup⟩ := Reader.ofLog_eq_ok htext format
    exact ⟨reader, hopen, fun k => ⟨_, hup.next_after k⟩⟩

/-- The third line of the first section has five probes, after two lines that
are taken, one of them with issues.  The second line of the second section,
after a blank one, has more requests than there is room for. -/
theorem lenient_failures_of_two_sections :
    let costs : Costs := ⟨.ofNat 0, .ofNat 4, .ofNat 14, .ofNat 54, .ofNat 1, .ofNat 200⟩
    let o : Overheads := ⟨.ofNat 2, .ofNat 1, .ofNat 3⟩
    let deep := "~~~~~~~~~~~~~~~\nL1,LLC,3\nL1,L9,x\nL1,L1,L1,L1,L8,2\nL1,5\n".toList
    let many := ("~~~~~~ full stats with way ~~~~~~\nL1,LLC,1\t3\n\n" ++
      "L2,0\t18446744073709551615\n").toList
    reduceBytes ⟨false, false⟩ .simple (RadixReducer.new costs) (Utf8.encode deep)
      = .error { cause := .probeOverflow 5 4, attempts := [.reduceRecord 4] } ∧
    reduceBytes ⟨false, true⟩ .withWay (EcptReducer.new costs o) (Utf8.encode many)
      = .error { cause := .requestOverflow (.ofNat 3) (.ofNat (2 ^ 64 - 1)),
                 attempts := [.reduceRecord 4] } := by
  intro costs o deep many
  constructor
  · obtain ⟨hradix, -⟩ := lenient_failures false costs o (Utf8.encode deep)
      (by decide +kernel) (Utf8.decode?_encode deep)
    obtain ⟨e, herr, hblames⟩ := (hradix (by
      intro line hline parsed hparse _
      have hall : ∀ line ∈ Log.sectionLines .simple deep,
          (Record.parse .simple line.text).toOption.all
            fun parsed => parsed.record.walkLatency costs < 2 ^ 64 := by decide +kernel
      have hline := hall line hline
      rw [hparse] at hline
      exact of_decide_eq_true hline)).first
      [⟨1, "L1,LLC,3".toList⟩, ⟨2, "L1,L9,x".toList⟩] ⟨3, "L1,L1,L1,L1,L8,2".toList⟩
      [⟨4, "L1,5".toList⟩] (by decide +kernel)
      ((@noneBad_append_singleton_iff _ _ [_] _).2
        ⟨noneBad_singleton_iff.2 (by decide +kernel), by decide +kernel⟩) (by decide +kernel)
    rw [herr]
    cases hblames with
    | shape hshape => exact congrArg _ (tooDeep_eq_some_iff.1 hshape).2
    | requests hshape => exact absurd hshape (by decide +kernel)
  · obtain ⟨-, hecpt, -⟩ := lenient_failures true costs o (Utf8.encode many)
      (by decide +kernel) (Utf8.decode?_encode many)
    obtain ⟨e, herr, hblames⟩ := (hecpt (by
      intro line hline parsed hparse
      have hall : ∀ line ∈ Log.sectionLines .withWay many,
          (Record.parse .withWay line.text).toOption.all
            fun parsed => parsed.record.maxLatency costs o < 2 ^ 64 := by decide +kernel
      have hline := hall line hline
      rw [hparse] at hline
      exact of_decide_eq_true hline)).first
      [⟨1, "L1,LLC,1\t3".toList⟩] ⟨3, "L2,0\t18446744073709551615".toList⟩ []
      (by decide +kernel)
      (noneBad_singleton_iff.2 (by decide +kernel))
      (by decide +kernel)
    rw [herr]
    cases hblames with
    | shape hshape => exact absurd ((outOfRange_eq_some_iff.1 hshape).1) (by decide +kernel)
    | requests hshape htotal =>
      have hthree : requestsIn .withWay [⟨1, "L1,LLC,1\t3".toList⟩]
          = (Counter.ofNat 3 : Count).val := by decide +kernel
      have hmany : Record.frequencyOf .withWay "L2,0\t18446744073709551615".toList
          = .ofNat (2 ^ 64 - 1) := by decide +kernel
      rw [Counter.ext (htotal.trans hthree), hmany]

end Reduction

end PageWalk
