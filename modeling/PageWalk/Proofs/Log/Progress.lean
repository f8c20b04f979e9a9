/-
PageWalk/Proofs/Log/Progress.lean

How far the reader of a log has come.

A reader stands before a line of its log, has read the bytes of all lines
before that one, and has not read the others (`StandsIn`).  A call of `next`
keeps this and never goes back (`StandsIn.next`), so the fraction of the log
that is told as read grows from call to call, up to one at the end of the
section (`ofLog_accounts_for_lines`).
-/
import PageWalk.Proofs.Log.Input
import PageWalk.Proofs.Log.Section
import Mathlib.Data.Rat.Cast.Order
import Mathlib.Data.Nat.Cast.Order.Field

namespace PageWalk.Log.Reader

variable {log : Bytes} {text : List Char} {r : Reader}

/-! ### Where a reader stands -/

/-- The reader has read as many lines of the log as it has counted, with all
their bytes, and the others are left. -/
structure StandsIn (log : Bytes) (r : Reader) : Prop where
  rest : rawLines r.rest = (rawLines log).drop r.nextLine
  bytesRead : r.bytesRead = ((rawLines log).take r.nextLine).flatten.length
  totalBytes : r.totalBytes = log.length

theorem StandsIn.bytesRead_le (h : StandsIn log r) : r.bytesRead ≤ r.totalBytes := by
  have hsplit := congrArg List.flatten (List.take_append_drop r.nextLine (rawLines log))
  rw [List.flatten_append, flatten_rawLines] at hsplit
  have hlength := congrArg List.length hsplit
  rw [List.length_append] at hlength
  rw [h.bytesRead, h.totalBytes]
  omega

/-- The line before a reader is the line of the log that it counts next. -/
theorem StandsIn.getElem? (h : StandsIn log r) (hne : r.rest ≠ []) :
    (rawLines log)[r.nextLine]? = some (splitLine r.rest).1 := by
  rw [← List.head?_drop, ← h.rest, rawLines_of_ne_nil hne]
  rfl

/-- Taking one more line. -/
theorem StandsIn.step (h : StandsIn log r) (hne : r.rest ≠ []) :
    StandsIn log { r with
      nextLine := r.nextLine + 1
      bytesRead := r.bytesRead + (splitLine r.rest).1.length
      rest := (splitLine r.rest).2 } where
  rest := by
    have htail := congrArg List.tail h.rest
    rwa [rawLines_of_ne_nil hne, List.tail_cons, List.tail_drop] at htail
  bytesRead := by
    dsimp only
    rw [h.bytesRead, List.take_add_one, h.getElem? hne, Option.toList_some, List.flatten_append,
      List.length_append, List.flatten_singleton]
  totalBytes := h.totalBytes

/-! ### One call -/

/-- What a call of `next` can do to a reader. -/
structure Advances (r : Reader) (answer : Except Error (Option Line)) (r' : Reader) : Prop where
  nextLine : r.nextLine ≤ r'.nextLine
  bytesRead : r.bytesRead ≤ r'.bytesRead
  totalBytes : r.totalBytes = r'.totalBytes
  /-- A line that is given is the last that was read. -/
  number : ∀ line, answer = .ok (some line) → line.number + 1 = r'.nextLine
  finished : answer = .ok none → r'.finished = true
  /-- Nothing changes after the end of the section. -/
  kept : r.finished = true → r' = r

/-- **One call of `next`** moves a reader on in its log. -/
theorem StandsIn.next (h : StandsIn log r) (htext : Utf8.decode? log = some text) :
    StandsIn log r.next.2 ∧ Advances r r.next.1 r.next.2 := by
  have hnone : ∀ {line : Line}, (.ok none : Except Error (Option Line)) ≠ .ok (some line) := by
    rintro line ⟨⟩
  fun_induction Reader.next r with
  | case1 r hfin =>
    exact ⟨h, le_rfl, le_rfl, rfl, fun _ hline => absurd hline hnone, fun _ => hfin, fun _ => rfl⟩
  | case2 r hfin hnil =>
    exact ⟨⟨h.rest, h.bytesRead, h.totalBytes⟩, le_rfl, le_rfl, rfl,
      fun _ hline => absurd hline hnone, fun _ => rfl, fun hf => absurd hf hfin⟩
  | case3 r hfin hne line rest hbroken =>
    -- no line of a text is broken
    obtain ⟨cs, hcs⟩ := Input.exists_lineText? htext (List.mem_of_getElem? (h.getElem? hne))
    cases hbroken.symm.trans hcs
  | case4 r hfin hne line rest text' htext' r' hblank ih =>
    -- the call goes on after a blank line
    obtain ⟨hstands, hadv⟩ := ih (h.step hne)
    exact ⟨hstands, (Nat.le_succ _).trans hadv.nextLine,
      (Nat.le_add_right _ _).trans hadv.bytesRead, hadv.totalBytes, hadv.number, hadv.finished,
      fun hf => absurd hf hfin⟩
  | case5 r hfin hne line rest text' htext' r' hblank hend =>
    have hstands := h.step hne
    exact ⟨⟨hstands.rest, hstands.bytesRead, hstands.totalBytes⟩, Nat.le_succ _,
      Nat.le_add_right _ _, rfl, fun _ hline => absurd hline hnone, fun _ => rfl,
      fun hf => absurd hf hfin⟩
  | case6 r hfin hne line rest text' htext' r' hblank hend =>
    refine ⟨h.step hne, Nat.le_succ _, Nat.le_add_right _ _, rfl, ?_,
      fun hanswer => absurd hanswer.symm hnone, fun hf => absurd hf hfin⟩
    intro line' hline'
    cases hline'
    rfl

/-! ### Any number of calls -/

theorem after_succ (r : Reader) (k : Nat) : r.after (k + 1) = (r.after k).next.2 := by
  induction k generalizing r with
  | zero => rfl
  | succ k ih => exact ih r.next.2

theorem StandsIn.after (h : StandsIn log r) (htext : Utf8.decode? log = some text) (k : Nat) :
    StandsIn log (r.after k) := by
  induction k generalizing r with
  | zero => exact h
  | succ k ih => exact ih (h.next htext).1

/-- A reader that has given no line is finished from then on. -/
theorem StandsIn.finished_after (h : StandsIn log r) (htext : Utf8.decode? log = some text)
    {k m : Nat} (hnone : (r.after k).next.1 = .ok none) (hm : k < m) :
    (r.after m).finished = true := by
  induction m, hm using Nat.le_induction with
  | base =>
    rw [after_succ]
    exact ((h.after htext k).next htext).2.finished hnone
  | succ m _ ih =>
    rw [after_succ, ((h.after htext m).next htext).2.kept ih]
    exact ih

/-! ### Opening a log -/

/-- A reader that was just opened stands in its log. -/
theorem standsIn_ofLog {format : RecordFormat} (htext : Utf8.decode? log = some text)
    (h : ofLog format log = .ok r) : StandsIn log r := by
  obtain ⟨rest, hrest, hr⟩ := exists_ofLog htext format
  cases hr.symm.trans h
  exact ⟨hrest, rfl, rfl⟩

/-! ### Fractions -/

/-- The part of a log that counts as read, as bytes of bytes: after the end of
the section all of it. -/
def share (r : Reader) : Nat × Nat :=
  if r.finished || r.totalBytes == 0 then (1, 1) else (r.bytesRead, r.totalBytes)

/-- What is told of the progress is the quotient of the share. -/
theorem progress_eq (r : Reader) :
    r.progress = Float.ofNat r.share.1 / Float.ofNat r.share.2 := by
  unfold progress share
  split
  · decide +kernel
  · rfl

/-- The exact fraction of a log that counts as read. -/
def fraction (r : Reader) : ℚ := r.share.1 / r.share.2

theorem fraction_of_ended (h : r.finished = true ∨ r.totalBytes = 0) : r.fraction = 1 := by
  have hshare : r.share = (1, 1) := by
    unfold share
    rw [if_pos (by simpa using h)]
  unfold fraction
  rw [hshare, Nat.cast_one, div_one]

theorem fraction_of_not_ended (hfin : r.finished = false) (htotal : r.totalBytes ≠ 0) :
    r.fraction = (r.bytesRead : ℚ) / r.totalBytes := by
  unfold fraction share
  rw [if_neg (by simp [hfin, htotal])]

theorem fraction_nonneg (r : Reader) : 0 ≤ r.fraction :=
  div_nonneg (Nat.cast_nonneg _) (Nat.cast_nonneg _)

theorem StandsIn.fraction_le_one (h : StandsIn log r) : r.fraction ≤ 1 := by
  by_cases hended : r.finished = true ∨ r.totalBytes = 0
  · rw [fraction_of_ended hended]
  · rw [not_or, Bool.not_eq_true] at hended
    rw [fraction_of_not_ended hended.1 hended.2]
    exact div_le_one_of_le₀ (by exact_mod_cast h.bytesRead_le) (Nat.cast_nonneg _)

/-- The fraction grows from call to call. -/
theorem StandsIn.fraction_le_next (h : StandsIn log r) (htext : Utf8.decode? log = some text) :
    r.fraction ≤ r.next.2.fraction := by
  obtain ⟨hstands, hadv⟩ := h.next htext
  by_cases hended : r.next.2.finished = true ∨ r.next.2.totalBytes = 0
  · rw [fraction_of_ended hended]
    exact h.fraction_le_one
  · rw [not_or, Bool.not_eq_true] at hended
    -- a reader that was finished before would still be
    have hfin : r.finished = false := by
      rw [← Bool.not_eq_true]
      intro hf
      rw [hadv.kept hf, hf] at hended
      cases hended.1
    rw [fraction_of_not_ended hended.1 hended.2,
      fraction_of_not_ended hfin (hadv.totalBytes ▸ hended.2), hadv.totalBytes]
    exact div_le_div_of_nonneg_right (by exact_mod_cast hadv.bytesRead) (Nat.cast_nonneg _)

/-! ### Progress -/

/-- **A reader accounts for the lines it has read.**  After any number of calls
the bytes that were read are those of the lines that were counted, and no more
than there are.  A line that is given is the last that was counted.  Lines and
bytes never decrease, and neither does the fraction of the log that counts as
read, which is one from the first time on that there is no line. -/
theorem ofLog_accounts_for_lines (format : RecordFormat) (log : Bytes) (text : List Char)
    (htext : Utf8.decode? log = some text) :
    ∃ r, ofLog format log = .ok r ∧ ∀ k,
      (r.after k).bytesRead = ((endedLines log).take (r.after k).nextLine).flatten.length ∧
      (r.after k).bytesRead ≤ (r.after k).totalBytes ∧ (r.after k).totalBytes = log.length ∧
      (∀ line, (r.after k).next.1 = .ok (some line) →
        line.number + 1 = (r.after (k + 1)).nextLine) ∧
      (r.after k).nextLine ≤ (r.after (k + 1)).nextLine ∧
      (r.after k).bytesRead ≤ (r.after (k + 1)).bytesRead ∧
      0 ≤ (r.after k).fraction ∧ (r.after k).fraction ≤ 1 ∧
      (r.after k).fraction ≤ (r.after (k + 1)).fraction ∧
      ((r.after k).next.1 = .ok none → ∀ m, k < m →
        (r.after m).fraction = 1 ∧ (r.after m).progress = 1.0) ∧
      (r.after k).progress
        = Float.ofNat (r.after k).share.1 / Float.ofNat (r.after k).share.2 := by
  obtain ⟨r, hr, -⟩ := ofLog_eq_ok htext format
  refine ⟨r, hr, fun k => ?_⟩
  have hopened := standsIn_ofLog htext hr
  have hstands := hopened.after htext k
  have hadv := (hstands.next htext).2
  rw [after_succ, ← rawLines_eq]
  refine ⟨hstands.bytesRead, hstands.bytesRead_le, hstands.totalBytes, hadv.number, hadv.nextLine,
    hadv.bytesRead, fraction_nonneg _, hstands.fraction_le_one, hstands.fraction_le_next htext, ?_,
    progress_eq _⟩
  intro hnone m hm
  have hfin := hopened.finished_after htext hnone hm
  refine ⟨fraction_of_ended (Or.inl hfin), ?_⟩
  unfold progress
  rw [hfin]
  rfl

/-- A section that a tilde ends before the log does. -/
theorem ofLog_accounts_for_lines_of_tilde :
    let text := "run\n~~~~~~~~~~~~~~~\n\nL1,5\r\n~ end\nL1,7".toList
    Utf8.decode? (Utf8.encode text) = some text ∧
    ∃ r, ofLog .simple (Utf8.encode text) = .ok r ∧
      (r.after 0).next.1 = .ok (some ⟨3, "L1,5".toList⟩) ∧ 4 = (r.after 1).nextLine ∧
      (r.after 1).next.1 = .ok none ∧ (r.after 2).fraction = 1 ∧ (r.after 2).progress = 1.0 := by
  intro text
  have htext : Utf8.decode? (Utf8.encode text) = some text := Utf8.decode?_encode text
  obtain ⟨r, hr, hall⟩ := ofLog_accounts_for_lines .simple (Utf8.encode text) text htext
  obtain ⟨r', hr', -, -, hup⟩ := ofLog_eq_ok htext .simple
  obtain rfl := Except.ok.inj (hr'.symm.trans hr)
  have hline : (r'.after 0).next.1 = .ok (some ⟨3, "L1,5".toList⟩) :=
    (hup.next_after 0).trans (by decide +kernel)
  have hnone : (r'.after 1).next.1 = .ok none := (hup.next_after 1).trans (by decide +kernel)
  obtain ⟨-, -, -, hnumber, -⟩ := hall 0
  obtain ⟨-, -, -, -, -, -, -, -, -, hended, -⟩ := hall 1
  exact ⟨htext, r', hr, hline, hnumber _ hline, hnone, hended hnone 2 (by decide)⟩

end PageWalk.Log.Reader
