/-
PageWalk/Proofs/Aggregation/Table.lean

The table that a run comes to is of the design of the run, and sound.

Nothing is assumed of the files: whatever they give, one log leads to a
report of the design or to an error that ended some attempt
(`reduceFile_canReturn`), and either makes a row that fits.  What a step
preserves (`step_canReturn`) a run preserves by induction on its logs.
-/
import PageWalk.Aggregation
import PageWalk.Proofs.Error
import PageWalk.Proofs.LatencyTable.Sound

namespace PageWalk.Aggregation

/-! ### One log -/

theorem reduce_statistics {σ : Type} [Reducer σ] {mode : Reduction.Mode} {reader : Log.Reader}
    {reducer : σ} {out : Reduction.Output} (h : (Reduction.reduce mode reader reducer).1 = .ok out) :
    ∃ final : σ, out.statistics = Reducer.statistics final := by
  unfold Reduction.reduce at h
  obtain ⟨_, -, rfl⟩ := map_eq_ok_iff.1 h
  exact ⟨_, rfl⟩

theorem reduceSection_design {config : RunConfig} {reader : Log.Reader} {out : Reduction.Output}
    (h : (reduceSection config reader).1 = .ok out) :
    out.statistics.summary.design = config.design := by
  unfold reduceSection at h
  cases hdesign : config.design with
  | radix =>
    rw [hdesign] at h
    obtain ⟨final, hfinal⟩ := reduce_statistics h
    rw [hfinal]
    rfl
  | ecpt =>
    rw [hdesign] at h
    obtain ⟨final, hfinal⟩ := reduce_statistics h
    rw [hfinal]
    rfl

/-- What a log may come to: a report of the design, or an error that ended
some attempt. -/
def Reduced (design : Design) : Except Error Report → Prop
  | .ok report => report.statistics.summary.design = design
  | .error e => e.attempts ≠ []

theorem attempts_during (e : Error) (a : Attempt) : (e.during a).attempts ≠ [] :=
  List.append_ne_nil_of_right_ne_nil _ (List.cons_ne_nil _ _)

theorem reduceLog_reduced (config : RunConfig) (file : LogFile) (log : Bytes) :
    Reduced config.design (reduceLog config file log).1 := by
  unfold reduceLog
  split
  · exact attempts_during _ _
  · dsimp only
    split
    · exact attempts_during _ _
    · rename_i h
      exact reduceSection_design (congrArg Prod.fst h)

variable {m : Type → Type} [Monad m] [LawfulMonad m] [MonadAttach m] [LawfulMonadAttach m] [Files m]
variable {config : RunConfig}

open MonadAttach LawfulMonadAttach

theorem reduceFile_canReturn {file : LogFile} {r : Except Error Report × List Event}
    (h : CanReturn (reduceFile (m := m) config file) r) : Reduced config.design r.1 := by
  obtain ⟨opened, -, h⟩ := canReturn_bind_imp' h
  obtain rfl := eq_of_canReturn_pure h
  split
  · exact List.cons_ne_nil _ _
  · split
    · exact List.cons_ne_nil _ _
    · exact reduceLog_reduced config file _

/-! ### All logs -/

/-- The table is of the design, and sound. -/
structure Tabled (design : Design) (s : State) : Prop where
  design : s.table.design = design
  sound : s.table.Sound

variable {design : Design} {s s' : State}

theorem Tabled.insert (h : Tabled design s) {row : LatencyTable.Row} (hrow : row.Fits design)
    (benchmark : String) : Tabled design (s.insert benchmark row) := by
  refine ⟨h.design, h.sound.insert ?_ benchmark⟩
  rw [h.design]
  exact hrow

theorem Tabled.take (h : Tabled design s) {report : Report}
    (hdesign : report.statistics.summary.design = design) (hok : s.take report = .ok s') :
    Tabled design s' := by
  obtain ⟨events, -, hok⟩ := bind_eq_ok_iff.1 hok
  obtain ⟨issues, -, hok⟩ := bind_eq_ok_iff.1 hok
  cases hok
  have h' : Tabled design { s with issues } := ⟨h.design, h.sound⟩
  obtain ⟨hdesign', hsound⟩ := h'.insert (LatencyTable.Row.fits_ofSummary hdesign) report.benchmark
  exact ⟨hdesign', hsound⟩

/-- **A step** keeps the table sound, whatever the files give. -/
theorem step_canReturn {results : Option Path} {file : LogFile} {r : Except Error Unit × State}
    (h : Tabled config.design s) (hr : CanReturn (step (m := m) config results file s) r) :
    Tabled config.design r.2 := by
  unfold step at hr
  split at hr
  · -- the benchmark has a row already
    obtain rfl := eq_of_canReturn_pure hr
    exact ⟨h.design, h.sound⟩
  · obtain ⟨⟨result, events⟩, hfile, hr⟩ := canReturn_bind_imp' hr
    have hreduced := reduceFile_canReturn hfile
    dsimp only at hr hreduced
    split at hr
    · -- the log could not be reduced
      rename_i e
      split at hr
      · obtain rfl := eq_of_canReturn_pure hr
        exact ⟨h.design, h.sound⟩
      · rename_i hfatal
        obtain rfl := eq_of_canReturn_pure hr
        have hforeseen : e.cause.isUnforeseen = false := by
          rw [← Bool.not_eq_true]
          intro hunforeseen
          apply hfatal
          unfold Cause.isFatal
          split
          · rfl
          · exact hunforeseen
        have hfits := LatencyTable.Row.fits_failed
          (Error.message_ne_empty hreduced hforeseen) config.design
        obtain ⟨hdesign, hsound⟩ := h.insert hfits file.benchmark
        exact ⟨hdesign, hsound⟩
    · rename_i report
      have htold : Tabled config.design (s.tell (.reducing :: events)) := ⟨h.design, h.sound⟩
      rcases htake : (s.tell (.reducing :: events)).take report with c | s₁
      · rw [htake] at hr
        obtain rfl := eq_of_canReturn_pure hr
        exact htold
      · rw [htake] at hr
        have htaken := htold.take hreduced htake
        cases results with
        | none =>
          obtain rfl := eq_of_canReturn_pure hr
          exact htaken
        | some directory =>
          -- saving the results changes nothing in the table
          obtain ⟨saved, -, hr⟩ := canReturn_bind_imp' hr
          cases saved with
          | error e =>
            obtain rfl := eq_of_canReturn_pure hr
            exact ⟨htaken.design, htaken.sound⟩
          | ok u =>
            obtain rfl := eq_of_canReturn_pure hr
            exact htaken

theorem steps_canReturn {results : Option Path} {files : List LogFile}
    {r : Except Error Unit × State} (h : Tabled config.design s)
    (hr : CanReturn (steps (m := m) config results files s) r) : Tabled config.design r.2 := by
  induction files generalizing s with
  | nil =>
    obtain rfl := eq_of_canReturn_pure hr
    exact h
  | cons file files ih =>
    obtain ⟨⟨result, s₁⟩, hstep, hr⟩ := canReturn_bind_imp' hr
    have hstepped := step_canReturn h hstep
    cases result with
    | error e =>
      obtain rfl := eq_of_canReturn_pure hr
      exact hstepped
    | ok u => exact ih hstepped hr

/-- **The table of a run** is of the design of the run and sound, whatever
the files give. -/
theorem run_canReturn {results : Option Path} {files : List LogFile} {out : Output}
    {events : List Event} (hr : CanReturn (run (m := m) config results files) (.ok out, events)) :
    out.table.design = config.design ∧ out.table.Sound := by
  obtain ⟨⟨result, s⟩, hsteps, hr⟩ := canReturn_bind_imp' hr
  have htabled := steps_canReturn ⟨rfl, LatencyTable.sound_empty config.design⟩ hsteps
  have heq := eq_of_canReturn_pure hr
  dsimp only at heq htabled
  split at heq
  · cases heq
  · split at heq
    · cases heq
    · cases heq
      exact ⟨htabled.design, htabled.sound⟩

end PageWalk.Aggregation
