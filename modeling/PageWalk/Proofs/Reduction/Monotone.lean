/-
PageWalk/Proofs/Reduction/Monotone.lean

Reductions of the same log with different costs.

What a probe costs decides nothing but how long walks take, unless a sum of
costs does not fit.  So two reducers that differ in their costs take the same
records: they are in lockstep (`Lockstep`), one line keeps their accounts
alike (`takeLine_alike`), and so does a whole log (`settle_alike`).  Both hold
the latencies of the same records then, and each of these grows with the
costs (`Record.walkLatency_mono` and its siblings).

Of the costs of a radix walk, that of main memory enters once for each probe
of main memory (`Breakdown.latency_eq_add_memory`).
-/
import PageWalk.Proofs.Reduction.Accounting
import PageWalk.Proofs.Reduction.Lines
import PageWalk.Proofs.Statistics.Order

namespace PageWalk

/-! ### Costs that grow -/

/-- No level costs more in the first costs than in the second. -/
def Costs.AtMost (costs costs' : Costs) : Prop :=
  ∀ level, (costs.cost level).val ≤ (costs'.cost level).val

/-- No part of the first overheads is larger than that of the second. -/
structure Overheads.AtMost (o o' : Overheads) : Prop where
  hash : o.hash.val ≤ o'.hash.val
  pudCwc : o.pudCwc.val ≤ o'.pudCwc.val
  pmdCwc : o.pmdCwc.val ≤ o'.pmdCwc.val

namespace Costs

variable {costs costs' : Costs}

theorem AtMost.probeCost (h : costs.AtMost costs') (probe : Option Level) :
    (costs.probeCost probe).val ≤ (costs'.probeCost probe).val := by
  cases probe with
  | none => exact le_rfl
  | some level => exact h level

theorem cost_withMemory (costs : Costs) (m : Count) (level : Level) :
    (costs.withMemory m).cost level = if level = .memory then m else costs.cost level := by
  cases level <;> rfl

/-- A larger cost of main memory makes the costs larger. -/
theorem atMost_withMemory {m : Count} (h : costs.memory.val ≤ m.val) :
    costs.AtMost (costs.withMemory m) := by
  intro level
  rw [cost_withMemory]
  split
  · rename_i hmemory
    rw [hmemory]
    exact h
  · exact le_rfl

/-- A smaller one makes them smaller. -/
theorem withMemory_atMost {m : Count} (h : m.val ≤ costs.memory.val) :
    (costs.withMemory m).AtMost costs := by
  -- the costs are those with main memory costing what it did
  have hmemory : (costs.withMemory m).memory.val ≤ costs.memory.val := h
  exact atMost_withMemory hmemory

end Costs

namespace Overheads

variable {o o' : Overheads}

theorem AtMost.serialCycles (h : o.AtMost o') : o.serialCycles ≤ o'.serialCycles :=
  Nat.add_le_add (Nat.add_le_add h.hash h.pudCwc) h.pmdCwc

theorem AtMost.parallelCycles (h : o.AtMost o') : o.parallelCycles ≤ o'.parallelCycles :=
  Nat.add_le_add h.hash (max_le_max h.pudCwc h.pmdCwc)

end Overheads

/-! ### The latencies of one walk -/

namespace Record

variable {costs costs' : Costs} {o o' : Overheads}

theorem walkLatency_mono (h : costs.AtMost costs') (r : Record) :
    r.walkLatency costs ≤ r.walkLatency costs' :=
  List.sum_le_sum fun probe _ => h.probeCost probe

/-- The slowest probe may be another one, but is no faster. -/
theorem topCost_mono (h : costs.AtMost costs') (r : Record) :
    r.topCost costs ≤ r.topCost costs' := by
  rw [topCost_eq, topCost_eq, Counter.largest_le_iff, List.forall_mem_map]
  intro probe hprobe
  exact (h.probeCost probe).trans (Counter.le_largest (List.mem_map_of_mem hprobe))

theorem wayCost_mono (h : costs.AtMost costs') (r : Record) :
    r.wayCost costs ≤ r.wayCost costs' := by
  unfold wayCost probeCosts
  rcases r.way with - | way
  · exact le_rfl
  · simp only [Option.bind_some, List.getElem?_map]
    cases r.probes[way]? with
    | none => exact le_rfl
    | some probe => exact h.probeCost probe

theorem maxLatency_mono (h : costs.AtMost costs') (ho : o.AtMost o') (r : Record) :
    r.maxLatency costs o ≤ r.maxLatency costs' o' :=
  Nat.add_le_add (r.topCost_mono h) ho.serialCycles

theorem correctLatency_mono (h : costs.AtMost costs') (ho : o.AtMost o') (r : Record) :
    r.correctLatency costs o ≤ r.correctLatency costs' o' :=
  Nat.add_le_add (r.wayCost_mono h) ho.serialCycles

theorem parallelLatency_mono (h : costs.AtMost costs') (ho : o.AtMost o') (r : Record) :
    r.parallelLatency costs o ≤ r.parallelLatency costs' o' :=
  Nat.add_le_add (r.wayCost_mono h) ho.parallelCycles

end Record

/-- Latencies of the same records, each of which is at most as long, are at
most as long in all. -/
theorem LatencyStats.Counts.total_le {f f' : Record → Nat} {records : List Record}
    {s s' : LatencyStats} (hle : ∀ r, f r ≤ f' r) (h : s.Counts f records)
    (h' : s'.Counts f' records) : s.total.val ≤ s'.total.val := by
  rw [h.total, h'.total]
  exact List.sum_le_sum fun r _ => Nat.mul_le_mul_right _ (hle r)

theorem LatencyStats.Counts.requests_eq {f f' : Record → Nat} {records : List Record}
    {s s' : LatencyStats} (h : s.Counts f records) (h' : s'.Counts f' records) :
    s.requests = s'.requests :=
  Counter.ext (h.requests.trans h'.requests.symm)

/-! ### Main memory -/

namespace Breakdown

/-- The requests of main memory at all positions. -/
def memoryRequests (b : Breakdown) : Nat :=
  ((List.range maxProbes).map fun p => (b.frequency p .memory).val).sum

/-- **The cost of main memory** enters once for each of its requests. -/
theorem latency_eq_add_memory (costs : Costs) (b : Breakdown) :
    b.latency costs = b.latency (costs.withMemory 0) + costs.memory.val * b.memoryRequests := by
  have hmemory : ∀ p v, (costs.cost v).val * (b.frequency p v).val
      = ((costs.withMemory 0).cost v).val * (b.frequency p v).val
        + if v = .memory then costs.memory.val * (b.frequency p .memory).val else 0 := by
    intro p v
    cases v <;> simp [Costs.cost, Costs.withMemory]
  have hlevels : ∀ p, (Level.all.map fun v =>
      if v = .memory then costs.memory.val * (b.frequency p .memory).val else 0).sum
        = costs.memory.val * (b.frequency p .memory).val := by
    intro p
    simp [Level.all]
  unfold latency memoryRequests
  simp only [hmemory]
  rw [overProbes_add]
  congr 1
  unfold overProbes
  simp only [hlevels, List.sum_map_mul_left]

end Breakdown

namespace Reduction

open Log (Reader Line)

/-! ### Reductions that agree -/

/-- Two results are the same error, or values of which `P` holds. -/
inductive Agree {ε α : Type} (P : α → α → Prop) : Except ε α → Except ε α → Prop
  | error (e : ε) : Agree P (.error e) (.error e)
  | ok {a a' : α} : P a a' → Agree P (.ok a) (.ok a')

namespace Agree

variable {ε α : Type} {P Q : α → α → Prop} {x x' : Except ε α}

theorem mono (h : Agree P x x') (hPQ : ∀ a a', P a a' → Q a a') : Agree Q x x' := by
  cases h with
  | error e => exact .error e
  | ok hP => exact .ok (hPQ _ _ hP)

theorem swap (h : Agree P x x') : Agree (fun a a' => P a' a) x' x := by
  cases h with
  | error e => exact .error e
  | ok hP => exact .ok hP

/-- If the first is a value, so is the second. -/
theorem of_ok (h : Agree P x x') {a : α} (hx : x = .ok a) : ∃ a', x' = .ok a' ∧ P a a' := by
  subst hx
  cases h with
  | ok hP => exact ⟨_, rfl, hP⟩

end Agree

/-- A sum does not fit into its counter. -/
def Overflows {α : Type} (x : Except Error α) : Prop :=
  ∃ e, x = .error e ∧ e.cause = .sumOverflow

/-- What is a result does not overflow. -/
theorem not_overflows_of_ok {α : Type} {x : Except Error α} {a : α} (h : x = .ok a) :
    ¬ Overflows x := by
  rintro ⟨e, he, -⟩
  rw [h] at he
  cases he

/-- A smaller cost gives the same answer, unless the larger does not fit. -/
theorem overflow_or_same {n n' : Nat} (hle : n ≤ n') (answer : Except Cause Unit) :
    (if 2 ^ 64 ≤ n' then .error .sumOverflow else answer) = .error .sumOverflow ∨
      (if 2 ^ 64 ≤ n then .error .sumOverflow else answer)
        = if 2 ^ 64 ≤ n' then .error .sumOverflow else answer := by
  by_cases hlong : 2 ^ 64 ≤ n'
  · exact Or.inl (if_pos hlong)
  · have hfits : ¬ 2 ^ 64 ≤ n := fun h => hlong (h.trans hle)
    rw [if_neg hlong, if_neg hfits]
    exact Or.inr rfl

variable {σ : Type} [Reducer σ]

/-- States that are reached from two reducers with the same records. -/
def Abreast (start start' s s' : σ) : Prop :=
  ∃ records, Reached start records s ∧ Reached start' records s'

/-- Two reducers that have taken the same records answer the next one alike,
unless a sum of the second does not fit. -/
def Lockstep (start start' : σ) : Prop :=
  ∀ s s', Abreast start start' s s' → ∀ record,
    (Reducer.handle record s').1 = .error .sumOverflow ∨
      (Reducer.handle record s).1 = (Reducer.handle record s').1

/-- Accounts of the same records and issues. -/
structure Account.Alike (start start' : σ) (a a' : Account σ) : Prop where
  reducer : Abreast start start' a.reducer a'.reducer
  records : a.records = a'.records
  issues : a.issues = a'.issues

variable {mode : Mode} {format : RecordFormat} {start start' : σ}

theorem Lockstep.take (h : Lockstep start start') {s s' : σ} (hs : Abreast start start' s s')
    (record : Record) :
    take s' record = .error .sumOverflow ∨
      Agree (Abreast start start') (take s record) (take s' record) := by
  rw [take_eq, take_eq]
  rcases h s s' hs record with hlong | hsame
  · rw [hlong]
    exact Or.inl rfl
  · refine Or.inr ?_
    obtain ⟨records, hreached, hreached'⟩ := hs
    rcases hanswer : (Reducer.handle record s').1 with c | u
    · rw [hsame, hanswer]
      exact .error c
    · rw [hsame, hanswer]
      exact .ok ⟨records ++ [record], hreached.of_ok record (hsame.trans hanswer),
        hreached'.of_ok record hanswer⟩

/-- **One line** keeps accounts alike. -/
theorem takeLine_alike (h : Lockstep start start') (mode : Mode) (format : RecordFormat)
    {a a' : Account σ} (ha : a.Alike start start' a') (line : Line) :
    Overflows (takeLine mode format a' line) ∨
      Agree (Account.Alike start start') (takeLine mode format a line)
        (takeLine mode format a' line) := by
  unfold takeLine
  rw [ha.issues]
  rcases Record.parse format line.text with c | parsed
  · exact Or.inr (.error _)
  · dsimp only
    rcases tallyIssues mode (line.number + 1) parsed.issues a'.issues with e | issues
    · exact Or.inr (.error e)
    · dsimp only
      rcases h.take ha.reducer parsed.record with hlong | hagree
      · rw [hlong]
        exact Or.inl ⟨_, rfl, rfl⟩
      · refine Or.inr ?_
        generalize Reduction.take a.reducer parsed.record = x at hagree ⊢
        generalize Reduction.take a'.reducer parsed.record = x' at hagree ⊢
        cases hagree with
        | error c => exact .error _
        | ok hs => exact .ok ⟨hs, congrArg (· + 1) ha.records, rfl⟩

/-- **All lines** keep them alike. -/
theorem takeLines_alike (h : Lockstep start start') {a a' : Account σ}
    (ha : a.Alike start start' a') (ls : List Line) :
    Overflows (takeLines mode format a' ls) ∨
      Agree (Account.Alike start start') (takeLines mode format a ls)
        (takeLines mode format a' ls) := by
  induction ls generalizing a a' with
  | nil => exact Or.inr (.ok ha)
  | cons line ls ih =>
    rw [takeLines_cons, takeLines_cons]
    rcases takeLine_alike h mode format ha line with ⟨e, hlong, hcause⟩ | hagree
    · rw [hlong]
      exact Or.inl ⟨e, rfl, hcause⟩
    · generalize takeLine mode format a line = x at hagree ⊢
      generalize takeLine mode format a' line = x' at hagree ⊢
      cases hagree with
      | error e => exact Or.inr (.error e)
      | ok ha' => exact ih ha'

/-! ### Whole logs -/

/-- **A whole log** comes to accounts that are alike, or to the same error. -/
theorem settle_alike (h : Lockstep start start') {log : Bytes}
    (hfits : ¬ Overflows (settle mode format start' log)) :
    Agree (Account.Alike start start') (settle mode format start log)
      (settle mode format start' log) := by
  rcases htext : Utf8.decode? log with - | text
  · unfold settle
    rw [Reader.ofLog_eq_error htext]
    exact .error _
  · rw [settle_eq_takeLines htext] at hfits
    rw [settle_eq_takeLines htext, settle_eq_takeLines htext]
    have hstart : Account.Alike start start' { reducer := start } { reducer := start' } :=
      ⟨⟨[], .start, .start⟩, rfl, rfl⟩
    exact (takeLines_alike h hstart _).resolve_left hfits

/-! ### Radix walks -/

/-- Accounts of radix walks that differ in their latencies, which are no
longer in the first. -/
structure RadixAtMost (a a' : Account RadixReducer) : Prop where
  records : a.records = a'.records
  issues : a.issues = a'.issues
  requests : a.reducer.latency.requests = a'.reducer.latency.requests
  breakdown : a.reducer.breakdown = a'.reducer.breakdown
  latency : a.reducer.latency.total.val ≤ a'.reducer.latency.total.val

variable {costs costs' : Costs} {o o' : Overheads} {log : Bytes}

/-- **Radix reducers** with smaller and larger costs are in lockstep. -/
theorem lockstep_radix (hcosts : costs.AtMost costs') :
    Lockstep (RadixReducer.new costs) (RadixReducer.new costs') := by
  rintro r r' ⟨records, hreached, hreached'⟩ record
  obtain ⟨hbounded, hcounts⟩ := reached_radix hreached
  obtain ⟨hbounded', hcounts'⟩ := reached_radix hreached'
  have hrequests := hcounts.latency.requests_eq hcounts'.latency
  change (RadixReducer.handle record r').1 = _ ∨
    (RadixReducer.handle record r).1 = (RadixReducer.handle record r').1
  rw [hbounded.answer, hbounded'.answer, hcounts.costs_eq, hcounts'.costs_eq, hrequests]
  split
  · exact Or.inr rfl
  · -- only the cost of the walk can make a difference
    exact overflow_or_same (record.walkLatency_mono hcosts) _

/-- Radix reducers that have taken the same records have the same requests and
the same breakdown, by which their latencies are determined. -/
theorem Abreast.radix {r r' : RadixReducer}
    (h : Abreast (RadixReducer.new costs) (RadixReducer.new costs') r r') :
    r.latency.requests = r'.latency.requests ∧ r.breakdown = r'.breakdown ∧
      r.latency.total.val = r.breakdown.latency costs ∧
      r'.latency.total.val = r.breakdown.latency costs' := by
  obtain ⟨records, hreached, hreached'⟩ := h
  have hcounts := (reached_radix hreached).2
  have hcounts' := (reached_radix hreached').2
  refine ⟨hcounts.latency.requests_eq hcounts'.latency,
    hcounts.breakdown.unique (.refl records) hcounts'.breakdown, ?_, ?_⟩
  · rw [hcounts.breakdown.latency_eq hcounts.probes]
    exact hcounts.latency.total
  · rw [hcounts.breakdown.latency_eq hcounts.probes]
    exact hcounts'.latency.total

theorem Account.Alike.radixAtMost (hcosts : costs.AtMost costs') {a a' : Account RadixReducer}
    (h : a.Alike (RadixReducer.new costs) (RadixReducer.new costs') a') : RadixAtMost a a' := by
  obtain ⟨hrequests, hbreakdown, -⟩ := h.reducer.radix
  obtain ⟨records, hreached, hreached'⟩ := h.reducer
  exact ⟨h.records, h.issues, hrequests, hbreakdown, (reached_radix hreached).2.latency.total_le
    (Record.walkLatency_mono hcosts) (reached_radix hreached').2.latency⟩

/-! ### Cuckoo walks -/

/-- Accounts of cuckoo walks that differ in their latencies, which are no
longer in the first under any model. -/
structure EcptAtMost (a a' : Account EcptReducer) : Prop where
  records : a.records = a'.records
  issues : a.issues = a'.issues
  requests : a.reducer.totalRequests = a'.reducer.totalRequests
  max : a.reducer.max.total.val ≤ a'.reducer.max.total.val
  correct : a.reducer.correct.total.val ≤ a'.reducer.correct.total.val
  parallel : a.reducer.parallel.total.val ≤ a'.reducer.parallel.total.val

/-- **Cuckoo reducers** with smaller and larger costs are in lockstep. -/
theorem lockstep_ecpt (hcosts : costs.AtMost costs') (ho : o.AtMost o') :
    Lockstep (EcptReducer.new costs o) (EcptReducer.new costs' o') := by
  rintro r r' ⟨records, hreached, hreached'⟩ record
  obtain ⟨hbounded, hcounts⟩ := reached_ecpt hreached
  obtain ⟨hbounded', hcounts'⟩ := reached_ecpt hreached'
  have hrequests : r.totalRequests = r'.totalRequests :=
    hcounts.correct.requests_eq hcounts'.correct
  change (EcptReducer.handle record r').1 = _ ∨
    (EcptReducer.handle record r).1 = (EcptReducer.handle record r').1
  rw [hbounded.answer, hbounded'.answer, hcounts.costs_eq, hcounts'.costs_eq,
    hcounts.overheads_eq, hcounts'.overheads_eq, hrequests]
  rcases record.way with - | way
  · exact Or.inr rfl
  · dsimp only
    split
    · exact Or.inr rfl
    · -- only the latency of the slowest model can make a difference
      exact overflow_or_same (record.maxLatency_mono hcosts ho) _

theorem Account.Alike.ecptAtMost (hcosts : costs.AtMost costs') (ho : o.AtMost o')
    {a a' : Account EcptReducer}
    (h : a.Alike (EcptReducer.new costs o) (EcptReducer.new costs' o') a') : EcptAtMost a a' := by
  obtain ⟨records, hreached, hreached'⟩ := h.reducer
  have hcounts := (reached_ecpt hreached).2
  have hcounts' := (reached_ecpt hreached').2
  exact ⟨h.records, h.issues, hcounts.correct.requests_eq hcounts'.correct,
    hcounts.max.total_le (Record.maxLatency_mono hcosts ho) hcounts'.max,
    hcounts.correct.total_le (Record.correctLatency_mono hcosts ho) hcounts'.correct,
    hcounts.parallel.total_le (Record.parallelLatency_mono hcosts ho) hcounts'.parallel⟩

/-! ### Main memory -/

/-- Accounts of radix walks that differ by the cost of main memory: each of
its requests takes as much longer in the second as main memory costs more. -/
structure MemoryShift (costs : Costs) (m : Count) (a a' : Account RadixReducer) : Prop where
  breakdown : a.reducer.breakdown = a'.reducer.breakdown
  latency : (a'.reducer.latency.total.val : ℤ) - a.reducer.latency.total.val
    = (m.val - costs.memory.val) * a.reducer.breakdown.memoryRequests

theorem memoryShift_of_abreast {a a' : Account RadixReducer} {m : Count}
    (h : Abreast (RadixReducer.new costs) (RadixReducer.new (costs.withMemory m))
      a.reducer a'.reducer) : MemoryShift costs m a a' := by
  obtain ⟨-, hbreakdown, htotal, htotal'⟩ := h.radix
  refine ⟨hbreakdown, ?_⟩
  have hadd := a.reducer.breakdown.latency_eq_add_memory costs
  have hadd' := a.reducer.breakdown.latency_eq_add_memory (costs.withMemory m)
  -- without main memory both cost the same
  change _ = a.reducer.breakdown.latency (costs.withMemory 0) + m.val * _ at hadd'
  rw [htotal, htotal', hadd, hadd']
  push_cast
  ring

theorem settle_withMemory (m : Count)
    (hfits : ¬ Overflows (settle mode format (RadixReducer.new costs) log))
    (hfits' : ¬ Overflows (settle mode format (RadixReducer.new (costs.withMemory m)) log)) :
    Agree (MemoryShift costs m) (settle mode format (RadixReducer.new costs) log)
      (settle mode format (RadixReducer.new (costs.withMemory m)) log) := by
  rcases Nat.le_total costs.memory.val m.val with hle | hle
  · exact (settle_alike (lockstep_radix (Costs.atMost_withMemory hle)) hfits').mono
      fun a a' h => memoryShift_of_abreast h.reducer
  · refine (settle_alike (lockstep_radix (Costs.withMemory_atMost hle)) hfits).swap.mono
      fun a a' h => ?_
    obtain ⟨records, hreached', hreached⟩ := h.reducer
    exact memoryShift_of_abreast ⟨records, hreached, hreached'⟩

/-! ### All costs -/

/-- **Latencies follow the costs.**  If no level and no overhead costs more
than in a second choice of costs, and the sums of the second fit, reducing a
log with the first fails with the same error as with the second, or both
succeed with the same records, issues and requests.  Then no latency is longer
with the first: not that of the radix walks, whose breakdown is the same, nor
that of the cuckoo walks under any model.  If only the cost of main memory is
another, the latency of the radix walks changes by the difference for each
request of main memory in the breakdown. -/
theorem latencies_follow_costs (hcosts : costs.AtMost costs') (ho : o.AtMost o') (mode : Mode)
    (format : RecordFormat) (log : Bytes) :
    (¬ Overflows (settle mode format (RadixReducer.new costs') log) →
      Agree RadixAtMost (settle mode format (RadixReducer.new costs) log)
        (settle mode format (RadixReducer.new costs') log)) ∧
    (¬ Overflows (settle mode format (EcptReducer.new costs' o') log) →
      Agree EcptAtMost (settle mode format (EcptReducer.new costs o) log)
        (settle mode format (EcptReducer.new costs' o') log)) ∧
    ∀ m, ¬ Overflows (settle mode format (RadixReducer.new costs) log) →
      ¬ Overflows (settle mode format (RadixReducer.new (costs.withMemory m)) log) →
      Agree (MemoryShift costs m) (settle mode format (RadixReducer.new costs) log)
        (settle mode format (RadixReducer.new (costs.withMemory m)) log) := by
  refine ⟨fun hfits => ?_, fun hfits => ?_, fun m => settle_withMemory m⟩
  · exact (settle_alike (lockstep_radix hcosts) hfits).mono fun a a' h => h.radixAtMost hcosts
  · exact (settle_alike (lockstep_ecpt hcosts ho) hfits).mono fun a a' h => h.ecptAtMost hcosts ho

/-- With the second costs another probe of the first cuckoo walk is the slowest.
Main memory is probed twice by each of two radix walks, and costs less then. -/
theorem latencies_follow_costs_of_two_logs :
    let costs : Costs := ⟨.ofNat 0, .ofNat 4, .ofNat 14, .ofNat 54, .ofNat 1, .ofNat 200⟩
    let costs' : Costs := ⟨.ofNat 0, .ofNat 90, .ofNat 14, .ofNat 60, .ofNat 1, .ofNat 200⟩
    let o : Overheads := ⟨.ofNat 2, .ofNat 1, .ofNat 3⟩
    let o' : Overheads := ⟨.ofNat 2, .ofNat 4, .ofNat 3⟩
    let log := Utf8.encode "~~~~~~~~~~~~~~~\nL1,LLC,3\nL1,x,MEMORY,MEMORY,2\n".toList
    let log' := Utf8.encode
      "~~~~~~ full stats with way ~~~~~~\nL1,LLC,0\t3\nMEMORY,L1,0\t2\n".toList
    (∃ a a', settle {} .simple (RadixReducer.new costs) log = .ok a ∧
      settle {} .simple (RadixReducer.new costs') log = .ok a' ∧
      a.reducer.latency.total.val = 982 ∧ RadixAtMost a a') ∧
    (∃ a a', settle {} .withWay (EcptReducer.new costs o) log' = .ok a ∧
      settle {} .withWay (EcptReducer.new costs' o') log' = .ok a' ∧
      a.reducer.max.total.val = 592 ∧ EcptAtMost a a') ∧
    ∃ a a' : Account RadixReducer,
      reduceBytes {} .simple (RadixReducer.new costs) log = .ok a.output ∧
      settle {} .simple (RadixReducer.new (costs.withMemory (.ofNat 50))) log = .ok a' ∧
      a.reducer.breakdown = a'.reducer.breakdown ∧
      (a'.reducer.latency.total.val : ℤ) - a.reducer.latency.total.val = (50 - 200) * 4 := by
  intro costs costs' o o' log log'
  have hcosts : costs.AtMost costs' := by
    intro level
    cases level <;> decide
  have ho : o.AtMost o' := ⟨by decide, by decide, by decide⟩
  obtain ⟨hradix, -, hmemory⟩ := latencies_follow_costs hcosts ho {} .simple log
  obtain ⟨-, hecpt, -⟩ := latencies_follow_costs hcosts ho {} .withWay log'
  have hrun : (settle {} .simple (RadixReducer.new costs) log).map
      (fun a => (a.reducer.latency.total.val, a.reducer.breakdown.memoryRequests))
        = .ok (982, 4) := by
    decide +kernel
  obtain ⟨a, ha, hvalues⟩ := map_eq_ok_iff.1 hrun
  simp only [Prod.mk.injEq] at hvalues
  obtain ⟨htotal, hrequests⟩ := hvalues
  refine ⟨?_, ?_, ?_⟩
  · have hrun' : (settle {} .simple (RadixReducer.new costs') log).map (·.records) = .ok 2 := by
      decide +kernel
    obtain ⟨_, hok', -⟩ := map_eq_ok_iff.1 hrun'
    obtain ⟨a', ha', hle⟩ := (hradix (not_overflows_of_ok hok')).of_ok ha
    exact ⟨a, a', ha, ha', htotal, hle⟩
  · have hrun : (settle {} .withWay (EcptReducer.new costs o) log').map
        (·.reducer.max.total.val) = .ok 592 := by
      decide +kernel
    have hrun' : (settle {} .withWay (EcptReducer.new costs' o') log').map (·.records)
        = .ok 2 := by
      decide +kernel
    obtain ⟨b, hb, hmax⟩ := map_eq_ok_iff.1 hrun
    obtain ⟨_, hok', -⟩ := map_eq_ok_iff.1 hrun'
    obtain ⟨b', hb', hle⟩ := (hecpt (not_overflows_of_ok hok')).of_ok hb
    exact ⟨b, b', hb, hb', hmax, hle⟩
  · have hrun' : (settle {} .simple (RadixReducer.new (costs.withMemory (.ofNat 50))) log).map
        (·.records) = .ok 2 := by
      decide +kernel
    obtain ⟨_, hok', -⟩ := map_eq_ok_iff.1 hrun'
    obtain ⟨a', ha', ⟨hbreakdown, hdifference⟩⟩ :=
      (hmemory (.ofNat 50) (not_overflows_of_ok ha) (not_overflows_of_ok hok')).of_ok ha
    refine ⟨a, a', ?_, ha', hbreakdown, ?_⟩
    · rw [reduceBytes_eq_settle, ha]
      rfl
    · rw [hdifference, hrequests]
      decide

end Reduction

end PageWalk
