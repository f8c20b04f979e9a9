/-
PageWalk/Proofs/Reduction/Ecpt.lean

The reduction of cuckoo walks is exact.

What one walk costs under each model is said of its record (`maxLatency`,
`correctLatency`, `parallelLatency`).  `EcptReducer.Counts` says that a
reducer holds exactly the latencies of a list of records; taking one more
record preserves it (`Counts.take`), so a whole trace does
(`reduce_ecpt_exact`).
-/
import PageWalk.Proofs.Costs
import PageWalk.Proofs.Reduction.Run
import PageWalk.Proofs.Statistics.Latency
import PageWalk.Reduction.Ecpt

namespace PageWalk

/-! ### The latencies of one walk -/

namespace Record

/-- The cost of the slowest probe. -/
def topCost (costs : Costs) (r : Record) : Nat := (r.probeCosts costs).foldr max 0

/-- The cost of the probe that held the translation. -/
def wayCost (costs : Costs) (r : Record) : Nat :=
  (r.way.bind fun way => (r.probeCosts costs)[way]?).getD 0

/-- The latency of a walk that waits for the slowest probe. -/
def maxLatency (costs : Costs) (o : Overheads) (r : Record) : Nat :=
  r.topCost costs + o.serialCycles

/-- The latency of a walk that goes straight to the correct probe. -/
def correctLatency (costs : Costs) (o : Overheads) (r : Record) : Nat :=
  r.wayCost costs + o.serialCycles

/-- The same, with both walk caches looked up at once. -/
def parallelLatency (costs : Costs) (o : Overheads) (r : Record) : Nat :=
  r.wayCost costs + o.parallelCycles

/-- What going straight to the correct probe saves. -/
def savedCost (costs : Costs) (r : Record) : Nat := r.topCost costs - r.wayCost costs

end Record

namespace Counter

/-- The largest of some counters; zero if there are none. -/
def largest (cs : List Count) : Nat := (cs.map (·.val)).foldr Nat.max 0

theorem foldl_max (cs : List Count) (c : Count) :
    (cs.foldl Counter.max c).val = Nat.max c.val (largest cs) := by
  induction cs generalizing c with
  | nil => exact (Nat.max_zero _).symm
  | cons c' cs ih =>
    rw [List.foldl_cons, ih, val_max]
    exact Nat.max_assoc ..

theorem val_foldl_max (cs : List Count) : (cs.foldl Counter.max 0).val = largest cs :=
  (foldl_max cs 0).trans (Nat.zero_max _)

theorem largest_le_iff {cs : List Count} {n : Nat} : largest cs ≤ n ↔ ∀ c ∈ cs, c.val ≤ n := by
  induction cs with
  | nil => simp [largest]
  | cons c cs ih => simpa [largest] using fun _ => ih

theorem le_largest {cs : List Count} {c : Count} (h : c ∈ cs) : c.val ≤ largest cs :=
  largest_le_iff.1 le_rfl c h

end Counter

namespace Record

theorem topCost_eq (costs : Costs) (r : Record) :
    r.topCost costs = Counter.largest (r.probes.map costs.probeCost) := by
  unfold topCost probeCosts Counter.largest
  rw [List.map_map]
  rfl

theorem wayCost_eq {costs : Costs} {r : Record} {way : Nat} {c : Count} (hway : r.way = some way)
    (hcost : (r.probes.map costs.probeCost)[way]? = some c) : r.wayCost costs = c.val := by
  rw [List.getElem?_map] at hcost
  obtain ⟨probe, hprobe, rfl⟩ := Option.map_eq_some_iff.1 hcost
  simp [wayCost, probeCosts, hway, hprobe]

end Record

namespace WayLatencies

/-! ### What the latencies are, and when there are any -/

section

variable {probeCosts : List Count} {way : Nat} {o : Overheads}

theorem of?_values {l : WayLatencies} (hok : of? probeCosts way o = .ok (some l)) :
    probeCosts[way]? = some l.correctRaw ∧
      l.maxRaw.val = Counter.largest probeCosts ∧
      l.max.val = l.maxRaw.val + o.serialCycles ∧
      l.correct.val = l.correctRaw.val + o.serialCycles ∧
      l.parallel.val = l.correctRaw.val + o.parallelCycles := by
  unfold of? at hok
  split at hok
  · cases hok
  · rename_i raw hraw
    obtain ⟨serial, hserial, hok⟩ := bind_eq_ok_iff.1 hok
    obtain ⟨max, hmax, hok⟩ := bind_eq_ok_iff.1 hok
    obtain ⟨serial', hserial', hok⟩ := bind_eq_ok_iff.1 hok
    obtain ⟨correct, hcorrect, hok⟩ := bind_eq_ok_iff.1 hok
    obtain ⟨parallel, hparallel, hok⟩ := bind_eq_ok_iff.1 hok
    obtain ⟨sum, hsum, hok⟩ := bind_eq_ok_iff.1 hok
    cases hok
    refine ⟨hraw, ?_, ?_, ?_, ?_⟩
    · exact Counter.val_foldl_max probeCosts
    · rw [Counter.plus_eq_ok_iff.1 hmax, Overheads.serial_ok hserial]
    · rw [Counter.plus_eq_ok_iff.1 hcorrect, Overheads.serial_ok hserial']
    · rw [Counter.plus_eq_ok_iff.1 hsum, Overheads.parallel_ok hparallel]

/-- The correct probe costs no more than the slowest. -/
theorem correctRaw_le_maxRaw {l : WayLatencies} (hok : of? probeCosts way o = .ok (some l)) :
    l.correctRaw.val ≤ l.maxRaw.val := by
  obtain ⟨hraw, hmax, -⟩ := of?_values hok
  rw [hmax]
  exact Counter.le_largest (List.mem_of_getElem? hraw)

theorem of?_of_length_le (h : probeCosts.length ≤ way) : of? probeCosts way o = .ok none := by
  unfold of?
  rw [List.getElem?_eq_none h]

/-- The latency of the slowest probe is the largest of the sums. -/
theorem of?_of_lt (hway : way < probeCosts.length)
    (hlt : Counter.largest probeCosts + o.serialCycles < 2 ^ 64) :
    ∃ l, of? probeCosts way o = .ok (some l) := by
  have hraw := Counter.le_largest (List.getElem_mem hway)
  have htop := Counter.val_foldl_max probeCosts
  have hgained := Overheads.parallelCycles_add_gainedCycles (o := o)
  obtain ⟨serial, hserial, hserial'⟩ := Overheads.serial_of_lt (o := o) (by omega)
  obtain ⟨parallel, hparallel, hparallel'⟩ := Overheads.parallel_of_lt (o := o) (by omega)
  obtain ⟨max, hmax, -⟩ := Counter.plus_of_lt (a := probeCosts.foldl Counter.max 0) (b := serial)
    (by omega)
  obtain ⟨correct, hcorrect, -⟩ := Counter.plus_of_lt (a := probeCosts[way]) (b := serial)
    (by omega)
  obtain ⟨sum, hsum, -⟩ := Counter.plus_of_lt (a := probeCosts[way]) (b := parallel) (by omega)
  unfold of?
  rw [List.getElem?_eq_getElem hway, hserial, hparallel]
  exact ⟨⟨_, _, max, correct, sum⟩, by simp only [bind, Except.bind, hmax, hcorrect, hsum]; rfl⟩

theorem of?_of_le (hway : way < probeCosts.length)
    (hle : 2 ^ 64 ≤ Counter.largest probeCosts + o.serialCycles) :
    of? probeCosts way o = .error .sumOverflow := by
  unfold of?
  rw [List.getElem?_eq_getElem hway]
  rcases Nat.lt_or_ge o.serialCycles (2 ^ 64) with hserial | hserial
  · obtain ⟨serial, hok, hval⟩ := Overheads.serial_of_lt hserial
    have hmax : (probeCosts.foldl Counter.max 0).plus serial = .error .sumOverflow := by
      apply Counter.plus_of_le
      rwa [Counter.val_foldl_max, hval]
    simp only [hok, hmax, bind, Except.bind]
  · simp only [Overheads.serial_of_le hserial, bind, Except.bind]

end

/-- The latencies of a walk whose correct way is one of its probes. -/
theorem of?_ok {costs : Costs} {o : Overheads} {r : Record} {way : Nat} {l : WayLatencies}
    (hway : r.way = some way) (hok : of? (r.probes.map costs.probeCost) way o = .ok (some l)) :
    way < r.probes.length ∧ l.maxRaw.val = r.topCost costs ∧ l.correctRaw.val = r.wayCost costs ∧
      l.max.val = r.maxLatency costs o ∧ l.correct.val = r.correctLatency costs o ∧
      l.parallel.val = r.parallelLatency costs o := by
  obtain ⟨hraw, htop, hmax, hcorrect, hparallel⟩ := of?_values hok
  have hlt : way < r.probes.length := by
    obtain ⟨h, -⟩ := List.getElem?_eq_some_iff.1 hraw
    rwa [List.length_map] at h
  have htop' : l.maxRaw.val = r.topCost costs := htop.trans (r.topCost_eq costs).symm
  have hcost : l.correctRaw.val = r.wayCost costs := (Record.wayCost_eq hway hraw).symm
  rw [htop'] at hmax
  rw [hcost] at hcorrect hparallel
  exact ⟨hlt, htop', hcost, hmax, hcorrect, hparallel⟩

end WayLatencies

/-! ### All walks -/

namespace EcptReducer

/-- The reducer holds the latencies of the records, and each of them has a
correct way. -/
structure Counts (costs : Costs) (o : Overheads) (records : List Record) (r : EcptReducer) :
    Prop where
  costs_eq : r.costs = costs
  overheads_eq : r.overheads = o
  ways : ∀ record ∈ records, ∃ way, record.way = some way ∧ way < record.probes.length
  max : r.max.Counts (Record.maxLatency costs o) records
  correct : r.correct.Counts (Record.correctLatency costs o) records
  parallel : r.parallel.Counts (Record.parallelLatency costs o) records
  saved : r.savedLatency.val = Record.weighted (Record.savedCost costs) records

variable {costs : Costs} {o : Overheads} {records : List Record} {r r' : EcptReducer}

theorem Counts.new (costs : Costs) (o : Overheads) :
    Counts costs o [] (EcptReducer.new costs o) :=
  ⟨rfl, rfl, nofun, .empty _, .empty _, .empty _, rfl⟩

/-- What registering the latencies of a walk does, if it succeeds. -/
theorem register_ok {l : WayLatencies} {n : Count} (hok : register l n r = (.ok (), r')) :
    r'.costs = r.costs ∧ r'.overheads = r.overheads ∧
      r.max.register l.max n = .ok r'.max ∧ r.correct.register l.correct n = .ok r'.correct ∧
      r.parallel.register l.parallel n = .ok r'.parallel ∧
      r'.savedLatency.val = r.savedLatency.val + (l.maxRaw.val - l.correctRaw.val) * n.val := by
  unfold register at hok
  rcases hmax : r.max.register l.max n with e | max
  · simp only [hmax] at hok; cases hok
  rcases hcorrect : r.correct.register l.correct n with e | correct
  · simp only [hmax, hcorrect] at hok; cases hok
  rcases hparallel : r.parallel.register l.parallel n with e | parallel
  · simp only [hmax, hcorrect, hparallel] at hok; cases hok
  simp only [hmax, hcorrect, hparallel] at hok
  split at hok
  · -- something is saved
    rcases hsaved : r.savedLatency.plus (Counter.mul l.saved n) with e | saved
    · simp only [hsaved] at hok; cases hok
    · simp only [hsaved] at hok
      cases hok
      exact ⟨rfl, rfl, rfl, rfl, rfl, Counter.plus_eq_ok_iff.1 hsaved⟩
  · -- nothing is saved
    rename_i hle
    cases hok
    refine ⟨rfl, rfl, rfl, rfl, rfl, ?_⟩
    rw [Nat.sub_eq_zero_of_le (Nat.le_of_not_lt hle), Nat.zero_mul, Nat.add_zero]

/-- A record that is taken has latencies, and these are registered. -/
theorem handle_ok {record : Record} (hok : handle record r = (.ok (), r')) :
    ∃ way l, record.way = some way ∧
      WayLatencies.of? (record.probes.map r.costs.probeCost) way r.overheads = .ok (some l) ∧
      register l record.frequency r = (.ok (), r') := by
  unfold handle at hok
  split at hok
  · -- a record without a way is refused
    cases hok
  · rename_i way hway
    dsimp only at hok
    split at hok
    · cases hok
    · cases hok
    · rename_i l hl
      exact ⟨way, l, hway, hl, hok⟩

/-- **Taking one more record** keeps the latencies those of the records. -/
theorem Counts.take (h : Counts costs o records r) {record : Record}
    (hok : Reduction.take r record = .ok r') : Counts costs o (records ++ [record]) r' := by
  obtain ⟨way, l, hway, hl, hregister⟩ := handle_ok (Reduction.take_ok hok)
  rw [h.costs_eq, h.overheads_eq] at hl
  obtain ⟨hlt, htop, hcost, hmax, hcorrect, hparallel⟩ := WayLatencies.of?_ok hway hl
  obtain ⟨hcosts, hoverheads, hmax', hcorrect', hparallel', hsaved⟩ := register_ok hregister
  refine ⟨hcosts.trans h.costs_eq, hoverheads.trans h.overheads_eq, ?_,
    h.max.register hmax hmax', h.correct.register hcorrect hcorrect',
    h.parallel.register hparallel hparallel', ?_⟩
  · rw [List.forall_mem_append, List.forall_mem_singleton]
    exact ⟨h.ways, way, hway, hlt⟩
  · rw [hsaved, h.saved, htop, hcost, Record.weighted_append]
    rfl

end EcptReducer

/-! ### Whole traces -/

namespace Reduction

open Record (requests weighted maxLatency correctLatency parallelLatency savedCost)

/-- **The reduction of cuckoo walks is exact.**  If it succeeds, every line
of the section is read as a record, and what it comes to is what these say:
their number and their issues, their requests, the histograms of their
latencies under the three models, and the means, which are quotients of
the exact sums and no numbers exactly if there are no requests. -/
theorem reduce_ecpt_exact (costs : Costs) (o : Overheads) (mode : Mode) {log : Bytes}
    {reader : Log.Reader} {out : Output} (hopen : Log.Reader.ofLog .withWay log = .ok reader)
    (hok : (reduce mode reader (EcptReducer.new costs o)).1 = .ok out) :
    ∃ text parsed records, Utf8.decode? log = some text ∧
      (Log.sectionLines .withWay text).mapM (fun line => Record.parse .withWay line.text)
        = .ok parsed ∧
      records = parsed.map (·.record) ∧
      (∀ r ∈ records, ∃ way, r.way = some way ∧ way < r.probes.length) ∧
      out.records = (Log.sectionLines .withWay text).length ∧
      out.issues.Counts (parsed.flatMap (·.issues)) ∧
      out.statistics.breakdown = none ∧
      (∃ max correct parallel, out.statistics.histograms.entries
          = [("correct", correct), ("max", max), ("parallel", parallel)] ∧
        max.Counts (maxLatency costs o) records ∧
        correct.Counts (correctLatency costs o) records ∧
        parallel.Counts (parallelLatency costs o) records) ∧
      ∃ summary, out.statistics.summary = .ecpt summary ∧
        summary.totalRequests.val = requests records ∧
        summary.totalSavedLatency.val = weighted (savedCost costs) records ∧
        summary.meanMaxLatency
          = Float.ofNat (weighted (maxLatency costs o) records) / Float.ofNat (requests records) ∧
        summary.meanCorrectLatency
          = Float.ofNat (weighted (correctLatency costs o) records) /
            Float.ofNat (requests records) ∧
        summary.meanParallelLatency
          = Float.ofNat (weighted (parallelLatency costs o) records) /
            Float.ofNat (requests records) ∧
        summary.averageReduction
          = Float.ofNat (weighted (savedCost costs) records) / Float.ofNat (requests records) ∧
        ∀ mean ∈ [summary.meanMaxLatency, summary.meanCorrectLatency,
            summary.meanParallelLatency, summary.averageReduction],
          mean.isNaN = true ↔ requests records = 0 := by
  obtain ⟨text, parsed, final, htext, hparsed, hrecords, htally, htakes, hstatistics⟩ :=
    reduce_ok hopen hok
  have hcounts : final.Counts costs o (parsed.map (·.record)) :=
    takeAll_induction (P := fun records r => EcptReducer.Counts costs o records r)
      (.new costs o) (fun _ _ _ _ h htake => h.take htake) htakes
  -- the saved latency has no `LatencyStats` of its own, but is a sum over requests too
  have hzero : final.correct.requests.val = 0 → final.savedLatency.val = 0 := by
    intro hzero
    rw [hcounts.correct.requests] at hzero
    rw [hcounts.saved]
    exact LatencyStats.weighted_eq_zero hzero
  have hreduction := LatencyStats.meanOf_eq hzero
  rw [hcounts.saved, hcounts.correct.requests] at hreduction
  refine ⟨text, parsed, _, htext, hparsed, rfl, hcounts.ways, hrecords, htally, ?_, ?_, ?_⟩
  · rw [hstatistics]; rfl
  · rw [hstatistics]
    exact ⟨_, _, _, rfl, hcounts.max.histogram, hcounts.correct.histogram,
      hcounts.parallel.histogram⟩
  · rw [hstatistics]
    refine ⟨final.summary, rfl, hcounts.correct.requests, hcounts.saved, hcounts.max.mean_eq.1,
      hcounts.correct.mean_eq.1, hcounts.parallel.mean_eq.1, hreduction.1, ?_⟩
    intro mean hmean
    simp only [List.mem_cons, List.not_mem_nil, or_false] at hmean
    rcases hmean with rfl | rfl | rfl | rfl
    · exact hcounts.max.mean_eq.2
    · exact hcounts.correct.mean_eq.2
    · exact hcounts.parallel.mean_eq.2
    · exact hreduction.2

/-- Four walks: one that saves, one with an unknown label, one that never
occurred, and one without a readable way. -/
theorem reduce_ecpt_exact_of_four_walks :
    let costs : Costs := ⟨.ofNat 0, .ofNat 4, .ofNat 14, .ofNat 54, .ofNat 1, .ofNat 200⟩
    let o : Overheads := ⟨.ofNat 2, .ofNat 1, .ofNat 3⟩
    let log := Utf8.encode ("~~~~~~ full stats with way ~~~~~~\nL1,LLC,MEMORY,1\t5\n" ++
      "L2,L3,0\t7\n\nMEMORY,L1,0\t0\nL1,x\r\n").toList
    ∃ reader out records, Log.Reader.ofLog .withWay log = .ok reader ∧
      (reduce {} reader (EcptReducer.new costs o)).1 = .ok out ∧
      out.records = 4 ∧ requests records = 12 ∧ weighted (savedCost costs) records = 730 ∧
      ∃ correct, ("correct", correct) ∈ out.statistics.histograms.entries ∧
        correct.Counts (correctLatency costs o) records := by
  intro costs o log
  have hrun : (Log.Reader.ofLog .withWay log >>= fun reader =>
      (reduce {} reader (EcptReducer.new costs o)).1.map fun out =>
        (out.records, match out.statistics.summary with
          | .ecpt s => (s.totalRequests.val, s.totalSavedLatency.val)
          | .radix _ => (0, 0))) = .ok (4, 12, 730) := by
    decide +kernel
  obtain ⟨reader, hopen, hrun⟩ := bind_eq_ok_iff.1 hrun
  obtain ⟨out, hok, hout⟩ := map_eq_ok_iff.1 hrun
  obtain ⟨text, parsed, records, -, -, -, -, -, -, -, ⟨max, correct, parallel, hentries, -,
    hcorrect, -⟩, summary, hsummary, hrequests, hsaved, -⟩ :=
    reduce_ecpt_exact costs o {} hopen hok
  rw [hsummary] at hout
  simp only [Prod.mk.injEq] at hout
  obtain ⟨hrecords, htotal, hsaved'⟩ := hout
  refine ⟨reader, out, records, hopen, hok, hrecords, hrequests ▸ htotal, hsaved ▸ hsaved',
    correct, ?_, hcorrect⟩
  rw [hentries]
  exact List.mem_cons_self

end Reduction

end PageWalk
