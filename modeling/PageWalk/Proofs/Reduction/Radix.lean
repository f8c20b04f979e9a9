/-
PageWalk/Proofs/Reduction/Radix.lean

The reduction of radix walks is exact.

The cost of a walk is the sum of the costs of its probes
(`Record.walkLatency`).  `RadixReducer.Counts` says that a reducer holds
exactly the latencies and the probes of a list of records; taking one more
record preserves it (`Counts.take`), so a whole trace does
(`reduce_radix_exact`).  Inside a record the probes are broken down one by
one, and `registerProbes_ok` says by induction on them what all of them add.
-/
import PageWalk.Proofs.Costs
import PageWalk.Proofs.Reduction.Run
import PageWalk.Proofs.Statistics.Breakdown
import PageWalk.Reduction.Radix

namespace PageWalk

/-! ### The cost of one walk -/

/-- The latency of a radix walk, whose probes are made one after the other. -/
def Record.walkLatency (costs : Costs) (r : Record) : Nat := (r.probeCosts costs).sum

theorem walkCost_ok {costs : Costs} {r : Record} {c : Count}
    (hok : walkCost costs r.probes = .ok c) : c.val = r.walkLatency costs := by
  rw [Counter.foldlM_plus_ok hok, List.map_map]
  exact Nat.zero_add _

theorem walkCost_of_lt {costs : Costs} {r : Record} (h : r.walkLatency costs < 2 ^ 64) :
    ∃ c, walkCost costs r.probes = .ok c := by
  obtain ⟨c, hc, -⟩ := Counter.sum_of_lt (r.probes.map costs.probeCost)
    (by rw [List.map_map]; exact h)
  exact ⟨c, hc⟩

theorem walkCost_of_le {costs : Costs} {r : Record} (h : 2 ^ 64 ≤ r.walkLatency costs) :
    walkCost costs r.probes = .error .sumOverflow :=
  Counter.sum_of_le (by rw [List.map_map]; exact h)

namespace RadixReducer

/-! ### The probes of one walk -/

/-- Of the probes from `position` on, the first stands there and the others
further on. -/
theorem probe_cons_iff {probe : Option Level} {probes : List (Option Level)} {position p : Nat}
    {v : Level} :
    position ≤ p ∧ (probe :: probes)[p - position]? = some (some v) ↔
      p = position ∧ probe = some v ∨
        position + 1 ≤ p ∧ probes[p - (position + 1)]? = some (some v) := by
  rcases lt_trichotomy p position with hlt | rfl | hlt
  · constructor
    · rintro ⟨hle, -⟩
      omega
    · rintro (⟨heq, -⟩ | ⟨hle, -⟩) <;> omega
  · rw [Nat.sub_self, List.getElem?_cons_zero, Option.some.injEq]
    constructor
    · rintro ⟨-, h⟩
      exact Or.inl ⟨rfl, h⟩
    · rintro (⟨-, h⟩ | ⟨hle, -⟩)
      · exact ⟨le_rfl, h⟩
      · omega
  · rw [show p - position = p - (position + 1) + 1 by omega, List.getElem?_cons_succ]
    constructor
    · rintro ⟨-, h⟩
      exact Or.inr ⟨hlt, h⟩
    · rintro (⟨heq, -⟩ | ⟨-, h⟩)
      · omega
      · exact ⟨hlt.le, h⟩

/-- Breaking down the probes from `position` on adds to each of them, and
changes nothing else. -/
theorem registerProbes_ok {n : Count} {position : Nat} {probes : List (Option Level)}
    {r r' : RadixReducer} (htidy : r.breakdown.Tidy)
    (hok : registerProbes n position probes r = (.ok (), r')) :
    r'.costs = r.costs ∧ r'.latency = r.latency ∧ r'.breakdown.Tidy ∧
      ∀ p v, (r'.breakdown.frequency p v).val = (r.breakdown.frequency p v).val +
        if position ≤ p ∧ probes[p - position]? = some (some v) then n.val else 0 := by
  induction probes generalizing position r with
  | nil =>
    obtain rfl : r = r' := congrArg Prod.snd hok
    refine ⟨rfl, rfl, htidy, ?_⟩
    intro p v
    rw [if_neg fun h => nomatch h.2]
    rfl
  | cons probe probes ih =>
    cases probe with
    | none =>
      -- an unknown label keeps its position, and nothing is added there
      obtain ⟨hcosts, hlatency, htidy', hfrequency⟩ := ih htidy hok
      refine ⟨hcosts, hlatency, htidy', ?_⟩
      intro p v
      rw [hfrequency p v]
      simp only [probe_cons_iff, reduceCtorEq, and_false, false_or]
    | some level =>
      unfold registerProbes at hok
      rcases hregister : r.breakdown.register position level n with e | b
      · simp only [hregister] at hok; cases hok
      · simp only [hregister] at hok
        obtain ⟨hcosts, hlatency, htidy', hfrequency⟩ :=
          ih (r := { r with breakdown := b }) (htidy.register hregister) hok
        refine ⟨hcosts, hlatency, htidy', ?_⟩
        intro p v
        rw [hfrequency p v, Breakdown.register_ok hregister p v, Nat.add_assoc]
        simp only [probe_cons_iff, Option.some.injEq]
        -- only one of the two can be at `p`
        by_cases hp : p = position
        · subst hp
          simp [eq_comm]
        · simp [hp]

/-! ### All walks -/

/-- The reducer holds the latencies and the probes of the records, and none
of them has too many probes. -/
structure Counts (costs : Costs) (records : List Record) (r : RadixReducer) : Prop where
  costs_eq : r.costs = costs
  probes : ∀ record ∈ records, record.probes.length ≤ maxProbes
  latency : r.latency.Counts (Record.walkLatency costs) records
  breakdown : r.breakdown.Counts records

variable {costs : Costs} {records : List Record} {r r' : RadixReducer}

theorem Counts.new (costs : Costs) : Counts costs [] (RadixReducer.new costs) :=
  ⟨rfl, nofun, .empty _, .empty⟩

/-- A record that is taken has a cost; this is registered, and then the
probes are. -/
theorem handle_ok {record : Record} (hok : handle record r = (.ok (), r')) :
    record.probes.length ≤ maxProbes ∧ ∃ cost latency,
      walkCost r.costs record.probes = .ok cost ∧
      r.latency.register cost record.frequency = .ok latency ∧
      registerProbes record.frequency 0 record.probes { r with latency } = (.ok (), r') := by
  unfold handle at hok
  split at hok
  · -- a walk of too many probes is refused
    cases hok
  · rename_i hlength
    rcases hcost : walkCost r.costs record.probes with e | cost
    · simp only [hcost] at hok; cases hok
    rcases hlatency : r.latency.register cost record.frequency with e | latency
    · simp only [hcost, hlatency] at hok; cases hok
    simp only [hcost, hlatency] at hok
    exact ⟨Nat.le_of_not_lt hlength, cost, latency, rfl, hlatency, hok⟩

/-- **Taking one more record** keeps the latencies and the probes those of
the records. -/
theorem Counts.take (h : Counts costs records r) {record : Record}
    (hok : Reduction.take r record = .ok r') : Counts costs (records ++ [record]) r' := by
  obtain ⟨hlength, cost, latency, hcost, hlatency, hprobes⟩ := handle_ok (Reduction.take_ok hok)
  obtain ⟨hcosts, hlatency', htidy, hfrequency⟩ :=
    registerProbes_ok (r := { r with latency }) h.breakdown.tidy hprobes
  rw [h.costs_eq] at hcost
  refine ⟨hcosts.trans h.costs_eq, ?_, ?_, htidy, ?_⟩
  · rw [List.forall_mem_append, List.forall_mem_singleton]
    exact ⟨h.probes, hlength⟩
  · rw [hlatency']
    exact h.latency.register (walkCost_ok hcost) hlatency
  · intro p v
    rw [hfrequency p v, Record.requestsOf_append]
    show (r.breakdown.frequency p v).val + _ = _
    rw [h.breakdown.frequency, Nat.sub_zero]
    simp only [Nat.zero_le, true_and, beq_iff_eq]

end RadixReducer

/-! ### Whole traces -/

namespace Reduction

open Record (requests weighted walkLatency)

/-- **The reduction of radix walks is exact.**  If it succeeds, every line
of the section is read as a record, and what it comes to is what these say:
their number and their issues, their requests, the histogram of their
latencies, the levels of their probes position by position, and the mean,
which is the quotient of the exact sums and no number exactly if there are
no requests. -/
theorem reduce_radix_exact (costs : Costs) (mode : Mode) {log : Bytes} {reader : Log.Reader}
    {out : Output} (hopen : Log.Reader.ofLog .simple log = .ok reader)
    (hok : (reduce mode reader (RadixReducer.new costs)).1 = .ok out) :
    ∃ text parsed records, Utf8.decode? log = some text ∧
      (Log.sectionLines .simple text).mapM (fun line => Record.parse .simple line.text)
        = .ok parsed ∧
      records = parsed.map (·.record) ∧
      (∀ r ∈ records, r.probes.length ≤ maxProbes) ∧
      out.records = (Log.sectionLines .simple text).length ∧
      out.issues.Counts (parsed.flatMap (·.issues)) ∧
      (∃ latency, out.statistics.histograms.entries = [("latency", latency)] ∧
        latency.Counts (walkLatency costs) records) ∧
      (∃ breakdown, out.statistics.breakdown = some breakdown ∧ breakdown.Counts records) ∧
      ∃ summary, out.statistics.summary = .radix summary ∧
        summary.totalRequests.val = requests records ∧
        summary.meanLatency
          = Float.ofNat (weighted (walkLatency costs) records) / Float.ofNat (requests records) ∧
        (summary.meanLatency.isNaN = true ↔ requests records = 0) := by
  obtain ⟨text, parsed, final, htext, hparsed, hrecords, htally, htakes, hstatistics⟩ :=
    reduce_ok hopen hok
  have hcounts : final.Counts costs (parsed.map (·.record)) :=
    takeAll_induction (P := fun records r => RadixReducer.Counts costs records r)
      (.new costs) (fun _ _ _ _ h htake => h.take htake) htakes
  refine ⟨text, parsed, _, htext, hparsed, rfl, hcounts.probes, hrecords, htally, ?_, ?_, ?_⟩
  · rw [hstatistics]
    exact ⟨_, rfl, hcounts.latency.histogram⟩
  · rw [hstatistics]
    exact ⟨_, rfl, hcounts.breakdown⟩
  · rw [hstatistics]
    exact ⟨final.summary, rfl, hcounts.latency.requests, hcounts.latency.mean_eq⟩

/-- Three walks: one full, one with an unknown label and one that never
occurred.  The unknown label keeps its position. -/
theorem reduce_radix_exact_of_three_walks :
    let costs : Costs := ⟨.ofNat 0, .ofNat 4, .ofNat 14, .ofNat 54, .ofNat 1, .ofNat 200⟩
    let log := Utf8.encode ("~~~~~~~~~~~~~~~\nZERO,ZERO,PWC,MEMORY,   497\n" ++
      " L1,x,MEMORY,3\r\n\nL1,0\n~~~\nL1,1\n").toList
    ∃ reader out records, Log.Reader.ofLog .simple log = .ok reader ∧
      (reduce {} reader (RadixReducer.new costs)).1 = .ok out ∧
      out.records = 3 ∧ requests records = 500 ∧
      ∃ breakdown, out.statistics.breakdown = some breakdown ∧ breakdown.Counts records ∧
        (breakdown.frequency 2 .memory).val = 3 ∧ (breakdown.frequency 0 .l1).val = 3 := by
  intro costs log
  have hrun : (Log.Reader.ofLog .simple log >>= fun reader =>
      (reduce {} reader (RadixReducer.new costs)).1.map fun out =>
        (out.records, out.statistics.summary.totalRequests.val,
          out.statistics.breakdown.map fun b =>
            ((b.frequency 2 .memory).val, (b.frequency 0 .l1).val)))
        = .ok (3, 500, some (3, 3)) := by
    decide +kernel
  obtain ⟨reader, hopen, hrun⟩ := bind_eq_ok_iff.1 hrun
  obtain ⟨out, hok, hout⟩ := map_eq_ok_iff.1 hrun
  obtain ⟨text, parsed, records, -, -, -, -, -, -, -, ⟨breakdown, hbreakdown, hcounts⟩,
    summary, hsummary, hrequests, -⟩ := reduce_radix_exact costs {} hopen hok
  rw [hsummary, hbreakdown] at hout
  simp only [Option.map_some, Prod.mk.injEq, Option.some.injEq] at hout
  obtain ⟨hrecords, htotal, hmemory, hl1⟩ := hout
  exact ⟨reader, out, records, hopen, hok, hrecords, hrequests ▸ htotal, breakdown, hbreakdown,
    hcounts, hmemory, hl1⟩

end Reduction

end PageWalk
