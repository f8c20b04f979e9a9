/-
PageWalk/Proofs/Reduction/Accounting.lean

The statistics of radix walks account for one latency.

A walk is counted twice: by its cost in the histogram, and probe by probe in
the breakdown.  The histogram is balanced with the sums beside it after every
registration (`LatencyStats.Balanced`).  The breakdown is summed in another
order than the walks: the cost of one walk is the sum over all positions and
levels of what it adds there (`Record.walkLatency_eq`), and so the two orders
of summation give the same (`Breakdown.Counts.latency_eq`).

Neither lists anything without requests.  So what a position has in all is
not zero where something is listed, and every share that is told is a number
(`Breakdown.isNaN_percentage`).
-/
import PageWalk.Proofs.Reduction.Handling

namespace PageWalk

/-! ### Histograms and their sums -/

namespace LatencyStats

/-- The sums are those of the histogram. -/
structure Balanced (s : LatencyStats) : Prop where
  total : s.total.val = s.histogram.counts.total fun l n => l.val * n.val
  requests : s.requests.val = s.histogram.counts.total fun _ n => n.val

theorem Balanced.empty : LatencyStats.empty.Balanced := ⟨rfl, rfl⟩

theorem Balanced.register {s s' : LatencyStats} (h : s.Balanced) {latency n : Count}
    (hok : s.register latency n = .ok s') : s'.Balanced := by
  obtain ⟨hrequests, htotal, hhistogram⟩ := register_ok hok
  have hsum := Histogram.total_register hhistogram fun _ => 1
  simp only [Nat.one_mul] at hsum
  refine ⟨?_, ?_⟩
  · rw [htotal, h.total]
    exact (Histogram.total_register hhistogram id).symm
  · rw [hrequests, h.requests, hsum]

end LatencyStats

/-! ### Sums over positions and levels -/

/-- The sum of what `f` gives for each position of a walk and each level. -/
def overProbes (f : Nat → Level → Nat) : Nat :=
  ((List.range maxProbes).map fun p => (Level.all.map (f p)).sum).sum

theorem overProbes_add (f g : Nat → Level → Nat) :
    (overProbes fun p v => f p v + g p v) = overProbes f + overProbes g := by
  unfold overProbes
  simp only [List.sum_map_add]

theorem overProbes_mul_right (f : Nat → Level → Nat) (n : Nat) :
    (overProbes fun p v => f p v * n) = overProbes f * n := by
  unfold overProbes
  simp only [List.sum_map_mul_right]

namespace Record

variable {costs : Costs}

/-- The cost of a probe is what its level costs. -/
theorem probeCost_eq (costs : Costs) (probe : Option Level) :
    (costs.probeCost probe).val
      = (Level.all.map fun v => if probe = some v then (costs.cost v).val else 0).sum := by
  rcases probe with - | level
  · rfl
  · cases level <;> simp [Level.all, Costs.probeCost]

/-- The costs of some probes, summed over more positions than there are
probes. -/
theorem sum_probeCosts (costs : Costs) {probes : List (Option Level)} {n : Nat}
    (h : probes.length ≤ n) :
    (probes.map fun probe => (costs.probeCost probe).val).sum
      = ((List.range n).map fun p =>
          (Level.all.map fun v =>
            if probes[p]? = some (some v) then (costs.cost v).val else 0).sum).sum := by
  induction probes generalizing n with
  | nil => simp
  | cons probe probes ih =>
    obtain ⟨n, rfl⟩ := Nat.exists_eq_add_of_lt (Nat.lt_of_lt_of_le (Nat.succ_pos _) h)
    rw [Nat.zero_add] at h ⊢
    -- the first position has the first probe, and the others have the others
    rw [List.range_succ_eq_map, List.map_cons, List.sum_cons, List.map_cons, List.sum_cons,
      List.map_map, ih (Nat.le_of_succ_le_succ h), probeCost_eq]
    simp only [List.getElem?_cons_zero, Option.some.injEq, Function.comp_def, Nat.succ_eq_add_one,
      List.getElem?_cons_succ]

/-- **The cost of a walk** is the sum over all positions and levels of what
the walk adds there. -/
theorem walkLatency_eq {r : Record} (h : r.probes.length ≤ maxProbes) :
    r.walkLatency costs = overProbes fun p v =>
      if r.probes[p]? = some (some v) then (costs.cost v).val else 0 :=
  sum_probeCosts costs h

end Record

namespace Breakdown

/-- What the requests at all positions and levels cost. -/
def latency (costs : Costs) (b : Breakdown) : Nat :=
  overProbes fun p v => (costs.cost v).val * (b.frequency p v).val

/-- **Both orders of summation give the same**: the requests at all positions
and levels cost what the walks cost. -/
theorem Counts.latency_eq {records : List Record} {b : Breakdown} (h : b.Counts records)
    (hprobes : ∀ r ∈ records, r.probes.length ≤ maxProbes) (costs : Costs) :
    b.latency costs = Record.weighted (Record.walkLatency costs) records := by
  unfold latency
  simp only [h.frequency]
  clear h
  induction records with
  | nil => exact overProbes_mul_right (fun _ v => (costs.cost v).val) 0
  | cons r records ih =>
    rw [List.forall_mem_cons] at hprobes
    -- each position and level has what it had, and what the first walk adds there
    have hcons : ∀ (p : Nat) (v : Level), (costs.cost v).val *
          Record.requestsOf (fun r : Record => r.probes[p]? == some (some v)) (r :: records)
        = (if r.probes[p]? = some (some v) then (costs.cost v).val else 0) * r.frequency.val +
          (costs.cost v).val *
            Record.requestsOf (fun r : Record => r.probes[p]? == some (some v)) records := by
      intro p v
      unfold Record.requestsOf Record.requests
      by_cases hp : r.probes[p]? = some (some v)
      · rw [List.filter_cons_of_pos (by simpa using hp), if_pos hp, List.map_cons, List.sum_cons,
          Nat.mul_add]
      · rw [List.filter_cons_of_neg (by simpa using hp), if_neg hp, Nat.zero_mul, Nat.zero_add]
    simp only [hcons]
    rw [overProbes_add, overProbes_mul_right, ← Record.walkLatency_eq hprobes.1, ih hprobes.2]
    rfl

/-! ### Shares -/

/-- A share of something is a number. -/
theorem isNaN_percentage (part : Count) {whole : Count} (h : 0 < whole.val) :
    (percentage part whole).isNaN = false := by
  have hfits : ∀ n : Count, n.val < 2 ^ 1023 := fun n => n.val_lt.trans (by decide +kernel)
  apply Double.isNaN_div_ofNat _ h (hfits whole)
  exact Double.isNaN_mul_ofNat (by decide +kernel) (hfits part)

/-- What the levels of a position are told with: the requests at the position
are counted, and each level has some of them. -/
theorem exists_whole {b : Breakdown} (htidy : b.Tidy) (hfits : ∀ p, b.requestsAt p < 2 ^ 64)
    {levels : SortedMap Level Count} (hlevels : levels ∈ b.positions) {e : Level × Count}
    (he : e ∈ levels.entries) :
    ∃ whole, Counter.sum levels.values = .ok whole ∧ 0 < e.2.val ∧ e.2.val ≤ whole.val := by
  obtain ⟨p, hp⟩ := List.getElem?_of_mem hlevels
  have hlt := hfits p
  unfold requestsAt at hlt
  rw [hp, Option.elim_some] at hlt
  obtain ⟨whole, hwhole, hval⟩ := Counter.sum_of_lt levels.values
    (by unfold SortedMap.values; rw [List.map_map]; exact hlt)
  refine ⟨whole, hwhole, Nat.pos_of_ne_zero (htidy.positive levels hlevels e he), ?_⟩
  have hle := SortedMap.le_total (fun _ (n : Count) => n.val) (SortedMap.mem_entries_iff.1 he)
  rw [hval]
  unfold SortedMap.values
  rw [List.map_map]
  exact hle

end Breakdown

/-! ### All walks -/

namespace Reduction

variable {costs : Costs} {records : List Record} {r : RadixReducer}

theorem reached_balanced (h : Reached (RadixReducer.new costs) records r) :
    r.latency.Balanced := by
  induction h with
  | start => exact .empty
  | @taken _ s _ _ hreached hhandle ih =>
    obtain ⟨-, cost, latency, -, hlatency, hprobes⟩ := RadixReducer.handle_ok hhandle
    have htidy := (reached_radix hreached).1.tidy
    obtain ⟨-, hlatency', -⟩ :=
      RadixReducer.registerProbes_ok (r := { s with latency }) htidy hprobes
    rw [hlatency']
    exact ih.register hlatency
  | refused hreached hhandle ih =>
    obtain rfl := (reached_radix hreached).1.refused hhandle
    exact ih

/-- **The breakdown accounts for all latency.**  After any records, refused
ones included, the total latency is what the requests at all positions and
levels cost, and so is the sum of the latencies that the histogram lists; its
requests are all requests, of which no position has more.  Nothing is listed
without requests, so the breakdown can be told, and every share in it is one
of something. -/
theorem breakdown_accounts_for_latency (h : Reached (RadixReducer.new costs) records r) :
    r.latency.total.val = r.breakdown.latency costs ∧
    r.latency.total.val = (r.latency.histogram.counts.total fun l n => l.val * n.val) ∧
    r.latency.requests.val = (r.latency.histogram.counts.total fun _ n => n.val) ∧
    (r.breakdown.positions.length = maxProbes ∧
      ∀ p, r.breakdown.requestsAt p ≤ r.latency.requests.val) ∧
    (∀ e ∈ r.latency.histogram.counts.entries, e.2.val ≠ 0) ∧
    (∀ levels ∈ r.breakdown.positions, ∀ e ∈ levels.entries, e.2.val ≠ 0 ∧
      ∃ whole, Counter.sum levels.values = .ok whole ∧ e.2.val ≤ whole.val ∧ whole.val ≠ 0 ∧
        (Breakdown.percentage e.2 whole).isNaN = false) ∧
    ∃ text, r.breakdown.display = .ok text := by
  obtain ⟨hbounded, hcounts⟩ := reached_radix h
  obtain ⟨htotal, hrequests⟩ := reached_balanced h
  refine ⟨?_, htotal, hrequests, ⟨hbounded.tidy.length, hbounded.requestsAt_le⟩,
    hcounts.latency.histogram.positive, ?_, hbounded.display⟩
  · rw [hcounts.breakdown.latency_eq hcounts.probes costs]
    exact hcounts.latency.total
  · intro levels hlevels e he
    have hfits : ∀ p, r.breakdown.requestsAt p < 2 ^ 64 := fun p =>
      (hbounded.requestsAt_le p).trans_lt r.latency.requests.val_lt
    obtain ⟨whole, hwhole, hpos, hle⟩ :=
      Breakdown.exists_whole hbounded.tidy hfits hlevels he
    have hwhole' := hpos.trans_le hle
    exact ⟨hpos.ne', whole, hwhole, hle, hwhole'.ne', Breakdown.isNaN_percentage _ hwhole'⟩

/-- A full walk, a shorter one with an unknown label, one that never
occurred, and one that is refused. -/
theorem breakdown_accounts_for_latency_of_four_walks :
    let costs : Costs := ⟨.ofNat 0, .ofNat 4, .ofNat 14, .ofNat 54, .ofNat 1, .ofNat 200⟩
    let full : Record := ⟨[some .zero, some .zero, some .pwc, some .memory], .ofNat 497, none⟩
    let short : Record := ⟨[some .l1, none], .ofNat 3, none⟩
    let never : Record := ⟨[some .l2], .ofNat 0, none⟩
    ∃ r, Reached (RadixReducer.new costs) [full, short, never] r ∧
      r.breakdown.latency costs = 99909 ∧
      (r.latency.histogram.counts.total fun l n => l.val * n.val) = 99909 ∧
      (r.latency.histogram.counts.total fun _ n => n.val) = 500 ∧
      r.breakdown.requestsAt 1 = 497 := by
  intro costs full short never
  obtain ⟨r, hreached, hvalues⟩ :
      ∃ r, Reached (RadixReducer.new costs) [full, short, never] r ∧
        (r.latency.total.val, r.latency.requests.val, r.breakdown.requestsAt 1)
          = (99909, 500, 497) :=
    ⟨_, (((Reached.start.of_ok full (by decide +kernel)).of_ok short (by decide +kernel)).of_ok
        never (by decide +kernel)).of_error ⟨[none, none, none, none, none], .ofNat 1, none⟩
        (c := .probeOverflow 5 maxProbes) (by decide +kernel), by decide +kernel⟩
  simp only [Prod.mk.injEq] at hvalues
  obtain ⟨htotal, hrequests, hposition⟩ := hvalues
  obtain ⟨hbreakdown, hlatency, hhistogram, -⟩ := breakdown_accounts_for_latency hreached
  exact ⟨r, hreached, hbreakdown.symm.trans htotal, hlatency.symm.trans htotal,
    hhistogram.symm.trans hrequests, hposition⟩

end Reduction

end PageWalk
