/-
PageWalk/Proofs/Reduction/Overflow.lean

The one sum of a reduction that can overflow is the cost of a single record.

The other sums run over all records, with frequencies as large as a counter
holds.  They are bounded by the number of requests, and that one is looked
after (`overflows_only_by_cost`).
-/
import PageWalk.Proofs.Reduction.Handling

namespace PageWalk

theorem RadixReducer.Bounded.overflow_iff {r : RadixReducer} (h : r.Bounded) (record : Record) :
    (handle record r).1 = .error .sumOverflow ↔
      record.probes.length ≤ maxProbes ∧ 2 ^ 64 ≤ record.walkLatency r.costs := by
  have hhandled := h.handled record
  generalize handle record r = answer at hhandled
  cases hhandled with
  | tooDeep hdeep => exact iff_of_false nofun fun hle => Nat.not_lt.2 hle.1 hdeep
  | tooLong hdeep hlong => exact iff_of_true rfl ⟨hdeep, hlong⟩
  | tooMany _ hfits => exact iff_of_false nofun fun hlong => Nat.not_lt.2 hlong.2 hfits
  | taken _ hfits => exact iff_of_false nofun fun hlong => Nat.not_lt.2 hlong.2 hfits

theorem EcptReducer.Bounded.overflow_iff {r : EcptReducer} (h : r.Bounded) (record : Record) :
    (handle record r).1 = .error .sumOverflow ↔
      (∃ way, record.way = some way ∧ way < record.probes.length) ∧
        2 ^ 64 ≤ record.maxLatency r.costs r.overheads := by
  have hhandled := h.handled record
  generalize handle record r = answer at hhandled
  cases hhandled with
  | noWay hway =>
    refine iff_of_false nofun ?_
    rintro ⟨⟨way, hsome, -⟩, -⟩
    rw [hway] at hsome
    cases hsome
  | badWay hway hge =>
    refine iff_of_false nofun ?_
    rintro ⟨⟨way, hsome, hlt⟩, -⟩
    obtain rfl := Option.some.inj (hway.symm.trans hsome)
    exact Nat.not_lt.2 hge hlt
  | tooLong hway hlt hlong => exact iff_of_true rfl ⟨⟨_, hway, hlt⟩, hlong⟩
  | tooMany _ _ hfits => exact iff_of_false nofun fun hlong => Nat.not_lt.2 hlong.2 hfits
  | taken _ _ hfits => exact iff_of_false nofun fun hlong => Nat.not_lt.2 hlong.2 hfits

namespace Reduction

/-- **Only the cost of a single record can overflow.**  After any records,
refused ones included, all sums of a reducer are bounded by its requests, and
the text of the breakdown can be told.  Handing over one more record makes a
sum overflow exactly if the record is not refused for its shape and its own
cost is too large; so if that cost fits, no sum does: not the requests, the
weighted latencies, the saved latency or any count of a histogram or a
breakdown.  (Products of two counters always fit, by the type of
`Counter.mul`.)  The subtraction for what a walk saves is exact. -/
theorem overflows_only_by_cost :
    (∀ (costs : Costs) (records : List Record) (r : RadixReducer),
      Reached (RadixReducer.new costs) records r →
      r.latency.Bounded ∧
      (∀ p, r.breakdown.requestsAt p ≤ r.latency.requests.val) ∧
      (∃ text, r.breakdown.display = .ok text) ∧
      ∀ record : Record, (RadixReducer.handle record r).1 = .error .sumOverflow ↔
        record.probes.length ≤ maxProbes ∧ 2 ^ 64 ≤ record.walkLatency costs) ∧
    (∀ (costs : Costs) (o : Overheads) (records : List Record) (r : EcptReducer),
      Reached (EcptReducer.new costs o) records r →
      r.max.Bounded ∧ r.correct.Bounded ∧ r.parallel.Bounded ∧
      r.max.requests = r.totalRequests ∧ r.parallel.requests = r.totalRequests ∧
      r.savedLatency.val ≤ (2 ^ 64 - 1) * r.totalRequests.val ∧
      ∀ record : Record,
        ((EcptReducer.handle record r).1 = .error .sumOverflow ↔
          (∃ way, record.way = some way ∧ way < record.probes.length) ∧
            2 ^ 64 ≤ record.maxLatency costs o) ∧
        ∀ way l, record.way = some way →
          WayLatencies.of? (record.probes.map costs.probeCost) way o = .ok (some l) →
          l.correctRaw.val + l.saved.val = l.maxRaw.val) := by
  refine ⟨fun costs records r hr => ?_, fun costs o records r hr => ?_⟩
  · obtain ⟨hbounded, hcounts⟩ := reached_radix hr
    refine ⟨hbounded.latency, hbounded.requestsAt_le, hbounded.display, fun record => ?_⟩
    rw [← hcounts.costs_eq]
    exact hbounded.overflow_iff record
  · obtain ⟨hbounded, hcounts⟩ := reached_ecpt hr
    refine ⟨hbounded.max, hbounded.correct, hbounded.parallel, hbounded.max_requests,
      hbounded.parallel_requests, hbounded.saved_le, fun record => ⟨?_, fun way l _ hl => ?_⟩⟩
    · rw [← hcounts.costs_eq, ← hcounts.overheads_eq]
      exact hbounded.overflow_iff record
    · exact Nat.add_sub_of_le (WayLatencies.correctRaw_le_maxRaw hl)

/-- Nearly all the requests that a counter holds, and then a record that is
refused.  Two probes that each cost half of what a counter holds are too
much; fewer are not, although there is no room for their requests. -/
theorem overflows_only_by_cost_of_full_reducers :
    let costs : Costs := ⟨.ofNat 0, .ofNat 4, .ofNat 14, .ofNat 54, .ofNat 1, .ofNat (2 ^ 63)⟩
    let o : Overheads := ⟨.ofNat 2, .ofNat 1, .ofNat (2 ^ 63)⟩
    let often : Record := ⟨[some .l1, some .llc], .ofNat (2 ^ 64 - 2), some 0⟩
    (∃ r, Reached (RadixReducer.new costs) [often] r ∧ r.latency.requests.val = 2 ^ 64 - 2 ∧
      r.latency.Bounded ∧
      (RadixReducer.handle ⟨[some .memory, some .memory], .ofNat 1, none⟩ r).1
        = .error .sumOverflow ∧
      (RadixReducer.handle ⟨[some .memory, some .llc], .ofNat 2, none⟩ r).1
        ≠ .error .sumOverflow) ∧
    ∃ r, Reached (EcptReducer.new costs o) [often] r ∧ r.totalRequests.val = 2 ^ 64 - 2 ∧
      r.max.Bounded ∧
      (EcptReducer.handle ⟨[some .memory, some .llc], .ofNat 1, some 1⟩ r).1
        = .error .sumOverflow ∧
      (EcptReducer.handle ⟨[some .l1, some .llc], .ofNat 2, some 1⟩ r).1
        ≠ .error .sumOverflow := by
  intro costs o often
  let bad : Record := ⟨List.replicate 5 none, .ofNat 1, none⟩
  have hradix : Reached (RadixReducer.new costs) [often] _ :=
    (Reached.start.of_ok often (by decide +kernel)).of_error bad (c := .probeOverflow 5 4)
      (by decide +kernel)
  have hecpt : Reached (EcptReducer.new costs o) [often] _ :=
    (Reached.start.of_ok often (by decide +kernel)).of_error bad (c := .missingWay)
      (by decide +kernel)
  refine ⟨⟨_, hradix, by decide +kernel, ?_, ?_, ?_⟩, ⟨_, hecpt, by decide +kernel, ?_, ?_, ?_⟩⟩
  · exact (overflows_only_by_cost.1 _ _ _ hradix).1
  · rw [(overflows_only_by_cost.1 _ _ _ hradix).2.2.2]
    decide +kernel
  · rw [Ne, (overflows_only_by_cost.1 _ _ _ hradix).2.2.2]
    decide +kernel
  · exact (overflows_only_by_cost.2 _ _ _ _ hecpt).1
  · rw [((overflows_only_by_cost.2 _ _ _ _ hecpt).2.2.2.2.2.2 _).1]
    exact ⟨⟨1, rfl, by decide⟩, by decide +kernel⟩
  · rw [Ne, ((overflows_only_by_cost.2 _ _ _ _ hecpt).2.2.2.2.2.2 _).1, not_and, Nat.not_le]
    intro _
    decide +kernel

end Reduction

end PageWalk
