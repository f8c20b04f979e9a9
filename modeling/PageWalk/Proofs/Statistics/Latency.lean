/-
PageWalk/Proofs/Statistics/Latency.lean

What latencies and histograms hold after the records of a trace.

`Histogram.Counts` says that a histogram has at each latency the requests
of the records of that latency, and no entry without requests;
`LatencyStats.Counts` says besides that the sums are those over the
records.  Registering one more record preserves both (`Counts.register`),
and they determine the mean (`Counts.mean_eq`).
-/
import PageWalk.Proofs.Decimal.Nearest
import PageWalk.Proofs.SortedMap
import PageWalk.Record
import PageWalk.Statistics.Latency

namespace PageWalk

/-! ### Sums over records -/

namespace Record

/-- The number of requests of records. -/
def requests (records : List Record) : Nat := (records.map fun r => r.frequency.val).sum

/-- The number of requests of those records that `p` chooses. -/
def requestsOf (p : Record → Bool) (records : List Record) : Nat := requests (records.filter p)

/-- What `f` gives for each request, summed over all of them. -/
def weighted (f : Record → Nat) (records : List Record) : Nat :=
  (records.map fun r => f r * r.frequency.val).sum

/-- The costs of the probes of a walk; an unknown label costs nothing. -/
def probeCosts (costs : Costs) (r : Record) : List Nat :=
  r.probes.map fun p => (costs.probeCost p).val

variable {f : Record → Nat} {p : Record → Bool} {records : List Record} {r : Record}

theorem requests_append : requests (records ++ [r]) = requests records + r.frequency.val := by
  simp [requests]

theorem weighted_append :
    weighted f (records ++ [r]) = weighted f records + f r * r.frequency.val := by
  simp [weighted]

theorem requestsOf_append : requestsOf p (records ++ [r])
    = requestsOf p records + if p r then r.frequency.val else 0 := by
  unfold requestsOf
  rw [List.filter_append]
  cases h : p r <;> simp [requests, h]

end Record

/-! ### Histograms -/

namespace Histogram

/-- The histogram has at each latency the requests of the records to which
`f` gives it, and lists no latency without requests. -/
structure Counts (f : Record → Nat) (records : List Record) (h : Histogram) : Prop where
  frequency : ∀ l, (h.frequency l).val = Record.requestsOf (fun r => f r == l.val) records
  positive : ∀ e ∈ h.counts.entries, e.2.val ≠ 0

theorem Counts.empty (f : Record → Nat) : Counts f [] Histogram.empty := by
  refine ⟨?_, ?_⟩
  · intro l
    rfl
  · intro e he
    cases he

/-- One more registration: the requests at one latency grow, the others are
what they were. -/
theorem register_ok {h h' : Histogram} {latency n : Count} (hok : h.register latency n = .ok h')
    (l : Count) :
    (h'.frequency l).val = (h.frequency l).val + if latency.val = l.val then n.val else 0 := by
  unfold register at hok
  split at hok
  · -- nothing is added
    rename_i hzero
    cases hok
    rw [hzero, ite_self, Nat.add_zero]
  · rcases hsum : (h.frequency latency).plus n with e | sum
    · rw [hsum] at hok; cases hok
    · rw [hsum] at hok
      cases hok
      have hval := Counter.plus_eq_ok_iff.1 hsum
      show ((SortedMap.get? (h.counts.insert latency sum) l).getD 0).val = _
      rw [SortedMap.get?_insert]
      by_cases heq : l = latency
      · subst heq
        rw [if_pos rfl, if_pos rfl]
        exact hval
      · rw [if_neg heq, if_neg fun hv => heq (Counter.ext hv.symm)]
        rfl

/-- A sum that weights the requests by their latencies grows by those that
are registered. -/
theorem total_register {h h' : Histogram} {latency n : Count} (hok : h.register latency n = .ok h')
    (g : Nat → Nat) :
    (h'.counts.total fun l n => g l.val * n.val)
      = (h.counts.total fun l n => g l.val * n.val) + g latency.val * n.val := by
  unfold register at hok
  split at hok
  · -- nothing is added
    rename_i hzero
    cases hok
    rw [hzero, Nat.mul_zero, Nat.add_zero]
  · rcases hsum : (h.frequency latency).plus n with e | sum
    · rw [hsum] at hok; cases hok
    · rw [hsum] at hok
      cases hok
      have hval := Counter.plus_eq_ok_iff.1 hsum
      have htotal := h.counts.total_insert (fun l (n : Count) => g l.val * n.val) latency sum
      unfold frequency at hval
      rw [hval, Nat.mul_add] at htotal
      show (h.counts.insert latency sum).total _ = _
      cases hget : h.counts.get? latency with
      | none =>
        rw [hget, Option.elim_none, Option.getD_none, Counter.val_zero, Nat.mul_zero] at htotal
        omega
      | some old =>
        rw [hget, Option.elim_some, Option.getD_some] at htotal
        omega

theorem positive_register {h h' : Histogram} {latency n : Count}
    (hpos : ∀ e ∈ h.counts.entries, e.2.val ≠ 0) (hok : h.register latency n = .ok h') :
    ∀ e ∈ h'.counts.entries, e.2.val ≠ 0 := by
  unfold register at hok
  split at hok
  · cases hok
    exact hpos
  · rename_i hne
    rcases hsum : (h.frequency latency).plus n with e | sum
    · rw [hsum] at hok; cases hok
    · rw [hsum] at hok
      cases hok
      intro e he
      have hval := Counter.plus_eq_ok_iff.1 hsum
      rcases SortedMap.mem_put he with rfl | he
      · show sum.val ≠ 0
        omega
      · exact hpos e he

theorem Counts.register {f : Record → Nat} {records : List Record} {h h' : Histogram}
    (hc : Counts f records h) {r : Record} {latency : Count} (hlatency : latency.val = f r)
    (hok : h.register latency r.frequency = .ok h') : Counts f (records ++ [r]) h' := by
  refine ⟨?_, positive_register hc.positive hok⟩
  intro l
  rw [register_ok hok l, hc.frequency, Record.requestsOf_append, hlatency]
  simp only [beq_iff_eq]

end Histogram

/-! ### Weighted latencies -/

namespace LatencyStats

/-- The latencies are those that `f` gives for the records. -/
structure Counts (f : Record → Nat) (records : List Record) (s : LatencyStats) : Prop where
  total : s.total.val = Record.weighted f records
  requests : s.requests.val = Record.requests records
  histogram : s.histogram.Counts f records

variable {f : Record → Nat} {records : List Record} {s s' : LatencyStats}

theorem Counts.empty (f : Record → Nat) : Counts f [] LatencyStats.empty :=
  ⟨rfl, rfl, Histogram.Counts.empty f⟩

/-- What registering does, if it succeeds. -/
theorem register_ok {latency n : Count} (hok : s.register latency n = .ok s') :
    s'.requests.val = s.requests.val + n.val ∧
      s'.total.val = s.total.val + latency.val * n.val ∧
      s.histogram.register latency n = .ok s'.histogram := by
  unfold register at hok
  split at hok
  · cases hok
  · rename_i requests hrequests
    rcases htotal : s.total.plus (Counter.mul latency n) with e | total
    · rw [htotal] at hok; cases hok
    · rcases hhist : s.histogram.register latency n with e | histogram
      · rw [htotal, hhist] at hok; cases hok
      · rw [htotal, hhist] at hok
        cases hok
        exact ⟨Counter.add?_eq_some_iff.1 hrequests, Counter.plus_eq_ok_iff.1 htotal, rfl⟩

/-- **Registering one more record** keeps the latencies those of the
records. -/
theorem Counts.register (h : Counts f records s) {r : Record} {latency : Count}
    (hlatency : latency.val = f r) (hok : s.register latency r.frequency = .ok s') :
    Counts f (records ++ [r]) s' := by
  obtain ⟨hrequests, htotal, hhist⟩ := register_ok hok
  refine ⟨?_, ?_, h.histogram.register hlatency hhist⟩
  · rw [htotal, h.total, hlatency, Record.weighted_append]
  · rw [hrequests, h.requests, Record.requests_append]

/-! ### Means -/

/-- A mean is the quotient of the doubles of both sums, and no number
exactly if there are no requests. -/
theorem meanOf_eq {total : Total} {requests : Count} (hzero : requests.val = 0 → total.val = 0) :
    meanOf total requests = Float.ofNat total.val / Float.ofNat requests.val ∧
      ((meanOf total requests).isNaN = true ↔ requests.val = 0) := by
  unfold meanOf
  split
  · rename_i h
    rw [h, hzero h]
    refine ⟨?_, iff_of_true ?_ rfl⟩ <;> decide +kernel
  · -- both are finite, and the second is not zero
    rename_i h
    refine ⟨rfl, iff_of_false ?_ h⟩
    rw [Double.isNaN_ofNat_div_ofNat]
    · exact Bool.false_ne_true
    · exact total.val_lt.trans (by decide +kernel)
    · exact Nat.pos_of_ne_zero h
    · exact requests.val_lt.trans (by decide +kernel)

/-- Where there are requests, a mean is finite. -/
theorem isFinite_meanOf (total : Total) {requests : Count} (h : requests.val ≠ 0) :
    (meanOf total requests).isFinite = true := by
  unfold meanOf
  rw [if_neg h]
  exact Double.isFinite_ofNat_div_ofNat (total.val_lt.trans (by decide +kernel))
    (Nat.pos_of_ne_zero h) (requests.val_lt.trans (by decide +kernel))

/-- Where there are none, it is no number. -/
theorem isNaN_meanOf (total : Total) {requests : Count} (h : requests.val = 0) :
    (meanOf total requests).isNaN = true := by
  unfold meanOf
  rw [if_pos h]
  decide +kernel

theorem weighted_eq_zero (h : Record.requests records = 0) : Record.weighted f records = 0 := by
  unfold Record.requests at h
  unfold Record.weighted
  rw [List.sum_eq_zero_iff_forall_eq_nat] at h ⊢
  intro n hn
  obtain ⟨r, hr, rfl⟩ := List.mem_map.1 hn
  rw [h r.frequency.val (List.mem_map.2 ⟨r, hr, rfl⟩), Nat.mul_zero]

/-- The mean latency of the records. -/
theorem Counts.mean_eq (h : Counts f records s) :
    s.mean = Float.ofNat (Record.weighted f records) / Float.ofNat (Record.requests records) ∧
      (s.mean.isNaN = true ↔ Record.requests records = 0) := by
  rw [← h.total, ← h.requests]
  apply meanOf_eq
  intro hzero
  rw [h.requests] at hzero
  rw [h.total]
  exact weighted_eq_zero hzero

end LatencyStats

end PageWalk
