/-
PageWalk/Proofs/Statistics/Bounds.lean

How large statistics can grow.

Only the number of requests is looked after when latencies are registered.
It bounds all the other sums (`LatencyStats.Bounded`): no latency is larger
than a counter holds, and no request is counted twice at one place.  Hence
what leaves room for the requests leaves room for everything
(`Bounded.register_of_lt`).  The same holds of breakdowns, where the
requests are those of one position (`Breakdown.requestsAt`).
-/
import PageWalk.Proofs.Costs
import PageWalk.Proofs.SortedMap
import PageWalk.Proofs.Statistics.Breakdown

namespace PageWalk

/-! ### Latencies -/

theorem Histogram.register_of_lt {h : Histogram} {latency n : Count}
    (hlt : (h.frequency latency).val + n.val < 2 ^ 64) : ∃ h', h.register latency n = .ok h' := by
  obtain ⟨sum, hplus, -⟩ := Counter.plus_of_lt hlt
  unfold Histogram.register
  split
  · exact ⟨h, rfl⟩
  · rw [hplus]
    exact ⟨_, rfl⟩

namespace LatencyStats

/-- No sum is larger than the number of requests allows. -/
structure Bounded (s : LatencyStats) : Prop where
  total_le : s.total.val ≤ (2 ^ 64 - 1) * s.requests.val
  frequency_le : ∀ l, (s.histogram.frequency l).val ≤ s.requests.val

variable {s s' : LatencyStats} {latency n : Count}

theorem Bounded.empty : LatencyStats.empty.Bounded :=
  ⟨Nat.zero_le _, fun _ => Nat.zero_le _⟩

/-- Latencies that are weighted by `n` come to no more than `n` times the
largest. -/
theorem mul_le_limit (latency n : Count) : latency.val * n.val ≤ (2 ^ 64 - 1) * n.val :=
  Nat.mul_le_mul_right _ (Nat.le_sub_one_of_lt latency.val_lt)

theorem Bounded.register (h : s.Bounded) (hok : s.register latency n = .ok s') : s'.Bounded := by
  obtain ⟨hrequests, htotal, hhistogram⟩ := register_ok hok
  refine ⟨?_, fun l => ?_⟩
  · calc s'.total.val = s.total.val + latency.val * n.val := htotal
      _ ≤ (2 ^ 64 - 1) * s.requests.val + (2 ^ 64 - 1) * n.val :=
        Nat.add_le_add h.total_le (mul_le_limit latency n)
      _ = (2 ^ 64 - 1) * s'.requests.val := by rw [hrequests, Nat.mul_add]
  · have hl := h.frequency_le l
    rw [Histogram.register_ok hhistogram l, hrequests]
    split <;> omega

theorem register_of_le (h : 2 ^ 64 ≤ s.requests.val + n.val) (latency : Count) :
    s.register latency n = .error (.requestOverflow s.requests n) := by
  unfold register
  rw [Counter.add?_eq_none_iff.2 h]

/-- **Room for the requests is room for all sums.** -/
theorem Bounded.register_of_lt (h : s.Bounded) (hlt : s.requests.val + n.val < 2 ^ 64)
    (latency : Count) : ∃ s', s.register latency n = .ok s' := by
  have htotal := h.total_le
  have hmul := mul_le_limit latency n
  obtain ⟨total, hplus, -⟩ := Counter.plus_of_lt (a := s.total) (b := Counter.mul latency n)
    (by rw [Counter.val_mul]; omega)
  obtain ⟨histogram, hhistogram⟩ := Histogram.register_of_lt (h := s.histogram)
    (Nat.lt_of_le_of_lt (Nat.add_le_add_right (h.frequency_le latency) n.val) hlt)
  have hrequests : s.requests.add? n = some ⟨_, hlt⟩ := Counter.add?_eq_some_iff.2 rfl
  unfold LatencyStats.register
  rw [hrequests, hplus, hhistogram]
  exact ⟨_, rfl⟩

end LatencyStats

/-! ### Breakdowns -/

namespace Breakdown

/-- The number of requests at a position, whatever their level. -/
def requestsAt (b : Breakdown) (position : Nat) : Nat :=
  (b.positions[position]?).elim 0 fun levels => levels.total fun _ n => n.val

variable {b b' : Breakdown} {position : Nat} {level : Level} {n : Count}

theorem requestsAt_empty (position : Nat) : Breakdown.empty.requestsAt position = 0 := by
  unfold requestsAt Breakdown.empty
  rw [List.getElem?_replicate]
  split <;> rfl

theorem frequency_le_requestsAt (b : Breakdown) (position : Nat) (level : Level) :
    (b.frequency position level).val ≤ b.requestsAt position := by
  unfold frequency requestsAt
  rcases b.positions[position]? with - | levels
  · exact Nat.zero_le _
  · rcases hget : levels.get? level with - | n
    · simp [hget]
    · simpa [hget] using SortedMap.le_total (fun _ (n : Count) => n.val) hget

/-- One more registration adds its requests at its position. -/
theorem requestsAt_register (hok : b.register position level n = .ok b') (p : Nat) :
    b'.requestsAt p = b.requestsAt p + if p = position then n.val else 0 := by
  obtain ⟨levels, hlevels, ⟨hzero, rfl⟩ | ⟨-, sum, hsum, rfl⟩⟩ := register_cases hok
  · rw [hzero, ite_self, Nat.add_zero]
  · unfold requestsAt
    by_cases hp : p = position
    · subst hp
      obtain ⟨hlt, -⟩ := List.getElem?_eq_some_iff.1 hlevels
      have htotal := levels.total_insert (fun _ (n : Count) => n.val) level sum
      rw [List.getElem?_set_self hlt, hlevels, if_pos rfl]
      cases hget : levels.get? level <;> simp [hget] at htotal hsum ⊢ <;> omega
    · simp [List.getElem?_set_ne (Ne.symm hp), hp]

theorem probesTo_of_lt (h : position < maxProbes) : ∃ probes, probesTo position = .ok probes := by
  have hlt : position + 1 < 2 ^ 64 := by
    unfold maxProbes at h
    omega
  have hprobes : (Counter.ofNat? (position + 1) : Option Count) = some ⟨_, hlt⟩ :=
    Counter.ofNat?_eq_some_iff.2 rfl
  unfold probesTo
  rw [hprobes]
  exact ⟨_, rfl⟩

theorem register_of_lt (hlength : position < maxProbes) (htidy : b.Tidy)
    (hlt : b.requestsAt position + n.val < 2 ^ 64) (level : Level) :
    ∃ b', b.register position level n = .ok b' := by
  obtain ⟨probes, hprobes⟩ := probesTo_of_lt hlength
  obtain ⟨levels, hlevels⟩ : ∃ levels, b.positions[position]? = some levels :=
    ⟨_, List.getElem?_eq_getElem (htidy.length ▸ hlength)⟩
  have hroom : ((levels.get? level).getD 0).val + n.val < 2 ^ 64 := by
    rw [← frequency_of_getElem? hlevels]
    have hle := b.frequency_le_requestsAt position level
    omega
  obtain ⟨sum, hplus, -⟩ := Counter.plus_of_lt hroom
  unfold Breakdown.register
  rw [hprobes, hlevels]
  show ∃ b', (if n.val = 0 then _ else _) = _
  split
  · exact ⟨b, rfl⟩
  · rw [hplus]
    exact ⟨_, rfl⟩

/-! ### The text of a breakdown -/

theorem displayPosition_of_lt {levels : SortedMap Level Count}
    (hlt : levels.total (fun _ n => n.val) < 2 ^ 64) (position : Nat) :
    ∃ text, displayPosition position levels = .ok text := by
  unfold SortedMap.total at hlt
  obtain ⟨whole, hsum, -⟩ := Counter.sum_of_lt levels.values
    (by unfold SortedMap.values; rw [List.map_map]; exact hlt)
  unfold displayPosition
  rw [hsum]
  exact ⟨_, rfl⟩

/-- A breakdown can be told if the requests at each of its positions can be
counted. -/
theorem display_of_lt (hlt : ∀ p, b.requestsAt p < 2 ^ 64) : ∃ text, b.display = .ok text := by
  obtain ⟨lines, hlines⟩ := mapM_eq_ok b.positions.zipIdx
    (f := fun e => displayPosition e.2 e.1) (by
      rintro ⟨levels, position⟩ hmem
      apply displayPosition_of_lt
      have h := hlt position
      unfold requestsAt at h
      rwa [List.mem_zipIdx_iff_getElem?.1 hmem] at h)
  unfold display
  show ∃ text, (b.positions.zipIdx.mapM (fun e => displayPosition e.2 e.1) >>= _) = .ok text
  rw [hlines]
  exact ⟨_, rfl⟩

end Breakdown

end PageWalk
