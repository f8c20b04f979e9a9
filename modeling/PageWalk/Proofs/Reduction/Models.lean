/-
PageWalk/Proofs/Reduction/Models.lean

The three models of a cuckoo walk, side by side.

They see the same walks, and for each of them two equations hold: going to
the correct probe saves what the slowest costs more, and looking up both
walk caches at once gains the faster of the lookups (`of?_models`).  The
first makes the histogram of `max` dominate that of `correct`, the second
makes the histogram of `correct` that of `parallel`, moved up by a constant.
`EcptReducer.Aligned` says so of all walks together.  A registration
preserves it (`Aligned.register`), so every state that is reached has it
(`models_stay_aligned`).
-/
import PageWalk.Proofs.Reduction.Handling

namespace PageWalk

/-! ### The requests at some latencies -/

namespace Histogram

/-- The number of requests at the latencies that `p` chooses. -/
def requestsWhere (h : Histogram) (p : Nat → Bool) : Nat :=
  h.counts.total fun l n => if p l.val then n.val else 0

variable {h h' : Histogram} {latency n : Count}

@[simp] theorem requestsWhere_empty (p : Nat → Bool) : empty.requestsWhere p = 0 := rfl

theorem requestsWhere_register (hok : h.register latency n = .ok h') (p : Nat → Bool) :
    h'.requestsWhere p = h.requestsWhere p + if p latency.val then n.val else 0 := by
  have htotal := total_register hok fun l => if p l then 1 else 0
  simp only [ite_mul, Nat.one_mul, Nat.zero_mul] at htotal
  exact htotal

/-- The requests at a single latency. -/
theorem requestsWhere_single (h : Histogram) (l : Count) :
    h.requestsWhere (· == l.val) = (h.frequency l).val := by
  have htotal := h.counts.total_single (fun n : Count => n.val) l
  unfold requestsWhere frequency
  simp only [beq_iff_eq, ← Counter.ext_iff, htotal]
  cases h.counts.get? l <;> rfl

theorem requestsWhere_mono {p q : Nat → Bool} (hpq : ∀ l, p l = true → q l = true) :
    h.requestsWhere p ≤ h.requestsWhere q := by
  apply SortedMap.total_mono
  intro l n
  cases hp : p l.val with
  | false => exact Nat.zero_le _
  | true => rw [hpq _ hp]

theorem requestsWhere_eq_zero {p : Nat → Bool} (hp : ∀ l, l < 2 ^ 64 → p l = false) :
    h.requestsWhere p = 0 := by
  have hle : h.requestsWhere p ≤ h.requestsWhere fun _ => false :=
    h.counts.total_mono fun l n => by rw [hp l.val l.val_lt]
  simpa [requestsWhere, SortedMap.total] using hle

/-- No latency is listed at which there are no requests. -/
theorem requestsWhere_pos {e : Count × Count} {p : Nat → Bool}
    (hpos : ∀ e ∈ h.counts.entries, e.2.val ≠ 0) (he : e ∈ h.counts.entries)
    (hp : p e.1.val = true) : 0 < h.requestsWhere p := by
  have hle := SortedMap.le_total (fun l (n : Count) => if p l.val then n.val else 0)
    (SortedMap.mem_entries_iff.1 he)
  rw [hp, if_pos rfl] at hle
  exact Nat.lt_of_lt_of_le (Nat.pos_of_ne_zero (hpos e he)) hle

end Histogram

/-! ### One walk -/

namespace WayLatencies

variable {probeCosts : List Count} {way : Nat} {o : Overheads} {l : WayLatencies}

/-- What sets the models apart: the cost that is saved, and the lookup that
is gained. -/
theorem of?_models (hok : of? probeCosts way o = .ok (some l)) :
    l.correct.val + l.saved.val = l.max.val ∧
      l.parallel.val + o.gainedCycles = l.correct.val := by
  obtain ⟨-, -, hmax, hcorrect, hparallel⟩ := of?_values hok
  have hle := correctRaw_le_maxRaw hok
  have hgained := Overheads.parallelCycles_add_gainedCycles (o := o)
  show _ + (l.maxRaw.val - l.correctRaw.val) = _ ∧ _
  omega

/-- Nothing is saved exactly if no probe costs more than the correct one. -/
theorem correctRaw_eq_maxRaw_iff (hok : of? probeCosts way o = .ok (some l)) :
    l.correctRaw.val = l.maxRaw.val ↔ ∀ c ∈ probeCosts, c.val ≤ l.correctRaw.val := by
  obtain ⟨-, hmax, -⟩ := of?_values hok
  have hle := correctRaw_le_maxRaw hok
  rw [← Counter.largest_le_iff, ← hmax]
  omega

end WayLatencies

/-! ### All walks -/

namespace EcptReducer

/-- The models differ by what is saved and what is gained, and in no other
way. -/
structure Aligned (r : EcptReducer) : Prop where
  saved : r.max.total.val = r.correct.total.val + r.savedLatency.val
  gained : r.correct.total.val
    = r.parallel.total.val + r.overheads.gainedCycles * r.totalRequests.val
  /-- The histogram of `correct` is that of `parallel`, moved up. -/
  moved : ∀ p, r.correct.histogram.requestsWhere p
    = r.parallel.histogram.requestsWhere fun l => p (l + r.overheads.gainedCycles)
  /-- As many requests are as slow under `max` as under `correct`. -/
  slower : ∀ t, r.correct.histogram.requestsWhere (t ≤ ·)
    ≤ r.max.histogram.requestsWhere (t ≤ ·)

variable {r r' : EcptReducer}

theorem Aligned.new (costs : Costs) (o : Overheads) : (EcptReducer.new costs o).Aligned :=
  ⟨rfl, rfl, fun _ => rfl, fun _ => le_rfl⟩

/-- **Registering one more walk** keeps the models aligned. -/
theorem Aligned.register (h : r.Aligned) {probeCosts : List Count} {way : Nat} {l : WayLatencies}
    {n : Count} (hl : WayLatencies.of? probeCosts way r.overheads = .ok (some l))
    (hok : register l n r = (.ok (), r')) : r'.Aligned := by
  obtain ⟨-, hoverheads, hmax, hcorrect, hparallel, hsaved⟩ := register_ok hok
  obtain ⟨-, hmaxTotal, hmaxHistogram⟩ := LatencyStats.register_ok hmax
  obtain ⟨hrequests, hcorrectTotal, hcorrectHistogram⟩ := LatencyStats.register_ok hcorrect
  obtain ⟨-, hparallelTotal, hparallelHistogram⟩ := LatencyStats.register_ok hparallel
  obtain ⟨hmodels, hgained⟩ := WayLatencies.of?_models hl
  refine ⟨?_, ?_, fun p => ?_, fun t => ?_⟩
  · have hmul : l.max.val * n.val = l.correct.val * n.val + l.saved.val * n.val := by
      rw [← hmodels, Nat.add_mul]
    have h := h.saved
    change _ = _ + l.saved.val * n.val at hsaved
    omega
  · have hmul : l.correct.val * n.val
        = l.parallel.val * n.val + r.overheads.gainedCycles * n.val := by
      rw [← hgained, Nat.add_mul]
    have h := h.gained
    unfold totalRequests at h ⊢
    rw [hcorrectTotal, hparallelTotal, hoverheads, hrequests, Nat.mul_add]
    omega
  · rw [Histogram.requestsWhere_register hcorrectHistogram,
      Histogram.requestsWhere_register hparallelHistogram, hoverheads, h.moved, hgained]
  · rw [Histogram.requestsWhere_register hcorrectHistogram,
      Histogram.requestsWhere_register hmaxHistogram]
    apply Nat.add_le_add (h.slower t)
    -- what is slow under `correct` is slow under `max`
    by_cases ht : t ≤ l.correct.val
    · rw [if_pos (decide_eq_true ht), if_pos (decide_eq_true (by omega))]
    · rw [if_neg (by simpa using ht)]
      exact Nat.zero_le _

/-- The requests at a latency of `parallel` are those of `correct` further
up, whether or not a counter holds that latency. -/
theorem Aligned.requestsWhere_moved (h : r.Aligned) (l : Count) :
    r.correct.histogram.requestsWhere (· == l.val + r.overheads.gainedCycles)
      = (r.parallel.histogram.frequency l).val := by
  rw [h.moved, ← Histogram.requestsWhere_single]
  congr 1
  funext n
  simp

end EcptReducer

namespace Reduction

theorem reached_aligned {costs : Costs} {o : Overheads} {records : List Record} {r : EcptReducer}
    (h : Reached (EcptReducer.new costs o) records r) : r.Aligned := by
  induction h with
  | start => exact .new costs o
  | taken _ hhandle ih =>
    obtain ⟨way, l, -, hl, hregister⟩ := EcptReducer.handle_ok hhandle
    exact ih.register hl hregister
  | refused hreached hhandle ih =>
    obtain rfl := (reached_ecpt hreached).1.refused hhandle
    exact ih

/-- **The models of cuckoo walks stay aligned.**  A walk whose latencies fit
costs under `correct` what is saved less than under `max`, and nothing is
saved exactly if its correct probe is a slowest one; under `parallel` it
costs less again.  After any records, refused ones included, the models have
seen the same requests, their totals differ by what is saved and by what is
gained for each request, the histogram of `correct` is that of `parallel`
moved up by the gain, and from any latency on there are no fewer requests
under a slower model. -/
theorem models_stay_aligned :
    (∀ (probeCosts : List Count) (way : Nat) (o : Overheads) (hway : way < probeCosts.length),
      (∀ c ∈ probeCosts, c.val + o.serialCycles < 2 ^ 64) →
      ∃ l, WayLatencies.of? probeCosts way o = .ok (some l) ∧
        l.correctRaw.val ≤ l.maxRaw.val ∧
        (l.correctRaw.val = l.maxRaw.val ↔ ∀ c ∈ probeCosts, c.val ≤ probeCosts[way].val) ∧
        l.parallel.val ≤ l.correct.val ∧ l.correct.val ≤ l.max.val) ∧
    ∀ (costs : Costs) (o : Overheads) (records : List Record) (r : EcptReducer),
      Reached (EcptReducer.new costs o) records r →
      r.max.requests = r.correct.requests ∧ r.parallel.requests = r.correct.requests ∧
      r.max.total.val = r.correct.total.val + r.savedLatency.val ∧
      r.correct.total.val = r.parallel.total.val + o.gainedCycles * r.totalRequests.val ∧
      (∀ l l' : Count, l'.val = l.val + o.gainedCycles →
        r.correct.histogram.frequency l' = r.parallel.histogram.frequency l) ∧
      (∀ l : Count, 2 ^ 64 ≤ l.val + o.gainedCycles →
        (r.parallel.histogram.frequency l).val = 0) ∧
      (∀ e ∈ r.correct.histogram.counts.entries, o.gainedCycles ≤ e.1.val) ∧
      ∀ t, r.parallel.histogram.requestsWhere (t ≤ ·)
          ≤ r.correct.histogram.requestsWhere (t ≤ ·) ∧
        r.correct.histogram.requestsWhere (t ≤ ·) ≤ r.max.histogram.requestsWhere (t ≤ ·) := by
  refine ⟨fun probeCosts way o hway hfits => ?_, fun costs o records r hr => ?_⟩
  · have hway' := hfits _ (List.getElem_mem hway)
    have hlargest : Counter.largest probeCosts ≤ 2 ^ 64 - 1 - o.serialCycles := by
      rw [Counter.largest_le_iff]
      intro c hc
      have hlt := hfits c hc
      omega
    obtain ⟨l, hl⟩ := WayLatencies.of?_of_lt hway (o := o) (by omega)
    obtain ⟨hmodels, hgained⟩ := WayLatencies.of?_models hl
    have hiff := WayLatencies.correctRaw_eq_maxRaw_iff hl
    obtain ⟨hraw, -⟩ := WayLatencies.of?_values hl
    rw [List.getElem?_eq_getElem hway, Option.some.injEq] at hraw
    rw [hraw]
    exact ⟨l, hl, WayLatencies.correctRaw_le_maxRaw hl, hiff, by omega, by omega⟩
  · obtain ⟨hbounded, hcounts⟩ := reached_ecpt hr
    have haligned := reached_aligned hr
    have hsingle := haligned.requestsWhere_moved
    obtain ⟨hsaved, hgained, hmoved, hslower⟩ := haligned
    rw [hcounts.overheads_eq] at hgained hmoved hsingle
    refine ⟨hbounded.max_requests, hbounded.parallel_requests, hsaved, hgained, ?_, ?_, ?_, ?_⟩
    · intro l l' heq
      apply Counter.ext
      rw [← Histogram.requestsWhere_single, heq, hsingle]
    · intro l hle
      rw [← hsingle]
      -- a counter holds no latency that is moved so far
      apply Histogram.requestsWhere_eq_zero
      intro n hn
      simp only [beq_eq_false_iff_ne]
      omega
    · intro e he
      -- nothing that was moved up is below the gain
      by_contra hlt
      have hpos := Histogram.requestsWhere_pos (p := (· < o.gainedCycles))
        hcounts.correct.histogram.positive he (by simpa using hlt)
      rw [hmoved] at hpos
      have hzero : (r.parallel.histogram.requestsWhere fun l =>
          decide (l + o.gainedCycles < o.gainedCycles)) = 0 := by
        apply Histogram.requestsWhere_eq_zero
        intro n _
        simp
      omega
    · intro t
      refine ⟨?_, hslower t⟩
      rw [hmoved]
      apply Histogram.requestsWhere_mono
      intro l hl
      simp only [decide_eq_true_eq] at hl ⊢
      omega

/-- A walk that saves, one that does not, and one that is refused. -/
theorem models_stay_aligned_of_three_walks :
    let costs : Costs := ⟨.ofNat 0, .ofNat 4, .ofNat 14, .ofNat 54, .ofNat 1, .ofNat 200⟩
    let o : Overheads := ⟨.ofNat 2, .ofNat 1, .ofNat 3⟩
    let quick : Record := ⟨[some .l1, some .llc], .ofNat 5, some 0⟩
    let slow : Record := ⟨[some .memory, some .l2], .ofNat 2, some 0⟩
    (∃ l, WayLatencies.of? [.ofNat 4, .ofNat 54] 0 o = .ok (some l) ∧
      l.correctRaw.val ≠ l.maxRaw.val ∧ l.correct.val ≤ l.max.val) ∧
    ∃ r, Reached (EcptReducer.new costs o) [quick, slow] r ∧
      r.max.total.val = r.correct.total.val + 250 ∧
      r.correct.total.val = r.parallel.total.val + 7 ∧
      r.correct.histogram.frequency (.ofNat 206) = r.parallel.histogram.frequency (.ofNat 205) ∧
      (r.parallel.histogram.frequency (.ofNat 205)).val = 2 ∧
      (r.parallel.histogram.frequency (.ofNat (2 ^ 64 - 1))).val = 0 := by
  intro costs o quick slow
  constructor
  · obtain ⟨l, hl, -, hiff, -, hle⟩ := models_stay_aligned.1 [.ofNat 4, .ofNat 54] 0 o
      (by decide) (by decide +kernel)
    refine ⟨l, hl, ?_, hle⟩
    rw [Ne, hiff]
    decide
  · obtain ⟨r, hreached, hvalues⟩ : ∃ r, Reached (EcptReducer.new costs o) [quick, slow] r ∧
        (r.savedLatency.val, r.totalRequests.val,
          (r.parallel.histogram.frequency (.ofNat 205)).val) = (250, 7, 2) :=
      ⟨_, ((Reached.start.of_ok quick (by decide +kernel)).of_ok slow (by decide +kernel)).of_error
        ⟨[none], .ofNat 1, none⟩ (c := .missingWay) (by decide +kernel), by decide +kernel⟩
    simp only [Prod.mk.injEq] at hvalues
    obtain ⟨hsaved', hrequests, hslow⟩ := hvalues
    obtain ⟨-, -, hsaved, hgained, hmoved, htop, -⟩ := models_stay_aligned.2 _ _ _ _ hreached
    rw [hsaved'] at hsaved
    rw [hrequests] at hgained
    exact ⟨r, hreached, hsaved, hgained, hmoved (.ofNat 205) (.ofNat 206) (by decide), hslow,
      htop (.ofNat (2 ^ 64 - 1)) (by decide)⟩

end Reduction

end PageWalk
