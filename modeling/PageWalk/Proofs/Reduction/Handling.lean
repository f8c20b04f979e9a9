/-
PageWalk/Proofs/Reduction/Handling.lean

What the reducers do with a record, in all cases.

`RadixReducer.Handled` and `EcptReducer.Handled` list the answers to a record
with the condition of each.  A reducer whose sums are bounded by its requests
answers so (`Bounded.handled`): what refuses a record does it before anything
is registered.  Registering keeps the sums bounded, so every state that is
reached from a new reducer is bounded and holds exactly the records that were
taken (`reached_radix`, `reached_ecpt`).
-/
import PageWalk.Proofs.Reduction.Ecpt
import PageWalk.Proofs.Reduction.Radix
import PageWalk.Proofs.Reduction.Reached
import PageWalk.Proofs.Statistics.Bounds

namespace PageWalk

/-! ### Radix walks -/

namespace RadixReducer

/-- No sum is larger than the number of requests allows. -/
structure Bounded (r : RadixReducer) : Prop where
  tidy : r.breakdown.Tidy
  latency : r.latency.Bounded
  requestsAt_le : ∀ p, r.breakdown.requestsAt p ≤ r.latency.requests.val

theorem Bounded.new (costs : Costs) : (RadixReducer.new costs).Bounded := by
  refine ⟨Breakdown.Counts.empty.tidy, .empty, fun p => ?_⟩
  show Breakdown.empty.requestsAt p ≤ _
  rw [Breakdown.requestsAt_empty]
  exact Nat.zero_le _

/-- The probes of a walk can be broken down if there is room at their
positions.  Each position is met once. -/
theorem registerProbes_of_lt {n : Count} (position : Nat) (probes : List (Option Level))
    {r : RadixReducer} (htidy : r.breakdown.Tidy) (hlength : position + probes.length ≤ maxProbes)
    (hlt : ∀ p, position ≤ p → r.breakdown.requestsAt p + n.val < 2 ^ 64) :
    ∃ r', registerProbes n position probes r = (.ok (), r') ∧
      (∀ p < position, r'.breakdown.requestsAt p = r.breakdown.requestsAt p) ∧
      ∀ p, r'.breakdown.requestsAt p ≤ r.breakdown.requestsAt p + n.val := by
  induction probes generalizing position r with
  | nil => exact ⟨r, rfl, fun _ _ => rfl, fun _ => Nat.le_add_right _ _⟩
  | cons probe probes ih =>
    rw [List.length_cons] at hlength
    cases probe with
    | none =>
      obtain ⟨r', hok, heq, hle⟩ := ih (position + 1) htidy (by omega)
        fun p hp => hlt p (Nat.le_of_succ_le hp)
      exact ⟨r', hok, fun p hp => heq p (Nat.lt_succ_of_lt hp), hle⟩
    | some level =>
      obtain ⟨b, hb⟩ := Breakdown.register_of_lt (by omega) htidy (hlt position le_rfl) level
      have hregister := Breakdown.requestsAt_register hb
      obtain ⟨r', hok, heq, hle⟩ := ih (position + 1) (r := { r with breakdown := b })
        (htidy.register hb) (by omega) (fun p hp => by
          show b.requestsAt p + n.val < 2 ^ 64
          rw [hregister, if_neg (by omega)]
          exact hlt p (Nat.le_of_succ_le hp))
      refine ⟨r', ?_, fun p hp => ?_, fun p => ?_⟩
      · unfold registerProbes
        simp only [hb]
        exact hok
      · rw [heq p (Nat.lt_succ_of_lt hp)]
        show b.requestsAt p = _
        rw [hregister, if_neg (Nat.ne_of_lt hp), Nat.add_zero]
      · by_cases hp : p = position
        · -- the probes that follow are at other positions
          rw [heq p (by omega)]
          show b.requestsAt p ≤ _
          rw [hregister, if_pos hp]
        · have h := hle p
          change _ ≤ b.requestsAt p + _ at h
          rwa [hregister, if_neg hp, Nat.add_zero] at h

/-- The answers to a record. -/
inductive Handled (r : RadixReducer) (record : Record) :
    Except Cause Unit × RadixReducer → Prop
  /-- The walk has more probes than there are positions. -/
  | tooDeep : maxProbes < record.probes.length →
      Handled r record (.error (.probeOverflow record.probes.length maxProbes), r)
  /-- No counter can hold the cost of the walk. -/
  | tooLong : record.probes.length ≤ maxProbes → 2 ^ 64 ≤ record.walkLatency r.costs →
      Handled r record (.error .sumOverflow, r)
  /-- No counter can hold the requests. -/
  | tooMany : record.probes.length ≤ maxProbes → record.walkLatency r.costs < 2 ^ 64 →
      2 ^ 64 ≤ r.latency.requests.val + record.frequency.val →
      Handled r record (.error (.requestOverflow r.latency.requests record.frequency), r)
  | taken {r' : RadixReducer} : record.probes.length ≤ maxProbes →
      record.walkLatency r.costs < 2 ^ 64 →
      r.latency.requests.val + record.frequency.val < 2 ^ 64 → r'.Bounded →
      Handled r record (.ok (), r')

/-- **The answer of a bounded reducer** to a record. -/
theorem Bounded.handled {r : RadixReducer} (h : r.Bounded) (record : Record) :
    Handled r record (handle record r) := by
  unfold handle
  split
  · rename_i hdeep
    exact .tooDeep hdeep
  · rename_i hdeep
    rw [Nat.not_lt] at hdeep
    rcases Nat.lt_or_ge (record.walkLatency r.costs) (2 ^ 64) with hcost | hcost
    · obtain ⟨cost, hwalk⟩ := walkCost_of_lt hcost
      rcases Nat.lt_or_ge (r.latency.requests.val + record.frequency.val) (2 ^ 64) with
        hlt | hge
      · obtain ⟨latency, hlatency⟩ := h.latency.register_of_lt hlt cost
        obtain ⟨hrequests, -, -⟩ := LatencyStats.register_ok hlatency
        -- once the requests are registered, nothing can refuse the record any more
        obtain ⟨r', hok, -, hle⟩ := registerProbes_of_lt 0 record.probes
          (n := record.frequency) (r := { r with latency }) h.tidy (by omega)
          (fun p _ => Nat.lt_of_le_of_lt (Nat.add_le_add_right (h.requestsAt_le p) _) hlt)
        obtain ⟨-, hlatency', htidy, -⟩ := registerProbes_ok (r := { r with latency }) h.tidy hok
        simp only [hwalk, hlatency, hok]
        refine .taken hdeep hcost hlt ⟨htidy, ?_, fun p => (hle p).trans ?_⟩
        · rw [hlatency']
          exact h.latency.register hlatency
        · rw [hlatency', hrequests]
          exact Nat.add_le_add_right (h.requestsAt_le p) _
      · simp only [hwalk, LatencyStats.register_of_le hge]
        exact .tooMany hdeep hcost hge
    · simp only [walkCost_of_le hcost]
      exact .tooLong hdeep hcost

/-- The answer as a choice: which of its conditions is met first. -/
theorem Bounded.answer {r : RadixReducer} (h : r.Bounded) (record : Record) :
    (handle record r).1 =
      if maxProbes < record.probes.length then
        .error (.probeOverflow record.probes.length maxProbes)
      else if 2 ^ 64 ≤ record.walkLatency r.costs then .error .sumOverflow
      else if 2 ^ 64 ≤ r.latency.requests.val + record.frequency.val then
        .error (.requestOverflow r.latency.requests record.frequency)
      else .ok () := by
  have hhandled := h.handled record
  generalize handle record r = answer at hhandled
  cases hhandled with
  | tooDeep hdeep => rw [if_pos hdeep]
  | tooLong hdeep hlong => rw [if_neg hdeep.not_gt, if_pos hlong]
  | tooMany hdeep hfits hmany => rw [if_neg hdeep.not_gt, if_neg hfits.not_ge, if_pos hmany]
  | taken hdeep hfits hroom => rw [if_neg hdeep.not_gt, if_neg hfits.not_ge, if_neg hroom.not_ge]

theorem Bounded.taken {r r' : RadixReducer} {record : Record} (h : r.Bounded)
    (hok : handle record r = (.ok (), r')) : r'.Bounded := by
  have hhandled := h.handled record
  rw [hok] at hhandled
  cases hhandled
  assumption

/-- A record that is refused leaves no trace. -/
theorem Bounded.refused {r r' : RadixReducer} {record : Record} {c : Cause} (h : r.Bounded)
    (herr : handle record r = (.error c, r')) : r' = r := by
  have hhandled := h.handled record
  rw [herr] at hhandled
  cases hhandled <;> rfl

/-- A refusal that ends a run is one for the depth of a walk, or for its
cost. -/
theorem Bounded.fatal {r r' : RadixReducer} {record : Record} {c : Cause} (h : r.Bounded)
    (herr : handle record r = (.error c, r')) (hfatal : c.isFatal = true) :
    c = .sumOverflow ∨ ∃ probes, c = .probeOverflow probes maxProbes := by
  have hhandled := h.handled record
  rw [herr] at hhandled
  cases hhandled with
  | tooDeep => exact Or.inr ⟨_, rfl⟩
  | tooLong => exact Or.inl rfl
  | tooMany => cases hfatal

/-- The breakdown can be told. -/
theorem Bounded.display {r : RadixReducer} (h : r.Bounded) :
    ∃ text, r.breakdown.display = .ok text := by
  apply Breakdown.display_of_lt
  intro p
  exact Nat.lt_of_le_of_lt (h.requestsAt_le p) r.latency.requests.val_lt

end RadixReducer

/-! ### Cuckoo walks -/

namespace EcptReducer

/-- No sum is larger than the number of requests allows, and all models have
seen the same requests. -/
structure Bounded (r : EcptReducer) : Prop where
  max : r.max.Bounded
  correct : r.correct.Bounded
  parallel : r.parallel.Bounded
  max_requests : r.max.requests = r.totalRequests
  parallel_requests : r.parallel.requests = r.totalRequests
  saved_le : r.savedLatency.val ≤ (2 ^ 64 - 1) * r.totalRequests.val

variable {r : EcptReducer} {l : WayLatencies} {n : Count}

theorem Bounded.new (costs : Costs) (o : Overheads) : (EcptReducer.new costs o).Bounded :=
  ⟨.empty, .empty, .empty, rfl, rfl, Nat.zero_le _⟩

/-- If the requests are too many, the first model refuses them. -/
theorem Bounded.register_of_le (h : r.Bounded) (hge : 2 ^ 64 ≤ r.totalRequests.val + n.val) :
    register l n r = (.error (.requestOverflow r.totalRequests n), r) := by
  rw [← h.max_requests] at hge ⊢
  unfold register
  simp only [LatencyStats.register_of_le hge]

/-- If they are not, all models take them. -/
theorem Bounded.register_of_lt (h : r.Bounded) (hlt : r.totalRequests.val + n.val < 2 ^ 64) :
    ∃ r', register l n r = (.ok (), r') ∧ r'.Bounded := by
  have hmax : r.max.requests.val + n.val < 2 ^ 64 := h.max_requests ▸ hlt
  have hparallel : r.parallel.requests.val + n.val < 2 ^ 64 := h.parallel_requests ▸ hlt
  obtain ⟨max, hmaxOk⟩ := h.max.register_of_lt hmax l.max
  obtain ⟨correct, hcorrectOk⟩ := h.correct.register_of_lt hlt l.correct
  obtain ⟨parallel, hparallelOk⟩ := h.parallel.register_of_lt hparallel l.parallel
  -- the saved latency is bounded by the requests as any total is
  have hsum := h.saved_le
  have hsaved := LatencyStats.mul_le_limit l.saved n
  obtain ⟨saved, hsavedOk, -⟩ := Counter.plus_of_lt (a := r.savedLatency)
    (b := Counter.mul l.saved n) (by rw [Counter.val_mul]; omega)
  obtain ⟨r', hok⟩ : ∃ r', register l n r = (.ok (), r') := by
    unfold register
    simp only [hmaxOk, hcorrectOk, hparallelOk, hsavedOk]
    split <;> exact ⟨_, rfl⟩
  obtain ⟨-, -, hmax', hcorrect', hparallel', hsaved'⟩ := register_ok hok
  have hrequests : r'.totalRequests.val = r.totalRequests.val + n.val :=
    (LatencyStats.register_ok hcorrect').1
  refine ⟨r', hok, h.max.register hmax', h.correct.register hcorrect',
    h.parallel.register hparallel', Counter.ext ?_, Counter.ext ?_, ?_⟩
  · rw [(LatencyStats.register_ok hmax').1, hrequests, h.max_requests]
  · rw [(LatencyStats.register_ok hparallel').1, hrequests, h.parallel_requests]
  · change (l.maxRaw.val - l.correctRaw.val) * n.val ≤ _ at hsaved
    rw [hsaved', hrequests]
    omega

/-- The answers to a record. -/
inductive Handled (r : EcptReducer) (record : Record) :
    Except Cause Unit × EcptReducer → Prop
  /-- It is not known which probe held the translation. -/
  | noWay : record.way = none → Handled r record (.error .missingWay, r)
  /-- No probe did. -/
  | badWay {way : Nat} : record.way = some way → record.probes.length ≤ way →
      Handled r record (.error (.wayOutOfRange way record.probes.length), r)
  /-- No counter can hold the latency of the slowest model. -/
  | tooLong {way : Nat} : record.way = some way → way < record.probes.length →
      2 ^ 64 ≤ record.maxLatency r.costs r.overheads → Handled r record (.error .sumOverflow, r)
  /-- No counter can hold the requests. -/
  | tooMany {way : Nat} : record.way = some way → way < record.probes.length →
      record.maxLatency r.costs r.overheads < 2 ^ 64 →
      2 ^ 64 ≤ r.totalRequests.val + record.frequency.val →
      Handled r record (.error (.requestOverflow r.totalRequests record.frequency), r)
  | taken {way : Nat} {r' : EcptReducer} : record.way = some way → way < record.probes.length →
      record.maxLatency r.costs r.overheads < 2 ^ 64 →
      r.totalRequests.val + record.frequency.val < 2 ^ 64 → r'.Bounded →
      Handled r record (.ok (), r')

/-- **The answer of a bounded reducer** to a record. -/
theorem Bounded.handled (h : r.Bounded) (record : Record) :
    Handled r record (handle record r) := by
  unfold handle
  rcases hway : record.way with - | way
  · exact .noWay hway
  · dsimp only
    rcases Nat.lt_or_ge way record.probes.length with hlt | hge
    · have hlt' : way < (record.probes.map r.costs.probeCost).length := by
        rwa [List.length_map]
      have hlatency : record.maxLatency r.costs r.overheads
          = Counter.largest (record.probes.map r.costs.probeCost) + r.overheads.serialCycles := by
        rw [← Record.topCost_eq]
        rfl
      rcases Nat.lt_or_ge (record.maxLatency r.costs r.overheads) (2 ^ 64) with hfits | hlong
      · obtain ⟨l, hl⟩ := WayLatencies.of?_of_lt hlt' (hlatency ▸ hfits)
        simp only [hl]
        rcases Nat.lt_or_ge (r.totalRequests.val + record.frequency.val) (2 ^ 64) with
          hroom | hmany
        · obtain ⟨r', hok, hbounded⟩ := h.register_of_lt (l := l) hroom
          rw [hok]
          exact .taken hway hlt hfits hroom hbounded
        · rw [h.register_of_le hmany]
          exact .tooMany hway hlt hfits hmany
      · simp only [WayLatencies.of?_of_le hlt' (hlatency ▸ hlong)]
        exact .tooLong hway hlt hlong
    · have hge' : (record.probes.map r.costs.probeCost).length ≤ way := by
        rwa [List.length_map]
      simp only [WayLatencies.of?_of_length_le hge', List.length_map]
      exact .badWay hway hge

/-- The answer as a choice: which of its conditions is met first. -/
theorem Bounded.answer (h : r.Bounded) (record : Record) :
    (handle record r).1 = match record.way with
      | none => .error .missingWay
      | some way =>
        if record.probes.length ≤ way then .error (.wayOutOfRange way record.probes.length)
        else if 2 ^ 64 ≤ record.maxLatency r.costs r.overheads then .error .sumOverflow
        else if 2 ^ 64 ≤ r.totalRequests.val + record.frequency.val then
          .error (.requestOverflow r.totalRequests record.frequency)
        else .ok () := by
  have hhandled := h.handled record
  generalize handle record r = answer at hhandled
  cases hhandled with
  | noWay hway => rw [hway]
  | badWay hway hge => simp only [hway, if_pos hge]
  | tooLong hway hlt hlong => simp only [hway, if_neg hlt.not_ge, if_pos hlong]
  | tooMany hway hlt hfits hmany =>
    simp only [hway, if_neg hlt.not_ge, if_neg hfits.not_ge, if_pos hmany]
  | taken hway hlt hfits hroom =>
    simp only [hway, if_neg hlt.not_ge, if_neg hfits.not_ge, if_neg hroom.not_ge]

theorem Bounded.taken {r' : EcptReducer} {record : Record} (h : r.Bounded)
    (hok : handle record r = (.ok (), r')) : r'.Bounded := by
  have hhandled := h.handled record
  rw [hok] at hhandled
  cases hhandled
  assumption

/-- A record that is refused leaves no trace. -/
theorem Bounded.refused {r' : EcptReducer} {record : Record} {c : Cause} (h : r.Bounded)
    (herr : handle record r = (.error c, r')) : r' = r := by
  have hhandled := h.handled record
  rw [herr] at hhandled
  cases hhandled <;> rfl

/-- A refusal that ends a run is one for the cost of a walk. -/
theorem Bounded.fatal {r' : EcptReducer} {record : Record} {c : Cause} (h : r.Bounded)
    (herr : handle record r = (.error c, r')) (hfatal : c.isFatal = true) : c = .sumOverflow := by
  have hhandled := h.handled record
  rw [herr] at hhandled
  cases hhandled with
  | noWay => cases hfatal
  | badWay => cases hfatal
  | tooLong => rfl
  | tooMany => cases hfatal

end EcptReducer

/-! ### States that are reached -/

namespace Reduction

variable {costs : Costs} {records : List Record}

theorem take_eq_ok {σ : Type} [Reducer σ] {s s' : σ} {record : Record}
    (h : Reducer.handle record s = (.ok (), s')) : take s record = .ok s' := by
  unfold take
  rw [h]

/-- A record is taken exactly if the reducer says so. -/
theorem take_eq {σ : Type} [Reducer σ] (s : σ) (record : Record) :
    take s record
      = (Reducer.handle record s).1.map fun () => (Reducer.handle record s).2 := by
  unfold take
  rcases Reducer.handle record s with ⟨c | u, s'⟩ <;> rfl

theorem reached_radix {r : RadixReducer} (h : Reached (RadixReducer.new costs) records r) :
    r.Bounded ∧ r.Counts costs records := by
  induction h with
  | start => exact ⟨.new costs, .new costs⟩
  | taken _ hhandle ih => exact ⟨ih.1.taken hhandle, ih.2.take (take_eq_ok hhandle)⟩
  | refused _ hhandle ih =>
    obtain rfl := ih.1.refused hhandle
    exact ih

theorem reached_ecpt {o : Overheads} {r : EcptReducer}
    (h : Reached (EcptReducer.new costs o) records r) : r.Bounded ∧ r.Counts costs o records := by
  induction h with
  | start => exact ⟨.new costs o, .new costs o⟩
  | taken _ hhandle ih => exact ⟨ih.1.taken hhandle, ih.2.take (take_eq_ok hhandle)⟩
  | refused _ hhandle ih =>
    obtain rfl := ih.1.refused hhandle
    exact ih

end Reduction

end PageWalk
